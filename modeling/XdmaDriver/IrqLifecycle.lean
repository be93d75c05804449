import XdmaDriver.MsixRouting

/-!
The interrupts of an open device over the calls that take it offline, bring it back online and
enable and disable its user interrupts.
-/

namespace XdmaDriver

open Ledger

/-- What the driver programs in `struct interrupt_regs`. -/
structure InterruptRegs where
  channelIntEnable : U32
  userIntEnable : U32
  channelMsiVector : ℕ → U32
  userMsiVector : ℕ → U32

def written (regs : ℕ → U32) (words : List U32) (k : ℕ) : U32 := words.getD k (regs k)

namespace InterruptRegs

def channelInterruptsEnable (r : InterruptRegs) (mask : U32) : InterruptRegs :=
  { r with channelIntEnable := r.channelIntEnable ||| mask }

def channelInterruptsDisable (r : InterruptRegs) (mask : U32) : InterruptRegs :=
  { r with channelIntEnable := r.channelIntEnable &&& ~~~mask }

def userInterruptsEnable (r : InterruptRegs) (mask : U32) : InterruptRegs :=
  { r with userIntEnable := r.userIntEnable ||| mask }

def userInterruptsDisable (r : InterruptRegs) (mask : U32) : InterruptRegs :=
  { r with userIntEnable := r.userIntEnable &&& ~~~mask }

def progIrqMsix (r : InterruptRegs) (d : XdmaDev) (clear : Bool) : InterruptRegs :=
  { r with
    channelMsiVector := written r.channelMsiVector (d.progIrqMsixChannel clear)
    userMsiVector := written r.userMsiVector (d.progIrqMsixUser clear) }

/-- `irq_legacy_setup` writes the pin of the device, less one, to every field. -/
def progLegacy (r : InterruptRegs) (pdev : PciDev) : InterruptRegs :=
  if pdev.interruptPin ≤ 1 then r
  else
    let val : U32 := (pdev.interruptPin - 1).setWidth 32
    let w := (val <<< 24) ||| (val <<< 16) ||| (val <<< 8) ||| val
    { r with
      channelMsiVector := written r.channelMsiVector [w, w]
      userMsiVector := written r.userMsiVector [w, w, w, w] }

/-- The registers that `irq_setup` leaves; in MSI-X mode they are written when it succeeds. -/
def irqSetup (r : InterruptRegs) (pdev : PciDev) (d : XdmaDev) : InterruptRegs :=
  if d.msixEnabled then if (XdmaDev.irqSetup pdev d).2 ≠ 0 then r else r.progIrqMsix d false
  else if d.msiEnabled then r
  else r.progLegacy pdev

def irqTeardown (r : InterruptRegs) (d : XdmaDev) : InterruptRegs :=
  if d.msixEnabled then r.progIrqMsix d true else r

end InterruptRegs

/-- The interrupts of an open device, with `mask_irq_user` and `XDEV_FLAG_OFFLINE`. -/
structure InterruptRun where
  dev : XdmaDev
  regs : InterruptRegs
  maskIrqUser : U32 := 0
  offline : Bool := false

inductive InterruptAct
  | enable (mask : U32)
  | disable (mask : U32)
  | offline
  | online

namespace InterruptRun

variable (p : Params) (pdev : PciDev)

/-- The registers, which held `r`, when `xdma_device_open` returns. -/
def openRegs (env : OpenEnv) (r : InterruptRegs) : InterruptRegs :=
  let d := ((env.mappedDev.probeEngines p env.engine).enableMsiMsix env).1.irq
  let r := ((r.channelInterruptsDisable (-1)).userInterruptsDisable (-1)).irqSetup env.pdev d
  if p.pollMode then r else r.channelInterruptsEnable (-1)

def opened (env : OpenEnv) (r : InterruptRegs) : InterruptRun :=
  { dev := (env.xdmaDeviceOpen p).1.irq, regs := openRegs p env r }

def xdmaUserIsrEnable (s : InterruptRun) (mask : U32) : InterruptRun :=
  { s with maskIrqUser := s.maskIrqUser ||| mask, regs := s.regs.userInterruptsEnable mask }

def xdmaUserIsrDisable (s : InterruptRun) (mask : U32) : InterruptRun :=
  { s with maskIrqUser := s.maskIrqUser &&& ~~~mask, regs := s.regs.userInterruptsDisable mask }

def xdmaDeviceOffline (s : InterruptRun) : InterruptRun :=
  { s with
    offline := true
    regs := ((s.regs.channelInterruptsDisable (-1)).userInterruptsDisable (-1)).irqTeardown s.dev
    dev := s.dev.xdmaDeviceOffline pdev }

/-- `xdma_device_online`; in poll mode it leaves the interrupts as they are. -/
def xdmaDeviceOnline (s : InterruptRun) : InterruptRun :=
  if p.pollMode then { s with offline := false }
  else
    { s with
      offline := false
      regs := ((s.regs.irqSetup pdev s.dev).channelInterruptsEnable (-1)).userInterruptsEnable s.maskIrqUser
      dev := s.dev.xdmaDeviceOnline p pdev }

/-- The device goes offline while it is online, and comes back only after that. -/
def step (s : InterruptRun) : InterruptAct → Option InterruptRun
  | .enable mask => some (s.xdmaUserIsrEnable mask)
  | .disable mask => some (s.xdmaUserIsrDisable mask)
  | .offline => if s.offline then none else some (s.xdmaDeviceOffline pdev)
  | .online => if s.offline then some (s.xdmaDeviceOnline p pdev) else none

def run : InterruptRun → List InterruptAct → Option InterruptRun
  | s, [] => some s
  | s, a :: as => (s.step p pdev a).bind fun s' => run s' as

end InterruptRun

/-- What is known of the interrupts by the calls alone: the user interrupts asked for, those
asked for since the device last went offline, and whether the lines are set up. -/
structure IrqAsked where
  mask : U32 := 0
  since : U32 := 0
  wired : Bool := true

namespace IrqAsked

def next (p : Params) (k : IrqAsked) : InterruptAct → IrqAsked
  | .enable mask => { k with mask := k.mask ||| mask, since := k.since ||| mask }
  | .disable mask => { k with mask := k.mask &&& ~~~mask, since := k.since &&& ~~~mask }
  | .offline => { k with since := 0, wired := false }
  | .online => { k with wired := !p.pollMode }

def after (p : Params) (acts : List InterruptAct) : IrqAsked := acts.foldl (next p) {}

end IrqAsked

namespace InterruptRun

variable {p : Params} {pdev : PciDev}

/-- The interrupts are enabled as asked for, every line is held, and an interrupt reaches the
handler that is its own. -/
structure Wired (p : Params) (pdev : PciDev) (k : IrqAsked) (s : InterruptRun) : Prop where
  user : s.regs.userIntEnable = k.mask
  channel : s.regs.channelIntEnable = if p.pollMode then 0 else -1
  lines : Leaves s.dev.log (· ∈ s.dev.lines pdev)
  channels : s.dev.msixEnabled = true → ∀ b < s.dev.h2cChannelMax + s.dev.c2hChannelMax,
    s.dev.Handles pdev (vectorOf s.regs.channelMsiVector [] b) (s.dev.vectorId b)
  users : s.dev.msixEnabled = true → ∀ u < s.dev.userMax,
    s.dev.Handles pdev (vectorOf s.regs.userMsiVector [] u) (.userIrq u)

/-- Only the user interrupts asked for in the meantime are enabled, no line is held, and the
vectors are cleared. -/
structure Dark (p : Params) (k : IrqAsked) (s : InterruptRun) : Prop where
  user : s.regs.userIntEnable = k.since
  channel : s.regs.channelIntEnable = 0
  lines : p.pollMode = false → Leaves s.dev.log fun _ => False
  channels : s.dev.msixEnabled = true → ∀ b < s.dev.h2cChannelMax + s.dev.c2hChannelMax,
    vectorOf s.regs.channelMsiVector [] b = 0
  users : s.dev.msixEnabled = true → ∀ u < s.dev.userMax, vectorOf s.regs.userMsiVector [] u = 0

structure Vectors (d : XdmaDev) (r : InterruptRegs) (wired : Bool) : Prop where
  channels : ∀ b < d.h2cChannelMax + d.c2hChannelMax, vectorOf r.channelMsiVector [] b =
    if wired then b else 0
  users : ∀ u < d.userMax,
    vectorOf r.userMsiVector [] u = if wired then d.h2cChannelMax + d.c2hChannelMax + u else 0

theorem vectorOf_overwritten (regs : ℕ → U32) (words : List U32) (bit : ℕ) :
    vectorOf (written regs words) [] bit = vectorOf regs words bit := by
  rw [vectorOf, vectorOf, written, List.getD_nil]

theorem vectorOf_cleared (regs : ℕ → U32) {max n i v : ℕ} (hn : max - i ≤ n) (hv : i + v < max) :
    vectorOf regs (vectorWords true max n i) v = 0 := by
  have hlen := vectorWords_length true max n hn
  have hlt : v / 4 < (vectorWords true max n i).length := by omega
  have hzero : ∀ n i, ∀ w ∈ vectorWords true max n i, w = 0 := by
    intro n
    induction n with
    | zero => simp [vectorWords]
    | succ n ih =>
      intro i w hw
      rw [vectorWords] at hw
      split at hw
      · rcases List.mem_cons.mp hw with rfl | hw
        · rfl
        · exact ih _ w hw
      · simp at hw
  rw [vectorOf, List.getD_eq_getElem _ _ hlt, hzero n i _ (List.getElem_mem hlt), lane]
  exact congrArg BitVec.toNat BitVec.extractLsb'_zero

theorem programmed (r : InterruptRegs) {d : XdmaDev}
    (h : d.h2cChannelMax + d.c2hChannelMax + d.userMax ≤ 32) :
    Vectors d (r.progIrqMsix d false) true := by
  constructor
  · intro b hb
    rw [InterruptRegs.progIrqMsix, vectorOf_overwritten, XdmaDev.progIrqMsixChannel,
      vectorOf_written _ (by omega) (by omega) (by omega), Nat.zero_add]
    rfl
  · intro u hu
    rw [InterruptRegs.progIrqMsix, vectorOf_overwritten, XdmaDev.progIrqMsixUser,
      vectorOf_written _ (by omega) (by omega) (by omega), Nat.add_comm d.c2hChannelMax]
    rfl

theorem cleared (r : InterruptRegs) (d : XdmaDev) : Vectors d (r.progIrqMsix d true) false := by
  constructor
  · intro b hb
    rw [InterruptRegs.progIrqMsix, vectorOf_overwritten]
    exact vectorOf_cleared _ (by omega) (by omega)
  · intro u hu
    rw [InterruptRegs.progIrqMsix, vectorOf_overwritten]
    exact vectorOf_cleared _ (by omega) (by omega)

structure Tracked (p : Params) (pdev : PciDev) (k : IrqAsked) (s : InterruptRun) : Prop where
  opened : XdmaDev.Open pdev s.dev
  small : s.dev.h2cChannelMax + s.dev.c2hChannelMax + s.dev.userMax ≤ 32
  mask : s.maskIrqUser = k.mask
  since : k.since ||| k.mask = k.mask
  down : s.offline = true → k.wired = false
  up : p.pollMode = false → s.offline = false → k.wired = true
  user : s.regs.userIntEnable = if k.wired then k.mask else k.since
  channel : s.regs.channelIntEnable = if p.pollMode ∨ k.wired = false then 0 else -1
  lines : k.wired = true ∨ p.pollMode = false → Leaves s.dev.log fun irq => k.wired = true ∧
    irq ∈ s.dev.lines pdev
  vectors : s.dev.msixEnabled = true → Vectors s.dev s.regs k.wired

theorem or_or_self {a b : U32} (h : a ||| b = b) (m : U32) : (a ||| m) ||| (b ||| m) = b ||| m := by
  rw [BitVec.or_assoc, BitVec.or_comm m, BitVec.or_assoc b, BitVec.or_self, ← BitVec.or_assoc, h]

theorem and_or_and {a b : U32} (h : a ||| b = b) (m : U32) : (a &&& m) ||| (b &&& m) = b &&& m := by
  apply BitVec.eq_of_getLsbD_eq
  intro i _
  have hbit := congrArg (BitVec.getLsbD · i) h
  simp only [BitVec.getLsbD_or] at hbit
  rw [BitVec.getLsbD_or, BitVec.getLsbD_and, BitVec.getLsbD_and, ← Bool.and_or_distrib_right, hbit]

theorem Tracked.enable {k : IrqAsked} {s : InterruptRun} (h : Tracked p pdev k s) (m : U32) :
    Tracked p pdev (k.next p (.enable m)) (s.xdmaUserIsrEnable m) := by
  refine ⟨h.opened, h.small, congrArg (· ||| m) h.mask, or_or_self h.since m, h.down, h.up, ?_,
    h.channel, h.lines,
    fun hx => ⟨(h.vectors hx).channels, (h.vectors hx).users⟩⟩
  exact (congrArg (· ||| m) h.user).trans (apply_ite (· ||| m) _ _ _)

theorem Tracked.disable {k : IrqAsked} {s : InterruptRun} (h : Tracked p pdev k s) (m : U32) :
    Tracked p pdev (k.next p (.disable m)) (s.xdmaUserIsrDisable m) := by
  refine ⟨h.opened, h.small, congrArg (· &&& ~~~m) h.mask, and_or_and h.since (~~~m), h.down,
    h.up, ?_, h.channel,
    h.lines, fun hx => ⟨(h.vectors hx).channels, (h.vectors hx).users⟩⟩
  exact (congrArg (· &&& ~~~m) h.user).trans (apply_ite (· &&& ~~~m) _ _ _)

theorem irqTeardown_enables (r : InterruptRegs) (d : XdmaDev) :
    (r.irqTeardown d).channelIntEnable = r.channelIntEnable ∧ (r.irqTeardown d).userIntEnable =
      r.userIntEnable := by
  unfold InterruptRegs.irqTeardown
  split <;> exact ⟨rfl, rfl⟩

theorem irqSetup_enables (r : InterruptRegs) (pdev : PciDev) (d : XdmaDev) :
    (r.irqSetup pdev d).channelIntEnable = r.channelIntEnable ∧
      (r.irqSetup pdev d).userIntEnable = r.userIntEnable := by
  unfold InterruptRegs.irqSetup InterruptRegs.progLegacy
  split_ifs <;> exact ⟨rfl, rfl⟩

theorem disabled (x : U32) : x &&& ~~~(-1) = 0 := BitVec.and_zero

theorem Tracked.goOffline {k : IrqAsked} {s : InterruptRun} (h : Tracked p pdev k s)
    (hon : s.offline = false) : Tracked p pdev (k.next p .offline) (s.xdmaDeviceOffline pdev) := by
  obtain ⟨ho, hlog⟩ := XdmaDev.offline_spec h.opened
  obtain ⟨hchannel, huser⟩ := irqTeardown_enables
    ((s.regs.channelInterruptsDisable (-1)).userInterruptsDisable (-1)) s.dev
  refine ⟨ho, ?_, h.mask, BitVec.zero_or, fun _ => rfl, fun _ hoff => by simp [xdmaDeviceOffline] at hoff,
    huser.trans (disabled _), ?_, ?_, ?_⟩
  · rw [xdmaDeviceOffline, hlog.h2cChannelMax, hlog.c2hChannelMax, hlog.userMax]
    exact h.small
  · exact hchannel.trans ((disabled _).trans (if_pos (.inr rfl)).symm)
  · rintro (hw | hp)
    · cases hw
    · have hheld := h.lines (.inr hp)
      have hall : ∀ irq ∈ s.dev.lines pdev, k.wired = true ∧ irq ∈ s.dev.lines pdev := 
        fun irq hirq => ⟨h.up hp hon, hirq⟩
      have hfreed := hheld.releases (XdmaDev.lines_nodup_of_ids pdev s.dev) hall
      rw [xdmaDeviceOffline, hlog.log]
      exact hfreed.congr fun irq => ⟨fun hw => absurd hw.1 Bool.false_ne_true, fun hw => absurd hw.2.2 hw.1⟩
  · intro hx
    have hx' : s.dev.msixEnabled = true := by rw [← hlog.msixEnabled]; exact hx
    have hclear := cleared ((s.regs.channelInterruptsDisable (-1)).userInterruptsDisable (-1)) s.dev
    rw [xdmaDeviceOffline, InterruptRegs.irqTeardown, if_pos hx']
    refine ⟨fun b hb => hclear.channels b ?_, fun u hu => hclear.users u ?_⟩
    · rwa [hlog.h2cChannelMax, hlog.c2hChannelMax] at hb
    · rwa [hlog.userMax] at hu

theorem Tracked.goOnline {k : IrqAsked} {s : InterruptRun} (h : Tracked p pdev k s)
    (hoff : s.offline = true) :
    Tracked p pdev (k.next p .online) (s.xdmaDeviceOnline p pdev) := by
  have hdown := h.down hoff
  unfold xdmaDeviceOnline
  split
  · rename_i hp
    have hnext : k.next p .online = k := by
      rw [IrqAsked.next, hp, Bool.not_true, ← hdown]
    rw [hnext]
    exact ⟨h.opened, h.small, h.mask, h.since, fun hoff => by simp at hoff, by simp [hp], h.user,
      h.channel, h.lines,
      h.vectors⟩
  · rename_i hp
    rw [Bool.not_eq_true] at hp
    obtain ⟨-, hknown, hlog⟩ := XdmaDev.irqSetup_spec h.opened.valid.answered h.opened.pin
    obtain ⟨hchannel, huser⟩ := irqSetup_enables s.regs pdev s.dev
    have hdev : s.dev.xdmaDeviceOnline p pdev = (XdmaDev.irqSetup pdev s.dev).1 := by
      rw [XdmaDev.xdmaDeviceOnline, hp]
      rfl
    have hwired : (k.next p .online).wired = true := by rw [IrqAsked.next, hp]; rfl
    rw [hdev]
    refine ⟨hlog.open h.opened hknown, ?_, h.mask, h.since, fun hoff => by simp at hoff,
      fun _ _ => hwired, ?_, ?_, ?_,
      ?_⟩
    · rw [hlog.h2cChannelMax, hlog.c2hChannelMax, hlog.userMax]
      exact h.small
    · rw [if_pos hwired]
      change (s.regs.irqSetup pdev s.dev).userIntEnable ||| s.maskIrqUser = k.mask
      rw [huser, h.user, hdown, h.mask]
      exact h.since
    · rw [if_neg (by simp [hp, hwired])]
      exact BitVec.or_allOnes
    · intro _
      have hnone := h.lines (.inr hp)
      have hheld := hnone.acquires (XdmaDev.lines_nodup_of_ids pdev s.dev) (by simp [hdown])
      rw [hlog.log, hlog.lines]
      exact hheld.congr fun irq => by simp [hwired, hdown]
    · intro hx
      have hx' : s.dev.msixEnabled = true := hlog.msixEnabled ▸ hx
      have hprog := programmed s.regs h.small
      have hset : (XdmaDev.irqSetup pdev s.dev).2 = 0 :=
        (XdmaDev.irqSetup_spec h.opened.valid.answered h.opened.pin).1
      rw [hwired, InterruptRegs.irqSetup, if_pos hx', if_neg (not_not.mpr hset)]
      refine ⟨fun b hb => ?_, fun u hu => ?_⟩
      · rw [hlog.h2cChannelMax, hlog.c2hChannelMax] at hb
        exact hprog.channels b hb
      · rw [hlog.userMax] at hu
        rw [hlog.h2cChannelMax, hlog.c2hChannelMax]
        exact hprog.users u hu

theorem Tracked.step {k : IrqAsked} {s s' : InterruptRun} {a : InterruptAct} (h : Tracked p pdev k s)
    (hstep : s.step p pdev a = some s') : Tracked p pdev (k.next p a) s' := by
  cases a with
  | enable m =>
    obtain rfl := Option.some.inj hstep
    exact h.enable m
  | disable m =>
    obtain rfl := Option.some.inj hstep
    exact h.disable m
  | offline =>
    obtain ⟨hon, hs⟩ := Option.ite_none_left_eq_some.mp hstep
    obtain rfl := Option.some.inj hs
    exact h.goOffline (Bool.eq_false_iff.mpr hon)
  | online =>
    obtain ⟨hoff, hs⟩ := Option.ite_none_right_eq_some.mp hstep
    obtain rfl := Option.some.inj hs
    exact h.goOnline hoff

theorem Tracked.run {acts : List InterruptAct} : ∀ {k : IrqAsked} {s s' : InterruptRun}, Tracked p pdev k s →
    run p pdev s acts = some s' → Tracked p pdev (acts.foldl (IrqAsked.next p) k) s' := by
  induction acts with
  | nil =>
    intro k s s' h hrun
    obtain rfl := Option.some.inj hrun
    exact h
  | cons a acts ih =>
    intro k s s' h hrun
    obtain ⟨t, ht, hrun⟩ := Option.bind_eq_some_iff.mp hrun
    exact ih (h.step ht) hrun

theorem openRegs_enables (env : OpenEnv) (r : InterruptRegs) : (openRegs p env r).userIntEnable = 0 ∧
    (openRegs p env r).channelIntEnable = if p.pollMode then 0 else -1 := by
  obtain ⟨hchannel, huser⟩ := irqSetup_enables
    ((r.channelInterruptsDisable (-1)).userInterruptsDisable (-1)) env.pdev
    ((env.mappedDev.probeEngines p env.engine).enableMsiMsix env).1.irq
  unfold openRegs
  dsimp only
  split
  · exact ⟨huser.trans (disabled _), hchannel.trans (disabled _)⟩
  · exact ⟨huser.trans (disabled _), BitVec.or_allOnes⟩

theorem openRegs_vectors {env : OpenEnv} {d : OpenDev} {irq : XdmaDev} (hs : OpenEnv.SetUp p env d irq)
    (hx : irq.msixEnabled = true) (hset : (XdmaDev.irqSetup env.pdev irq).2 = 0) (r : InterruptRegs) :
    Vectors irq (openRegs p env r) true := by
  have hsmall : irq.h2cChannelMax + irq.c2hChannelMax + irq.userMax ≤ 32 := by
    have hh := hs.h2cChannelMax
    have hc := hs.c2hChannelMax
    have hu := hs.userMax
    omega
  have hprog := programmed ((r.channelInterruptsDisable (-1)).userInterruptsDisable (-1)) hsmall
  unfold openRegs
  dsimp only
  rw [hs.enabled, InterruptRegs.irqSetup, if_pos hx, if_neg (not_not.mpr hset)]
  split <;> exact ⟨hprog.channels, hprog.users⟩

theorem opened_tracked {env : OpenEnv} {d : OpenDev} (hk : OpenEnv.KernelAnswers env.pdev)
    (hgrant : ∀ line, env.pdev.requestIrq line = 0) (hopen : env.xdmaDeviceOpen p = (d, none))
      (r : InterruptRegs) :
    Tracked p env.pdev {} (opened p env r) := by
  obtain ⟨irq, hs⟩ := OpenEnv.exists_setUp hopen
  obtain ⟨-, hpin⟩ := XdmaDev.irqSetup_succeeds hk.refused hs.succeeds
  obtain ⟨hknown, hlogged, hheld⟩ := XdmaDev.irqSetup_holds hk.refused hs.log hs.succeeds
  have hset : (XdmaDev.irqSetup env.pdev irq).2 = 0 := (XdmaDev.irqSetup_spec hgrant hpin).1
  have hvalid : XdmaDev.LinesValid env.pdev irq :=
    ⟨hgrant, (hs.valid hk).distinct, (hs.valid hk).valid, hk.irq⟩
  obtain ⟨huser, hchannel⟩ := openRegs_enables (p := p) env r
  have hopened : opened p env r = { dev := (XdmaDev.irqSetup env.pdev irq).1, regs := openRegs p env r } := by
    rw [opened, hopen, hs.irq]
  rw [hopened]
  refine ⟨⟨hknown, hlogged.valid hvalid, ?_⟩, ?_, rfl, BitVec.or_self,
    fun hoff => by simp at hoff, fun _ _ => rfl,
    huser, ?_, fun _ => ?_, fun hx => ?_⟩
  · rw [hlogged.msixEnabled, hlogged.msiEnabled]
    exact hpin
  · rw [hlogged.h2cChannelMax, hlogged.c2hChannelMax, hlogged.userMax]
    have hh := hs.h2cChannelMax
    have hc := hs.c2hChannelMax
    have hu := hs.userMax
    omega
  · rw [hchannel]
    simp
  · exact hheld.congr fun line => by simp
  · have hvec := openRegs_vectors hs (hlogged.msixEnabled ▸ hx) hset r
    refine ⟨fun b hb => ?_, fun u hu => ?_⟩
    · rw [hlogged.h2cChannelMax, hlogged.c2hChannelMax] at hb
      exact hvec.channels b hb
    · rw [hlogged.userMax] at hu
      rw [hlogged.h2cChannelMax, hlogged.c2hChannelMax]
      exact hvec.users u hu

theorem Tracked.isWired {k : IrqAsked} {s : InterruptRun} (h : Tracked p pdev k s) (hw : k.wired = true) :
    s.Wired p pdev k := by
  have hheld : Leaves s.dev.log (· ∈ s.dev.lines pdev) := (h.lines (.inl hw)).congr fun irq => by simp [hw]
  have hdistinct := h.opened.valid.distinct
  refine ⟨h.user.trans (if_pos hw), ?_, hheld, fun hx b hb => ?_, fun hx u hu => ?_⟩
  · rw [h.channel]
    simp [hw]
  · rw [(h.vectors hx).channels b hb, if_pos hw]
    exact XdmaDev.handles_of_leaves hx hdistinct hheld (by omega)
  · rw [(h.vectors hx).users u hu, if_pos hw]
    have hid : s.dev.vectorId (s.dev.h2cChannelMax + s.dev.c2hChannelMax + u) = .userIrq u := by
      rw [XdmaDev.vectorId, if_neg (by omega), if_neg (by omega), Nat.add_sub_cancel_left]
    rw [← hid]
    exact XdmaDev.handles_of_leaves hx hdistinct hheld (by omega)

theorem Tracked.isDark {k : IrqAsked} {s : InterruptRun} (h : Tracked p pdev k s) (hw : k.wired = false) :
    s.Dark p k := by
  have hne : ¬k.wired = true := by simp [hw]
  refine ⟨h.user.trans (if_neg hne), h.channel.trans (if_pos (.inr hw)), fun hp => ?_, fun hx b hb => ?_,
    fun hx u hu => ?_⟩
  · exact (h.lines (.inr hp)).congr fun irq => by simp [hw]
  · exact ((h.vectors hx).channels b hb).trans (if_neg hne)
  · exact ((h.vectors hx).users u hu).trans (if_neg hne)

/-- While a device is online its user interrupts are enabled as asked for and every interrupt
reaches its handler, and nothing is left of that while it is offline; in poll mode the first
offline is for good. -/
theorem interrupts_follow_calls {env : OpenEnv} {d : OpenDev} (hk : OpenEnv.KernelAnswers env.pdev)
    (hgrant : ∀ line, env.pdev.requestIrq line = 0) (hopen : env.xdmaDeviceOpen p = (d, none))
      (r : InterruptRegs)
    {acts : List InterruptAct} {s : InterruptRun} (hrun : (opened p env r).run p env.pdev acts = some s) :
    s.maskIrqUser = (IrqAsked.after p acts).mask ∧
      ((IrqAsked.after p acts).wired = true → s.Wired p env.pdev (IrqAsked.after p acts)) ∧
      ((IrqAsked.after p acts).wired = false → s.Dark p (IrqAsked.after p acts)) := by
  have h : Tracked p env.pdev (IrqAsked.after p acts) s := (opened_tracked hk hgrant hopen r).run hrun
  exact ⟨h.mask, h.isWired, h.isDark⟩

def idleRegs : InterruptRegs := ⟨0, 0, fun _ => 0, fun _ => 0⟩

theorem interrupts_follow_calls_lostEngine : ((opened {} OpenEnv.lostEngine idleRegs).run {}
    OpenEnv.lostEngine.pdev
    [.enable 3, .offline, .enable 4, .online]).map (·.regs.userIntEnable) = some 7 := by
  have hopen : OpenEnv.lostEngine.xdmaDeviceOpen {} = (OpenEnv.lostEngineOpened, none) :=
    Prod.ext rfl (by decide)
  obtain ⟨s, hs⟩ : ∃ s, (opened {} OpenEnv.lostEngine idleRegs).run {} OpenEnv.lostEngine.pdev
    [.enable 3, .offline, .enable 4, .online] = some s := ⟨_, rfl⟩
  have hwired := (interrupts_follow_calls OpenEnv.lostEngine_answers (fun _ => rfl) hopen idleRegs
    hs).2.1 (by decide)
  rw [hs]
  exact congrArg some hwired.user

end InterruptRun

namespace XdmaDev

variable (p : Params) (pdev : PciDev)

def bounce (d : XdmaDev) (answer : U32 → ℤ) : XdmaDev :=
  (d.xdmaDeviceOffline pdev).xdmaDeviceOnline p { pdev with requestIrq := answer }

structure Frees (d : XdmaDev) : Prop where
  known : LinesKnown pdev d
  valid : LinesValid (granting pdev) d
  pin : d.msixEnabled = false → d.msiEnabled = false → pdev.interruptPin ≠ 0

variable {p pdev} {d : XdmaDev}

theorem Frees.teardown (h : Frees pdev d) : d.irqTeardown pdev = d.logged (block (d.lines pdev) false) := by
  have hknown : LinesKnown (granting pdev) d := ⟨h.known.h2c, h.known.c2h, h.known.irqLine⟩
  rw [← irqTeardown_granting, irqTeardown_eq hknown h.valid]
  rfl

variable (pdev) in
theorem requestChannels_line (dir : DmaDir) (j : ℕ) (is : List ℕ) : ∀ (d : XdmaDev) (dir' : DmaDir) (i : ℕ),
    (requestChannels pdev dir j is d).1.msixIrqLine dir' i = d.msixIrqLine dir' i ∨
      dir' = dir ∧ (requestChannels pdev dir j is d).1.msixIrqLine dir' i = pdev.pciIrqVector (j + i) := by
  induction is with
  | nil => exact fun d dir' i => .inl rfl
  | cons k is ih =>
    intro d dir' i
    rw [requestChannels]
    cases hk : pdev.Grants ⟨pdev.pciIrqVector (j + k), .engine dir k⟩ with
    | false =>
      have hr : d.requestIrq pdev ⟨pdev.pciIrqVector (j + k), .engine dir k⟩ = (d, _) :=
        if_neg (of_decide_eq_false hk)
      simp only [hr, ne_eq, of_decide_eq_false hk, not_false_eq_true, ↓reduceIte, true_or]
    | true =>
      simp only [requestIrq_granted hk, ne_eq, not_true_eq_false, ↓reduceIte]
      rcases ih ((d.logged [.acquire _]).setMsixIrqLine dir k (pdev.pciIrqVector (j + k)))
        dir' i with heq | hset
      · rw [heq]
        by_cases hd : dir' = dir
        · subst hd
          by_cases hi : i = k
          · subst hi
            exact .inr ⟨rfl, by simp [setMsixIrqLine]⟩
          · exact .inl (by simp [setMsixIrqLine, hi, logged])
        · exact .inl (by simp [setMsixIrqLine, hd, logged])
      · exact .inr hset

def engineVector (d : XdmaDev) : DmaDir → ℕ → ℕ
  | .toDevice, i => i
  | .fromDevice, i => d.h2cChannelMax + i

theorem irqMsixChannelSetup_line (pdev : PciDev) (d : XdmaDev) (dir : DmaDir) (i : ℕ) :
    (d.irqMsixChannelSetup pdev).1.msixIrqLine dir i = d.msixIrqLine dir i ∨
      (d.irqMsixChannelSetup pdev).1.msixIrqLine dir i = pdev.pciIrqVector (d.engineVector dir i) := by
  unfold irqMsixChannelSetup
  split
  · exact .inl rfl
  have h₁ := requestChannels_line pdev .toDevice 0 (List.range d.h2cChannelMax) d dir i
  obtain ⟨ops, hlog⟩ := requestChannels_logged pdev .toDevice 0 (List.range d.h2cChannelMax) d
  have hmax := hlog.h2cChannelMax
  cases hr : requestChannels pdev .toDevice 0 (List.range d.h2cChannelMax) d with
  | mk d₁ rv =>
    rw [hr] at h₁ hmax
    dsimp only at h₁ hmax ⊢
    have hfirst : d₁.msixIrqLine dir i = d.msixIrqLine dir i ∨
        d₁.msixIrqLine dir i = pdev.pciIrqVector (d.engineVector dir i) := by
      rcases h₁ with heq | ⟨rfl, heq⟩
      · exact .inl heq
      · exact .inr (heq.trans (by rw [engineVector, Nat.zero_add]))
    split
    · exact hfirst
    · rcases requestChannels_line pdev .fromDevice d₁.h2cChannelMax (List.range d₁.c2hChannelMax) d₁ dir i
        with heq | ⟨rfl, heq⟩
      · rw [heq]
        exact hfirst
      · exact .inr (heq.trans (by rw [engineVector, hmax]))

theorem irqMsixUserSetup_line (hneg : ∀ line, pdev.requestIrq line ≤ 0) (d : XdmaDev) :
    (d.irqMsixUserSetup pdev).1.msixIrqLine = d.msixIrqLine := by
  unfold irqMsixUserSetup
  by_cases h : ∀ irq ∈ (List.range d.userMax).map (d.userIrq pdev), pdev.Grants irq = true
  · rw [requestUsers_granted [] _ d h]
    rfl
  · obtain ⟨got, -, rv, -, heq⟩ := requestUsers_refused hneg (List.range d.userMax) [] d h
    rw [heq]
    rfl

/-- A setup sets a line to the vector that it has anyway, also when it fails later on. -/
theorem irqSetup_known (hneg : ∀ line, pdev.requestIrq line ≤ 0) (hk : LinesKnown pdev d) :
    LinesKnown pdev (irqSetup pdev d).1 := by
  obtain ⟨ops, hlog⟩ := irqSetup_logged pdev d
  cases hx : d.msixEnabled with
  | true =>
    have hline (dir : DmaDir) (i : ℕ) : (irqSetup pdev d).1.msixIrqLine dir i = d.msixIrqLine dir i ∨
        (irqSetup pdev d).1.msixIrqLine dir i = pdev.pciIrqVector (d.engineVector dir i) := by
      have hchannels := irqMsixChannelSetup_line pdev d dir i
      cases hr : d.irqMsixChannelSetup pdev with
      | mk d' rv =>
        rw [hr] at hchannels
        rw [irqSetup_of_channels hx hr]
        split
        · exact hchannels
        · split <;> rw [irqMsixUserSetup_line hneg] <;> exact hchannels
    refine ⟨fun _ i hi => ?_, fun _ i hi => ?_, fun hn => ?_⟩
    · rw [hlog.h2cChannelMax] at hi
      rcases hline .toDevice i with heq | heq
      · rw [heq, hk.h2c hx i hi]
      · exact heq
    · rw [hlog.c2hChannelMax] at hi
      rw [hlog.h2cChannelMax]
      rcases hline .fromDevice i with heq | heq
      · rw [heq, hk.c2h hx i hi]
      · exact heq
    · rw [hlog.msixEnabled, hx] at hn
      cases hn
  | false =>
    have hx' : (irqSetup pdev d).1.msixEnabled = false := hlog.msixEnabled.trans hx
    refine ⟨fun h => by simp [hx'] at h, fun h => by simp [hx'] at h, fun _ => ?_⟩
    have hone (d' : XdmaDev) (hd : d'.irqLine = pdev.irq) (irq : Irq) :
        (d'.requestIrq pdev irq).1.irqLine = pdev.irq := by
      unfold requestIrq
      split <;> exact hd
    rw [irqSetup, if_neg (by simp [hx])]
    split
    · exact hone _ rfl _
    · unfold irqLegacySetup
      split
      · exact hk.irqLine hx
      · exact hone _ rfl _

theorem irqSetup_misses (hneg : ∀ line, pdev.requestIrq line ≤ 0) (hnone : Leaves d.log fun _ => False)
    (h : ¬∀ irq ∈ d.lines pdev, pdev.Grants irq = true) :
    ∃ P, Leaves (irqSetup pdev d).1.log P ∧ ∃ irq ∈ d.lines pdev, ¬P irq := by
  have hrv : (irqSetup pdev d).2 < 0 := by
    by_contra hrv
    exact h (irqSetup_succeeds hneg hrv).1
  push Not at h
  obtain ⟨irq, hirq, hgrant⟩ := h
  refine ⟨_, irqSetup_fails hneg hnone hrv, irq, hirq, fun hmem => ?_⟩
  split at hmem
  · exact hgrant (List.mem_takeWhile_imp hmem)
  · simp at hmem

theorem Frees.of_logged {d' : XdmaDev} {ops : List (Op Irq)} (h : Frees pdev d) (hlog : Logged d d' ops)
    (hk : LinesKnown pdev d') : Frees pdev d' :=
  ⟨hk, hlog.valid h.valid, fun hx hm => h.pin (hlog.msixEnabled ▸ hx) (hlog.msiEnabled ▸ hm)⟩

theorem bounce_eq (hp : p.pollMode = false) (h : Frees pdev d) (answer : U32 → ℤ) :
    d.bounce p pdev answer =
      (irqSetup { pdev with requestIrq := answer } (d.logged (block (d.lines pdev) false))).1 := by
  rw [bounce, xdmaDeviceOffline, h.teardown, xdmaDeviceOnline, hp]
  rfl

theorem Frees.bounce (hp : p.pollMode = false) (h : Frees pdev d) {answer : U32 → ℤ}
    (hneg : ∀ line, answer line ≤ 0) : Frees pdev (d.bounce p pdev answer) ∧
      ∃ ops, Logged d (d.bounce p pdev answer) (block (d.lines pdev) false ++ ops) := by
  have hoff := logged_spec d (block (d.lines pdev) false)
  have hanswer : ∀ line, PciDev.requestIrq { pdev with requestIrq := answer } line ≤ 0 := hneg
  obtain ⟨ops, hops⟩ := irqSetup_logged { pdev with requestIrq := answer }
    (d.logged (block (d.lines pdev) false))
  have hk : LinesKnown { pdev with requestIrq := answer } (d.logged (block (d.lines pdev) false)) :=
    ⟨h.known.h2c, h.known.c2h, h.known.irqLine⟩
  have hk' := irqSetup_known hanswer hk
  rw [bounce_eq hp h]
  exact ⟨h.of_logged (hoff.trans hops) ⟨hk'.h2c, hk'.c2h, hk'.irqLine⟩, ops, hoff.trans hops⟩

theorem Frees.next_frees (hp : p.pollMode = false) {as : List (U32 → ℤ)} : ∀ {d : XdmaDev}, Frees pdev d →
    (∀ a ∈ as, ∀ line, a line ≤ 0) → ∃ more,
      ((as.foldl (XdmaDev.bounce p pdev) d).xdmaDeviceClose pdev).log =
        d.log ++ (block (d.lines pdev) false ++ more) := by
  induction as with
  | nil =>
    intro d h _
    refine ⟨[], ?_⟩
    rw [List.foldl_nil, xdmaDeviceClose, disableMsiMsix_log, h.teardown, List.append_nil]
    rfl
  | cons a as ih =>
    intro d h hneg
    obtain ⟨hnext, ops, hops⟩ := h.bounce hp (hneg a List.mem_cons_self)
    obtain ⟨more, hmore⟩ := ih hnext fun b hb => hneg b (List.mem_cons_of_mem a hb)
    refine ⟨ops ++ (block (d.lines pdev) false ++ more), ?_⟩
    rw [List.foldl_cons, hmore, hops.log, hops.lines]
    simp only [List.append_assoc]

theorem Frees.bounces_returned_iff (hp : p.pollMode = false) {as : List (U32 → ℤ)} :
    ∀ {d : XdmaDev}, Frees pdev d →
    Leaves d.log (· ∈ d.lines pdev) → (∀ a ∈ as, ∀ line, a line ≤ 0) →
    (Leaves ((as.foldl (XdmaDev.bounce p pdev) d).xdmaDeviceClose pdev).log (fun _ => False) ↔
      ∀ a ∈ as, ∀ irq ∈ d.lines pdev, a irq.line = 0) := by
  induction as with
  | nil =>
    intro d h hheld _
    have hfreed := hheld.releases (lines_nodup_of_ids pdev d) fun irq hirq => hirq
    rw [List.foldl_nil, xdmaDeviceClose, disableMsiMsix_log, h.teardown]
    simp only [List.not_mem_nil, false_implies, implies_true, iff_true]
    exact hfreed.congr fun irq => ⟨False.elim, fun hirq => hirq.1 hirq.2⟩
  | cons a as ih =>
    intro d h hheld hneg
    have hnega := hneg a List.mem_cons_self
    have hnegs : ∀ b ∈ as, ∀ line, b line ≤ 0 := fun b hb => hneg b (List.mem_cons_of_mem a hb)
    have hfreed := hheld.releases (lines_nodup_of_ids pdev d) fun irq hirq => hirq
    have hnone : Leaves (d.logged (block (d.lines pdev) false)).log fun _ => False :=
      hfreed.congr fun irq => ⟨False.elim, fun hirq => hirq.1 hirq.2⟩
    obtain ⟨hnext, ops, hops⟩ := h.bounce hp hnega
    have hlines : (d.bounce p pdev a).lines pdev = d.lines pdev := hops.lines
    rw [List.foldl_cons, List.forall_mem_cons]
    by_cases hg : ∀ irq ∈ d.lines pdev, a irq.line = 0
    · have hgrants : ∀ irq ∈ (d.logged (block (d.lines pdev) false)).lines { pdev with requestIrq := a },
          PciDev.Grants { pdev with requestIrq := a } irq = true :=
          fun irq hirq => decide_eq_true (hg irq hirq)
      obtain ⟨-, -, hset⟩ := irqSetup_granted hgrants h.pin
      have hagain := hnone.acquires (lines_nodup_of_ids pdev d) (by simp)
      have hheld' : Leaves (d.bounce p pdev a).log (· ∈ (d.bounce p pdev a).lines pdev) := by
        rw [hlines, bounce_eq hp h, hset.log]
        exact hagain.congr fun irq => by simp
      rw [ih hnext hheld' hnegs, hlines]
      exact ⟨fun hall => ⟨hg, hall⟩, fun hall => hall.2⟩
    · have hmiss : ¬∀ irq ∈ (d.logged (block (d.lines pdev) false)).lines { pdev with requestIrq := a },
          PciDev.Grants { pdev with requestIrq := a } irq = true := fun hall => hg fun irq hirq =>
        of_decide_eq_true (hall irq hirq)
      have hanswer : ∀ line, PciDev.requestIrq { pdev with requestIrq := a } line ≤ 0 := hnega
      obtain ⟨P, hP, irq, hirq, hnot⟩ := irqSetup_misses hanswer hnone hmiss
      obtain ⟨more, hmore⟩ := hnext.next_frees hp hnegs
      rw [hmore, hlines, bounce_eq hp h]
      exact ⟨fun hall => absurd hall (hP.not_releases hirq hnot more _), fun hall => absurd hall.1 hg⟩

end XdmaDev

namespace OpenEnv

/-- A device that is taken offline and brought back any number of times before it is closed gives
back its lines if and only if it was granted them each time. -/
theorem bounced_lines_returned_iff {p : Params} {env : OpenEnv} {d : OpenDev} (hk : KernelAnswers env.pdev)
    (hopen : env.xdmaDeviceOpen p = (d, none)) (hp : p.pollMode = false) {as : List (U32 → ℤ)}
    (hneg : ∀ a ∈ as, ∀ line, a line ≤ 0) :
    Leaves ((as.foldl (XdmaDev.bounce p env.pdev) d.irq).xdmaDeviceClose env.pdev).log (fun _ => False) ↔
      ∀ a ∈ as, ∀ irq ∈ d.irq.lines env.pdev, a irq.line = 0 := by
  obtain ⟨irq, hs⟩ := exists_setUp hopen
  obtain ⟨-, hpin⟩ := XdmaDev.irqSetup_succeeds hk.refused hs.succeeds
  obtain ⟨hknown, hlogged, hheld⟩ := XdmaDev.irqSetup_holds hk.refused hs.log hs.succeeds
  rw [← hs.irq] at hknown hlogged hheld
  have hfrees : XdmaDev.Frees env.pdev d.irq :=
    ⟨hknown, hlogged.valid (hs.valid hk), fun hx hm =>
      hpin (hlogged.msixEnabled ▸ hx) (hlogged.msiEnabled ▸ hm)⟩
  exact hfrees.bounces_returned_iff hp hheld hneg

def line42Refused : List (U32 → ℤ) := [fun _ => 0, fun line => if line = 42 then -16 else 0]

theorem bounced_lines_returned_iff_line42 :
    ¬Leaves ((line42Refused.foldl (XdmaDev.bounce {} lostEngine.pdev) lostEngineOpened.irq).xdmaDeviceClose
      lostEngine.pdev).log fun _ => False := by
  have hopen : lostEngine.xdmaDeviceOpen {} = (lostEngineOpened, none) := Prod.ext rfl (by decide)
  have hneg : ∀ a ∈ line42Refused, ∀ line, a line ≤ 0 := by
    simp only [line42Refused, List.mem_cons, List.not_mem_nil, or_false, forall_eq_or_imp, forall_eq]
    refine ⟨fun _ => le_refl 0, fun line => ?_⟩
    split <;> decide
  rw [bounced_lines_returned_iff lostEngine_answers hopen rfl hneg]
  intro h
  have hgranted := h _ (List.mem_cons_of_mem _ List.mem_cons_self) ⟨42, .engine .fromDevice 1⟩ (by decide)
  exact absurd hgranted (by decide)

end OpenEnv

end XdmaDriver
