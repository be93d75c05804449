import XdmaDriver.MsixRouting
import XdmaDriver.Shutdown

/-!
The masking of an engine's interrupt by the interrupt handlers, and its unmasking by the
service work of the engine.
-/

namespace XdmaDriver

open Transition Drv

structure EngineRef where
  dir : DmaDir
  channel : ℕ
  deriving DecidableEq, Repr

/-- The masks of a device, and the `irq_bitmask` of its engines. -/
structure IrqBits where
  maskIrq : DmaDir → U32
  irqBitmask : DmaDir → List U32

def OpenDev.irqBits (d : OpenDev) : IrqBits where
  maskIrq := d.maskIrq
  irqBitmask := fun dir => (List.range (d.channelMax dir)).map fun ch =>
    engineIrqBitmask (d.engine dir ch).irqBit

namespace IrqBits

def Exists (b : IrqBits) (e : EngineRef) : Prop := e.channel < (b.irqBitmask e.dir).length

instance (b : IrqBits) (e : EngineRef) : Decidable (b.Exists e) := inferInstanceAs (Decidable (_ < _))

def bitmask (b : IrqBits) (e : EngineRef) : U32 := (b.irqBitmask e.dir).getD e.channel 0

end IrqBits

def isrChannels (dir : DmaDir) : ℕ → List U32 → U32 → List EngineRef
  | _, [], _ => []
  | channel, irqBitmask :: rest, mask =>
    if mask = 0 then []
    else if irqBitmask &&& mask ≠ 0 then
      ⟨dir, channel⟩ :: isrChannels dir (channel + 1) rest (mask &&& ~~~irqBitmask)
    else isrChannels dir (channel + 1) rest mask

def isrEngines (b : IrqBits) (chIrq : U32) : List EngineRef :=
  isrChannels .toDevice 0 (b.irqBitmask .toDevice) (chIrq &&& b.maskIrq .toDevice) ++
    isrChannels .fromDevice 0 (b.irqBitmask .fromDevice) (chIrq &&& b.maskIrq .fromDevice)

theorem twoPow_and_ne_zero {k : ℕ} (hk : k < 32) (m : U32) : BitVec.twoPow 32 k &&& m ≠ 0 ↔
    m.getLsbD k = true := by
  rw [BitVec.twoPow_and]
  cases m.getLsbD k with
  | false => simp
  | true =>
    simp only [↓reduceIte, iff_true]
    intro h
    have := congrArg (BitVec.getLsbD · k) h
    simp [hk] at this

theorem and_twoPow_eq {k : ℕ} (hk : k < 32) (m : U32) :
    m &&& BitVec.twoPow 32 k = BitVec.twoPow 32 k ↔ m.getLsbD k = true := by
  rw [BitVec.and_twoPow]
  cases m.getLsbD k with
  | true => simp
  | false =>
    simp only [Bool.false_eq_true, ↓reduceIte, iff_false]
    intro h
    have := congrArg (BitVec.getLsbD · k) h
    simp [hk] at this

structure IrqBits.Sound (b : IrqBits) (ks : DmaDir → List ℕ) : Prop where
  irqBitmask : ∀ dir, b.irqBitmask dir = (ks dir).map (BitVec.twoPow 32)
  lt : ∀ dir, ∀ k ∈ ks dir, k < 32
  mask : ∀ dir, ∀ k ∈ ks dir, (b.maskIrq dir).getLsbD k = true
  nodup : ∀ dir, (ks dir).Nodup

theorem engineIrqBitmask_eq (n : ℕ) : engineIrqBitmask n = BitVec.twoPow 32 n := by
  rw [engineIrqBitmask, BitVec.twoPow_eq, xdmaEngIrqNum, Nat.mul_one]
  rfl

namespace OpenDev

variable {p : Params}

theorem engineInit_mask (d : OpenDev) (probe : EngineProbe) (dir : DmaDir) (ch : ℕ) :
    (d.initEngine p probe dir ch).SameBits (d.engineInit p probe dir ch).1 := by
  have h := engineAllocResource_bits p (d.initEngine p probe dir ch) probe dir ch
  rw [engineInit_eq]
  split
  · exact h
  · dsimp only
    split
    · exact h.trans ⟨rfl, rfl⟩
    · exact h

theorem initEngine_mask (d : OpenDev) (probe : EngineProbe) (dir : DmaDir) (ch : ℕ) {dir' : DmaDir} {k : ℕ}
    (h : (d.maskIrq dir').getLsbD k = true) :
      ((d.initEngine p probe dir ch).maskIrq dir').getLsbD k = true := by
  by_cases hd : dir' = dir
  · subst hd
    simp [initEngine, h]
  · simp [initEngine, hd, h]

theorem initEngine_newBit (d : OpenDev) (probe : EngineProbe) (dir : DmaDir) (ch : ℕ)
    (hn : d.enginesNum < 32) :
    ((d.initEngine p probe dir ch).maskIrq dir).getLsbD d.enginesNum = true := by
  simp only [initEngine, Function.update_self, BitVec.getLsbD_or, engineIrqBitmask_eq, BitVec.getLsbD_twoPow]
  simp [hn]

theorem probeChannels_mask (probe : ℕ → EngineProbe) (dir : DmaDir) (n : ℕ) : ∀ {i : ℕ} {d : OpenDev},
    d.enginesNum + n ≤ 32 →
      (∀ dir' k, (d.maskIrq dir').getLsbD k = true →
        ((probeChannels p probe dir n i d).1.maskIrq dir').getLsbD k = true) ∧
      ∀ ch, i ≤ ch → ch < (probeChannels p probe dir n i d).2 →
        ((probeChannels p probe dir n i d).1.maskIrq dir).getLsbD (d.enginesNum + (ch - i)) = true := by
  induction n with
  | zero => exact fun _ => ⟨fun _ _ h => h, fun ch hle hlt => absurd hlt (Nat.not_lt.mpr hle)⟩
  | succ n ih =>
    intro i d hn
    rw [probeChannels]
    by_cases hfound : (probe i).Found dir i
    · obtain ⟨hnum, hmask⟩ := engineInit_mask (p := p) d (probe i) dir i
      rw [probeForEngine_found hfound]
      cases hinit : d.engineInit p (probe i) dir i with
      | mk d' rv =>
        rw [hinit] at hnum hmask
        dsimp only at hnum hmask ⊢
        have hkeep : ∀ dir' k, (d.maskIrq dir').getLsbD k = true → (d'.maskIrq dir').getLsbD k = true := by
          intro dir' k h
          rw [hmask]
          exact initEngine_mask d (probe i) dir i h
        have hnew : (d'.maskIrq dir).getLsbD d.enginesNum = true := by
          rw [hmask]
          exact initEngine_newBit d (probe i) dir i (by omega)
        have hnext : d'.enginesNum = d.enginesNum + 1 := hnum
        split
        · exact ⟨hkeep, fun ch hle hlt => absurd hlt (Nat.not_lt.mpr hle)⟩
        · obtain ⟨hmore, hbits⟩ := ih (i := i + 1) (d := d') (by omega)
          refine ⟨fun dir' k h => hmore dir' k (hkeep dir' k h), fun ch hge hlt => ?_⟩
          rcases Nat.eq_or_lt_of_le hge with rfl | hgt
          · rw [Nat.sub_self]
            exact hmore dir _ hnew
          · have hbit := hbits ch hgt hlt
            rwa [hnext, show d.enginesNum + 1 + (ch - (i + 1)) = d.enginesNum + (ch - i) by omega] at hbit
    · rw [probeForEngine_missing hfound]
      dsimp only
      rw [if_pos (err_neg .inval).ne]
      exact ⟨fun _ _ h => h, fun ch hle hlt => absurd hlt (Nat.not_lt.mpr hle)⟩

theorem probeEngines_mask {d : OpenDev} {base : List DevRes} (h : Sound p d base)
    (hnew : ∀ dir, d.Reached dir 0)
    (hnum : d.enginesNum = 0) (hmax : d.irq.h2cChannelMax + d.irq.c2hChannelMax < 32)
    (probe : DmaDir → ℕ → EngineProbe) :
    (∀ ch < (d.probeEngines p probe).irq.h2cChannelMax,
        ((d.probeEngines p probe).maskIrq .toDevice).getLsbD ch = true) ∧
      ∀ ch < (d.probeEngines p probe).irq.c2hChannelMax,
        ((d.probeEngines p probe).maskIrq .fromDevice).getLsbD
        ((d.probeEngines p probe).irq.h2cChannelMax +
          lostBit (probe .toDevice) .toDevice d.irq.h2cChannelMax
          (d.probeEngines p probe).irq.h2cChannelMax + ch) =
            true := by
  have hle := probeChannels_le p (probe .toDevice) .toDevice d.irq.h2cChannelMax 0 d
  obtain ⟨h₁, ha₁, -⟩ := probeChannels_spec (probe .toDevice) .toDevice d.irq.h2cChannelMax h (hnew _)
  obtain ⟨-, -, -, htotal⟩ := probeChannels_bits (probe .toDevice) .toDevice d.irq.h2cChannelMax h (hnew _)
  obtain ⟨-, hmask₁⟩ := probeChannels_mask (p := p)
    (probe .toDevice) .toDevice d.irq.h2cChannelMax (i := 0) (d := d)
    (by omega)
  rw [probeEngines]
  cases heq₁ : probeChannels p (probe .toDevice) .toDevice d.irq.h2cChannelMax 0 d with
  | mk d₁ i =>
    rw [heq₁] at hle h₁ ha₁ htotal hmask₁
    dsimp only at hle h₁ ha₁ htotal hmask₁ ⊢
    rw [hnum, Nat.zero_add] at htotal
    have hlost : i + lostBit (probe .toDevice) .toDevice (0 + d.irq.h2cChannelMax) i ≤
      d.irq.h2cChannelMax + 1 := by
      unfold lostBit
      split <;> omega
    obtain ⟨hkeep, hmask₂⟩ := probeChannels_mask (p := p)
      (probe .fromDevice) .fromDevice d₁.irq.c2hChannelMax (i := 0)
      (d := { d₁ with irq := { d₁.irq with h2cChannelMax := i } }) (by
        have hirq := congrArg XdmaDev.c2hChannelMax ha₁.irq
        change d₁.enginesNum + _ ≤ 32
        omega)
    have hnew₁ := ha₁.reached (hnew .fromDevice) { d₁.irq with h2cChannelMax := i }
    obtain ⟨-, ha₂, -⟩ := probeChannels_spec (probe .fromDevice) .fromDevice d₁.irq.c2hChannelMax
      (h₁.withIrq { d₁.irq with h2cChannelMax := i }) hnew₁
    cases heq₂ : probeChannels p (probe .fromDevice) .fromDevice d₁.irq.c2hChannelMax 0
        { d₁ with irq := { d₁.irq with h2cChannelMax := i } } with
    | mk d₂ j =>
      rw [heq₂] at hkeep hmask₂ ha₂
      dsimp only at hkeep hmask₂ ha₂ ⊢
      rw [ha₂.irq]
      constructor
      · intro ch hch
        have hbit := hmask₁ ch (Nat.zero_le ch) hch
        rw [hnum, Nat.zero_add, Nat.sub_zero] at hbit
        exact hkeep .toDevice ch hbit
      · intro ch hch
        have hbit := hmask₂ ch (Nat.zero_le ch) hch
        rw [htotal, Nat.sub_zero, Nat.sub_zero, Nat.zero_add] at hbit
        exact hbit

def firstBit (n : ℕ) : DmaDir → ℕ
  | .toDevice => 0
  | .fromDevice => n

end OpenDev

/-- The bits of an opened device: those of its engines differ, and are in the masks. -/
theorem OpenEnv.opened_irqBits {p : Params} {env : OpenEnv} {d : OpenDev}
    (hopen : env.xdmaDeviceOpen p = (d, none)) :
    ∃ ks, d.irqBits.Sound ks := by
  obtain ⟨irq, hs⟩ := exists_setUp hopen
  have hm := mappedDev_mapped p (xdmaDeviceOpen_opened hopen).1
  have hh : env.allocDevInstance.irq.h2cChannelMax ≤ xdmaChannelNumMax := XdmaDev.clampMax_le _ _
  have hc : env.allocDevInstance.irq.c2hChannelMax ≤ xdmaChannelNumMax := XdmaDev.clampMax_le _ _
  obtain ⟨hbits₁, hbits₂⟩ := OpenDev.probeEngines_bits hm.sound (mappedDev_fresh env) rfl env.engine
  obtain ⟨hmask₁, hmask₂⟩ := OpenDev.probeEngines_mask hm.sound (mappedDev_fresh env) rfl
    (lt_of_le_of_lt (Nat.add_le_add hh hc) (by decide)) env.engine
  obtain ⟨ops, hops⟩ := XdmaDev.irqSetup_logged env.pdev irq
  rw [← hs.irq] at hops
  have hlost : lostBit (env.engine .toDevice) .toDevice env.mappedDev.irq.h2cChannelMax
    irq.h2cChannelMax ≤ 1 := by
    unfold lostBit
    split <;> omega
  have hih := hs.h2cChannelMax
  have hic := hs.c2hChannelMax
  rw [hs.probed, ← hs.engine] at hbits₁ hbits₂
  rw [hs.probed, ← hs.maskIrq] at hmask₁ hmask₂
  dsimp only at hbits₁ hbits₂ hmask₁ hmask₂
  generalize lostBit (env.engine .toDevice) .toDevice env.mappedDev.irq.h2cChannelMax irq.h2cChannelMax = lost
    at hbits₂ hmask₂ hlost
  let first := OpenDev.firstBit (irq.h2cChannelMax + lost)
  have hbits : ∀ dir, ∀ ch < d.channelMax dir, (d.engine dir ch).irqBit = first dir + ch ∧
    first dir + ch < 32 ∧
      (d.maskIrq dir).getLsbD (first dir + ch) = true := by
    intro dir ch hch
    cases dir with
    | toDevice =>
      have hlt : ch < irq.h2cChannelMax := hops.h2cChannelMax ▸ hch
      have hzero : first .toDevice + ch = ch := Nat.zero_add ch
      rw [hzero]
      exact ⟨hbits₁ ch hlt, by omega, hmask₁ ch hlt⟩
    | fromDevice =>
      have hlt : ch < irq.c2hChannelMax := hops.c2hChannelMax ▸ hch
      exact ⟨hbits₂ ch hlt, by change irq.h2cChannelMax + lost + ch < 32; omega, hmask₂ ch hlt⟩
  refine ⟨fun dir => (List.range (d.channelMax dir)).map fun ch => first dir + ch,
    fun dir => ?_, fun dir => ?_,
    fun dir => ?_, fun dir => ?_⟩
  · rw [List.map_map]
    apply List.map_congr_left
    intro ch hch
    rw [engineIrqBitmask_eq, (hbits dir ch (List.mem_range.mp hch)).1]
    rfl
  · intro k hk
    obtain ⟨ch, hch, rfl⟩ := List.mem_map.mp hk
    exact (hbits dir ch (List.mem_range.mp hch)).2.1
  · intro k hk
    obtain ⟨ch, hch, rfl⟩ := List.mem_map.mp hk
    exact (hbits dir ch (List.mem_range.mp hch)).2.2
  · exact List.nodup_range.map fun i j hij => Nat.add_left_cancel hij

theorem mem_isrChannels (dir : DmaDir) {ks : List ℕ} (hlt : ∀ k ∈ ks, k < 32) (hnd : ks.Nodup) :
    ∀ (c : ℕ) {i : ℕ} (mask : U32) (hi : i < ks.length), mask.getLsbD ks[i] = true →
      ⟨dir, c + i⟩ ∈ isrChannels dir c (ks.map (BitVec.twoPow 32)) mask := by
  induction ks with
  | nil => exact fun _ _ _ hi => absurd hi (Nat.not_lt_zero _)
  | cons k ks ih =>
    intro c i mask hi hmask
    have hk : k < 32 := hlt k (List.mem_cons_self ..)
    obtain ⟨hnotin, hnd⟩ := List.nodup_cons.mp hnd
    have hrest : ∀ k ∈ ks, k < 32 := fun k hk => hlt k (List.mem_cons_of_mem _ hk)
    have hne : mask ≠ 0 := by
      rintro rfl
      simp at hmask
    rw [List.map_cons, isrChannels, if_neg hne]
    cases i with
    | zero =>
      rw [if_pos ((twoPow_and_ne_zero hk mask).mpr hmask)]
      exact List.mem_cons_self ..
    | succ i =>
      have hi' : i < ks.length := Nat.lt_of_succ_lt_succ hi
      rw [List.getElem_cons_succ] at hmask
      rw [show c + (i + 1) = c + 1 + i by omega]
      split_ifs
      · refine List.mem_cons_of_mem _ (ih hrest hnd _ _ hi' ?_)
        have hother : ks[i] ≠ k := fun h => hnotin (h ▸ List.getElem_mem hi')
        have hlti := hrest _ (List.getElem_mem hi')
        simp [hmask, hother, hlti]
      · exact ih hrest hnd _ _ hi' hmask

theorem mem_isrEngines {b : IrqBits} {ks : DmaDir → List ℕ} (h : b.Sound ks) {e : EngineRef}
    (he : b.Exists e) (chIrq : U32) :
    ∃ k < 32, b.bitmask e = BitVec.twoPow 32 k ∧ (chIrq.getLsbD k = true → e ∈ isrEngines b chIrq) := by
  obtain ⟨dir, i⟩ := e
  have hi : i < (ks dir).length := by
    have := he
    rwa [IrqBits.Exists, h.irqBitmask, List.length_map] at this
  have hmem := List.getElem_mem hi
  have hlt := h.lt dir
  refine ⟨(ks dir)[i], hlt _ hmem, ?_, fun hbit => ?_⟩
  · rw [IrqBits.bitmask, h.irqBitmask, List.getD_eq_getElem?_getD, List.getElem?_map,
      List.getElem?_eq_getElem hi]
    rfl
  · have hboth : (chIrq &&& b.maskIrq dir).getLsbD (ks dir)[i] = true := by
      rw [BitVec.getLsbD_and, hbit, h.mask dir _ hmem]
      rfl
    have hscan := mem_isrChannels dir hlt (h.nodup dir) 0 _ hi hboth
    rw [Nat.zero_add, ← h.irqBitmask] at hscan
    rw [isrEngines, List.mem_append]
    cases dir with
    | toDevice => exact .inl hscan
    | fromDevice => exact .inr hscan

inductive WorkPhase
  | idle | started | serviced
  deriving DecidableEq

/-- A device that is online. `isr` are the engines that `xdma_isr` has masked and has yet to
schedule, if it runs; `channelIrq` says the same of `xdma_channel_irq`. -/
structure IrqRun where
  msixEnabled : Bool
  bits : IrqBits
  channelIntEnable : U32
  drv : EngineRef → Drv
  scheduled : EngineRef → Bool
  phase : EngineRef → WorkPhase
  isr : Option (List EngineRef)
  channelIrq : EngineRef → Bool

inductive IrqAct
  | isr (chIrq : U32)
  | isrSchedule
  | isrReturn
  | channelIrq (e : EngineRef)
  | channelIrqSchedule (e : EngineRef)
  | workStart (e : EngineRef)
  | workService (e : EngineRef) (r : ServiceRegs)
  | workUnmask (e : EngineRef)
  | queue (e : EngineRef) (t : XferRef) (w : U32)

def Drv.setInterruptEnableMask (s : Drv) (mask : U32) : Drv :=
  { s with eng := { s.eng with regs := { s.eng.regs with interruptEnableMask := mask } } }

namespace IrqRun

variable (p : Params)

def setDrv (s : IrqRun) (e : EngineRef) (f : Drv → Drv) : IrqRun :=
  { s with drv := Function.update s.drv e (f (s.drv e)) }

def schedule (s : IrqRun) (e : EngineRef) : IrqRun :=
  { s with scheduled := Function.update s.scheduled e true }

def setPhase (s : IrqRun) (e : EngineRef) (phase : WorkPhase) : IrqRun :=
  { s with phase := Function.update s.phase e phase }

def unmask (s : IrqRun) (e : EngineRef) : IrqRun :=
  if s.msixEnabled then
    s.setDrv e fun d => d.setInterruptEnableMask (d.eng.regs.interruptEnableMask |||
    interruptEnableMaskValue p)
  else { s with channelIntEnable := s.channelIntEnable ||| s.bits.bitmask e }

def step (s : IrqRun) : IrqAct → Option IrqRun
  | .isr chIrq =>
    if s.msixEnabled ∨ s.isr ≠ none then none
    else
      some
        { s with
          channelIntEnable := if chIrq ≠ 0 then s.channelIntEnable &&& ~~~chIrq else s.channelIntEnable
          isr := some (isrEngines s.bits chIrq) }
  | .isrSchedule =>
    match s.isr with
    | some (e :: es) => some { s.schedule e with isr := some es }
    | _ => none
  | .isrReturn => if s.isr = some [] then some { s with isr := none } else none
  | .channelIrq e =>
    if s.msixEnabled ∧ s.bits.Exists e ∧ s.channelIrq e = false then
      some
        { s.setDrv e fun d =>
            d.setInterruptEnableMask (d.eng.regs.interruptEnableMask &&& ~~~interruptEnableMaskValue p) with
          channelIrq := Function.update s.channelIrq e true }
    else none
  | .channelIrqSchedule e =>
    if s.channelIrq e then some { s.schedule e with channelIrq := Function.update s.channelIrq e false }
    else none
  | .workStart e =>
    if s.scheduled e ∧ s.phase e = .idle then
      some { s.setPhase e .started with scheduled := Function.update s.scheduled e false }
    else none
  | .workService e r =>
    if s.phase e = .started then
      let phase := if ((s.drv e).engineService p 0 r).2 < 0 then .idle else .serviced
      some ((s.setDrv e fun d => (d.engineService p 0 r).1).setPhase e phase)
    else none
  | .workUnmask e => if s.phase e = .serviced then some ((s.unmask p e).setPhase e .idle) else none
  | .queue e t w => some (s.setDrv e fun d => (d.transferQueue p t w).1)

/-- As `xdma_device_open` or `xdma_device_online` leaves the device: the interrupts are
enabled and no handler runs. Some work may be left from before. -/
structure Online (s : IrqRun) : Prop where
  bits : ∃ (env : OpenEnv) (d : OpenDev), env.xdmaDeviceOpen p = (d, none) ∧ s.bits = d.irqBits
  channelIntEnable : s.channelIntEnable = BitVec.allOnes 32
  engines : ∀ e, (s.drv e).eng.regs.interruptEnableMask = interruptEnableMaskValue p
  isr : s.isr = none
  channelIrq : ∀ e, s.channelIrq e = false

def InHandler (s : IrqRun) (e : EngineRef) : Prop := e ∈ s.isr.getD [] ∨ s.channelIrq e = true

def completionBits : U32 := xdmaCtrlIeDescStopped ||| xdmaCtrlIeDescCompleted

def CompletionEnabled (s : IrqRun) (e : EngineRef) : Prop :=
  s.channelIntEnable &&& s.bits.bitmask e = s.bits.bitmask e ∧
    (s.drv e).eng.regs.interruptEnableMask &&& completionBits = completionBits

/-- The engine is not left alone with its interrupt masked. -/
def Handed (s : IrqRun) (e : EngineRef) : Prop :=
  s.InHandler e ∨ s.CompletionEnabled e ∨ s.scheduled e = true ∨ s.phase e ≠ .idle

variable {p}

/-- In MSI mode the engines keep their interrupts enabled and in MSI-X mode the device does; what
the other mask withholds is on its way back. -/
structure MaskHanded (s : IrqRun) : Prop where
  bits : ∃ ks, s.bits.Sound ks
  channel : s.msixEnabled = true → s.channelIntEnable = BitVec.allOnes 32
  engine : s.msixEnabled = false →
    ∀ e, (s.drv e).eng.regs.interruptEnableMask &&& completionBits = completionBits
  handed : ∀ e, s.bits.Exists e → s.Handed e

theorem interruptEnableMaskValue_completion (hp : p.pollMode = false) :
    interruptEnableMaskValue p &&& completionBits = completionBits := by
  simp only [interruptEnableMaskValue, hp]
  decide

theorem or_and_eq {m v w : U32} (h : v &&& w = w) : (m ||| v) &&& w = w := by
  ext i hi
  have hbit : (v &&& w)[i] = w[i] := by rw [h]
  rw [BitVec.getElem_and] at hbit
  rw [BitVec.getElem_and, BitVec.getElem_or]
  cases hw : w[i] with
  | false => exact Bool.and_false _
  | true =>
    rw [hw, Bool.and_true] at hbit
    rw [hbit, Bool.or_true, Bool.and_true]

theorem Online.handed (hp : p.pollMode = false) {s : IrqRun} (h : s.Online p) : s.MaskHanded := by
  have hengine : ∀ e, (s.drv e).eng.regs.interruptEnableMask &&& completionBits = completionBits := by
    intro e
    rw [h.engines e]
    exact interruptEnableMaskValue_completion hp
  obtain ⟨env, d, hopen, hbits⟩ := h.bits
  refine ⟨hbits ▸ OpenEnv.opened_irqBits hopen, fun _ => h.channelIntEnable, fun _ => hengine,
    fun e _ => .inr (.inl ⟨?_, hengine e⟩)⟩
  rw [h.channelIntEnable]
  exact BitVec.allOnes_and

theorem completion_kept (p : Params) :
    ControlKept p fun d => d.eng.regs.interruptEnableMask &&& completionBits = completionBits where
  same h hd := by
    rw [h.regs]
    exact hd
  stop hd := hd
  start {s} w hd := by
    by_cases hr : s.eng.running = true
    · rw [engineStart_of_running p s w hr]
      exact hd
    cases hl : s.eng.transferList with
    | nil =>
      rw [engineStart_of_nil p s w hl]
      exact hd
    | cons t ts =>
      simp only [engineStart, hr, hl, Bool.false_eq_true, ↓reduceIte, engineStartModeConfig]
      cases s.eng.xdmaPerf with
      | none => exact hd
      | some perf =>
        simp only [Option.isSome_some, ↓reduceIte]
        decide
  idle hd := hd

theorem Handed.congr {s s' : IrqRun} {e : EngineRef} (h : s.Handed e) (hin : s.InHandler e → s'.InHandler e)
    (hen : s.CompletionEnabled e → s'.CompletionEnabled e) (hsched : s'.scheduled e = s.scheduled e)
    (hphase : s'.phase e = s.phase e) : s'.Handed e := by
  rcases h with h | h | h | h
  · exact .inl (hin h)
  · exact .inr (.inl (hen h))
  · exact .inr (.inr (.inl (hsched.trans h)))
  · exact .inr (.inr (.inr (hphase ▸ h)))

theorem isr_handed {s s' : IrqRun} {chIrq : U32} (hs : s.MaskHanded) (h : s.step p (.isr chIrq) = some s') :
    s'.MaskHanded := by
  obtain ⟨hguard, h⟩ := Option.ite_none_left_eq_some.mp h
  obtain rfl := Option.some.inj h
  obtain ⟨hmsix, hisr⟩ := not_or.mp hguard
  refine ⟨hs.bits, fun hx => absurd hx hmsix, hs.engine, fun e he => ?_⟩
  obtain ⟨ks, hsound⟩ := hs.bits
  obtain ⟨k, hk, hbitmask, hmem⟩ := mem_isrEngines hsound he chIrq
  by_cases hbit : chIrq.getLsbD k = true
  · exact .inl (.inl (hmem hbit))
  · refine Handed.congr (hs.handed e he) ?_ ?_ rfl rfl
    · rintro (h | h)
      · rw [not_not.mp hisr] at h
        exact absurd h List.not_mem_nil
      · exact .inr h
    · rintro ⟨hchannel, hengine⟩
      refine ⟨?_, hengine⟩
      -- the bit of the engine is not among those masked
      change (if chIrq ≠ 0 then s.channelIntEnable &&& ~~~chIrq else s.channelIntEnable) &&&
        s.bits.bitmask e =
        s.bits.bitmask e
      rw [hbitmask, and_twoPow_eq hk] at hchannel ⊢
      split_ifs
      · rw [BitVec.getLsbD_and, BitVec.getLsbD_not, hchannel, Bool.eq_false_of_not_eq_true hbit]
        simp [hk]
      · exact hchannel

theorem isrSchedule_handed {s s' : IrqRun} (hs : s.MaskHanded) (h : s.step p .isrSchedule = some s') :
    s'.MaskHanded := by
  simp only [step] at h
  cases hisr : s.isr with
  | none => simp [hisr] at h
  | some l =>
    cases l with
    | nil => simp [hisr] at h
    | cons e₀ es =>
      rw [hisr] at h
      obtain rfl := Option.some.inj h
      refine ⟨hs.bits, hs.channel, hs.engine, fun e he => ?_⟩
      by_cases hee : e = e₀
      · subst hee
        exact .inr (.inr (.inl (Function.update_self ..)))
      · refine Handed.congr (hs.handed e he) ?_ id (Function.update_of_ne hee ..) rfl
        rintro (h | h)
        · rw [hisr] at h
          exact .inl ((List.mem_cons.mp h).resolve_left hee)
        · exact .inr h

theorem isrReturn_handed {s s' : IrqRun} (hs : s.MaskHanded) (h : s.step p .isrReturn = some s') :
    s'.MaskHanded := by
  obtain ⟨hisr, h⟩ := Option.ite_none_right_eq_some.mp h
  obtain rfl := Option.some.inj h
  refine ⟨hs.bits, hs.channel, hs.engine, fun e he => Handed.congr (hs.handed e he) ?_ id rfl rfl⟩
  rintro (h | h)
  · rw [hisr] at h
    exact absurd h List.not_mem_nil
  · exact .inr h

theorem channelIrq_handed {s s' : IrqRun} {e₀ : EngineRef} (hs : s.MaskHanded)
    (h : s.step p (.channelIrq e₀) = some s') : s'.MaskHanded := by
  obtain ⟨⟨hmsix, -⟩, h⟩ := Option.ite_none_right_eq_some.mp h
  obtain rfl := Option.some.inj h
  refine ⟨hs.bits, hs.channel, fun hx => absurd (hmsix.symm.trans hx) (by decide), fun e he => ?_⟩
  by_cases hee : e = e₀
  · subst hee
    exact .inl (.inr (Function.update_self ..))
  · refine Handed.congr (hs.handed e he) ?_ ?_ rfl rfl
    · rintro (h | h)
      · exact .inl h
      · exact .inr ((Function.update_of_ne hee ..).trans h)
    · rintro ⟨hchannel, hengine⟩
      refine ⟨hchannel, ?_⟩
      change (Function.update s.drv e₀ _ e).eng.regs.interruptEnableMask &&& _ = _
      rwa [Function.update_of_ne hee]

theorem channelIrqSchedule_handed {s s' : IrqRun} {e₀ : EngineRef} (hs : s.MaskHanded)
    (h : s.step p (.channelIrqSchedule e₀) = some s') : s'.MaskHanded := by
  obtain ⟨-, h⟩ := Option.ite_none_right_eq_some.mp h
  obtain rfl := Option.some.inj h
  refine ⟨hs.bits, hs.channel, hs.engine, fun e he => ?_⟩
  by_cases hee : e = e₀
  · subst hee
    exact .inr (.inr (.inl (Function.update_self ..)))
  · refine Handed.congr (hs.handed e he) ?_ id (Function.update_of_ne hee ..) rfl
    rintro (h | h)
    · exact .inl h
    · exact .inr ((Function.update_of_ne hee ..).trans h)

theorem workStart_handed {s s' : IrqRun} {e₀ : EngineRef} (hs : s.MaskHanded)
    (h : s.step p (.workStart e₀) = some s') : s'.MaskHanded := by
  obtain ⟨-, h⟩ := Option.ite_none_right_eq_some.mp h
  obtain rfl := Option.some.inj h
  refine ⟨hs.bits, hs.channel, hs.engine, fun e he => ?_⟩
  by_cases hee : e = e₀
  · subst hee
    refine .inr (.inr (.inr ?_))
    change Function.update s.phase e .started e ≠ .idle
    rw [Function.update_self]
    decide
  · exact Handed.congr (hs.handed e he) id id (Function.update_of_ne hee ..) (Function.update_of_ne hee ..)

theorem setDrv_completion (s : IrqRun) (e₀ : EngineRef) (f : Drv → Drv)
    (hf : (s.drv e₀).eng.regs.interruptEnableMask &&& completionBits = completionBits →
      (f (s.drv e₀)).eng.regs.interruptEnableMask &&& completionBits = completionBits) (e : EngineRef)
    (h : (s.drv e).eng.regs.interruptEnableMask &&& completionBits = completionBits) :
    ((s.setDrv e₀ f).drv e).eng.regs.interruptEnableMask &&& completionBits = completionBits := by
  change (Function.update s.drv e₀ _ e).eng.regs.interruptEnableMask &&& _ = _
  by_cases hee : e = e₀
  · subst hee
    rw [Function.update_self]
    exact hf h
  · rwa [Function.update_of_ne hee]

theorem workService_handed {s s' : IrqRun} {e₀ : EngineRef} {r : ServiceRegs} (hs : s.MaskHanded)
    (h : s.step p (.workService e₀ r) = some s') : s'.MaskHanded := by
  obtain ⟨-, h⟩ := Option.ite_none_right_eq_some.mp h
  obtain rfl := Option.some.inj h
  have hrv : ¬ ((s.drv e₀).engineService p 0 r).2 < 0 := by
    have hnoerr : wbErr 0 = false := by decide
    by_cases hrun : (s.drv e₀).eng.running = false
    · rw [engineService, if_pos hrun]
      exact lt_irrefl 0
    · rw [engineService, if_neg hrun]
      simp only [hnoerr, Bool.false_eq_true, ↓reduceIte]
      exact lt_irrefl 0
  have hkept := setDrv_completion s e₀ (fun d => (d.engineService p 0 r).1)
    (engineService_keeps (completion_kept p) 0 r)
  refine ⟨hs.bits, hs.channel, fun hx e => hkept e (hs.engine hx e), fun e he => ?_⟩
  by_cases hee : e = e₀
  · subst hee
    refine .inr (.inr (.inr ?_))
    change Function.update s.phase e (if _ then .idle else .serviced) e ≠ .idle
    rw [Function.update_self, if_neg hrv]
    decide
  · refine Handed.congr (hs.handed e he) id ?_ rfl (Function.update_of_ne hee ..)
    exact fun hen => ⟨hen.1, hkept e hen.2⟩

theorem workUnmask_handed (hp : p.pollMode = false) {s s' : IrqRun} {e₀ : EngineRef} (hs : s.MaskHanded)
    (h : s.step p (.workUnmask e₀) = some s') : s'.MaskHanded := by
  obtain ⟨-, h⟩ := Option.ite_none_right_eq_some.mp h
  obtain rfl := Option.some.inj h
  have hvalue := interruptEnableMaskValue_completion hp
  unfold unmask
  cases hmsix : s.msixEnabled with
  | true =>
    simp only [↓reduceIte]
    have hkept := setDrv_completion s e₀ (fun d => d.setInterruptEnableMask
      (d.eng.regs.interruptEnableMask ||| interruptEnableMaskValue p)) fun _ => or_and_eq hvalue
    refine ⟨hs.bits, fun _ => hs.channel hmsix, fun hx e => hkept e (hs.engine hx e), fun e he => ?_⟩
    by_cases hee : e = e₀
    · subst hee
      refine .inr (.inl ⟨?_, ?_⟩)
      · change s.channelIntEnable &&& _ = _
        rw [hs.channel hmsix]
        exact BitVec.allOnes_and
      · change (Function.update s.drv e _ e).eng.regs.interruptEnableMask &&& _ = _
        rw [Function.update_self]
        exact or_and_eq hvalue
    · refine Handed.congr (hs.handed e he) id ?_ rfl (Function.update_of_ne hee ..)
      exact fun hen => ⟨hen.1, hkept e hen.2⟩
  | false =>
    simp only [Bool.false_eq_true, ↓reduceIte]
    refine ⟨hs.bits, fun hx => absurd hx Bool.false_ne_true, fun _ => hs.engine hmsix, fun e he => ?_⟩
    by_cases hee : e = e₀
    · subst hee
      exact .inr (.inl ⟨or_and_eq (BitVec.and_self ..), hs.engine hmsix e⟩)
    · refine Handed.congr (hs.handed e he) id ?_ rfl (Function.update_of_ne hee ..)
      rintro ⟨hchannel, hengine⟩
      refine ⟨?_, hengine⟩
      change (s.channelIntEnable ||| s.bits.bitmask e₀) &&& s.bits.bitmask e = s.bits.bitmask e
      rw [BitVec.or_comm]
      exact or_and_eq hchannel

theorem queue_handed {s s' : IrqRun} {e₀ : EngineRef} {t : XferRef} {w : U32} (hs : s.MaskHanded)
    (h : s.step p (.queue e₀ t w) = some s') : s'.MaskHanded := by
  obtain rfl := Option.some.inj h
  have hkept := setDrv_completion s e₀ (fun d => (d.transferQueue p t w).1)
    (transferQueue_keeps (completion_kept p) t w)
  refine ⟨hs.bits, hs.channel, fun hx e => hkept e (hs.engine hx e), fun e he => ?_⟩
  exact Handed.congr (hs.handed e he) id (fun hen => ⟨hen.1, hkept e hen.2⟩) rfl rfl

theorem step_handed (hp : p.pollMode = false) {s s' : IrqRun} {a : IrqAct} (hs : s.MaskHanded)
    (h : s.step p a = some s') : s'.MaskHanded := by
  cases a with
  | isr chIrq => exact isr_handed hs h
  | isrSchedule => exact isrSchedule_handed hs h
  | isrReturn => exact isrReturn_handed hs h
  | channelIrq e => exact channelIrq_handed hs h
  | channelIrqSchedule e => exact channelIrqSchedule_handed hs h
  | workStart e => exact workStart_handed hs h
  | workService e r => exact workService_handed hs h
  | workUnmask e => exact workUnmask_handed hp hs h
  | queue e t w => exact queue_handed hs h

/-- Once the handler that masked an engine has scheduled its work, the work is scheduled or
running until the interrupt is enabled again. -/
theorem interrupt_not_left_masked (hp : p.pollMode = false) {s : IrqRun}
    (h : Reachable (step p) (Online p) (fun _ _ => True) s) {e : EngineRef} (he : s.bits.Exists e)
    (hin : ¬ s.InHandler e) : s.CompletionEnabled e ∨ s.scheduled e = true ∨ s.phase e ≠ .idle := by
  have hs : s.MaskHanded := h.invariant (fun _ => Online.handed hp) fun _ _ _ hs _ => step_handed hp hs
  exact (hs.handed e he).resolve_left hin

def onlineDevice : IrqRun where
  msixEnabled := false
  bits := (OpenEnv.lostEngine.xdmaDeviceOpen {}).1.irqBits
  channelIntEnable := BitVec.allOnes 32
  drv := fun _ => ({} : Drv).engineInitRegs {}
  scheduled := fun _ => false
  phase := fun _ => .idle
  isr := none
  channelIrq := fun _ => false

theorem onlineDevice_online : onlineDevice.Online {} :=
  ⟨⟨_, _, Prod.ext rfl (by decide), rfl⟩, rfl, fun _ => rfl, rfl, fun _ => rfl⟩

theorem interrupt_not_left_masked_both : ∃ s : IrqRun, s.channelIntEnable = ~~~4 ∧
    (s.CompletionEnabled ⟨.fromDevice, 0⟩ ∨ s.scheduled ⟨.fromDevice, 0⟩ = true ∨
      s.phase ⟨.fromDevice, 0⟩ ≠ .idle) := by
  have hrun : (run (step {}) (fun _ _ => True) onlineDevice
      [.isr 5, .isrSchedule, .workStart ⟨.toDevice, 0⟩, .workService ⟨.toDevice, 0⟩ ⟨0, 0, 0⟩,
        .workUnmask ⟨.toDevice, 0⟩, .isrSchedule]).map (fun s => (s.channelIntEnable,
          decide (s.bits.Exists ⟨.fromDevice, 0⟩), s.isr, s.channelIrq ⟨.fromDevice, 0⟩)) =
            some (~~~4, true, some [], false) := by decide
  obtain ⟨s, hs, heq⟩ := exists_reachable onlineDevice_online hrun
  simp only [Prod.mk.injEq] at heq
  obtain ⟨hchannel, hexists, hisr, hirq⟩ := heq
  refine ⟨s, hchannel, interrupt_not_left_masked rfl hs (of_decide_eq_true hexists) ?_⟩
  simp [InHandler, hisr, hirq]

end IrqRun

end XdmaDriver
