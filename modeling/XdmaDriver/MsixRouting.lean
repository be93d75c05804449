import XdmaDriver.DeviceOpen

/-!
The vector registers that `prog_irq_msix_channel` and `prog_irq_msix_user` program, and the
handler that an interrupt of an opened device reaches through them in MSI-X mode.
-/

namespace XdmaDriver

open Ledger

def vectorWord (max : ℕ) : ℕ → ℕ → ℕ → U32 → U32 × ℕ
  | 0, i, _, val => (val, i)
  | n + 1, i, shift, val =>
    if i < max then vectorWord max n (i + 1) (shift + 8)
    (val ||| (BitVec.ofNat 32 i &&& 0x1f) <<< shift) else (val, i)

def vectorWords (clear : Bool) (max : ℕ) : ℕ → ℕ → List U32
  | 0, _ => []
  | n + 1, i =>
    if i < max then
      let (val, i) := if clear then (0, i + 4) else vectorWord max 4 i 0 0
      val :: vectorWords clear max n i
    else []

namespace XdmaDev

def progIrqMsixChannel (clear : Bool) (d : XdmaDev) : List U32 :=
  let max := d.c2hChannelMax + d.h2cChannelMax
  vectorWords clear max max 0

def progIrqMsixUser (clear : Bool) (d : XdmaDev) : List U32 :=
  let i := d.c2hChannelMax + d.h2cChannelMax
  vectorWords clear (i + d.userMax) d.userMax i

end XdmaDev

def lane (k : ℕ) (word : U32) : BitVec 5 := word.extractLsb' (8 * k) 5

/-- The vector of interrupt `bit` after the writes to registers that held `regs`. -/
def vectorOf (regs : ℕ → U32) (words : List U32) (bit : ℕ) : ℕ :=
  (lane (bit % 4) (words.getD (bit / 4) (regs (bit / 4)))).toNat

theorem lane_or (k : ℕ) (x y : U32) : lane k (x ||| y) = lane k x ||| lane k y := BitVec.extractLsb'_or

theorem vector_masked (i : ℕ) : BitVec.ofNat 32 i &&& 0x1f = (BitVec.ofNat 5 i).setWidth 32 := by
  apply BitVec.eq_of_toNat_eq
  rw [BitVec.toNat_and, BitVec.toNat_setWidth, BitVec.toNat_ofNat, BitVec.toNat_ofNat]
  change i % 2 ^ 32 &&& 2 ^ 5 - 1 = i % 2 ^ 5 % 2 ^ 32
  rw [Nat.and_two_pow_sub_one_eq_mod]
  omega

theorem lane_shifted : ∀ (z : BitVec 5) (k j : Fin 4),
    lane k (z.setWidth 32 <<< (8 * j.val)) = if k = j then z else 0 := by
  decide

theorem vectorWord_spec (max n : ℕ) : ∀ {i j : ℕ} {val : U32}, i ≤ max → j + n ≤ 4 →
    (∀ k, j ≤ k → k < 4 → lane k val = 0) →
      (vectorWord max n i (8 * j) val).2 = min (i + n) max ∧
        (∀ k < j, lane k (vectorWord max n i (8 * j) val).1 = lane k val) ∧
        ∀ k < n, i + k < max → lane (j + k) (vectorWord max n i (8 * j) val).1 = BitVec.ofNat 5 (i + k) := by
  induction n with
  | zero =>
    intro i j val hi _ _
    exact ⟨by simp [vectorWord, hi], fun _ _ => rfl, fun k hk => absurd hk (Nat.not_lt_zero k)⟩
  | succ n ih =>
    intro i j val hi hj hzero
    rw [vectorWord]
    split
    · rename_i hlt
      let next := val ||| (BitVec.ofNat 32 i &&& 0x1f) <<< (8 * j)
      have hnext (k : ℕ) (hk : k < 4) : lane k next = lane k val |||
        if k = j then BitVec.ofNat 5 i else 0 := by
        have hshift := lane_shifted (BitVec.ofNat 5 i) ⟨k, hk⟩ ⟨j, by omega⟩
        rw [lane_or, vector_masked, hshift]
        simp only [Fin.mk.injEq]
      have hnone : ∀ k, j + 1 ≤ k → k < 4 → lane k next = 0 := by
        intro k hle hk
        rw [hnext k hk, hzero k (by omega) hk, if_neg (by omega)]
        rfl
      obtain ⟨hend, hkeep, hlane⟩ := @ih (i + 1) (j + 1) next (by omega) (by omega) hnone
      have hshift : 8 * j + 8 = 8 * (j + 1) := by omega
      rw [hshift]
      refine ⟨by rw [hend]; congr 1; omega, fun k hk => ?_, fun k hk hik => ?_⟩
      · rw [hkeep k (by omega), hnext k (by omega), if_neg (by omega)]
        exact BitVec.or_zero
      · cases k with
        | zero =>
          rw [Nat.add_zero, hkeep j (Nat.lt_succ_self j), hnext j (by omega), hzero j (le_refl j) (by omega),
            if_pos rfl]
          exact BitVec.zero_or
        | succ k =>
          have hrest := hlane k (by omega) (by omega)
          rw [show j + (k + 1) = j + 1 + k by omega, show i + (k + 1) = i + 1 + k by omega]
          exact hrest
    · rename_i hlt
      refine ⟨by omega, fun _ _ => rfl, fun k _ hik => absurd hik (by omega)⟩

theorem vectorWords_getD (regs : ℕ → U32) (max n : ℕ) : ∀ {i v : ℕ}, max - i ≤ n → i + v < max →
    lane (v % 4) ((vectorWords false max n i).getD (v / 4) (regs (v / 4))) = BitVec.ofNat 5 (i + v) := by
  induction n generalizing regs with
  | zero => intro i v hn hv; omega
  | succ n ih =>
    intro i v hn hv
    obtain ⟨hend, -, hlane⟩ := @vectorWord_spec max 4 i 0 0 (by omega) (by omega)
      fun k _ hk => by
        unfold lane
        exact BitVec.extractLsb'_zero ..
    have hwords : vectorWords false max (n + 1) i =
        (vectorWord max 4 i 0 0).1 :: vectorWords false max n (vectorWord max 4 i 0 0).2 := by
      rw [vectorWords, if_pos (by omega)]
      rfl
    rw [hwords]
    rcases Nat.lt_or_ge v 4 with hlt | hge
    · have hfirst := hlane v hlt hv
      rw [Nat.div_eq_of_lt hlt, Nat.mod_eq_of_lt hlt, List.getD_cons_zero]
      rwa [Nat.zero_add, Nat.mul_zero] at hfirst
    · obtain ⟨u, rfl⟩ := Nat.exists_eq_add_of_le hge
      have hnext : (vectorWord max 4 i 0 0).2 = i + 4 := by
        rw [Nat.mul_zero] at hend
        omega
      have hrest := ih (fun k => regs (k + 1)) (i := i + 4) (v := u) (by omega) (by omega)
      rw [hnext, show (4 + u) / 4 = u / 4 + 1 by omega, show (4 + u) % 4 = u % 4 by omega,
        List.getD_cons_succ, hrest,
        Nat.add_assoc]

theorem vectorOf_written (regs : ℕ → U32) {max n i v : ℕ} (hn : max - i ≤ n) (hv : i + v < max)
    (hmax : max ≤ 32) :
    vectorOf regs (vectorWords false max n i) v = i + v := by
  rw [vectorOf, vectorWords_getD regs max n hn hv, BitVec.toNat_ofNat]
  exact Nat.mod_eq_of_lt (by omega)

theorem vectorWords_length (clear : Bool) (max n : ℕ) : ∀ {i : ℕ}, max - i ≤ n →
    (vectorWords clear max n i).length = (max - i + 3) / 4 := by
  induction n with
  | zero =>
    intro i hn
    rw [vectorWords, List.length_nil]
    omega
  | succ n ih =>
    intro i hn
    rw [vectorWords]
    split
    · rename_i hlt
      cases clear with
      | true =>
        simp only [↓reduceIte, List.length_cons]
        rw [ih (by omega)]
        omega
      | false =>
        have hend := (@vectorWord_spec max 4 i 0 0 (by omega) (by omega) fun k _ _ =>
          BitVec.extractLsb'_zero ..).1
        rw [Nat.mul_zero] at hend
        simp only [Bool.false_eq_true, ↓reduceIte, List.length_cons]
        rw [ih (by omega), hend]
        omega
    · rw [List.length_nil]
      omega

def EngineProbe.Found (probe : EngineProbe) (dir : DmaDir) (ch : ℕ) : Prop :=
  (probe.identifier &&& 0xffff0000) >>> 16 = OpenDev.engineIdExpected dir ∧
    ((probe.identifier &&& 0xf00) >>> 8).toNat = ch

instance EngineProbe.decidableFound (probe : EngineProbe) (dir : DmaDir) (ch : ℕ) :
    Decidable (probe.Found dir ch) :=
  inferInstanceAs (Decidable (_ ∧ _))

def lostBit (probe : ℕ → EngineProbe) (dir : DmaDir) (limit k : ℕ) : ℕ :=
  if k < limit ∧ (probe k).Found dir k then 1 else 0

namespace OpenDev

variable {p : Params} {d : OpenDev} {base : List DevRes}

structure SameBits (d d' : OpenDev) : Prop where
  enginesNum : d'.enginesNum = d.enginesNum
  maskIrq : d'.maskIrq = d.maskIrq

theorem SameBits.trans {d' d'' : OpenDev} (h : d.SameBits d') (h' : d'.SameBits d'') : d.SameBits d'' :=
  ⟨h'.enginesNum.trans h.enginesNum, h'.maskIrq.trans h.maskIrq⟩

theorem freeBuf_bits (d : OpenDev) (dir : DmaDir) (ch : ℕ) (buf : EngineBuf) :
    d.SameBits (d.freeBuf dir ch buf) := by
  unfold freeBuf
  split <;> exact ⟨rfl, rfl⟩

theorem engineFreeResource_bits (d : OpenDev) (dir : DmaDir) (ch : ℕ) :
    d.SameBits (d.engineFreeResource dir ch) :=
  ((freeBuf_bits ..).trans (freeBuf_bits ..)).trans (freeBuf_bits ..)

theorem allocBuf_bits (d : OpenDev) (probe : EngineProbe) (dir : DmaDir) (ch : ℕ) (buf : EngineBuf) :
    d.SameBits (d.allocBuf probe dir ch buf).1 := by
  unfold allocBuf
  split <;> exact ⟨rfl, rfl⟩

theorem engineAllocResource_bits (p : Params) (d : OpenDev) (probe : EngineProbe) (dir : DmaDir) (ch : ℕ) :
    d.SameBits (d.engineAllocResource p probe dir ch).1 := by
  have hfreed {d' : OpenDev} (h : d.SameBits d') : d.SameBits (d'.engineFreeResource dir ch) :=
    h.trans (engineFreeResource_bits d' dir ch)
  have hdesc := allocBuf_bits d probe dir ch .desc
  have hpoll := hdesc.trans (allocBuf_bits (d.allocBuf probe dir ch .desc).1 probe dir ch .pollModeAddr)
  have hresult {d' : OpenDev} (h : d.SameBits d') : d.SameBits (d'.allocBuf probe dir ch .cyclicResult).1 :=
    h.trans (allocBuf_bits d' probe dir ch .cyclicResult)
  unfold engineAllocResource
  dsimp only
  split_ifs
  all_goals
    first
    | exact hfreed hdesc
    | exact hfreed hpoll
    | exact hfreed (hresult hdesc)
    | exact hfreed (hresult hpoll)
    | exact hresult hdesc
    | exact hresult hpoll
    | exact hdesc
    | exact hpoll

theorem engineInit_bit (h : Sound p d base) (probe : EngineProbe) (dir : DmaDir) (ch : ℕ)
    (hclean : Clean (d.engine dir ch)) : (d.engineInit p probe dir ch).1.enginesNum = d.enginesNum + 1 ∧
      ((d.engineInit p probe dir ch).1.engine dir ch).irqBit = d.enginesNum := by
  have he₁ := initEngine_engine (p := p) d probe dir ch
  obtain ⟨hs, -⟩ := engineAllocResource_step (h.initEngine probe dir ch hclean) probe dir ch fun b => by
    rw [he₁]
    exact hclean.1 b
  have hnum := (engineAllocResource_bits p (d.initEngine p probe dir ch) probe dir ch).enginesNum
  have hbit : (((d.initEngine p probe dir ch).engineAllocResource p probe dir ch).1.engine dir ch).irqBit =
      d.enginesNum := by
    rw [hs.irqBit, he₁]
    rfl
  rw [engineInit_eq]
  split
  · exact ⟨hnum, hbit⟩
  · dsimp only
    split
    · refine ⟨hnum, ?_⟩
      rw [addWork, acquire, engine_setEngine, if_pos ⟨rfl, rfl⟩]
      exact hbit
    · exact ⟨hnum, hbit⟩

theorem probeForEngine_found {probe : EngineProbe} {dir : DmaDir} {ch : ℕ} (h : probe.Found dir ch) :
    d.probeForEngine p probe dir ch = d.engineInit p probe dir ch := by
  rw [probeForEngine, if_neg]
  exact fun hne => hne.elim (fun hid => hid h.1) fun hch => hch h.2

theorem probeForEngine_missing {probe : EngineProbe} {dir : DmaDir} {ch : ℕ} (h : ¬probe.Found dir ch) :
    d.probeForEngine p probe dir ch = (d, err .inval) := by
  rw [probeForEngine, if_pos]
  exact not_and_or.mp h

/-- The engines of one direction take consecutive bits; one that is found and fails takes one more. -/
theorem probeChannels_bits (probe : ℕ → EngineProbe) (dir : DmaDir) (n : ℕ) : ∀ {i : ℕ} {d : OpenDev},
    Sound p d base → d.Reached dir i → i ≤ (probeChannels p probe dir n i d).2 ∧
      (∀ ch < i, (probeChannels p probe dir n i d).1.engine dir ch = d.engine dir ch) ∧
      (∀ ch, i ≤ ch → ch < (probeChannels p probe dir n i d).2 →
        ((probeChannels p probe dir n i d).1.engine dir ch).irqBit = d.enginesNum + (ch - i)) ∧
      (probeChannels p probe dir n i d).1.enginesNum = d.enginesNum +
        ((probeChannels p probe dir n i d).2 - i) +
        lostBit probe dir (i + n) (probeChannels p probe dir n i d).2 := by
  induction n with
  | zero =>
    intro i d _ _
    refine ⟨le_refl i, fun _ _ => rfl, fun ch hle hlt => absurd hlt (Nat.not_lt.mpr hle), ?_⟩
    rw [lostBit, if_neg fun h => lt_irrefl _ h.1]
    simp [probeChannels]
  | succ n ih =>
    intro i d h hr
    have hclean := hr.1 i (le_refl i)
    obtain ⟨hs, hf, hok, -⟩ := probeForEngine_spec h (probe i) dir i hclean
    rw [probeChannels]
    by_cases hfound : (probe i).Found dir i
    · obtain ⟨hnum, hbit⟩ := engineInit_bit h (probe i) dir i hclean
      rw [probeForEngine_found hfound] at hs hf hok ⊢
      cases hinit : d.engineInit p (probe i) dir i with
      | mk d' rv =>
        rw [hinit] at hs hf hok hnum hbit
        dsimp only at hs hf hok hnum hbit ⊢
        have hother : ∀ ch < i, d'.engine dir ch = d.engine dir ch :=
          fun ch hlt => hf.other dir ch fun hdc => Nat.ne_of_lt hlt hdc.2
        split
        · refine ⟨le_refl i, hother, fun ch hle hlt => absurd hlt (Nat.not_lt.mpr hle), ?_⟩
          rw [lostBit, if_pos ⟨Nat.lt_add_of_pos_right (Nat.succ_pos n), hfound⟩, hnum, Nat.sub_self]
        · rename_i hrv
          obtain ⟨hle, hkeep, hbits, htotal⟩ := ih hs (hr.probed hf (hok (not_not.mp hrv)))
          refine ⟨Nat.le_of_succ_le hle, fun ch hlt => ?_, fun ch hge hlt => ?_, ?_⟩
          · rw [hkeep ch (Nat.lt_succ_of_lt hlt), hother ch hlt]
          · rcases Nat.eq_or_lt_of_le hge with rfl | hgt
            · rw [hkeep i (Nat.lt_succ_self i), hbit, Nat.sub_self]
              rfl
            · rw [hbits ch hgt hlt, hnum]
              omega
          · rw [htotal, hnum, show i + (n + 1) = i + 1 + n by omega]
            omega
    · rw [probeForEngine_missing hfound]
      dsimp only
      rw [if_pos (err_neg .inval).ne]
      refine ⟨le_refl i, fun _ _ => rfl, fun ch hle hlt => absurd hlt (Nat.not_lt.mpr hle), ?_⟩
      rw [lostBit, if_neg fun h => hfound h.2, Nat.sub_self]
      rfl

theorem probeEngines_bits (h : Sound p d base) (hnew : ∀ dir, d.Reached dir 0) (hnum : d.enginesNum = 0)
    (probe : DmaDir → ℕ → EngineProbe) :
    (∀ ch < (d.probeEngines p probe).irq.h2cChannelMax,
      ((d.probeEngines p probe).engine .toDevice ch).irqBit = ch) ∧
      ∀ ch < (d.probeEngines p probe).irq.c2hChannelMax,
        ((d.probeEngines p probe).engine .fromDevice ch).irqBit =
        (d.probeEngines p probe).irq.h2cChannelMax +
          lostBit (probe .toDevice) .toDevice d.irq.h2cChannelMax
          (d.probeEngines p probe).irq.h2cChannelMax + ch := by
  obtain ⟨h₁, ha₁, -⟩ := probeChannels_spec (probe .toDevice) .toDevice d.irq.h2cChannelMax h (hnew _)
  obtain ⟨-, -, hbits₁, htotal₁⟩ := probeChannels_bits (probe .toDevice) .toDevice
    d.irq.h2cChannelMax h (hnew _)
  rw [probeEngines]
  cases heq₁ : probeChannels p (probe .toDevice) .toDevice d.irq.h2cChannelMax 0 d with
  | mk d₁ i =>
    rw [heq₁] at h₁ ha₁ hbits₁ htotal₁
    dsimp only at h₁ ha₁ hbits₁ htotal₁ ⊢
    have hnew₁ := ha₁.reached (hnew .fromDevice) { d₁.irq with h2cChannelMax := i }
    obtain ⟨-, ha₂, -⟩ := probeChannels_spec (probe .fromDevice) .fromDevice d₁.irq.c2hChannelMax
      (h₁.withIrq { d₁.irq with h2cChannelMax := i }) hnew₁
    obtain ⟨-, -, hbits₂, -⟩ := probeChannels_bits (probe .fromDevice) .fromDevice d₁.irq.c2hChannelMax
      (h₁.withIrq { d₁.irq with h2cChannelMax := i }) hnew₁
    cases heq₂ : probeChannels p (probe .fromDevice) .fromDevice d₁.irq.c2hChannelMax 0
        { d₁ with irq := { d₁.irq with h2cChannelMax := i } } with
    | mk d₂ j =>
      rw [heq₂] at ha₂ hbits₂
      dsimp only at ha₂ hbits₂ ⊢
      rw [ha₂.irq]
      constructor
      · intro ch hch
        rw [ha₂.other .toDevice (by decide)]
        dsimp only
        rw [hbits₁ ch (Nat.zero_le ch) hch, hnum]
        omega
      · intro ch hch
        rw [hbits₂ ch (Nat.zero_le ch) hch, htotal₁, hnum]
        dsimp only
        rw [Nat.zero_add d.irq.h2cChannelMax]
        omega

end OpenDev

namespace XdmaDev

variable {pdev : PciDev}

def Handles (pdev : PciDev) (d : XdmaDev) (vector : ℕ) (id : DevId) : Prop :=
  ∃ held : List Irq, Leaves d.log (· ∈ held) ∧
    ∀ id', (⟨pdev.pciIrqVector vector, id'⟩ : Irq) ∈ held ↔ id' = id

def vectorId (d : XdmaDev) (v : ℕ) : DevId :=
  if v < d.h2cChannelMax then .engine .toDevice v
  else if v < d.h2cChannelMax + d.c2hChannelMax then .engine .fromDevice (v - d.h2cChannelMax)
  else .userIrq (v - (d.h2cChannelMax + d.c2hChannelMax))

theorem mem_lines_iff {d : XdmaDev} (hx : d.msixEnabled = true) (irq : Irq) : irq ∈ d.lines pdev ↔
    ∃ v < d.h2cChannelMax + d.c2hChannelMax + d.userMax, irq = ⟨pdev.pciIrqVector v, d.vectorId v⟩ := by
  rw [lines_msix hx, channelLines]
  simp only [List.mem_append, List.mem_map, List.mem_range]
  constructor
  · rintro ((⟨i, hi, rfl⟩ | ⟨i, hi, rfl⟩) | ⟨i, hi, rfl⟩)
    · refine ⟨i, by omega, ?_⟩
      rw [vectorId, if_pos hi, channelIrq, Nat.zero_add]
    · refine ⟨d.h2cChannelMax + i, by omega, ?_⟩
      rw [vectorId, if_neg (by omega), if_pos (by omega), channelIrq, Nat.add_sub_cancel_left]
    · refine ⟨d.h2cChannelMax + d.c2hChannelMax + i, by omega, ?_⟩
      rw [vectorId, if_neg (by omega), if_neg (by omega), userIrq, Nat.add_sub_cancel_left]
  · rintro ⟨v, hv, rfl⟩
    unfold vectorId
    split
    · rename_i hlt
      exact .inl (.inl ⟨v, hlt, by rw [channelIrq, Nat.zero_add]⟩)
    · rename_i hge
      split
      · rename_i hlt
        refine .inl (.inr ⟨v - d.h2cChannelMax, by omega, ?_⟩)
        rw [channelIrq, Nat.add_sub_cancel' (Nat.le_of_not_lt hge)]
      · rename_i hge'
        refine .inr ⟨v - (d.h2cChannelMax + d.c2hChannelMax), by omega, ?_⟩
        rw [userIrq, Nat.add_sub_cancel' (Nat.le_of_not_lt hge')]

theorem handles_of_leaves {d : XdmaDev} (hx : d.msixEnabled = true)
    (hdistinct : Set.InjOn pdev.pciIrqVector {i | i < d.h2cChannelMax + d.c2hChannelMax + d.userMax})
    (hl : Leaves d.log (· ∈ d.lines pdev)) {v : ℕ} (hlt : v < d.h2cChannelMax + d.c2hChannelMax + d.userMax) :
    Handles pdev d v (d.vectorId v) := by
  refine ⟨d.lines pdev, hl, fun id' => ?_⟩
  rw [mem_lines_iff hx]
  constructor
  · rintro ⟨w, hw, heq⟩
    rw [Irq.mk.injEq] at heq
    have hvw : v = w := hdistinct hlt hw heq.1
    rw [heq.2, hvw]
  · rintro rfl
    exact ⟨v, hlt, rfl⟩

theorem irqSetup_holds (hneg : ∀ line, pdev.requestIrq line ≤ 0) {d : XdmaDev} (hlog : d.log = [])
    (h : ¬(irqSetup pdev d).2 < 0) :
    LinesKnown pdev (irqSetup pdev d).1 ∧ Logged d (irqSetup pdev d).1 (block (d.lines pdev) true) ∧
      Leaves (irqSetup pdev d).1.log (· ∈ (irqSetup pdev d).1.lines pdev) := by
  obtain ⟨hg, hpin⟩ := irqSetup_succeeds hneg h
  obtain ⟨-, hknown, hlogged⟩ := irqSetup_granted hg hpin
  have hheld := Leaves.nil.acquires (lines_nodup_of_ids pdev d) (by simp)
  refine ⟨hknown, hlogged, ?_⟩
  rw [hlogged.log, hlog, hlogged.lines]
  exact hheld.congr fun irq => by simp

theorem irqSetup_handles (hneg : ∀ line, pdev.requestIrq line ≤ 0) {d : XdmaDev} (hlog : d.log = [])
    (hx : d.msixEnabled = true) (hv : LinesValid (granting pdev) d) (h : ¬(irqSetup pdev d).2 < 0) {v : ℕ}
    (hlt : v < d.h2cChannelMax + d.c2hChannelMax + d.userMax) :
    Handles pdev (irqSetup pdev d).1 v (d.vectorId v) := by
  obtain ⟨-, hlogged, hheld⟩ := irqSetup_holds hneg hlog h
  have hid : (irqSetup pdev d).1.vectorId v = d.vectorId v := by
    rw [vectorId, vectorId, hlogged.h2cChannelMax, hlogged.c2hChannelMax]
  have hmax : (irqSetup pdev d).1.h2cChannelMax + (irqSetup pdev d).1.c2hChannelMax +
    (irqSetup pdev d).1.userMax =
      d.h2cChannelMax + d.c2hChannelMax + d.userMax := by
    rw [hlogged.h2cChannelMax, hlogged.c2hChannelMax, hlogged.userMax]
  rw [← hid]
  apply handles_of_leaves (hlogged.msixEnabled.trans hx) _ hheld (hmax.symm ▸ hlt)
  rw [hmax]
  exact hv.distinct

end XdmaDev

namespace OpenEnv

variable {p : Params} {env : OpenEnv}

theorem openEngines_opened {d d' : OpenDev} (h : env.openEngines p d = (d', none)) :
    ¬((d.probeEngines p env.engine).enableMsiMsix env).2 < 0 ∧
      ¬(((d.probeEngines p env.engine).enableMsiMsix env).1.irq.irqSetup env.pdev).2 < 0 ∧
      d' = { ((d.probeEngines p env.engine).enableMsiMsix env).1 with
        irq := (((d.probeEngines p env.engine).enableMsiMsix env).1.irq.irqSetup env.pdev).1 } := by
  unfold openEngines at h
  split at h
  · simp at h
  · dsimp only at h
    split at h
    · simp at h
    · rename_i hrv
      split at h
      · simp at h
      · rename_i hrv'
        simp only [Prod.mk.injEq, and_true] at h
        exact ⟨hrv, hrv', h.symm⟩

theorem xdmaDeviceOpen_opened {d : OpenDev} (h : env.xdmaDeviceOpen p = (d, none)) :
    (mapBars env.bars).2 = 0 ∧ env.openEngines p env.mappedDev = (d, none) := by
  unfold xdmaDeviceOpen at h
  dsimp only at h
  split at h
  · simp at h
  split at h
  · simp at h
  split at h
  · simp at h
  split at h
  · simp at h
  split at h
  · simp at h
  · rename_i hrv
    exact ⟨not_not.mp hrv, h⟩

structure SetUp (p : Params) (env : OpenEnv) (d : OpenDev) (irq : XdmaDev) : Prop where
  enabled : ((env.mappedDev.probeEngines p env.engine).enableMsiMsix env).1.irq = irq
  probed : (env.mappedDev.probeEngines p env.engine).irq =
    { env.allocDevInstance.irq with h2cChannelMax := irq.h2cChannelMax, c2hChannelMax := irq.c2hChannelMax }
  engine : d.engine = (env.mappedDev.probeEngines p env.engine).engine
  maskIrq : d.maskIrq = (env.mappedDev.probeEngines p env.engine).maskIrq
  msix : irq.msixEnabled = true ↔ env.UsesMsix
  log : irq.log = []
  h2cChannelMax : irq.h2cChannelMax ≤ 4
  c2hChannelMax : irq.c2hChannelMax ≤ 4
  userMax : irq.userMax ≤ 16
  userMax_pos : 0 < irq.userMax
  succeeds : ¬(XdmaDev.irqSetup env.pdev irq).2 < 0
  irq : d.irq = (XdmaDev.irqSetup env.pdev irq).1

theorem SetUp.valid {d : OpenDev} {irq : XdmaDev} (h : SetUp p env d irq) (hk : KernelAnswers env.pdev) :
    XdmaDev.LinesValid (XdmaDev.granting env.pdev) irq := by
  have hh := h.h2cChannelMax
  have hc := h.c2hChannelMax
  have hu := h.userMax
  have hmax : xdmaChannelNumMax + xdmaChannelNumMax + maxUserIrq = 24 := rfl
  constructor
  · exact fun _ => rfl
  · apply hk.distinct.mono
    intro k hlt
    simp only [Set.mem_ofPred_eq] at hlt ⊢
    omega
  · intro k hlt
    exact hk.valid k (by omega)
  · exact hk.irq

theorem exists_setUp {d : OpenDev} (hopen : env.xdmaDeviceOpen p = (d, none)) : ∃ irq, SetUp p env d irq := by
  obtain ⟨hbars, hengines⟩ := xdmaDeviceOpen_opened hopen
  obtain ⟨-, hset, hd⟩ := openEngines_opened hengines
  have hm := mappedDev_mapped p hbars
  obtain ⟨hs₁, -, -, -, -, i, hi, j, hj, hirq₁⟩ :=
    OpenDev.probeEngines_spec hm.sound (mappedDev_fresh env) env.engine
  obtain ⟨⟨log, a, b, hab, heq⟩, -⟩ := enableMsiMsix_spec env hs₁ (by rw [hirq₁]; rfl) (by rw [hirq₁]; rfl)
  have hirq₂ : ((env.mappedDev.probeEngines p env.engine).enableMsiMsix env).1.irq =
    { env.allocDevInstance.irq with
      h2cChannelMax := i, c2hChannelMax := j, msixEnabled := a, msiEnabled := b } := by
    rw [heq, hirq₁]
    rfl
  rw [hirq₂] at hset hd
  refine ⟨_, hirq₂, hirq₁, ?_, ?_, hab, rfl, hi.trans (XdmaDev.clampMax_le _ _),
    hj.trans (XdmaDev.clampMax_le _ _),
    XdmaDev.clampMax_le _ _, XdmaDev.clampMax_pos (by decide) _, hset, ?_⟩
  · rw [hd, heq]
  · rw [hd, heq]
  · rw [hd]

/-- In MSI-X mode an interrupt of an engine reaches the handler of this engine, and a user
interrupt its own; only, when an H2C engine that was found could not be initialised, those of
the C2H engines reach the handler of the next one. -/
theorem msix_routing {d : OpenDev} (hk : KernelAnswers env.pdev) (hx : env.UsesMsix)
    (hopen : env.xdmaDeviceOpen p = (d, none)) (channelRegs userRegs : ℕ → U32) :
    (∀ ch < d.irq.h2cChannelMax, d.irq.Handles env.pdev
        (vectorOf channelRegs (d.irq.progIrqMsixChannel false) (d.engine .toDevice ch).irqBit)
          (.engine .toDevice ch)) ∧
      (∀ ch, ch + lostBit (env.engine .toDevice) .toDevice env.allocDevInstance.irq.h2cChannelMax
        d.irq.h2cChannelMax <
          d.irq.c2hChannelMax → d.irq.Handles env.pdev
        (vectorOf channelRegs (d.irq.progIrqMsixChannel false) (d.engine .fromDevice ch).irqBit)
        (.engine .fromDevice (ch +
          lostBit (env.engine .toDevice) .toDevice env.allocDevInstance.irq.h2cChannelMax
          d.irq.h2cChannelMax))) ∧
      ∀ u < d.irq.userMax, d.irq.Handles env.pdev (vectorOf userRegs (d.irq.progIrqMsixUser false) u)
        (.userIrq u) := by
  obtain ⟨irq, hs⟩ := exists_setUp hopen
  have hm := mappedDev_mapped p (xdmaDeviceOpen_opened hopen).1
  obtain ⟨hbits₁, hbits₂⟩ := OpenDev.probeEngines_bits hm.sound (mappedDev_fresh env) rfl env.engine
  obtain ⟨ops, hops⟩ := XdmaDev.irqSetup_logged env.pdev irq
  rw [← hs.irq] at hops
  have hhandles : ∀ v < irq.h2cChannelMax + irq.c2hChannelMax + irq.userMax, ∀ id, irq.vectorId v = id →
      d.irq.Handles env.pdev v id := by
    rintro v hv id rfl
    rw [hs.irq]
    exact XdmaDev.irqSetup_handles hk.refused hs.log (hs.msix.mpr hx) (hs.valid hk) hs.succeeds hv
  have hh := hs.h2cChannelMax
  have hc := hs.c2hChannelMax
  have hu := hs.userMax
  have hmax : env.mappedDev.irq.h2cChannelMax = env.allocDevInstance.irq.h2cChannelMax := rfl
  rw [hs.probed] at hbits₁ hbits₂
  dsimp only at hbits₁ hbits₂
  rw [hmax] at hbits₂
  rw [XdmaDev.progIrqMsixChannel, XdmaDev.progIrqMsixUser, hs.engine, hops.h2cChannelMax, hops.c2hChannelMax,
    hops.userMax]
  generalize lostBit (env.engine .toDevice) .toDevice env.allocDevInstance.irq.h2cChannelMax
    irq.h2cChannelMax = lost
    at hbits₂ ⊢
  refine ⟨fun ch hch => ?_, fun ch hch => ?_, fun u hlt => ?_⟩
  · rw [hbits₁ ch hch, vectorOf_written channelRegs (by omega) (by omega) (by omega), Nat.zero_add]
    apply hhandles ch (by omega)
    rw [XdmaDev.vectorId, if_pos hch]
  · rw [hbits₂ ch (by omega), vectorOf_written channelRegs (by omega) (by omega) (by omega), Nat.zero_add]
    apply hhandles (irq.h2cChannelMax + lost + ch) (by omega)
    rw [XdmaDev.vectorId, if_neg (by omega), if_pos (by omega)]
    congr 1
    omega
  · rw [vectorOf_written userRegs (by omega) (by omega) (by omega)]
    apply hhandles (irq.c2hChannelMax + irq.h2cChannelMax + u) (by omega)
    rw [XdmaDev.vectorId, if_neg (by omega), if_neg (by omega)]
    congr 1
    omega

/-- Two engines each way; the second H2C engine has no memory for its descriptors. -/
def lostEngine : OpenEnv :=
  { busyLine with
    engine := fun dir ch =>
      ⟨(if dir = .toDevice then 0x1fc00006 else 0x1fc10006) ||| BitVec.ofNat 32 ch <<< 8,
        fun _ => decide (dir = .fromDevice ∨ ch = 0)⟩
    pdev := XdmaDev.msixDevice
    h2cChannelMax := 2
    c2hChannelMax := 2 }

theorem lostEngine_answers : KernelAnswers lostEngine.pdev := by
  have hv : XdmaDev.LinesValid XdmaDev.msixDevice { userMax := 16, h2cChannelMax := 4, c2hChannelMax := 4 } :=
    XdmaDev.msixDevice_valid (by decide)
  exact ⟨fun _ => le_refl 0, hv.distinct, hv.valid, hv.irq⟩

def lostEngineOpened : OpenDev := (lostEngine.xdmaDeviceOpen {}).1

theorem msix_routing_lostEngine : lostEngineOpened.irq.c2hChannelMax = 2 ∧
    lostEngineOpened.irq.Handles lostEngine.pdev
    (vectorOf (fun _ => 0) (lostEngineOpened.irq.progIrqMsixChannel false)
      (lostEngineOpened.engine .fromDevice 0).irqBit) (.engine .fromDevice 1) := by
  have hopen : lostEngine.xdmaDeviceOpen {} = (lostEngineOpened, none) := Prod.ext rfl (by decide)
  have hlost : lostBit (lostEngine.engine .toDevice) .toDevice lostEngine.allocDevInstance.irq.h2cChannelMax
      lostEngineOpened.irq.h2cChannelMax = 1 := by decide
  obtain ⟨-, hc2h, -⟩ := msix_routing lostEngine_answers (by decide) hopen (fun _ => 0) (fun _ => 0)
  rw [hlost] at hc2h
  exact ⟨by decide, hc2h 0 (by decide)⟩

end OpenEnv

end XdmaDriver
