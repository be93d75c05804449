import XdmaDriver.Transfer
import XdmaDriver.Lib.Tiling

/-!
What the hardware reads of a chain besides the addresses: the links, the control flags, and
how many adjacent descriptors it may fetch at once.
-/

namespace XdmaDriver

open Tiling

namespace XdmaDesc

def next (d : XdmaDesc) : U64 := dmaAddr d.nextHi d.nextLo

/-- Bits 8 to 13 of the control word: how many descriptors follow the next one without a gap. -/
def nextAdj (d : XdmaDesc) : ℕ := d.control.toNat / 2 ^ 8 % 2 ^ 6

def SameLink (d d' : XdmaDesc) : Prop :=
  d'.control = d.control ∧ d'.nextLo = d.nextLo ∧ d'.nextHi = d.nextHi

theorem SameLink.refl (d : XdmaDesc) : d.SameLink d := ⟨rfl, rfl, rfl⟩

theorem SameLink.trans {d d' d'' : XdmaDesc} (h : d.SameLink d') (h' : d'.SameLink d'') : d.SameLink d'' :=
  ⟨h'.1.trans h.1, h'.2.1.trans h.2.1, h'.2.2.trans h.2.2⟩

end XdmaDesc

theorem xdmaDescSet_sameLink (d : XdmaDesc) (rc ep : U64) (len : U32) (dir : DmaDir) :
    d.SameLink (xdmaDescSet d rc ep len dir) := by
  cases dir with
  | toDevice => exact ⟨rfl, rfl, rfl⟩
  | fromDevice => exact ⟨rfl, rfl, rfl⟩

theorem transferBuildStep_sameLink (dir : DmaDir) (i j : ℕ) (sd : SwDesc) (ep : U64) (e : XdmaEngine) :
    (e.desc j).SameLink ((transferBuildStep dir i sd ep e).desc j) := by
  by_cases hj : j = i
  · subst hj
    have hset := xdmaDescSet_sameLink (e.desc j) sd.addr ep (BitVec.ofNat 32 sd.len) dir
    unfold transferBuildStep
    by_cases hs : e.streamingC2h = true
    · simp only [hs, ↓reduceIte, Function.update_self]
      exact hset
    · simp only [hs, Bool.false_eq_true, ↓reduceIte, Function.update_self]
      exact hset
  · rw [(transferBuildStep_of_ne dir sd ep e hj).1]
    exact .refl _

theorem transferBuild_sameLink (dir : DmaDir) (sds : List SwDesc) : ∀ (i j : ℕ) (e : XdmaEngine) (ep : U64)
    (len : U32), (e.desc j).SameLink ((transferBuild dir sds i e ep len).1.desc j) := by
  induction sds with
  | nil => exact fun _ _ _ _ _ => .refl _
  | cons sd sds ih =>
    intro i j e ep len
    apply (transferBuildStep_sameLink dir i j sd ep e).trans
    apply ih

def chainControl (eopFlush : Bool) (n j : ℕ) : U32 :=
  if j + 1 = n then xdmaDescStopped ||| xdmaDescEop ||| xdmaDescCompleted
  else if eopFlush then xdmaDescCompleted
  else 0

theorem xdmaDescControlSet_link {d : XdmaDesc} {c : U32} (hc : c &&& ~~~lsByteMask = 0)
    (hd : d.control = descMagic) :
    (xdmaDescControlSet d c).control = descMagic ||| c ∧ (xdmaDescControlSet d c).nextLo = d.nextLo ∧
      (xdmaDescControlSet d c).nextHi = d.nextHi := by
  have hmagic : descMagic &&& ~~~lsByteMask = descMagic := by decide
  unfold xdmaDescControlSet
  simp [hc, hd, hmagic]

theorem transferFinishDesc_slot (eopFlush : Bool) {desc : ℕ → XdmaDesc} {i n j : ℕ} (hj : j < n)
    (hmagic : (desc (i + j)).control = descMagic) :
    let d := transferFinishDesc eopFlush desc i n (i + j)
    d.nextLo = (desc (i + j)).nextLo ∧ d.nextHi = (desc (i + j)).nextHi ∧
      d.control = ((descMagic ||| chainControl eopFlush n j) &&& (0x0000f0ff : U32)) |||
        ((0xAD4B0000 : U32) ||| (BitVec.ofNat 32 (xdmaGetNextAdj (n - j -
          1) (desc (i + j)).nextLo) <<< 8)) := by
  obtain ⟨d₁, hd₁⟩ : ∃ d, d = if j + 1 = n then
      xdmaDescControlSet (desc (i + j)) (xdmaDescStopped ||| xdmaDescEop ||| xdmaDescCompleted)
    else if eopFlush then xdmaDescControlSet (desc (i + j)) xdmaDescCompleted else desc (i + j) := ⟨_, rfl⟩
  have hslot : transferFinishDesc eopFlush desc i n (i + j) =
      xdmaDescAdjacent d₁ (BitVec.ofNat 32 (xdmaGetNextAdj (n - j - 1) d₁.nextLo)) := by
    unfold transferFinishDesc
    rw [updateSlots_of_mem (by omega), Nat.add_sub_cancel_left, hd₁]
    by_cases hlast : j + 1 = n
    · cases eopFlush with
      | false => simp [updateSlots, show i + (n - 1) ≤ i + j ∧ i + j < i + (n - 1) + 1 by omega, hlast]
      | true =>
        simp [updateSlots, show i + (n - 1) ≤ i + j ∧ i + j < i + (n - 1) + 1 by omega,
          show ¬ (i + j < i + (n - 1)) by omega, hlast]
    · cases eopFlush with
      | false => simp [updateSlots, show ¬ (i + (n - 1) ≤ i + j) by omega, hlast]
      | true =>
        simp [updateSlots, show ¬ (i + (n - 1) ≤ i + j) by omega, show i + j < i + (n - 1) by omega, hlast]
  have hlink : d₁.control = descMagic ||| chainControl eopFlush n j ∧ d₁.nextLo = (desc (i + j)).nextLo ∧
      d₁.nextHi = (desc (i + j)).nextHi := by
    rw [hd₁]
    unfold chainControl
    split_ifs
    · exact xdmaDescControlSet_link (by decide) hmagic
    · exact xdmaDescControlSet_link (by decide) hmagic
    · simp [hmagic]
  rw [hslot]
  refine ⟨hlink.2.1, hlink.2.2, ?_⟩
  rw [← hlink.1, ← hlink.2.1]
  rfl

theorem adjacentControl_toNat {f a : U32} (hf : f.toNat < 2 ^ 8) (ha : a.toNat < 2 ^ 8) :
    (f ||| ((0xAD4B0000 : U32) ||| (a <<< 8))).toNat = 0xAD4B0000 + 2 ^ 8 * a.toNat + f.toNat := by
  have hshift : (a <<< 8).toNat = a.toNat <<< 8 := by
    rw [BitVec.toNat_shiftLeft, Nat.shiftLeft_eq]
    omega
  have hhigh : (0xAD4B0000 : U32).toNat = 0xAD4B <<< 16 := by decide
  have hmid : 0xAD4B <<< 16 ||| a.toNat <<< 8 = (0xAD4B * 2 ^ 8 + a.toNat) <<< 8 := by
    rw [← Nat.shiftLeft_add_eq_or_of_lt]
    · simp only [Nat.shiftLeft_eq]
      omega
    · rw [Nat.shiftLeft_eq]
      omega
  rw [BitVec.toNat_or, BitVec.toNat_or, hshift, hhigh, hmid, Nat.or_comm, ← Nat.shiftLeft_add_eq_or_of_lt hf,
    Nat.shiftLeft_eq]
  omega

theorem and_twoPow_ne_zero (c : U32) {k : ℕ} (hk : k < 32) :
    c &&& BitVec.twoPow 32 k ≠ 0 ↔ c.toNat / 2 ^ k % 2 = 1 := by
  have hbit : c.getLsbD k = decide (c.toNat / 2 ^ k % 2 = 1) := by
    rw [← BitVec.testBit_toNat, Nat.testBit_eq_decide_div_mod_eq]
  rw [BitVec.and_twoPow, hbit]
  by_cases h : c.toNat / 2 ^ k % 2 = 1
  · simp only [h, decide_true, ↓reduceIte, ne_eq, iff_true]
    intro hzero
    have := congrArg BitVec.toNat hzero
    rw [BitVec.toNat_twoPow_of_lt hk] at this
    simp at this
  · simp [h]

theorem chainControl_kept (eopFlush : Bool) (n j : ℕ) :
    (descMagic ||| chainControl eopFlush n j) &&& 0x0000f0ff = chainControl eopFlush n j := by
  unfold chainControl
  split_ifs <;> decide

theorem chainControl_flags (eopFlush : Bool) (n j : ℕ) : (chainControl eopFlush n j).toNat < 2 ^ 8 ∧
    ((chainControl eopFlush n j).toNat % 2 = 1 ↔ j + 1 = n) ∧
    ((chainControl eopFlush n j).toNat / 2 ^ 4 % 2 = 1 ↔ j + 1 = n) := by
  unfold chainControl
  split_ifs with hlast
  · exact ⟨by decide, iff_of_true (by decide) hlast, iff_of_true (by decide) hlast⟩
  · exact ⟨by decide, iff_of_false (by decide) hlast, iff_of_false (by decide) hlast⟩
  · exact ⟨by decide, iff_of_false (by decide) hlast, iff_of_false (by decide) hlast⟩

/-- The descriptors `first, ..., first + n - 1` of a ring whose slot `i` has the bus address `bus i`. -/
structure ChainFormat (bus : ℕ → U64) (desc : ℕ → XdmaDesc) (first n : ℕ) : Prop where
  next : ∀ j, j + 1 < n → (desc (first + j)).next = bus (first + (j + 1))
  last : (desc (first + (n - 1))).next = 0
  magic : ∀ j < n, (desc (first + j)).control >>> 16 = 0xAD4B
  stopped : ∀ j < n, (desc (first + j)).control &&& xdmaDescStopped ≠ 0 ↔ j + 1 = n
  eop : ∀ j < n, (desc (first + j)).control &&& xdmaDescEop ≠ 0 ↔ j + 1 = n

/-- The adjacent count that the engine reads before it fetches descriptor `j` of a chain:
for the first one in a register, for every other one in the descriptor before it. -/
def announcedAdj (e : XdmaEngine) (first : ℕ) : ℕ → ℕ
  | 0 => e.regs.firstDescAdjacent.toNat
  | j + 1 => (e.desc (first + j)).nextAdj

/-- The descriptors that `count j` announces follow descriptor `j`: they belong to the chain,
and to the block of descriptor `j` in the ring. -/
structure AdjacentCounts (first n : ℕ) (count : ℕ → ℕ) : Prop where
  inChain : ∀ j < n, j + count j < n
  inBlock : ∀ j < n, (first + j + count j) / xdmaMaxAdjBlockSize = (first + j) / xdmaMaxAdjBlockSize
  succ : ∀ j, j + 1 < n → (first + j + 1) / xdmaMaxAdjBlockSize = (first + j) / xdmaMaxAdjBlockSize →
    count j = count (j + 1) + 1
  zero : ∀ j < n, count j = 0 ↔
    j + 1 = n ∨ (first + j + 1) / xdmaMaxAdjBlockSize ≠ (first + j) / xdmaMaxAdjBlockSize

theorem AdjacentCounts.of_leftInRound {first n : ℕ} {count : ℕ → ℕ}
    (h : ∀ j < n, count j = leftInRound xdmaMaxAdjBlockSize (first + j) (n - j)) :
      AdjacentCounts first n count := by
  have hsize : 0 < xdmaMaxAdjBlockSize := by decide
  constructor
  · intro j hj
    have := leftInRound_lt (d := xdmaMaxAdjBlockSize) (a := first + j) (show 0 < n - j by omega)
    rw [h j hj]
    omega
  · intro j hj
    rw [h j hj]
    exact leftInRound_inside hsize
  · intro j hj hblock
    rw [h j (by omega), h (j + 1) hj, leftInRound_succ hsize (by omega) hblock, ← Nat.add_assoc, Nat.sub_sub]
  · intro j hj
    rw [h j hj, leftInRound_eq_zero hsize (by omega)]
    apply or_congr_left
    omega

theorem xdmaGetNextAdj_slot {e : XdmaEngine} (halign : e.descBus.toNat % xdmaPageSize = 0) (remaining i : ℕ) :
    xdmaGetNextAdj remaining (pciDmaL (e.descBusAt i)) = leftInRound xdmaMaxAdjBlockSize i remaining := by
  have hindex : (pciDmaL (e.descBusAt i)).toNat % xdmaPageSize / 2 ^ 5 % xdmaMaxAdjBlockSize =
      i % xdmaMaxAdjBlockSize := by
    simp only [pciDmaL, XdmaEngine.descBusAt, BitVec.toNat_setWidth, BitVec.toNat_add, BitVec.toNat_ofNat,
      xdmaPageSize, xdmaMaxAdjBlockSize] at halign ⊢
    omega
  unfold xdmaGetNextAdj leftInRound
  rw [hindex]
  split_ifs with hone
  · omega
  · dsimp only
    omega

theorem leftInRound_lt_size (a n : ℕ) : leftInRound xdmaMaxAdjBlockSize a n < xdmaMaxAdjBlockSize := by
  unfold leftInRound xdmaMaxAdjBlockSize
  omega

namespace Drv

theorem transferInit_slot {s : Drv} {req : XdmaRequestCb} (t : XferRef) {j : ℕ}
    (halign : s.eng.descBus.toNat % xdmaPageSize = 0) (hj : j < chainLen s.eng req) :
    let d := (s.transferInit req t).1.eng.desc (s.eng.descIdx + j)
    d.next = (if j + 1 < chainLen s.eng req then s.eng.descBusAt (s.eng.descIdx + (j + 1)) else 0) ∧
      d.control.toNat = 0xAD4B0000 +
        2 ^ 8 * leftInRound xdmaMaxAdjBlockSize (s.eng.descIdx + (j + 1)) (chainLen s.eng req - (j + 1)) +
        (chainControl s.eng.eopFlush (chainLen s.eng req) j).toNat := by
  obtain ⟨e₀, he₀⟩ : ∃ e, e = { s.eng with
    desc := transferDescInit s.eng s.eng.descIdx (chainLen s.eng req) } := ⟨_, rfl⟩
  obtain ⟨next, hnext⟩ : ∃ a, a =
      if j + 1 < chainLen s.eng req then s.eng.descBusAt (s.eng.descIdx + (j + 1)) else 0 := ⟨_, rfl⟩
  have hinit : e₀.desc (s.eng.descIdx + j) =
      { s.eng.desc (s.eng.descIdx + j) with
        nextLo := pciDmaL next, nextHi := pciDmaH next, bytes := 0, control := descMagic } := by
    have hlt : s.eng.descIdx + (j + 1) < s.eng.descIdx + chainLen s.eng req ↔
      j + 1 < chainLen s.eng req := by omega
    rw [he₀]
    dsimp only
    rw [transferDescInit, updateSlots_of_mem (by omega), hnext]
    simp only [Nat.add_assoc, hlt]
  have hlink := transferBuild_sameLink s.eng.dir (chainSdesc s.eng req) s.eng.descIdx (s.eng.descIdx + j) e₀
    req.epAddr 0
  have hfinal : (s.transferInit req t).1.eng.desc = transferFinishDesc s.eng.eopFlush
      (transferBuild s.eng.dir (chainSdesc s.eng req) s.eng.descIdx e₀ req.epAddr 0).1.desc s.eng.descIdx
      (chainLen s.eng req) := by
    rw [he₀]
    rfl
  rw [hfinal]
  generalize (transferBuild s.eng.dir (chainSdesc s.eng req) s.eng.descIdx e₀ req.epAddr 0).1.desc = desc at *
  rw [hinit] at hlink
  obtain ⟨hcontrol, hlo, hhi⟩ := hlink
  obtain ⟨hlo', hhi', hcontrol'⟩ := transferFinishDesc_slot s.eng.eopFlush hj hcontrol
  dsimp only
  refine ⟨?_, ?_⟩
  · rw [XdmaDesc.next, hhi', hlo', hhi, hlo, dmaAddr_split, hnext]
  · have hadj : xdmaGetNextAdj (chainLen s.eng req - j - 1) (desc (s.eng.descIdx + j)).nextLo =
        leftInRound xdmaMaxAdjBlockSize (s.eng.descIdx + (j + 1)) (chainLen s.eng req - (j + 1)) := by
      rw [hlo, Nat.sub_sub]
      by_cases hlast : j + 1 < chainLen s.eng req
      · rw [hnext, if_pos hlast]
        exact xdmaGetNextAdj_slot halign _ _
      · rw [show chainLen s.eng req - (j + 1) = 0 by omega]
        simp [xdmaGetNextAdj, leftInRound]
    have hsmall := leftInRound_lt_size (s.eng.descIdx + (j + 1)) (chainLen s.eng req - (j + 1))
    have hsize : xdmaMaxAdjBlockSize = 64 := rfl
    rw [hcontrol', chainControl_kept, hadj]
    generalize leftInRound xdmaMaxAdjBlockSize (s.eng.descIdx + (j + 1))
      (chainLen s.eng req - (j + 1)) = a at *
    have hnat : (BitVec.ofNat 32 a).toNat = a := by
      rw [BitVec.toNat_ofNat]
      omega
    rw [adjacentControl_toNat (chainControl_flags _ _ _).1 (by omega), hnat]

theorem transferInit_chainFormat {s : Drv} {req : XdmaRequestCb} (t : XferRef)
    (halign : s.eng.descBus.toNat % xdmaPageSize = 0) (hpos : 0 < chainLen s.eng req) :
    ChainFormat s.eng.descBusAt (s.transferInit req t).1.eng.desc s.eng.descIdx (chainLen s.eng req) := by
  have hadj (j : ℕ) := leftInRound_lt_size (s.eng.descIdx + (j + 1)) (chainLen s.eng req - (j + 1))
  have hsize : xdmaMaxAdjBlockSize = 64 := rfl
  have hflags (j : ℕ) := chainControl_flags s.eng.eopFlush (chainLen s.eng req) j
  constructor
  · intro j hj
    rw [(transferInit_slot t halign (show j < chainLen s.eng req by omega)).1, if_pos hj]
  · rw [(transferInit_slot t halign (show chainLen s.eng req - 1 < chainLen s.eng req by omega)).1]
    exact if_neg (by omega)
  · intro j hj
    have hcontrol := (transferInit_slot t halign hj).2
    have := hadj j
    have := (hflags j).1
    apply BitVec.eq_of_toNat_eq
    rw [BitVec.toNat_ushiftRight, Nat.shiftRight_eq_div_pow, hcontrol]
    change _ = 0xAD4B
    omega
  · intro j hj
    have hcontrol := (transferInit_slot t halign hj).2
    rw [show xdmaDescStopped = BitVec.twoPow 32 0 by decide, and_twoPow_ne_zero _ (by decide), hcontrol,
      ← (hflags j).2.1]
    omega
  · intro j hj
    have hcontrol := (transferInit_slot t halign hj).2
    rw [show xdmaDescEop = BitVec.twoPow 32 4 by decide, and_twoPow_ne_zero _ (by decide), hcontrol,
      ← (hflags j).2.2]
    omega

structure HeadsQueue (s s' : Drv) (t : XferRef) : Prop where
  idle : s'.eng.running = false
  head : ∃ ts, s'.eng.transferList = t :: ts
  ring : s'.eng.descBus = s.eng.descBus
  xfer : (s'.tfer t).descIndex = (s.tfer t).descIndex ∧ (s'.tfer t).descAdjacent = (s.tfer t).descAdjacent
  slots : ∀ j < (s.tfer t).descNum,
    s'.eng.desc ((s.tfer t).descIndex + j) = s.eng.desc ((s.tfer t).descIndex + j)

theorem engineStart_firstDescAdjacent {p : Params} {s : Drv} {t : XferRef} (w : U32)
    (hidle : s.eng.running = false) (hhead : ∃ ts, s.eng.transferList = t :: ts) :
    (s.engineStart p w).1.eng.desc = s.eng.desc ∧ (s.engineStart p w).1.eng.regs.firstDescAdjacent =
      BitVec.ofNat 32 (xdmaGetNextAdj (s.tfer t).descAdjacent
      (pciDmaL (s.eng.descBusAt (s.tfer t).descIndex))) := by
  obtain ⟨ts, hlist⟩ := hhead
  simp [engineStart, hidle, hlist, engineStartModeConfig]

theorem transferInit_announced {s s' : Drv} {req : XdmaRequestCb} {t : XferRef} (p : Params) (w : U32)
    (halign : s.eng.descBus.toNat % xdmaPageSize = 0)
      (hhead : HeadsQueue (s.transferInit req t).1 s' t) {j : ℕ}
    (hj : j < chainLen s.eng req) : announcedAdj (s'.engineStart p w).1.eng s.eng.descIdx j =
      leftInRound xdmaMaxAdjBlockSize (s.eng.descIdx + j) (chainLen s.eng req - j) := by
  obtain ⟨hdesc, hregister⟩ := engineStart_firstDescAdjacent (p := p) w hhead.idle hhead.head
  have hxfer : ((s.transferInit req t).1.tfer t).descIndex = s.eng.descIdx ∧
      ((s.transferInit req t).1.tfer t).descAdjacent = chainLen s.eng req ∧
      ((s.transferInit req t).1.tfer t).descNum = chainLen s.eng req := by
    simp [transferInit]
  have hring : s'.eng.descBus = s.eng.descBus := by
    rw [hhead.ring, transferInit_eng]
  have hsize : xdmaMaxAdjBlockSize = 64 := rfl
  cases j with
  | zero =>
    have hsmall := leftInRound_lt_size s.eng.descIdx (chainLen s.eng req)
    rw [announcedAdj, hregister, hhead.xfer.1, hhead.xfer.2, hxfer.1, hxfer.2.1,
      xdmaGetNextAdj_slot (by rw [hring]; exact halign), BitVec.toNat_ofNat]
    apply Nat.mod_eq_of_lt
    omega
  | succ j =>
    have hsmall := leftInRound_lt_size (s.eng.descIdx + (j + 1)) (chainLen s.eng req - (j + 1))
    have hflags := (chainControl_flags s.eng.eopFlush (chainLen s.eng req) j).1
    have hslot := hhead.slots j (by rw [hxfer.2.2]; omega)
    rw [hxfer.1] at hslot
    rw [announcedAdj, hdesc, hslot, XdmaDesc.nextAdj, (transferInit_slot t halign (by omega)).2]
    omega

theorem transferInit_format {s s' : Drv} {req : XdmaRequestCb} {t : XferRef} (p : Params) (w : U32)
    (halign : s.eng.descBus.toNat % xdmaPageSize = 0) (hpos : 0 < chainLen s.eng req)
    (hhead : HeadsQueue (s.transferInit req t).1 s' t) :
    ChainFormat s.eng.descBusAt (s.transferInit req t).1.eng.desc s.eng.descIdx (chainLen s.eng req) ∧
      AdjacentCounts s.eng.descIdx (chainLen s.eng req)
        (announcedAdj (s'.engineStart p w).1.eng s.eng.descIdx) := by
  refine ⟨transferInit_chainFormat t halign hpos, ?_⟩
  apply AdjacentCounts.of_leftInRound
  exact fun j hj => transferInit_announced p w halign hhead hj

theorem transferInit_format_four :
    let s : Drv := { eng := { descBus := 0x1000, descIdx := 62, eopFlush := true } }
    let req : XdmaRequestCb := { swDescCnt := 4, sdesc := List.replicate 4 ⟨0x2000, 64⟩ }
    let s₁ := (s.transferInit req ⟨0, 0⟩).1
    let s' : Drv := { s₁ with eng := { s₁.eng with transferList := [⟨0, 0⟩] } }
    ChainFormat s.eng.descBusAt s₁.eng.desc 62 4 ∧
      AdjacentCounts 62 4 (announcedAdj (s'.engineStart {} 0).1.eng 62) := by
  intro s req s₁ s'
  have hhead : HeadsQueue s₁ s' ⟨0, 0⟩ := ⟨rfl, ⟨[], rfl⟩, rfl, ⟨rfl, rfl⟩, fun _ _ => rfl⟩
  exact transferInit_format {} 0 (by decide) (by decide) hhead

end Drv

end XdmaDriver
