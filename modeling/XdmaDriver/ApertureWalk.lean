import XdmaDriver.Aperture

/-!
The walk of `xdma_xfer_aperture` over the lengths of the scatter list alone: the slots of
the ring it takes, its place in the window and the 32-bit offset, without the descriptors.
-/

namespace XdmaDriver

structure WindowWalk where
  slots : ℕ
  epAddr : U64
  offset : U32

/-- Where the next descriptor begins in the window, and its length, when `tlen` is left of
the entry. -/
def windowDesc (w : ApertureWindow) (epAddr : U64) (tlen : U32) : U64 × U32 :=
  let len := if tlen < w.maxlen then tlen else w.maxlen
  let epAddr := if w.last < epAddr then w.base else epAddr
  (epAddr, if w.last < epAddr + len.setWidth 64 then (w.last - epAddr + 1).setWidth 32 else len)

/-- One entry of which `tlen` is left; the result has what is left of it when the ring's
slots are taken. -/
def walkEntry (w : ApertureWindow) : ℕ → U64 → U32 → U32 → WindowWalk × U32
  | 0, epAddr, offset, tlen => (⟨0, epAddr, offset⟩, tlen)
  | slots + 1, epAddr, offset, tlen =>
    if tlen = 0 then (⟨slots + 1, epAddr, offset⟩, 0)
    else
      let (epAddr, len) := windowDesc w epAddr tlen
      walkEntry w slots (epAddr + len.setWidth 64) (offset + len) (tlen - len)

def walkLens (w : ApertureWindow) : WindowWalk → List U32 → WindowWalk
  | k, [] => k
  | k, l :: ls =>
    if k.slots = 0 then k
    else
      let (k, left) := walkEntry w k.slots k.epAddr k.offset l
      if left = 0 then walkLens w k ls else k

def leftLens (off : U32) : List U32 → List U32
  | [] => []
  | l :: ls => (l - off) :: ls

theorem leftLens_zero (ls : List U32) : leftLens 0 ls = ls := by
  cases ls with
  | nil => rfl
  | cons l ls => rw [leftLens, sub_zero]

section

variable (w : ApertureWindow)

theorem walkEntry_zero (slots : ℕ) (epAddr : U64) (offset : U32) :
    walkEntry w slots epAddr offset 0 = (⟨slots, epAddr, offset⟩, 0) := by
  cases slots <;> rfl

theorem walkEntry_slots (slots : ℕ) : ∀ (epAddr : U64) (offset tlen : U32),
    (walkEntry w slots epAddr offset tlen).1.slots ≤ slots ∧
      ((walkEntry w slots epAddr offset tlen).2 ≠ 0 →
        (walkEntry w slots epAddr offset tlen).1.slots = 0) := by
  induction slots with
  | zero => exact fun _ _ _ => ⟨le_refl _, fun _ => rfl⟩
  | succ slots ih =>
    intro epAddr offset tlen
    unfold walkEntry
    by_cases hz : tlen = 0
    · rw [if_pos hz]
      exact ⟨le_refl _, fun h => absurd rfl h⟩
    · rw [if_neg hz]
      obtain ⟨hle, hfull⟩ := ih _ _ _
      exact ⟨hle.trans (Nat.le_succ _), hfull⟩

theorem walkEntry_takes {slots : ℕ} (hs : slots ≠ 0) (epAddr : U64) (offset : U32)
    {tlen : U32} (hl : tlen ≠ 0) :
    (walkEntry w slots epAddr offset tlen).1.slots < slots := by
  obtain ⟨k, rfl⟩ := Nat.exists_eq_add_one_of_ne_zero hs
  unfold walkEntry
  rw [if_neg hl]
  exact Nat.lt_succ_of_le (walkEntry_slots w k _ _ _).1

theorem walkLens_slots (ls : List U32) : ∀ k : WindowWalk, (walkLens w k ls).slots ≤ k.slots := by
  induction ls with
  | nil => exact fun _ => le_refl _
  | cons l ls ih =>
    intro k
    unfold walkLens
    split_ifs
    · exact le_refl _
    · have hle := (walkEntry_slots w k.slots k.epAddr k.offset l).1
      dsimp only
      split_ifs
      · exact (ih _).trans hle
      · exact hle

theorem walkLens_takes (ls : List U32) : ∀ k : WindowWalk,
    (walkLens w k ls).slots < k.slots ↔ k.slots ≠ 0 ∧ ∃ l ∈ ls, l ≠ 0 := by
  induction ls with
  | nil =>
    intro k
    simp [walkLens]
  | cons l ls ih =>
    intro k
    unfold walkLens
    by_cases hs : k.slots = 0
    · rw [if_pos hs]
      exact iff_of_false (lt_irrefl _) fun h => h.1 hs
    rw [if_neg hs, List.exists_mem_cons_iff]
    by_cases hl : l = 0
    · rw [hl, walkEntry_zero]
      simpa using ih k
    · have htakes := walkEntry_takes w hs k.epAddr k.offset hl
      refine iff_of_true ?_ ⟨hs, .inl hl⟩
      dsimp only
      split_ifs
      · exact (walkLens_slots w ls _).trans_lt htakes
      · exact htakes

structure FollowsWalk (descMax : ℕ) (b b' : ApertureBuild) (k : WindowWalk) : Prop where
  descIdx : b.descIdx ≤ b'.descIdx ∧ (b.descIdx ≤ descMax → b'.descIdx ≤ descMax)
  cursors : k = ⟨descMax - b'.descIdx, b'.epAddr, b'.offset⟩
  moves : b'.offset ≠ b.offset → ∃ j, b.descIdx ≤ j ∧ j < b'.descIdx ∧ (b'.desc j).bytes ≠ 0
  frame : ∀ j < b.descIdx, b'.desc j = b.desc j

def ApertureBuild.walk (b : ApertureBuild) (descMax : ℕ) :
    WindowWalk := ⟨descMax - b.descIdx, b.epAddr, b.offset⟩

variable {w} {descMax : ℕ} {b b₁ b' : ApertureBuild} {k : WindowWalk}

theorem FollowsWalk.refl (descMax : ℕ) (b : ApertureBuild) : FollowsWalk descMax b b (b.walk descMax) :=
  ⟨⟨le_refl _, id⟩, rfl, fun h => absurd rfl h, fun _ _ => rfl⟩

theorem FollowsWalk.trans {k₁ : WindowWalk} (h₁ : FollowsWalk descMax b b₁ k₁)
    (h : FollowsWalk descMax b₁ b' k) :
    FollowsWalk descMax b b' k := by
  refine ⟨⟨h₁.descIdx.1.trans h.descIdx.1, fun hle => h.descIdx.2 (h₁.descIdx.2 hle)⟩, h.cursors,
    fun hne => ?_, ?_⟩
  · by_cases hold : b₁.offset = b.offset
    · obtain ⟨j, hj, hlt, hbytes⟩ := h.moves (hold ▸ hne)
      exact ⟨j, h₁.descIdx.1.trans hj, hlt, hbytes⟩
    · obtain ⟨j, hj, hlt, hbytes⟩ := h₁.moves hold
      exact ⟨j, hj, hlt.trans_le h.descIdx.1, by rwa [h.frame j hlt]⟩
  · intro j hj
    rw [h.frame j (hj.trans_le h₁.descIdx.1), h₁.frame j hj]

theorem FollowsWalk.ofReset {off : U32} (h : FollowsWalk descMax { b with sgOffset := off } b' k) :
    FollowsWalk descMax b b' k :=
  ⟨h.descIdx, h.cursors, h.moves, h.frame⟩

variable (descMax) in
theorem apertureDesc_walk (dir : DmaDir) (addr : U64) (tlen : U32) (hroom : b.descIdx < descMax) :
    (apertureDesc w dir addr tlen b).2 = (windowDesc w b.epAddr tlen).2 ∧
      FollowsWalk descMax b (apertureDesc w dir addr tlen b).1
        ⟨descMax - (b.descIdx + 1), (windowDesc w b.epAddr tlen).1 +
          (windowDesc w b.epAddr tlen).2.setWidth 64,
          b.offset + (windowDesc w b.epAddr tlen).2⟩ := by
  refine ⟨rfl, ⟨⟨Nat.le_succ _, fun _ => hroom⟩, rfl, fun hne => ?_,
    fun j hj => Function.update_of_ne hj.ne _ _⟩⟩
  refine ⟨b.descIdx, le_refl _, Nat.lt_succ_self _, ?_⟩
  dsimp only [apertureDesc] at hne ⊢
  rw [Function.update_self, xdmaDescSet_bytes]
  intro hz
  exact hne (by rw [hz, add_zero])

theorem apertureEntry_walk (dir : DmaDir) (f : ℕ) : ∀ (addr : U64) (tlen : U32) {b : ApertureBuild},
    f = descMax - b.descIdx →
      FollowsWalk descMax b (apertureEntry w dir f addr tlen b).1 (walkEntry w f b.epAddr b.offset tlen).1 ∧
        (apertureEntry w dir f addr tlen b).2 = (walkEntry w f b.epAddr b.offset tlen).2 ∧
        (apertureEntry w dir f addr tlen b).1.sgOffset - (apertureEntry w dir f addr tlen b).1.offset =
          b.sgOffset - b.offset := by
  induction f with
  | zero =>
    intro addr tlen b hf
    have hrefl := FollowsWalk.refl descMax b
    rw [ApertureBuild.walk, ← hf] at hrefl
    exact ⟨hrefl, rfl, rfl⟩
  | succ f ih =>
    intro addr tlen b hf
    unfold apertureEntry walkEntry
    by_cases hz : tlen = 0
    · rw [if_pos hz, if_pos hz]
      have hrefl := FollowsWalk.refl descMax b
      rw [ApertureBuild.walk, ← hf] at hrefl
      exact ⟨hrefl, rfl, rfl⟩
    rw [if_neg hz, if_neg hz]
    obtain ⟨hlen, hstep⟩ := apertureDesc_walk (w := w) (b := b) descMax dir addr tlen (by omega)
    have hkeep : (apertureDesc w dir addr tlen b).1.sgOffset - (apertureDesc w dir addr tlen b).1.offset =
        b.sgOffset - b.offset := add_sub_add_right_eq_sub _ _ _
    have hidx : (apertureDesc w dir addr tlen b).1.descIdx = b.descIdx + 1 := rfl
    obtain ⟨hep, hoff⟩ : (apertureDesc w dir addr tlen b).1.epAddr =
        (windowDesc w b.epAddr tlen).1 + (windowDesc w b.epAddr tlen).2.setWidth 64 ∧
        (apertureDesc w dir addr tlen b).1.offset = b.offset + (windowDesc w b.epAddr tlen).2 := ⟨rfl, rfl⟩
    obtain ⟨hrest, hleft, hsg⟩ := ih (addr + (apertureDesc w dir addr tlen b).2.setWidth 64)
      (tlen - (apertureDesc w dir addr tlen b).2) (b := (apertureDesc w dir addr tlen b).1)
        (by rw [hidx]; omega)
    rw [hep, hoff, hlen] at hrest hleft
    exact ⟨hstep.trans hrest, hleft, hsg.trans hkeep⟩

variable (descMax) in
theorem apertureEntries_walk (dir : DmaDir) (sgMax : ℕ) (es : List SgEntry) : ∀ (i : ℕ) (b : ApertureBuild),
    FollowsWalk descMax b (apertureEntries w dir sgMax descMax es i b).1
      (walkLens w (b.walk descMax) (leftLens b.sgOffset ((es.take (sgMax - i)).map SgEntry.dmaLen))) := by
  induction es with
  | nil =>
    intro i b
    rw [List.take_nil]
    exact .refl descMax b
  | cons sg es ih =>
    intro i b
    unfold apertureEntries
    by_cases hroom : i < sgMax ∧ b.descIdx < descMax
    swap
    · rw [if_neg hroom]
      have hstill : walkLens w (b.walk descMax)
          (leftLens b.sgOffset (((sg :: es).take (sgMax - i)).map SgEntry.dmaLen)) = b.walk descMax := by
        by_cases hi : i < sgMax
        · obtain ⟨k, hk⟩ := Nat.exists_eq_add_one_of_ne_zero (show sgMax - i ≠ 0 by omega)
          have hslots : (b.walk descMax).slots = 0 := Nat.sub_eq_zero_of_le (not_lt.mp fun h => hroom ⟨hi, h⟩)
          rw [hk, List.take_succ_cons, List.map_cons, leftLens, walkLens, if_pos hslots]
        · rw [Nat.sub_eq_zero_of_le (not_lt.mp hi)]
          rfl
      rw [hstill]
      exact .refl descMax b
    obtain ⟨hi, hd⟩ := hroom
    have hslots : (b.walk descMax).slots ≠ 0 := Nat.sub_ne_zero_of_lt hd
    obtain ⟨n, hn⟩ := Nat.exists_eq_add_one_of_ne_zero (show sgMax - i ≠ 0 by omega)
    obtain rfl : n = sgMax - (i + 1) := by omega
    obtain ⟨hstep, hleft, -⟩ := apertureEntry_walk (w := w) dir (descMax - b.descIdx)
      (sg.dmaAddress + b.sgOffset.setWidth 64) (sg.dmaLen - b.sgOffset) (b := b) rfl
    rw [if_pos ⟨hi, hd⟩, hn, List.take_succ_cons, List.map_cons, leftLens, walkLens, if_neg hslots]
    dsimp only [ApertureBuild.walk] at hleft ⊢
    rw [← hleft]
    split_ifs
    · have hrest := ih (i + 1)
        { (apertureEntry w dir (descMax - b.descIdx) (sg.dmaAddress + b.sgOffset.setWidth 64)
            (sg.dmaLen - b.sgOffset) b).1 with sgOffset := 0 }
      rw [leftLens_zero] at hrest
      rw [hstep.cursors]
      exact hstep.trans hrest.ofReset
    · exact hstep

variable (descMax) in
theorem le_apertureEntries (dir : DmaDir) (sgMax : ℕ) (es : List SgEntry) : ∀ (i : ℕ) (b : ApertureBuild),
    i ≤ (apertureEntries w dir sgMax descMax es i b).2 := by
  induction es with
  | nil => exact fun _ _ => le_refl _
  | cons sg es ih =>
    intro i b
    unfold apertureEntries
    dsimp only
    split_ifs
    · exact (Nat.le_succ i).trans (ih _ _)
    · exact le_refl _
    · exact le_refl _

variable (descMax) in
theorem apertureEntries_cut (dir : DmaDir) {sgMax : ℕ} (hmax : 0 < sgMax) (sg : SgEntry) (es : List SgEntry)
    (hroom : b.descIdx < descMax) :
    ((apertureEntries w dir sgMax descMax (sg :: es) 0 b).2 = 0 ↔
      (walkEntry w (descMax - b.descIdx) b.epAddr b.offset (sg.dmaLen - b.sgOffset)).2 ≠ 0) ∧
    ((apertureEntries w dir sgMax descMax (sg :: es) 0 b).2 = 0 →
      (apertureEntries w dir sgMax descMax (sg :: es) 0 b).1.sgOffset -
        (apertureEntries w dir sgMax descMax (sg :: es) 0 b).1.offset = b.sgOffset - b.offset) := by
  obtain ⟨-, hleft, hsg⟩ := apertureEntry_walk (w := w) dir (descMax - b.descIdx)
    (sg.dmaAddress + b.sgOffset.setWidth 64) (sg.dmaLen - b.sgOffset) (b := b) rfl
  unfold apertureEntries
  rw [if_pos ⟨hmax, hroom⟩, ← hleft]
  dsimp only
  split_ifs with hz
  · have hne (b' : ApertureBuild) : (apertureEntries w dir sgMax descMax es (0 + 1) b').2 ≠ 0 := by
      have hle := le_apertureEntries (w := w) descMax dir sgMax es (0 + 1) b'
      omega
    exact ⟨iff_of_false (hne _) (not_not.mpr hz), fun h => absurd h (hne _)⟩
  · exact ⟨iff_of_true rfl hz, fun _ => hsg⟩

end

end XdmaDriver
