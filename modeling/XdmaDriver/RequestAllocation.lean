import XdmaDriver.ChainCount

/-!
The software descriptors that `xdma_init_request` writes, against the number it has
allocated.
-/

namespace XdmaDriver

def writtenIndex (j : ℕ) : ℤ := (BitVec.ofNat 32 j).toInt

/-- All writes are to elements of `req->sdesc` that are asked for and lie in the block. -/
def WritesInside (p : Params) (sgt : List SgEntry) : Prop :=
  ∀ size ∈ xdmaRequestAlloc p false (requestMax p sgt), ∀ j < (requestSdesc p sgt).length,
    0 ≤ writtenIndex j ∧ writtenIndex j < (requestMax p sgt).toNat ∧ writtenIndex j < sdescRoom p size

/-- The rounded sum of `xdma_init_request` leaves the 32 bits of an `unsigned int`. -/
def EntryWraps (p : Params) (sg : SgEntry) : Prop := 2 ^ 32 ≤ sg.dmaLen.toNat + p.descBlenMax - 1

instance (p : Params) (sg : SgEntry) : Decidable (EntryWraps p sg) := inferInstanceAs (Decidable (_ ≤ _))

def entryMissing (p : Params) (sg : SgEntry) : ℕ :=
  if EntryWraps p sg then (sg.dmaLen.toNat + p.descBlenMax - 1) / p.descBlenMax -
    (sg.dmaLen.toNat + p.descBlenMax - 1 - 2 ^ 32) / p.descBlenMax - 1
  else 0

def entrySpare (p : Params) (sg : SgEntry) : ℕ :=
  if sg.dmaLen.toNat = 0 ∨ p.descBlenMax < sg.dmaLen.toNat ∧ ¬ EntryWraps p sg then 1 else 0

def askedFor (p : Params) (sgt : List SgEntry) :
    ℕ := sgt.length + (sgt.map fun sg => (entryExtra p sg).toNat).sum

/-- What the size of a block with `n` elements loses in an `unsigned int`. -/
def sizeLost (p : Params) (n : ℕ) : ℕ := (p.requestCbBytes + n * swDescBytes) / 2 ^ 32 * 2 ^ 32

/-- The missing descriptors and the lost bytes are made up for by spare descriptors. -/
def EnoughSpare (p : Params) (sgt : List SgEntry) : Prop :=
  (sgt.map (entryMissing p)).sum * swDescBytes + sizeLost p (askedFor p sgt) ≤
    (sgt.map (entrySpare p)).sum * swDescBytes

section

variable {p : Params} (hb : 1 ≤ p.descBlenMax) (hmax : p.descBlenMax ≤ xdmaDescBlenMax)

include hb hmax

theorem entryExtra_toNat (sg : SgEntry) : (entryExtra p sg).toNat =
    if p.descBlenMax < sg.dmaLen.toNat then (sg.dmaLen.toNat + p.descBlenMax - 1) % 2 ^ 32 /
    p.descBlenMax else 0 := by
  have hsmall : p.descBlenMax < 2 ^ 32 := lt_of_le_of_lt hmax (by decide)
  have hblen : (BitVec.ofNat 32 p.descBlenMax).toNat = p.descBlenMax := by
    rw [BitVec.toNat_ofNat, Nat.mod_eq_of_lt hsmall]
  unfold entryExtra
  simp only [BitVec.lt_def, hblen]
  split_ifs
  · rw [BitVec.toNat_udiv, hblen]
    congr 1
    rw [BitVec.toNat_sub, BitVec.toNat_add, hblen]
    change (2 ^ 32 - 1 + (sg.dmaLen.toNat + p.descBlenMax) % 2 ^ 32) % 2 ^ 32 = _
    omega
  · rfl

theorem entry_balance (sg : SgEntry) : (sg.dmaLen.toNat + p.descBlenMax - 1) / p.descBlenMax +
    entrySpare p sg =
    1 + (entryExtra p sg).toNat + entryMissing p sg := by
  have hblen : p.descBlenMax ≤ 2 ^ 28 - 1 := hmax
  have hlt := sg.dmaLen.isLt
  rw [entryExtra_toNat hb hmax]
  unfold entrySpare entryMissing
  by_cases hwrap : EntryWraps p sg
  · have hge : 2 ^ 32 ≤ sg.dmaLen.toNat + p.descBlenMax - 1 := hwrap
    have hmod : (sg.dmaLen.toNat + p.descBlenMax - 1) % 2 ^ 32 = sg.dmaLen.toNat +
      p.descBlenMax - 1 - 2 ^ 32 := by
      omega
    have hlong : p.descBlenMax < sg.dmaLen.toNat := by omega
    have hle : (sg.dmaLen.toNat + p.descBlenMax - 1 - 2 ^ 32) / p.descBlenMax + 1 ≤
        (sg.dmaLen.toNat + p.descBlenMax - 1) / p.descBlenMax := by
      rw [← Nat.add_div_right _ (by omega : 0 < p.descBlenMax)]
      exact Nat.div_le_div_right (by omega)
    have hne : ¬ sg.dmaLen.toNat = 0 := by omega
    simp only [hwrap, hmod, hlong, hne, ↓reduceIte, not_true_eq_false, and_false, or_false]
    omega
  have hfits : sg.dmaLen.toNat + p.descBlenMax - 1 < 2 ^ 32 := not_le.mp hwrap
  rw [Nat.mod_eq_of_lt hfits]
  by_cases hlong : p.descBlenMax < sg.dmaLen.toNat
  · simp only [hwrap, hlong, ↓reduceIte, not_false_eq_true, and_self, or_true]
    omega
  by_cases hzero : sg.dmaLen.toNat = 0
  · have hdiv : (0 + p.descBlenMax - 1) / p.descBlenMax = 0 := Nat.div_eq_of_lt (by omega)
    simp only [hwrap, hzero, hdiv, ↓reduceIte, true_or, Nat.not_lt_zero]
  · have hdiv : (sg.dmaLen.toNat + p.descBlenMax - 1) / p.descBlenMax = 1 := by
      have hsplit : sg.dmaLen.toNat + p.descBlenMax - 1 = sg.dmaLen.toNat - 1 + p.descBlenMax := by omega
      rw [hsplit, Nat.add_div_right _ (by omega), Nat.div_eq_of_lt (by omega)]
    simp only [hwrap, hlong, hzero, hdiv, ↓reduceIte, false_and, or_self]

theorem list_balance (sgt : List SgEntry) : sgDescCount p sgt + (sgt.map (entrySpare p)).sum =
    askedFor p sgt + (sgt.map (entryMissing p)).sum := by
  unfold sgDescCount askedFor
  induction sgt with
  | nil => simp
  | cons sg sgt ih =>
    have hentry := entry_balance hb hmax sg
    simp only [List.map_cons, List.sum_cons, List.length_cons]
    omega

end

theorem toNat_sum (xs : List U32) : xs.sum.toNat = (xs.map BitVec.toNat).sum % 2 ^ 32 := by
  induction xs with
  | nil => rfl
  | cons x xs ih =>
    rw [List.sum_cons, BitVec.toNat_add, ih, List.map_cons, List.sum_cons, Nat.add_mod_mod]

theorem requestMax_toNat (p : Params) {sgt : List SgEntry} (hn : sgt.length < 2 ^ 32) :
    (requestMax p sgt).toNat =
    if sgt.length < 2 ^ 31 then askedFor p sgt % 2 ^ 32 else sgt.length := by
  have hlen : (BitVec.ofNat 32 sgt.length).toNat = sgt.length := by
    rw [BitVec.toNat_ofNat, Nat.mod_eq_of_lt hn]
  unfold requestMax
  dsimp only
  rw [BitVec.toNat_add, toNat_sum, hlen, BitVec.toInt_eq_toNat_cond, hlen]
  split_ifs with h₁ h₂ h₂
  · rw [Int.toNat_natCast, List.take_length, List.map_map, Nat.add_mod_mod]
    rfl
  · omega
  · omega
  · have hneg : ((sgt.length : ℤ) - (2 ^ 32 : ℕ)).toNat = 0 := by omega
    rw [hneg, List.take_zero, List.map_nil, List.map_nil, List.sum_nil, Nat.zero_mod, Nat.add_zero,
      Nat.mod_eq_of_lt hn]

theorem writtenIndex_eq {j : ℕ} (h : j < 2 ^ 31) : writtenIndex j = j := by
  rw [writtenIndex, BitVec.toInt_eq_toNat_of_lt] <;> rw [BitVec.toNat_ofNat] <;> omega

theorem writesInside_iff_bytes {p : Params} (hb : 1 ≤ p.descBlenMax) (sgt : List SgEntry) :
    WritesInside p sgt ↔
    sgDescCount p sgt = 0 ∨ p.requestCbBytes + sgDescCount p sgt * swDescBytes ≤
      (p.requestCbBytes + (requestMax p sgt).toNat * swDescBytes) % 2 ^ 32 := by
  have halloc : xdmaRequestAlloc p false (requestMax p sgt) =
      some (BitVec.ofNat 32 (p.requestCbBytes + (requestMax p sgt).toNat * swDescBytes)) := rfl
  unfold WritesInside sdescRoom
  rw [requestSdesc_length hb, ← sgDescCount, halloc]
  simp only [Option.mem_def, Option.some.injEq, forall_eq', BitVec.toNat_ofNat]
  generalize hmax : (requestMax p sgt).toNat = max
  have hlt : max < 2 ^ 32 := hmax ▸ (requestMax p sgt).isLt
  generalize sgDescCount p sgt = count
  simp only [swDescBytes]
  constructor
  · intro h
    by_cases hzero : count = 0
    · exact .inl hzero
    have hle : count ≤ 2 ^ 31 := by
      by_contra hgt
      -- the index turns negative
      have hneg : writtenIndex (2 ^ 31) < 0 := by decide
      exact absurd (h (2 ^ 31) (by omega)).1 (by omega)
    have hlast := (h (count - 1) (by omega)).2.2
    rw [writtenIndex_eq (by omega)] at hlast
    exact .inr (by omega)
  · rintro (rfl | hbytes) j hj
    · omega
    · have hmod := Nat.mod_lt (p.requestCbBytes + max * 16) (by decide : 0 < 2 ^ 32)
      have hle := Nat.mod_le (p.requestCbBytes + max * 16) (2 ^ 32)
      rw [writtenIndex_eq (by omega)]
      omega

theorem bytes_fit_iff (p : Params) (n count : ℕ) : p.requestCbBytes + count * swDescBytes ≤
    (p.requestCbBytes + n * swDescBytes) % 2 ^ 32 ↔ count * swDescBytes + sizeLost p n ≤ n * swDescBytes := by
  have hdiv := Nat.div_add_mod' (p.requestCbBytes + n * swDescBytes) (2 ^ 32)
  unfold sizeLost
  omega

theorem blockSize_mod (p : Params) (n : ℕ) : (p.requestCbBytes + n % 2 ^ 32 * swDescBytes) % 2 ^ 32 =
    (p.requestCbBytes + n * swDescBytes) % 2 ^ 32 := by
  rw [Nat.add_mod, Nat.mod_mul_mod, ← Nat.add_mod]

theorem writesInside_short {p : Params} (hb : 1 ≤ p.descBlenMax) {sgt : List SgEntry}
    (hshort : sgt.length < 2 ^ 31) : WritesInside p sgt ↔ sgDescCount p sgt = 0 ∨
      sgDescCount p sgt * swDescBytes + sizeLost p (askedFor p sgt) ≤ askedFor p sgt * swDescBytes := by
  rw [writesInside_iff_bytes hb, requestMax_toNat p (by omega), if_pos hshort, blockSize_mod, bytes_fit_iff]

/-- `xdma_init_request` stays inside what it has allocated exactly when it writes nothing, or
what its two counts miss and what the size loses is made up for. The extra descriptors of a list
with `2 ^ 31` or more entries are not counted. -/
theorem writes_inside_iff {p : Params} (hb : 1 ≤ p.descBlenMax) (hmax : p.descBlenMax ≤ xdmaDescBlenMax)
    {sgt : List SgEntry} (hn : sgt.length < 2 ^ 32) : WritesInside p sgt ↔
      sgDescCount p sgt = 0 ∨ (sgt.length < 2 ^ 31 → EnoughSpare p sgt) ∧ (2 ^ 31 ≤ sgt.length →
        sgDescCount p sgt * swDescBytes + sizeLost p sgt.length ≤ sgt.length * swDescBytes) := by
  have hbalance := list_balance hb hmax sgt
  by_cases hlong : sgt.length < 2 ^ 31
  · rw [writesInside_short hb hlong]
    unfold EnoughSpare
    simp only [swDescBytes]
    omega
  · rw [writesInside_iff_bytes hb, requestMax_toNat p hn, if_neg hlong, bytes_fit_iff]
    omega

theorem writes_inside_iff_split : WritesInside {} [⟨0x1000, 4096⟩, ⟨0x10000000, 0x10000000⟩] :=
  (writes_inside_iff (p := {}) (by decide) (by decide) (by decide)).mpr
    (.inr ⟨fun _ => by unfold EnoughSpare; decide, fun hlong => absurd hlong (by decide)⟩)

theorem writesInside_pages {n : ℕ} (hn : n < 2 ^ 31) :
    WritesInside { descBlenMax := 1 } (List.replicate n ⟨0x1000, 4096⟩) ↔
      n = 0 ∨ (336 + (n + n * 4096) * 16) / 2 ^ 32 * 2 ^ 32 ≤ n * 16 := by
  have hextra : (entryExtra { descBlenMax := 1 } ⟨0x1000, 4096⟩).toNat = 4096 := by decide
  have hcount : ((0x1000 : U32).toNat + 1 - 1) / 1 = 4096 := by decide
  rw [writesInside_short (by decide) (by rw [List.length_replicate]; exact hn)]
  simp only [askedFor, sizeLost, sgDescCount, swDescBytes, List.length_replicate, List.map_replicate,
    List.sum_replicate, nsmul_eq_mul, hextra, hcount, Nat.cast_id]
  omega

/-- One entry of `2 ^ 32 - 1` bytes: one descriptor is allocated, and 17 are written. The size of the
block wraps for 65536 pages, each of them 4096 descriptors. -/
theorem request_overflows : (¬ ∀ (p : Params) (sgt : List SgEntry), 1 ≤ p.descBlenMax →
      p.descBlenMax ≤ xdmaDescBlenMax → sgt.length < 2 ^ 32 → WritesInside p sgt) ∧
    ¬ WritesInside { descBlenMax := 1 } (List.replicate 65536 ⟨0x1000, 4096⟩) := by
  constructor
  · intro h
    have hinside := h {} [⟨0x1000, 0xFFFFFFFF⟩] (by decide) (by decide) (by decide)
    rw [writesInside_iff_bytes (by decide)] at hinside
    exact absurd hinside (by decide)
  · rw [writesInside_pages (by norm_num)]
    norm_num

end XdmaDriver
