import XdmaDriver.RequestLifetime
import XdmaDriver.Lib.Windows

/-!
The hardware descriptors of `xdma_xfer_aperture` against its scatter list.
-/

namespace XdmaDriver

open Drv Spans Windows

structure ApertureFits (p : Params) (epAddr : U64) (aperture : U32) : Prop where
  pos : 1 ≤ aperture.toNat
  blen : 1 ≤ p.descBlenMax
  blen_le : p.descBlenMax ≤ 2 ^ 28 - 1
  fits : epAddr.toNat + aperture.toNat + 2 ^ 32 < 2 ^ 64

def AtPosition (base : U64) (a k : ℕ) (ep : U64) : Prop :=
  ep.toNat = base.toNat + k % a ∨ k % a = 0 ∧ ep.toNat = base.toNat + a

def apertureMaxlen (p : Params) (aperture : U32) : ℕ := min aperture.toNat p.descBlenMax

theorem AtPosition.next {base ep : U64} {a k l : ℕ} (h : k % a + l ≤ a) (ha : 1 ≤ a)
    (hep : ep.toNat = base.toNat + (k % a + l)) : AtPosition base a (k + l) ep := by
  rcases h.lt_or_eq with hlt | heq
  · apply Or.inl
    rw [(Tiling.round_add hlt).2]
    exact hep
  · apply Or.inr
    refine ⟨(Tiling.round_end ha heq).2, ?_⟩
    rw [hep, heq]

def MovesPieces (dir : DmaDir) (base : U64) (a : ℕ) : ℕ → List (U64 × ℕ) → List XdmaDesc → Prop
  | _, [], [] => True
  | k, (x, n) :: ps, d :: ds =>
    (d.bytes = BitVec.ofNat 32 n ∧ d.hostAddr dir = x ∧ d.devAddr dir = base + ((k % a : ℕ) : U64)) ∧
      MovesPieces dir base a (k + n) ps ds
  | _, _, _ => False

theorem MovesPieces.append {dir : DmaDir} {base : U64} {a : ℕ} (ps : List (U64 × ℕ)) :
    ∀ {k : ℕ} {qs : List (U64 × ℕ)} {ds es : List XdmaDesc}, MovesPieces dir base a k ps ds →
      MovesPieces dir base a (k + total ps) qs es → MovesPieces dir base a k (ps ++ qs) (ds ++ es) := by
  induction ps with
  | nil =>
    intro k qs ds es h h'
    cases ds with
    | nil => exact h'
    | cons => exact h.elim
  | cons x ps ih =>
    intro k qs ds es h h'
    cases ds with
    | nil => exact h.elim
    | cons d ds =>
      rw [total_cons, ← Nat.add_assoc] at h'
      exact ⟨h.1, ih h.2 h'⟩

structure Walked (dir : DmaDir) (base : U64) (a k : ℕ) (b b' : ApertureBuild) (ps : List (U64 × ℕ)) : Prop where
  descIdx : b'.descIdx = b.descIdx + ps.length
  frame : ∀ j < b.descIdx, b'.desc j = b.desc j
  moves : MovesPieces dir base a k ps ((List.range' b.descIdx ps.length).map b'.desc)
  offset : b'.offset = b.offset + BitVec.ofNat 32 (total ps)
  len : b'.len = b.len + BitVec.ofNat 32 (total ps)
  ep : AtPosition base a (k + total ps) b'.epAddr

theorem Walked.refl {dir : DmaDir} {base : U64} {a k : ℕ} {b : ApertureBuild}
    (h : AtPosition base a k b.epAddr) :
    Walked dir base a k b b [] := by
  constructor
  · rfl
  · exact fun _ _ => rfl
  · trivial
  · simp
  · simp
  · exact h

theorem Walked.trans {dir : DmaDir} {base : U64} {a k : ℕ} {b b' b'' : ApertureBuild} {ps qs : List (U64 × ℕ)}
    (h : Walked dir base a k b b' ps) (h' : Walked dir base a (k + total ps) b' b'' qs) :
    Walked dir base a k b b'' (ps ++ qs) := by
  constructor
  · rw [h'.descIdx, h.descIdx, List.length_append, Nat.add_assoc]
  · intro j hj
    rw [h'.frame j (by rw [h.descIdx]; omega), h.frame j hj]
  · rw [List.length_append, ← List.range'_append_1, List.map_append]
    apply MovesPieces.append
    · have hsame : (List.range' b.descIdx ps.length).map b''.desc =
        (List.range' b.descIdx ps.length).map b'.desc := by
        apply List.map_congr_left
        intro j hj
        apply h'.frame
        rw [h.descIdx]
        exact (List.mem_range'_1.mp hj).2
      rw [hsame]
      exact h.moves
    · rw [← h.descIdx]
      exact h'.moves
  · rw [h'.offset, h.offset, total_append, BitVec.ofNat_add, add_assoc]
  · rw [h'.len, h.len, total_append, BitVec.ofNat_add, add_assoc]
  · rw [total_append, ← Nat.add_assoc]
    exact h'.ep

def extents (sgt : List SgEntry) : List (U64 × ℕ) := sgt.map fun sg => (sg.dmaAddress, sg.dmaLen.toNat)

@[simp] theorem extents_nil : extents [] = [] := rfl

@[simp] theorem extents_cons (sg : SgEntry) (sgt : List SgEntry) :
    extents (sg :: sgt) = (sg.dmaAddress, sg.dmaLen.toNat) :: extents sgt := rfl

def extentsFrom (off : ℕ) : List SgEntry → List (U64 × ℕ)
  | [] => []
  | sg :: sgs => (sg.dmaAddress + (off : U64), sg.dmaLen.toNat - off) :: extents sgs

@[simp] theorem extentsFrom_zero (sgt : List SgEntry) : extentsFrom 0 sgt = extents sgt := by
  cases sgt <;> simp [extentsFrom, extents]

def OffsetInside (off : U32) (sgt : List SgEntry) : Prop :=
  ∀ sg ∈ sgt.head?, off = 0 ∨ off.toNat < sg.dmaLen.toNat

section

variable {p : Params} {epAddr : U64} {aperture : U32} (hfit : ApertureFits p epAddr aperture)

include hfit

theorem ApertureFits.maxlen_pos : 1 ≤ apertureMaxlen p aperture := by
  have := hfit.pos
  have := hfit.blen
  unfold apertureMaxlen
  omega

omit hfit in
theorem aperture_mask (hpos : 1 ≤ aperture.toNat) (offset : U32) :
    (offset &&& (aperture - 1)).toNat = offset.toNat &&& (aperture.toNat - 1) := by
  have hone : (1 : U32).toNat = 1 := rfl
  have hsub : (aperture - 1).toNat = aperture.toNat - 1 := by
    have := aperture.isLt
    rw [BitVec.toNat_sub, hone]
    omega
  rw [BitVec.toNat_and, hsub]

omit hfit in
theorem apertureWindow_last (hpos : 1 ≤ aperture.toNat)
    (hfits : epAddr.toNat + aperture.toNat + 2 ^ 32 < 2 ^ 64) :
    (apertureWindow p epAddr aperture).last.toNat = epAddr.toNat + aperture.toNat - 1 := by
  have := aperture.isLt
  have hone : (1 : U64).toNat = 1 := rfl
  simp only [apertureWindow, BitVec.toNat_sub, BitVec.toNat_add, BitVec.toNat_setWidth, hone]
  omega

omit hfit in
theorem apertureWindow_maxlen (hlt : p.descBlenMax < 2 ^ 32) :
    (apertureWindow p epAddr aperture).maxlen.toNat = apertureMaxlen p aperture := by
  have hblen : (BitVec.ofNat 32 p.descBlenMax).toNat = p.descBlenMax := by
    rw [BitVec.toNat_ofNat]
    exact Nat.mod_eq_of_lt hlt
  simp only [apertureWindow, BitVec.lt_def, hblen, apertureMaxlen]
  split_ifs
  · omega
  · rw [hblen]
    omega

omit hfit in
theorem apertureDesc_eq (w : ApertureWindow) (dir : DmaDir) (addr : U64) (tlen : U32) (b : ApertureBuild) :
    ∃ (ep : U64) (l₀ l : U32), ep = (if w.last < b.epAddr then w.base else b.epAddr) ∧
      l₀.toNat = min tlen.toNat w.maxlen.toNat ∧
      l.toNat = (if w.last.toNat < (ep.toNat + l₀.toNat) % 2 ^ 64 then
        (2 ^ 64 - ep.toNat + w.last.toNat + 1) % 2 ^ 64 % 2 ^ 32 else l₀.toNat) ∧
      apertureDesc w dir addr tlen b =
        ({ desc := Function.update b.desc b.descIdx (xdmaDescSet (b.desc b.descIdx) addr ep l dir)
           descIdx := b.descIdx + 1
           sgOffset := b.sgOffset + l
           offset := b.offset + l
           len := b.len + l
           epAddr := ep + l.setWidth 64 }, l) := by
  refine ⟨_, if tlen < w.maxlen then tlen else w.maxlen, _, rfl, ?_, ?_, rfl⟩
  · simp only [BitVec.lt_def]
    split_ifs <;> omega
  · generalize (if tlen < w.maxlen then tlen else w.maxlen) = l₀
    generalize (if w.last < b.epAddr then w.base else b.epAddr) = ep
    have hone : (1 : U64).toNat = 1 := rfl
    have hsum : (ep + l₀.setWidth 64).toNat = (ep.toNat + l₀.toNat) % 2 ^ 64 := by
      rw [BitVec.toNat_add, BitVec.toNat_setWidth, Nat.add_mod_mod]
    have hcut : ((w.last - ep + 1).setWidth 32).toNat =
        (2 ^ 64 - ep.toNat + w.last.toNat + 1) % 2 ^ 64 % 2 ^ 32 := by
      rw [BitVec.toNat_setWidth, BitVec.toNat_add, BitVec.toNat_sub, hone, Nat.mod_add_mod]
    rw [← hcut, ← hsum]
    simp only [BitVec.lt_def]
    split_ifs <;> rfl

theorem apertureDesc_piece (dir : DmaDir) (addr : U64) (tlen : U32) {b : ApertureBuild} {k : ℕ}
    (hep : AtPosition epAddr aperture.toNat k b.epAddr) :
    ∃ b', apertureDesc (apertureWindow p epAddr aperture) dir addr tlen b =
        (b', BitVec.ofNat 32 (cutLen (apertureMaxlen p aperture) aperture.toNat k tlen.toNat)) ∧
      Walked dir epAddr aperture.toNat k b b'
        [(addr, cutLen (apertureMaxlen p aperture) aperture.toNat k tlen.toNat)] ∧
      b'.sgOffset = b.sgOffset +
        BitVec.ofNat 32 (cutLen (apertureMaxlen p aperture) aperture.toNat k tlen.toNat) := by
  obtain ⟨w, hw⟩ : ∃ w, w = apertureWindow p epAddr aperture := ⟨_, rfl⟩
  have hbase : w.base = epAddr := by rw [hw]; rfl
  have hblen := hfit.blen_le
  have hlast := apertureWindow_last (p := p) hfit.pos hfit.fits
  have hmax : (apertureWindow p epAddr aperture).maxlen.toNat = apertureMaxlen p aperture :=
    apertureWindow_maxlen (by omega)
  rw [← hw] at hlast hmax ⊢
  have hpos := hfit.pos
  have hfits := hfit.fits
  have hmod := Nat.mod_lt k hpos
  have htlen := tlen.isLt
  have hmaxlen := w.maxlen.isLt
  unfold cutLen
  rw [← hmax]
  generalize aperture.toNat = a at *
  -- the wrap that the last piece has left
  obtain ⟨ep₀, l₀, l, hep₀, hl₀, hl, heq⟩ := apertureDesc_eq w dir addr tlen b
  have hep₀' : ep₀ = epAddr + ((k % a : ℕ) : U64) := by
    apply BitVec.eq_of_toNat_eq
    rw [BitVec.toNat_add, BitVec.natCast_eq_ofNat, BitVec.toNat_ofNat, hep₀]
    rcases hep with hep | ⟨hz, hep⟩
    · rw [if_neg (by rw [BitVec.lt_def]; omega)]
      omega
    · rw [if_pos (by rw [BitVec.lt_def]; omega), hbase]
      omega
  have hnat : ep₀.toNat = epAddr.toNat + k % a := by
    rw [hep₀', BitVec.toNat_add, BitVec.natCast_eq_ofNat, BitVec.toNat_ofNat]
    omega
  have hl' : l = BitVec.ofNat 32 (min (min tlen.toNat w.maxlen.toNat) (a - k % a)) := by
    apply BitVec.eq_of_toNat_eq
    rw [BitVec.toNat_ofNat, hl]
    split_ifs <;> omega
  rw [heq, ← hl']
  refine ⟨_, rfl, ⟨rfl, fun j hj => ?_, ?_, ?_, ?_, ?_⟩, rfl⟩
  · exact Function.update_of_ne (by omega) _ _
  · simp [MovesPieces, hep₀', hl']
  · simp [hl']
  · simp [hl']
  · apply AtPosition.next _ hpos
    · simp only [total_cons, total_nil]
      rw [hl', BitVec.toNat_add, BitVec.toNat_setWidth, BitVec.toNat_ofNat]
      omega
    · simp only [total_cons, total_nil]
      omega

theorem apertureEntry_walked (dir : DmaDir) (f : ℕ) : ∀ (addr : U64) (tlen : U32) {b : ApertureBuild} {k : ℕ},
    AtPosition epAddr aperture.toNat k b.epAddr → ∀ {ps : List (U64 × ℕ)},
    pieces (apertureMaxlen p aperture) aperture.toNat f k addr tlen.toNat = ps →
      Walked dir epAddr aperture.toNat k b (apertureEntry (apertureWindow p epAddr aperture) dir f
      addr tlen b).1 ps ∧
      (apertureEntry (apertureWindow p epAddr aperture) dir f addr tlen b).2.toNat = tlen.toNat - total ps ∧
      (apertureEntry (apertureWindow p epAddr aperture) dir f addr tlen b).1.sgOffset =
        b.sgOffset + BitVec.ofNat 32 (total ps) := by
  induction f with
  | zero =>
    rintro addr tlen b k hep ps rfl
    exact ⟨.refl hep, rfl, by simp [apertureEntry, pieces]⟩
  | succ f ih =>
    rintro addr tlen b k hep ps rfl
    unfold apertureEntry
    by_cases hz : tlen = 0
    · subst hz
      simp only [↓reduceIte]
      exact ⟨.refl hep, rfl, by simp⟩
    have hn : tlen.toNat ≠ 0 := fun h => hz (BitVec.eq_of_toNat_eq h)
    obtain ⟨b₁, heq, hw₁, hs₁⟩ := apertureDesc_piece hfit dir addr tlen hep
    have hpos := cutLen_pos hfit.maxlen_pos hfit.pos (k := k) hn
    have hle := cutLen_le (m := apertureMaxlen p aperture) (a := aperture.toNat) k tlen.toNat
    rw [pieces_cons addr hn]
    simp only [hz, ↓reduceIte, heq]
    generalize cutLen (apertureMaxlen p aperture) aperture.toNat k tlen.toNat = l at *
    have htlen := tlen.isLt
    have hl : (BitVec.ofNat 32 l).toNat = l := by
      rw [BitVec.toNat_ofNat]
      exact Nat.mod_eq_of_lt (by omega)
    have haddr : addr + (BitVec.ofNat 32 l).setWidth 64 = addr + (l : U64) := by
      congr 1
      apply BitVec.eq_of_toNat_eq
      rw [BitVec.toNat_setWidth, hl, BitVec.natCast_eq_ofNat, BitVec.toNat_ofNat]
    have hleft : (tlen - BitVec.ofNat 32 l).toNat = tlen.toNat - l := by
      rw [BitVec.toNat_sub, hl]
      omega
    obtain ⟨hw, hr, hs⟩ := ih (addr + (l : U64)) (tlen - BitVec.ofNat 32 l) (b := b₁) (k := k + l) hw₁.ep rfl
    rw [haddr]
    rw [hleft] at hw hr hs
    generalize pieces (apertureMaxlen p aperture) aperture.toNat f (k + l) (addr + (l : U64))
      (tlen.toNat - l) = ps at *
    refine ⟨hw₁.trans hw, ?_, ?_⟩
    · rw [hr, total_cons]
      omega
    · rw [hs, hs₁, total_cons, BitVec.ofNat_add, add_assoc]

structure EntriesWalked (p : Params) (aperture : U32) (dir : DmaDir) (epAddr : U64) (descMax : ℕ)
    (es : List SgEntry)
    (i k : ℕ) (b : ApertureBuild) (r : ApertureBuild × ℕ) (ps : List (U64 × ℕ)) (idx : ℕ) : Prop where
  walked : Walked dir epAddr aperture.toNat k b r.1 ps
  count : r.2 = i + idx ∧ idx ≤ es.length
  rest : allPieces (apertureMaxlen p aperture) aperture.toNat k (extentsFrom b.sgOffset.toNat es) =
    ps ++ allPieces (apertureMaxlen p aperture) aperture.toNat (k + total ps)
      (extentsFrom r.1.sgOffset.toNat (es.drop idx))
  place : b.sgOffset.toNat + total ps = total (extents (es.take idx)) + r.1.sgOffset.toNat
  inside : OffsetInside r.1.sgOffset (es.drop idx)
  full : r.1.descIdx ≤ descMax ∧ (r.1.descIdx = descMax ∨ idx = es.length)

theorem apertureEntries_walked (dir : DmaDir) (sgMax descMax : ℕ) (es : List SgEntry) :
    ∀ {i k : ℕ} {b : ApertureBuild}, AtPosition epAddr aperture.toNat k b.epAddr → i + es.length ≤ sgMax →
      b.descIdx ≤ descMax → OffsetInside b.sgOffset es →
      ∃ ps idx, EntriesWalked p aperture dir epAddr descMax es i k b
        (apertureEntries (apertureWindow p epAddr aperture) dir sgMax descMax es i b) ps idx := by
  induction es with
  | nil =>
    intro i k b hep _ hd _
    refine ⟨[], 0, .refl hep, ⟨rfl, le_refl _⟩,
      rfl, by simp [apertureEntries], by simp [OffsetInside], hd, .inr rfl⟩
  | cons sg es ih =>
    intro i k b hep hi hd hoff
    rw [List.length_cons] at hi
    unfold apertureEntries
    by_cases hfull : b.descIdx < descMax
    swap
    · rw [if_neg fun h => hfull h.2]
      refine ⟨[], 0, .refl hep, ⟨rfl, Nat.zero_le _⟩, rfl, by simp, hoff, hd, .inl ?_⟩
      dsimp only
      omega
    rw [if_pos ⟨by omega, hfull⟩]
    have hle : b.sgOffset.toNat ≤ sg.dmaLen.toNat := by
      rcases hoff sg rfl with h | h
      · rw [h]
        exact Nat.zero_le _
      · exact h.le
    have hlen := sg.dmaLen.isLt
    have haddr : sg.dmaAddress + b.sgOffset.setWidth 64 = sg.dmaAddress + (b.sgOffset.toNat : U64) := by
      congr 1
      apply BitVec.eq_of_toNat_eq
      rw [BitVec.toNat_setWidth, BitVec.natCast_eq_ofNat, BitVec.toNat_ofNat]
    have htlen : (sg.dmaLen - b.sgOffset).toNat = sg.dmaLen.toNat - b.sgOffset.toNat := by
      rw [BitVec.toNat_sub]
      omega
    rw [haddr]
    obtain ⟨hw, hr, hs⟩ := apertureEntry_walked hfit dir (descMax - b.descIdx)
      (sg.dmaAddress + (b.sgOffset.toNat : U64)) (sg.dmaLen - b.sgOffset) hep rfl
    rw [htlen] at hw hr hs
    obtain ⟨htotal, hrest⟩ := pieces_rest hfit.maxlen_pos hfit.pos (descMax - b.descIdx) (k := k)
      (n := sg.dmaLen.toNat - b.sgOffset.toNat) (x := sg.dmaAddress + (b.sgOffset.toNat : U64))
    obtain ⟨hcount, hend⟩ := length_pieces (m := apertureMaxlen p aperture) (a := aperture.toNat)
      (descMax - b.descIdx) (k := k)
      (n := sg.dmaLen.toNat - b.sgOffset.toNat) (x := sg.dmaAddress + (b.sgOffset.toNat : U64))
    generalize apertureEntry _ _ _ _ _ _ = r at *
    generalize pieces (apertureMaxlen p aperture) aperture.toNat (descMax - b.descIdx) k
      (sg.dmaAddress + (b.sgOffset.toNat : U64)) (sg.dmaLen.toNat - b.sgOffset.toNat) = ps at *
    obtain ⟨b₁, tlen⟩ := r
    dsimp only at *
    have hoff₁ : b₁.sgOffset.toNat = b.sgOffset.toNat + total ps := by
      rw [hs, BitVec.toNat_add, BitVec.toNat_ofNat]
      omega
    have hidx₁ : b₁.descIdx ≤ descMax := by
      rw [hw.descIdx]
      omega
    by_cases hz : tlen = 0
    · -- the entry is done
      have hdone : total ps = sg.dmaLen.toNat - b.sgOffset.toNat := by
        rw [hz] at hr
        have : (0 : U32).toNat = 0 := rfl
        omega
      obtain ⟨qs, idx, h⟩ := ih (i := i + 1) (k := k + total ps)
        (b := { b₁ with sgOffset := 0 }) hw.ep (by omega)
        hidx₁ fun _ _ => .inl rfl
      have hps : pieces (apertureMaxlen p aperture) aperture.toNat (sg.dmaLen.toNat - b.sgOffset.toNat) k
          (sg.dmaAddress + (b.sgOffset.toNat : U64)) (sg.dmaLen.toNat - b.sgOffset.toNat) = ps := by
        rw [hrest, hdone, Nat.sub_self, pieces_empty, List.append_nil]
      rw [if_pos hz]
      generalize apertureEntries _ _ _ _ es (i + 1) _ = r at *
      refine ⟨ps ++ qs, idx + 1, ?_, ?_, ?_, ?_, h.inside, h.full.1, ?_⟩
      · apply Walked.trans hw
        exact ⟨h.walked.descIdx, h.walked.frame, h.walked.moves, h.walked.offset, h.walked.len, h.walked.ep⟩
      · have := h.count
        rw [List.length_cons]
        omega
      · have hnext := h.rest
        have hzero : (0 : U32).toNat = 0 := rfl
        rw [hzero, extentsFrom_zero] at hnext
        change pieces _ _ _ _ _ _ ++ allPieces _ _ (k + (sg.dmaLen.toNat - b.sgOffset.toNat)) (extents es) = _
        rw [hps, ← hdone, hnext, List.append_assoc, total_append, Nat.add_assoc]
        rfl
      · have hplace := h.place
        have hzero : (0 : U32).toNat = 0 := rfl
        rw [hzero] at hplace
        rw [List.take_succ_cons, extents_cons, total_cons, total_append]
        dsimp only
        omega
      · rw [List.length_cons]
        exact h.full.2.imp_right fun h => by omega
    · have hleft : tlen.toNat ≠ 0 := fun h => hz (BitVec.eq_of_toNat_eq h)
      rw [if_neg hz]
      refine ⟨ps, 0, hw, ⟨rfl, Nat.zero_le _⟩, ?_, ?_, ?_, hidx₁, .inl ?_⟩
      · have hsub : sg.dmaLen.toNat - b.sgOffset.toNat - total ps = sg.dmaLen.toNat -
          b₁.sgOffset.toNat := by omega
        have hadd : k + (sg.dmaLen.toNat - b.sgOffset.toNat) =
            k + total ps + (sg.dmaLen.toNat - b₁.sgOffset.toNat) := by
          omega
        have hfrom : sg.dmaAddress + (b.sgOffset.toNat : U64) + (total ps : U64) =
            sg.dmaAddress + (b₁.sgOffset.toNat : U64) := by
          rw [hoff₁, Nat.cast_add, add_assoc]
        change pieces _ _ _ _ _ _ ++ allPieces _ _ (k + (sg.dmaLen.toNat - b.sgOffset.toNat)) (extents es) = _
        rw [hrest, hsub, hfrom, hadd, List.append_assoc]
        rfl
      · simpa using hoff₁.symm
      · intro sg' hsg
        obtain rfl := Option.some.inj hsg
        apply Or.inr
        dsimp only
        omega
      · dsimp only
        rw [hw.descIdx, hend.resolve_left (by omega)]
        omega

end

theorem apertureLink_same (e : XdmaEngine) (desc : ℕ → XdmaDesc) (dir : DmaDir) (i n j : ℕ) :
    (apertureLink e desc i n j).bytes = (desc j).bytes ∧
      (apertureLink e desc i n j).hostAddr dir = (desc j).hostAddr dir ∧
      (apertureLink e desc i n j).devAddr dir = (desc j).devAddr dir := by
  unfold apertureLink
  by_cases hj : i ≤ j ∧ j < i + n
  swap
  · rw [updateSlots_of_not_mem hj, updateSlots_of_not_mem hj]
    exact ⟨rfl, rfl, rfl⟩
  rw [updateSlots_of_mem hj, updateSlots_of_mem hj, xdmaDescAdjacent_bytes, xdmaDescAdjacent_hostAddr,
    xdmaDescAdjacent_devAddr]
  by_cases hnext : j + 1 < i + n
  all_goals
    simp only [hnext, ↓reduceIte, true_and]
    cases dir <;> exact ⟨rfl, rfl⟩

theorem MovesPieces.map_congr {dir : DmaDir} {base : U64} {a : ℕ} {f g : ℕ → XdmaDesc}
    (hfg : ∀ j, (g j).bytes = (f j).bytes ∧ (g j).hostAddr dir = (f j).hostAddr dir ∧
      (g j).devAddr dir = (f j).devAddr dir) (ps : List (U64 × ℕ)) :
    ∀ {k : ℕ} {l : List ℕ}, MovesPieces dir base a k ps (l.map f) →
      MovesPieces dir base a k ps (l.map g) := by
  induction ps with
  | nil =>
    intro k l h
    cases l with
    | nil => trivial
    | cons => exact h.elim
  | cons x ps ih =>
    intro k l h
    cases l with
    | nil => exact h.elim
    | cons j l =>
      obtain ⟨hb, hh, hd⟩ := hfg j
      refine ⟨?_, ih h.2⟩
      rw [hb, hh, hd]
      exact h.1

theorem sum_dmaLen (sgt : List SgEntry) : (sgt.map SgEntry.dmaLen).sum =
    BitVec.ofNat 32 (total (extents sgt)) := by
  induction sgt with
  | nil => rfl
  | cons sg sgt ih =>
    rw [List.map_cons, List.sum_cons, ih, extents_cons, total_cons, BitVec.ofNat_add, BitVec.ofNat_toNat,
      BitVec.setWidth_eq]

def aperturePieces (p : Params) (aperture : U32) (sgt : List SgEntry) : List (U64 × ℕ) :=
  allPieces (apertureMaxlen p aperture) aperture.toNat 0 (extents sgt)

def apertureLeft (p : Params) (aperture : U32) (sgt : List SgEntry) (req : XdmaRequestCb)
    (ps : List (U64 × ℕ)) :
    List (U64 × ℕ) :=
  allPieces (apertureMaxlen p aperture) aperture.toNat (total ps)
    (extentsFrom req.sgOffset.toNat (sgt.drop req.sgIdx))

structure CursorsAt (p : Params) (epAddr : U64) (aperture : U32) (sgt : List SgEntry) (req : XdmaRequestCb)
    (ps : List (U64 × ℕ)) : Prop where
  window : req.epAddr = epAddr ∧ req.aperture = aperture
  totalLen : req.totalLen = BitVec.ofNat 32 (total (extents sgt))
  pieces : aperturePieces p aperture sgt = ps ++ apertureLeft p aperture sgt req ps
  offset : req.offset = BitVec.ofNat 32 (total ps)
  place : total ps = total (extents (sgt.take req.sgIdx)) + req.sgOffset.toNat
  inside : OffsetInside req.sgOffset (sgt.drop req.sgIdx)

section

variable {p : Params} {epAddr : U64} {aperture : U32} {sgt : List SgEntry} {req : XdmaRequestCb}
    {ps : List (U64 × ℕ)}

theorem CursorsAt.total_le (h : CursorsAt p epAddr aperture sgt req ps)
    (hfit : ApertureFits p epAddr aperture) :
    total ps + total (apertureLeft p aperture sgt req ps) = total (extents sgt) := by
  rw [← total_append, ← h.pieces]
  exact total_allPieces hfit.maxlen_pos hfit.pos _ _

theorem CursorsAt.more_iff (h : CursorsAt p epAddr aperture sgt req ps)
    (hfit : ApertureFits p epAddr aperture)
    (hsmall : total (extents sgt) < 2 ^ 32) : req.offset < req.totalLen ↔
      apertureLeft p aperture sgt req ps ≠ [] := by
  have htotal := h.total_le hfit
  have hpos : apertureLeft p aperture sgt req ps ≠ [] ↔ 0 < total (apertureLeft p aperture sgt req ps) := by
    have hmem := mem_allPieces (A := U64) hfit.maxlen_pos hfit.pos
      (extentsFrom req.sgOffset.toNat (sgt.drop req.sgIdx))
      (k := total ps)
    change ∀ y ∈ apertureLeft p aperture sgt req ps, _ at hmem
    cases hl : apertureLeft p aperture sgt req ps with
    | nil => simp
    | cons y ys =>
      have := (hmem y (by rw [hl]; exact List.mem_cons_self)).1
      rw [total_cons]
      exact iff_of_true (by simp) (by omega)
  rw [hpos, h.offset, h.totalLen, BitVec.lt_def, BitVec.toNat_ofNat, BitVec.toNat_ofNat]
  omega

end

end XdmaDriver
