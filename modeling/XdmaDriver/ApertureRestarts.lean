import XdmaDriver.ApertureChains

/-!
A chain of `xdma_xfer_aperture` that begins behind the first scatter entry, or where the
mask misses the offset in the window, and the whole request.
-/

namespace XdmaDriver

open Drv Spans Windows

theorem apertureDesc_frame (w : ApertureWindow) (dir : DmaDir) (addr : U64) (tlen : U32) (b : ApertureBuild) :
    (apertureDesc w dir addr tlen b).1.descIdx = b.descIdx + 1 ∧
      ∀ j < b.descIdx, (apertureDesc w dir addr tlen b).1.desc j = b.desc j := by
  refine ⟨rfl, fun j hj => ?_⟩
  exact Function.update_of_ne (by omega) _ _

theorem apertureEntry_frame (w : ApertureWindow) (dir : DmaDir) (f : ℕ) :
    ∀ (addr : U64) (tlen : U32) (b : ApertureBuild),
    b.descIdx ≤ (apertureEntry w dir f addr tlen b).1.descIdx ∧
      ∀ j < b.descIdx, (apertureEntry w dir f addr tlen b).1.desc j = b.desc j := by
  induction f with
  | zero => exact fun _ _ _ => ⟨le_refl _, fun _ _ => rfl⟩
  | succ f ih =>
    intro addr tlen b
    unfold apertureEntry
    split_ifs
    · exact ⟨le_refl _, fun _ _ => rfl⟩
    · obtain ⟨hidx, hdesc⟩ := apertureDesc_frame w dir addr tlen b
      generalize apertureDesc w dir addr tlen b = r at *
      obtain ⟨b₁, l⟩ := r
      dsimp only at *
      obtain ⟨hidx', hdesc'⟩ := ih (addr + l.setWidth 64) (tlen - l) b₁
      exact ⟨by omega, fun j hj => (hdesc' j (by omega)).trans (hdesc j hj)⟩

theorem apertureEntries_frame (w : ApertureWindow) (dir : DmaDir) (sgMax descMax : ℕ) (es : List SgEntry) :
    ∀ (i : ℕ) (b : ApertureBuild), b.descIdx ≤ (apertureEntries w dir sgMax descMax es i b).1.descIdx ∧
      ∀ j < b.descIdx, (apertureEntries w dir sgMax descMax es i b).1.desc j = b.desc j := by
  induction es with
  | nil => exact fun _ _ => ⟨le_refl _, fun _ _ => rfl⟩
  | cons sg es ih =>
    intro i b
    unfold apertureEntries
    split_ifs
    swap
    · exact ⟨le_refl _, fun _ _ => rfl⟩
    obtain ⟨hidx, hdesc⟩ := apertureEntry_frame w dir (descMax - b.descIdx)
      (sg.dmaAddress + b.sgOffset.setWidth 64)
      (sg.dmaLen - b.sgOffset) b
    generalize apertureEntry _ _ _ _ _ _ = r at *
    obtain ⟨b₁, tlen⟩ := r
    dsimp only at *
    split_ifs
    · obtain ⟨hidx', hdesc'⟩ := ih (i + 1) { b₁ with sgOffset := 0 }
      exact ⟨hidx.trans hidx', fun j hj => (hdesc' j (lt_of_lt_of_le hj hidx)).trans (hdesc j hj)⟩
    · exact ⟨hidx, hdesc⟩

/-- No entry is empty, and no byte of the host occurs twice. -/
def Distinct (sgt : List SgEntry) : Prop := (∀ sg ∈ sgt, sg.dmaLen ≠ 0) ∧ (sgBytes sgt).Nodup

instance (sgt : List SgEntry) : Decidable (Distinct sgt) := inferInstanceAs (Decidable (_ ∧ _))

theorem mem_sgBytes {sgt : List SgEntry} {sg : SgEntry} (h : sg ∈ sgt) {k : ℕ} (hk : k < sg.dmaLen.toNat) :
    sg.dmaAddress + (k : U64) ∈ sgBytes sgt := by
  apply List.mem_flatMap.mpr
  exact ⟨(sg.dmaAddress, sg.dmaLen.toNat), List.mem_map.mpr ⟨sg, h, rfl⟩, mem_span.mpr ⟨k, hk, rfl⟩⟩

theorem Distinct.tail {sg : SgEntry} {sgt : List SgEntry} (h : Distinct (sg :: sgt)) : Distinct sgt :=
  ⟨fun sg' hsg => h.1 sg' (List.mem_cons_of_mem _ hsg), (List.nodup_append.mp h.2).2.1⟩

theorem Distinct.ne {sg sg' : SgEntry} {sgt : List SgEntry} (h : Distinct (sg :: sgt))
    (hmem : sg' ∈ sgt) {j k : ℕ}
    (hj : j < sg.dmaLen.toNat) (hk : k < sg'.dmaLen.toNat) :
      sg.dmaAddress + (j : U64) ≠ sg'.dmaAddress + (k : U64) :=
  (List.nodup_append.mp h.2).2.2 _ (mem_span.mpr ⟨j, hj, rfl⟩) _ (mem_sgBytes hmem hk)

theorem Distinct.pos {sg : SgEntry} {sgt : List SgEntry} (h : Distinct sgt) (hmem : sg ∈ sgt) :
    0 < sg.dmaLen.toNat :=
  Nat.pos_of_ne_zero fun h0 => h.1 sg hmem (BitVec.eq_of_toNat_eq h0)

def FirstFrom (sgt : List SgEntry) (off : U32) (x : U64) : Prop :=
  ∃ sg sgs, sgt = sg :: sgs ∧ (sg.dmaLen ≠ off ∧ x = sg.dmaAddress + (off.toNat : U64) ∨
    sg.dmaLen = off ∧ ∃ sg' ∈ sgs.head?, x = sg'.dmaAddress)

theorem setWidth_toNat (x : U32) : x.setWidth 64 = (x.toNat : U64) := by
  apply BitVec.eq_of_toNat_eq
  rw [BitVec.toNat_setWidth, BitVec.natCast_eq_ofNat, BitVec.toNat_ofNat]

section

variable {p : Params} {epAddr : U64} {aperture : U32} (hfit : ApertureFits p epAddr aperture)

include hfit

theorem apertureEntries_first (dir : DmaDir) {sgMax descMax i k : ℕ} {sg : SgEntry} (es : List SgEntry)
    {b : ApertureBuild} (hi : i < sgMax) (hd : b.descIdx < descMax)
      (hep : AtPosition epAddr aperture.toNat k b.epAddr)
    (hne : sg.dmaLen - b.sgOffset ≠ 0) :
    ∃ n, 0 < n ∧ n < 2 ^ 32 ∧ MovesPieces dir epAddr aperture.toNat k
      [(sg.dmaAddress + b.sgOffset.setWidth 64, n)]
      [(apertureEntries (apertureWindow p epAddr aperture) dir sgMax descMax (sg :: es) i b).1.desc
        b.descIdx] := by
  unfold apertureEntries
  rw [if_pos ⟨hi, hd⟩]
  obtain ⟨f, hf⟩ := Nat.exists_eq_add_one_of_ne_zero (show descMax - b.descIdx ≠ 0 by omega)
  rw [hf]
  unfold apertureEntry
  rw [if_neg hne]
  obtain ⟨b₁, heq, hw, -⟩ := apertureDesc_piece hfit dir (sg.dmaAddress + b.sgOffset.setWidth 64)
    (sg.dmaLen - b.sgOffset) hep
  have hn : (sg.dmaLen - b.sgOffset).toNat ≠ 0 := fun h => hne (BitVec.eq_of_toNat_eq h)
  have hpos := cutLen_pos hfit.maxlen_pos hfit.pos (k := k) hn
  have hle := cutLen_le (m := apertureMaxlen p aperture)
    (a := aperture.toNat) k (sg.dmaLen - b.sgOffset).toNat
  have htlen := (sg.dmaLen - b.sgOffset).isLt
  rw [heq]
  dsimp only
  generalize cutLen (apertureMaxlen p aperture) aperture.toNat k (sg.dmaLen - b.sgOffset).toNat = n at *
  refine ⟨n, hpos, by omega, ?_⟩
  have hb₁ : b.descIdx < b₁.descIdx := by
    rw [hw.descIdx]
    simp
  have hmoves := hw.moves
  simp only [List.length_singleton, List.range'_one, List.map_cons, List.map_nil] at hmoves
  obtain ⟨hidx, hdesc⟩ := apertureEntry_frame (apertureWindow p epAddr aperture) dir f
    (sg.dmaAddress + b.sgOffset.setWidth 64 + (BitVec.ofNat 32 n).setWidth 64)
    (sg.dmaLen - b.sgOffset - BitVec.ofNat 32 n) b₁
  generalize apertureEntry _ _ _ _ _ _ = r at *
  obtain ⟨b₂, tlen⟩ := r
  dsimp only at *
  have hkept : (if tlen = 0 then apertureEntries (apertureWindow p epAddr aperture) dir sgMax
    descMax es (i + 1)
      { b₂ with sgOffset := 0 } else (b₂, i)).1.desc b.descIdx = b₁.desc b.descIdx := by
    split_ifs
    · obtain ⟨-, hdesc'⟩ := apertureEntries_frame (apertureWindow p epAddr aperture) dir sgMax
        descMax es (i + 1)
        { b₂ with sgOffset := 0 }
      exact (hdesc' _ (lt_of_lt_of_le hb₁ hidx)).trans (hdesc _ hb₁)
    · exact hdesc _ hb₁
  rw [hkept]
  exact hmoves

theorem apertureEntries_from (dir : DmaDir) (sgMax descMax i : ℕ) {k : ℕ} {es : List SgEntry}
    {b : ApertureBuild}
    (hdist : Distinct es) (hep : AtPosition epAddr aperture.toNat k b.epAddr)
    (hmoved : (apertureEntries (apertureWindow p epAddr aperture) dir sgMax descMax es i b).1.descIdx ≠
      b.descIdx) :
    ∃ x n, FirstFrom es b.sgOffset x ∧ 0 < n ∧ n < 2 ^ 32 ∧ MovesPieces dir epAddr aperture.toNat k [(x, n)]
      [(apertureEntries (apertureWindow p epAddr aperture) dir sgMax descMax es i b).1.desc b.descIdx] := by
  cases es with
  | nil => exact absurd rfl hmoved
  | cons sg sgs =>
    by_cases hguard : i < sgMax ∧ b.descIdx < descMax
    swap
    · rw [apertureEntries, if_neg hguard] at hmoved
      exact absurd rfl hmoved
    by_cases hend : sg.dmaLen = b.sgOffset
    swap
    · have hne : sg.dmaLen - b.sgOffset ≠ 0 := fun h => hend (sub_eq_zero.mp h)
      obtain ⟨n, hpos, hlt, hm⟩ := apertureEntries_first hfit dir sgs hguard.1 hguard.2 hep hne
      rw [setWidth_toNat] at hm
      exact ⟨_, n, ⟨sg, sgs, rfl, .inl ⟨hend, rfl⟩⟩, hpos, hlt, hm⟩
    -- nothing is left of the head entry, and the next one begins the chain
    have hnext : apertureEntries (apertureWindow p epAddr aperture) dir sgMax descMax (sg :: sgs) i b =
        apertureEntries (apertureWindow p epAddr aperture) dir sgMax descMax sgs (i + 1)
        { b with sgOffset := 0 } := by
      have hsub : sg.dmaLen - b.sgOffset = 0 := by rw [hend, sub_self]
      rw [apertureEntries, if_pos hguard, hsub]
      cases descMax - b.descIdx <;> rfl
    rw [hnext] at hmoved ⊢
    cases sgs with
    | nil => exact absurd rfl hmoved
    | cons sg' sgs' =>
      by_cases hguard' : i + 1 < sgMax ∧ b.descIdx < descMax
      swap
      · rw [apertureEntries, if_neg hguard'] at hmoved
        exact absurd rfl hmoved
      have hne : sg'.dmaLen - (0 : U32) ≠ 0 := by
        rw [sub_zero]
        exact hdist.1 sg' (by simp)
      obtain ⟨n, hpos, hlt, hm⟩ := apertureEntries_first (b := { b with sgOffset := 0 }) hfit
        dir sgs' hguard'.1
        hguard'.2 hep hne
      have hzero : sg'.dmaAddress + (0 : U32).setWidth 64 = sg'.dmaAddress := by simp
      dsimp only at hm
      rw [hzero] at hm
      exact ⟨_, n, ⟨sg, _, rfl, .inr ⟨hend, sg', rfl, rfl⟩⟩, hpos, hlt, hm⟩

end

section

variable {p : Params} {epAddr : U64} {aperture : U32} {sgt : List SgEntry} {req : XdmaRequestCb}
    {ps : List (U64 × ℕ)}

theorem covered_extents (sgt : List SgEntry) : covered (extents sgt) = sgBytes sgt := rfl

theorem total_extents (sgt : List SgEntry) : total (extents sgt) = (sgBytes sgt).length :=
  (length_covered (extents sgt)).symm

theorem windowPairs_aperturePieces (hfit : ApertureFits p epAddr aperture) (sgt : List SgEntry) :
    windowPairs aperture.toNat epAddr 0 (aperturePieces p aperture sgt) =
      (sgBytes sgt).zip (windowed aperture.toNat epAddr 0 (sgBytes sgt).length) := by
  rw [aperturePieces, windowPairs_allPieces hfit.maxlen_pos hfit.pos, covered_extents, total_extents]

theorem CursorsAt.head (h : CursorsAt p epAddr aperture sgt req ps)
    (hdist : ∀ sg ∈ sgt, sg.dmaLen ≠ 0) (hleft : apertureLeft p aperture sgt req ps ≠ []) :
    ∃ sg sgs, sgt.drop req.sgIdx = sg :: sgs ∧ req.sgOffset.toNat < sg.dmaLen.toNat := by
  cases hd : sgt.drop req.sgIdx with
  | nil =>
    rw [apertureLeft, hd] at hleft
    exact absurd rfl hleft
  | cons sg sgs =>
    refine ⟨sg, sgs, rfl, ?_⟩
    have hin := h.inside
    rw [hd] at hin
    rcases hin sg rfl with hz | hlt
    · have hmem : sg ∈ sgt := List.mem_of_mem_drop (by rw [hd]; exact List.mem_cons_self)
      rw [hz]
      exact Nat.pos_of_ne_zero fun h0 => hdist sg hmem (BitVec.eq_of_toNat_eq h0)
    · exact hlt

variable (ps) in
theorem windowPairs_next (hfit : ApertureFits p epAddr aperture) {sg : SgEntry} {sgs : List SgEntry}
    (hd : sgt.drop req.sgIdx = sg :: sgs)
    (hlt : req.sgOffset.toNat < sg.dmaLen.toNat) :
    (windowPairs aperture.toNat epAddr (total ps) (apertureLeft p aperture sgt req ps)).head? =
      some (sg.dmaAddress + (req.sgOffset.toNat : U64),
      epAddr + ((total ps % aperture.toNat : ℕ) : U64)) := by
  rw [apertureLeft, windowPairs_allPieces hfit.maxlen_pos hfit.pos, hd]
  obtain ⟨m, hm⟩ := Nat.exists_eq_add_one_of_ne_zero (show sg.dmaLen.toNat - req.sgOffset.toNat ≠ 0 by omega)
  have hfrom : extentsFrom req.sgOffset.toNat (sg :: sgs) =
      (sg.dmaAddress + (req.sgOffset.toNat : U64), m + 1) :: extents sgs := by
    rw [← hm]
    rfl
  rw [hfrom, total_cons, covered_cons]
  dsimp only
  rw [show m + 1 + total (extents sgs) = (m + total (extents sgs)) + 1 by omega, windowed, span,
    List.range_succ_eq_map, List.range_succ_eq_map]
  simp

theorem FirstFrom.misplaced {off : U32} {x : U64} {k i : ℕ} {sg : SgEntry} {sgs : List SgEntry}
    (hx : FirstFrom sgt off x) (hdist : Distinct sgt) (hplace : k = total (extents (sgt.take i)) + off.toNat)
    (hd : sgt.drop i = sg :: sgs) (hoff : off.toNat < sg.dmaLen.toNat)
    (hbehind : ¬ ∃ sg ∈ sgt.head?, k < sg.dmaLen.toNat) : x ≠ sg.dmaAddress + (off.toNat : U64) := by
  intro hfrom
  obtain ⟨sg₀, sgs₀, rfl, hx⟩ := hx
  cases i with
  | zero =>
    obtain ⟨rfl, rfl⟩ := List.cons.inj hd
    apply hbehind
    rw [List.take_zero, extents_nil, total_nil, Nat.zero_add] at hplace
    exact ⟨sg₀, rfl, by omega⟩
  | succ i =>
    rw [List.drop_succ_cons] at hd
    have hmem : sg ∈ sgs₀ := List.mem_of_mem_drop (by rw [hd]; exact List.mem_cons_self)
    rcases hx with ⟨-, rfl⟩ | ⟨hend, sg', hhead, rfl⟩
    · have hne := hdist.ne hmem (hdist.pos List.mem_cons_self) (hdist.tail.pos hmem)
      exact hne (by rw [add_right_cancel hfrom])
    · cases sgs₀ with
      | nil => simp at hhead
      | cons sg₁ sgs₁ =>
        obtain rfl := Option.some.inj hhead
        have hpos := hdist.pos List.mem_cons_self
        cases i with
        | zero =>
          obtain ⟨rfl, rfl⟩ := List.cons.inj hd
          have hzero := congrArg BitVec.toNat (left_eq_add.mp hfrom)
          have := off.isLt
          rw [BitVec.natCast_eq_ofNat, BitVec.toNat_ofNat, Nat.mod_eq_of_lt (by omega), ← hend] at hzero
          exact absurd hzero hpos.ne'
        | succ i =>
          rw [List.drop_succ_cons] at hd
          have hmem : sg ∈ sgs₁ := List.mem_of_mem_drop (by rw [hd]; exact List.mem_cons_self)
          have hne := hdist.tail.ne hmem (hdist.tail.pos List.mem_cons_self) hoff
          rw [Nat.cast_zero, add_zero] at hne
          exact hne hfrom

end

namespace XferCall

variable {p : Params} {own : ℕ} {epAddr : U64} {aperture : U32} {c c' : XferCall} {tr : ChainTrace}
  {ps : List (U64 × ℕ)} {e : XdmaEngine} {sgt : SgTable}

theorem Placed.firstPair (hfit : ApertureFits p epAddr aperture)
    (hsmall : total (extents sgt.entries) < 2 ^ 32)
    (hdist : Distinct sgt.entries) (h : Placed p own e epAddr aperture sgt c ps) (hsgt : c.sgt = sgt)
    {dmaMapped : Bool} {dump : DumpRegs} (hchain : c.apertureChain p own dmaMapped dump = some (c', tr)) :
    ∃ x n d ds, FirstFrom sgt.entries c.req.sgOffset x ∧ 0 < n ∧ n < 2 ^ 32 ∧ tr.descs own = d :: ds ∧
      MovesPieces e.dir epAddr aperture.toNat (total ps &&& (aperture.toNat - 1)) [(x, n)] [d] := by
  have hpos := hfit.pos
  have hle : total ps &&& (aperture.toNat - 1) ≤ aperture.toNat - 1 := Nat.and_le_right
  have hep : AtPosition epAddr aperture.toNat (total ps &&& (aperture.toNat - 1)) c.apertureStart.epAddr := by
    apply Or.inl
    rw [apertureStart_epAddr hfit hsmall h.cursors, Nat.mod_eq_of_lt (by omega)]
  obtain ⟨r, hr⟩ : ∃ r, apertureEntries (apertureWindow p c.req.epAddr c.req.aperture)
    c.drv.eng.dir c.sgt.nents
    c.drv.eng.descMax c.sgt.entries c.req.sgIdx c.apertureStart = r := ⟨_, rfl⟩
  have hr' := hr
  rw [h.cursors.window.1, h.cursors.window.2, hsgt] at hr'
  obtain ⟨b, i⟩ := r
  rcases apertureChain_laid own hr dmaMapped dump with hnone | ⟨c₁, tr₁, hsome, hlaid⟩
  · rw [hnone.2] at hchain
    cases hchain
  rw [hsome] at hchain
  obtain ⟨rfl, rfl⟩ := Prod.mk.inj (Option.some.inj hchain)
  have hnum := (apertureChain_built hsome).2.2.2.1
  rw [hlaid.xfer.2] at hnum
  have hfirst : c.apertureStart.descIdx = c.drv.eng.descIdx := rfl
  obtain ⟨x, n, hx, hn, hlt, hm⟩ := apertureEntries_from hfit c.drv.eng.dir sgt.nents
    c.drv.eng.descMax c.req.sgIdx hdist hep (by rw [hr']; dsimp only; omega)
  rw [hr', hfirst] at hm
  have hoff : c.apertureStart.sgOffset = c.req.sgOffset := rfl
  obtain ⟨m, hcount⟩ := Nat.exists_eq_add_one_of_ne_zero hnum
  rw [hoff] at hx
  refine ⟨x, n, c₁.drv.eng.desc c.drv.eng.descIdx,
    (List.range' (c.drv.eng.descIdx + 1) m).map c₁.drv.eng.desc,
    hx, hn, hlt, ?_, ?_⟩
  · rw [ChainTrace.descs, hlaid.trace.2, hlaid.xfer.1, hlaid.xfer.2, hcount]
    rfl
  · rw [hlaid.desc, ← h.config.dir]
    exact MovesPieces.map_congr (l := [c.drv.eng.descIdx]) (fun j => apertureLink_same _ _ _ _ _ j) _ hm

theorem Placed.short (hfit : ApertureFits p epAddr aperture)
    (h : Placed p own e epAddr aperture sgt c ps) : ∀ y ∈ ps, y.2 < 2 ^ 32 := by
  intro y hy
  have hmem := mem_allPieces (A := U64) hfit.maxlen_pos hfit.pos (extents sgt.entries) (k := 0) y
    (by rw [← aperturePieces, h.cursors.pieces]; exact List.mem_append_left _ hy)
  have := hfit.blen_le
  have := aperture.isLt
  have hmax : apertureMaxlen p aperture ≤ aperture.toNat := min_le_left _ _
  omega

theorem Placed.pairs (hfit : ApertureFits p epAddr aperture)
    (h : Placed p own e epAddr aperture sgt c ps) :
    chainPairs own e.dir c.chains = windowPairs aperture.toNat epAddr 0 ps :=
  h.moves.pairs ps (h.short hfit)

theorem Placed.misplaced (hfit : ApertureFits p epAddr aperture)
    (hsmall : total (extents sgt.entries) < 2 ^ 32)
    (hdist : Distinct sgt.entries) (h : Placed p own e epAddr aperture sgt c ps)
    (hleft : apertureLeft p aperture sgt.entries c.req ps ≠ [])
      (hbad : ¬ RestartsAt aperture sgt.entries (total ps))
    {dmaMapped : Bool} {dump : DumpRegs} (hchain : c.apertureChain p own dmaMapped dump = some (c', tr)) :
    ¬ chainPairs own e.dir (c.chains ++ [tr]) <+:
      windowPairs aperture.toNat epAddr 0 (aperturePieces p aperture sgt.entries) := by
  intro hpre
  have hmore := (h.cursors.more_iff hfit hsmall).mpr hleft
  have hsgt : c.sgt = sgt := h.mapped fun he => by simp [he] at hmore
  obtain ⟨x, n, d, ds, hx, hn, hlt, hdescs, ⟨hb, hhost, hdev⟩, -⟩ := h.firstPair hfit hsmall hdist hsgt hchain
  obtain ⟨sg, sgs, hd, hoff⟩ := h.cursors.head hdist.1 hleft
  have hnext := windowPairs_next ps hfit hd hoff
  rw [chainPairs_append, h.pairs hfit, h.cursors.pieces, windowPairs_append, Nat.zero_add,
    List.prefix_append_right_inj] at hpre
  obtain ⟨m, rfl⟩ := Nat.exists_eq_add_one_of_ne_zero hn.ne'
  have hhead : (chainPairs own e.dir [tr]).head? =
      some (x, epAddr + (((total ps &&& (aperture.toNat - 1)) % aperture.toNat : ℕ) : U64)) := by
    have hbytes : d.bytes.toNat = m + 1 := by
      rw [hb, BitVec.toNat_ofNat, Nat.mod_eq_of_lt hlt]
    rw [chainPairs, List.flatMap_singleton, hdescs, List.flatMap_cons, hbytes, hhost, hdev,
      List.head?_append, head?_pairs, Option.some_or]
  obtain ⟨rest, hrest⟩ := hpre
  rw [← hrest, List.head?_append, hhead, Option.some_or] at hnext
  obtain ⟨hfrom, hto⟩ := Prod.mk.inj (Option.some.inj hnext)
  have hmask : total ps &&& (aperture.toNat - 1) = total ps % aperture.toNat := by
    have hle : total ps &&& (aperture.toNat - 1) ≤ aperture.toNat - 1 := Nat.and_le_right
    have hmod := Nat.mod_lt (total ps) hfit.pos
    have hnat := congrArg BitVec.toNat (add_left_cancel hto)
    have ha := aperture.isLt
    have hpos := hfit.pos
    rw [BitVec.natCast_eq_ofNat, BitVec.natCast_eq_ofNat, BitVec.toNat_ofNat, BitVec.toNat_ofNat,
      Nat.mod_eq_of_lt (show total ps % aperture.toNat < 2 ^ 64 by omega),
      Nat.mod_eq_of_lt (show total ps &&& (aperture.toNat - 1) < aperture.toNat by omega),
      Nat.mod_eq_of_lt (show total ps &&& (aperture.toNat - 1) < 2 ^ 64 by omega)] at hnat
    exact hnat
  exact hx.misplaced hdist h.cursors.place hd hoff (fun hfirst => hbad ⟨hfirst, hmask⟩) hfrom

theorem Placed.inside_iff (h : Placed p own e epAddr aperture sgt c ps) :
    RestartsInside p aperture sgt.entries c.chains ↔
      (apertureLeft p aperture sgt.entries c.req ps ≠ [] → c.chains ≠ [] →
        RestartsAt aperture sgt.entries (total ps)) := by
  constructor
  · intro hin hleft hne
    obtain ⟨hcut, htake⟩ := h.cut hleft
    have hlast := hin c.chains.length (List.length_pos_of_ne_nil hne) (le_refl _)
    rw [List.take_length, htake] at hlast
    exact hlast hcut
  · intro hlast j hj hle hcut
    rcases hle.lt_or_eq with hlt | rfl
    · exact h.restarts j hj hlt hcut
    · rw [List.take_length] at hcut ⊢
      have hleft : apertureLeft p aperture sgt.entries c.req ps ≠ [] := by
        intro hnil
        rw [h.cursors.pieces, hnil, List.append_nil] at hcut
        exact absurd h.room.1 (not_le.mpr hcut)
      rw [(h.cut hleft).2]
      exact hlast hleft (List.ne_nil_of_length_pos hj)

theorem Placed.maps (hfit : ApertureFits p epAddr aperture) (h : Placed p own e epAddr aperture sgt c ps)
    (hleft : apertureLeft p aperture sgt.entries c.req ps = []) :
    MapsAperture own e epAddr aperture sgt.entries c.chains := by
  have hall : ps = aperturePieces p aperture sgt.entries := by
    rw [h.cursors.pieces, hleft, List.append_nil]
  constructor
  · rw [h.moves.host ps (h.short hfit), hall, aperturePieces, covered_allPieces hfit.maxlen_pos hfit.pos,
      covered_extents]
  · exact (h.pairs hfit).trans (hall ▸ windowPairs_aperturePieces hfit sgt.entries)

theorem Placed.incomplete (hfit : ApertureFits p epAddr aperture)
    (h : Placed p own e epAddr aperture sgt c ps) (hmore : c.req.offset < c.req.totalLen) :
    ¬ MapsAperture own e epAddr aperture sgt.entries c.chains := by
  intro hmaps
  have hlen := congrArg List.length ((h.pairs hfit).symm.trans hmaps.device)
  rw [length_windowPairs, List.length_zip, length_windowed, min_self, ← total_extents] at hlen
  rw [h.cursors.offset, h.cursors.totalLen, hlen] at hmore
  exact BitVec.lt_irrefl _ hmore

structure Misplaced (p : Params) (own : ℕ) (e : XdmaEngine) (epAddr : U64) (aperture : U32)
    (sgt : List SgEntry)
    (trs : List ChainTrace) : Prop where
  outside : ¬ RestartsInside p aperture sgt trs
  wrong : Distinct sgt → ¬ chainPairs own e.dir trs <+:
    windowPairs aperture.toNat epAddr 0 (aperturePieces p aperture sgt)

theorem Misplaced.append {sgt : List SgEntry} {trs : List ChainTrace}
    (h : Misplaced p own e epAddr aperture sgt trs)
    (trs' : List ChainTrace) : Misplaced p own e epAddr aperture sgt (trs ++ trs') := by
  constructor
  · exact fun hin => h.outside hin.of_append
  · intro hdist hpre
    rw [chainPairs_append] at hpre
    exact h.wrong hdist ((List.prefix_append _ _).trans hpre)

theorem Misplaced.not_maps (hfit : ApertureFits p epAddr aperture) {sgt : List SgEntry}
    {trs : List ChainTrace}
    (h : Misplaced p own e epAddr aperture sgt trs) (hdist : Distinct sgt) :
    ¬ MapsAperture own e epAddr aperture sgt trs := by
  intro hmaps
  apply h.wrong hdist
  rw [windowPairs_aperturePieces hfit, ← hmaps.device]
  exact List.prefix_rfl

structure ApertureEnded (p : Params) (own : ℕ) (e : XdmaEngine) (epAddr : U64) (aperture : U32)
    (sgt : List SgEntry)
    (trs : List ChainTrace) (outcome : CallEnd) : Prop where
  maps : RestartsInside p aperture sgt trs → outcome ≠ .waiting → (∀ tr ∈ trs, tr.Completed ⟨own, 0⟩) →
    MapsAperture own e epAddr aperture sgt trs
  inside : Distinct sgt → (∀ tr ∈ trs, tr.Completed ⟨own, 0⟩) → MapsAperture own e epAddr aperture sgt trs →
    RestartsInside p aperture sgt trs
  ends : RestartsInside p aperture sgt trs → outcome = .waiting →
    trs.length < (aperturePieces p aperture sgt).length

theorem Misplaced.ended (hfit : ApertureFits p epAddr aperture) {sgt : List SgEntry} {trs : List ChainTrace}
    (h : Misplaced p own e epAddr aperture sgt trs) (outcome : CallEnd) :
    ApertureEnded p own e epAddr aperture sgt trs outcome := by
  constructor
  · exact fun hin => absurd hin h.outside
  · exact fun hdist _ hmaps => absurd hmaps (h.not_maps hfit hdist)
  · exact fun hin => absurd hin h.outside

theorem Placed.waiting (hfit : ApertureFits p epAddr aperture) (hsmall : total (extents sgt.entries) < 2 ^ 32)
    (h : Placed p own e epAddr aperture sgt c ps) (hmore : c.req.offset < c.req.totalLen) :
    ApertureEnded p own e epAddr aperture sgt.entries c.chains .waiting := by
  constructor
  · exact fun _ hout => absurd rfl hout
  · exact fun _ _ hmaps => absurd hmaps (h.incomplete hfit hmore)
  · intro _ _
    have hleft := (h.cursors.more_iff hfit hsmall).mp hmore
    have := List.length_pos_of_ne_nil hleft
    have := h.count
    rw [h.cursors.pieces, List.length_append]
    omega

theorem Placed.done (hfit : ApertureFits p epAddr aperture) (hsmall : total (extents sgt.entries) < 2 ^ 32)
    (h : Placed p own e epAddr aperture sgt c ps) (hmore : ¬ c.req.offset < c.req.totalLen) :
    ApertureEnded p own e epAddr aperture sgt.entries c.chains (.returned 0) := by
  have hleft : apertureLeft p aperture sgt.entries c.req ps = [] :=
    not_not.mp fun h' => hmore ((h.cursors.more_iff hfit hsmall).mpr h')
  constructor
  · exact fun _ _ _ => h.maps hfit hleft
  · exact fun _ _ _ => h.inside_iff.mpr fun h' => absurd hleft h'
  · exact fun _ h => nomatch h

def Tracked (p : Params) (own : ℕ) (e : XdmaEngine) (epAddr : U64) (aperture : U32)
    (sgt : SgTable) (c : XferCall) :
    Prop :=
  Between own c ∧ ((∃ ps, Placed p own e epAddr aperture sgt c ps) ∨
    Misplaced p own e epAddr aperture sgt.entries c.chains)

theorem Tracked.pass (hfit : ApertureFits p epAddr aperture) (hsmall : total (extents sgt.entries) < 2 ^ 32)
    (h : Tracked p own e epAddr aperture sgt c) (hmore : c.req.offset < c.req.totalLen) {dmaMapped : Bool}
    (env : ChainEnv) (hchain : c.apertureChain p own dmaMapped env.dump = some (c', tr))
    (hrv : 0 ≤ (c'.queueAndWait p own apertureDone env tr).2) :
    Tracked p own e epAddr aperture sgt (c'.queueAndWait p own apertureDone env tr).1 := by
  obtain ⟨hb, hplaced⟩ := h
  obtain ⟨w, he, hchains, hnext⟩ := apertureChain_ended (p := p) env hb hchain
  refine ⟨hnext hrv, ?_⟩
  rcases hplaced with ⟨ps, hplaced⟩ | hmis
  swap
  · rw [hchains]
    exact .inr (hmis.append _)
  have hleft := (hplaced.cursors.more_iff hfit hsmall).mp hmore
  by_cases hgood : c.chains ≠ [] → RestartsAt aperture sgt.entries (total ps)
  · obtain ⟨c₁, tr₁, hsome, hpass⟩ := hplaced.pass hfit hsmall hb hleft hgood dmaMapped env
    obtain ⟨rfl, rfl⟩ := Prod.mk.inj (Option.some.inj (hsome.symm.trans hchain))
    exact .inl (hpass hrv)
  · obtain ⟨hne, hbad⟩ := Classical.not_imp.mp hgood
    apply Or.inr
    rw [hchains]
    constructor
    · exact fun hin => hgood (hplaced.inside_iff.mp hin.of_append hleft)
    · intro hdist
      have hsame : chainPairs own e.dir [{ tr with woken := w }] = chainPairs own e.dir [tr] := rfl
      rw [chainPairs_append, hsame, ← chainPairs_append]
      exact hplaced.misplaced hfit hsmall hdist hleft hbad hchain

variable (own) in
theorem apertureLoop_waiting (dmaMapped : Bool) (envs : List ChainEnv)
    (h : (c.apertureLoop p own dmaMapped envs).2 = .waiting) :
    (c.apertureLoop p own dmaMapped envs).1.chains.length = c.chains.length + envs.length := by
  apply chainLoop_waiting _ envs h
  intro env c r hr
  obtain ⟨⟨c', tr⟩, hchain, rfl⟩ := Option.map_eq_some_iff.mp hr
  rw [← (apertureChain_built hchain).2.2.2.2.1]
  exact queueAndWait_length env tr c' apertureDone_bookkeeping

theorem apertureLoop_ended (hfit : ApertureFits p epAddr aperture)
    (hsmall : total (extents sgt.entries) < 2 ^ 32)
    (dmaMapped : Bool) (envs : List ChainEnv) (h : Tracked p own e epAddr aperture sgt c) :
    ApertureEnded p own e epAddr aperture sgt.entries (c.apertureLoop p own dmaMapped envs).1.chains
      (c.apertureLoop p own dmaMapped envs).2 := by
  refine chainLoop_rule (J := fun c outcome =>
    ApertureEnded p own e epAddr aperture sgt.entries c.chains outcome)
    ?_ ?_ ?_ ?_ envs h
  · rintro c ⟨-, ⟨ps, hp⟩ | hm⟩ hmore
    · exact hp.done hfit hsmall (by simpa using hmore)
    · exact hm.ended hfit _
  · rintro c ⟨-, ⟨ps, hp⟩ | hm⟩ hmore
    · exact hp.waiting hfit hsmall (by simpa using hmore)
    · exact hm.ended hfit _
  · rintro env c ⟨hb, ⟨ps, hp⟩ | hm⟩ hmore hnone
    swap
    · exact hm.ended hfit _
    have hmore : c.req.offset < c.req.totalLen := by simpa using hmore
    have hleft := (hp.cursors.more_iff hfit hsmall).mp hmore
    -- only a chain that begins behind the first entry can be empty
    have hout : ¬ RestartsInside p aperture sgt.entries c.chains := by
      intro hin
      obtain ⟨c₁, tr₁, hsome, -⟩ := hp.pass hfit hsmall hb hleft (hp.inside_iff.mp hin hleft) dmaMapped env
      rw [hsome] at hnone
      cases hnone
    have hw := hp.waiting hfit hsmall hmore
    exact ⟨fun hin => absurd hin hout, hw.inside, fun hin => absurd hin hout⟩
  · rintro env c r ht hmore hr
    have hmore : c.req.offset < c.req.totalLen := by simpa using hmore
    obtain ⟨⟨c', tr⟩, hchain, rfl⟩ := Option.map_eq_some_iff.mp hr
    refine ⟨fun hneg => ?_, fun hrv => ht.pass hfit hsmall hmore env hchain hrv⟩
    obtain ⟨w, he, hchains, -⟩ := apertureChain_ended (p := p) env ht.1 hchain
    have hall : ¬ ∀ u ∈ (c'.queueAndWait p own apertureDone env tr).1.chains, u.Completed ⟨own, 0⟩ :=
      fun h => he.failed hneg (h _ (by rw [hchains]; simp))
    exact ⟨fun _ _ h => absurd h hall, fun _ h => absurd h hall, fun _ h => nomatch h⟩

end XferCall

section

variable {p : Params} {own : ℕ} {epAddr : U64} {aperture : U32} {s : Drv}

open XferCall

/-- Where the end of the ring cuts the request only inside the first scatter entry, and
only where the mask gives the offset in the window, the loop ends and its chains map
the request; a list whose entries share no byte is mapped in no other case. -/
theorem xdmaXferAperture_maps_iff (hfit : ApertureFits p epAddr aperture) (hnd : s.eng.transferList.Nodup)
    (hfree : Unlinked own s) (hidx : s.eng.descIdx < s.eng.descMax) (write : Bool) (sgt : SgTable)
      (dmaMapped : Bool)
    (mapped : List SgEntry) (oom : Bool) (envs : List ChainEnv)
    (hsmall : total (extents (mapSgt sgt dmaMapped mapped).entries) < 2 ^ 32) :
    (RestartsInside p aperture (mapSgt sgt dmaMapped mapped).entries
        (xdmaXferAperture p own write epAddr aperture sgt dmaMapped mapped oom envs s).chains →
      (aperturePieces p aperture (mapSgt sgt dmaMapped mapped).entries).length ≤ envs.length →
      (xdmaXferAperture p own write epAddr aperture sgt dmaMapped mapped oom envs s).outcome ≠ .waiting) ∧
    ((xdmaXferAperture p own write epAddr aperture sgt dmaMapped mapped oom envs s).req.isSome →
      (xdmaXferAperture p own write epAddr aperture sgt dmaMapped mapped oom envs s).outcome ≠ .waiting →
      (∀ tr ∈ (xdmaXferAperture p own write epAddr aperture sgt dmaMapped mapped oom envs s).chains,
        tr.Completed ⟨own, 0⟩) →
      (RestartsInside p aperture (mapSgt sgt dmaMapped mapped).entries
          (xdmaXferAperture p own write epAddr aperture sgt dmaMapped mapped oom envs s).chains →
        MapsAperture own s.eng epAddr aperture (mapSgt sgt dmaMapped mapped).entries
          (xdmaXferAperture p own write epAddr aperture sgt dmaMapped mapped oom envs s).chains) ∧
      (Distinct (mapSgt sgt dmaMapped mapped).entries →
        MapsAperture own s.eng epAddr aperture (mapSgt sgt dmaMapped mapped).entries
          (xdmaXferAperture p own write epAddr aperture sgt dmaMapped mapped oom envs s).chains →
        RestartsInside p aperture (mapSgt sgt dmaMapped mapped).entries
          (xdmaXferAperture p own write epAddr aperture sgt dmaMapped mapped oom envs s).chains)) := by
  rcases xdmaXferAperture_starts p own write epAddr aperture sgt dmaMapped mapped oom envs s
    rfl with hno | hloop
  · obtain ⟨hreq, -, -, rv, hrv⟩ := hno
    simp [hreq, hrv]
  · generalize mapSgt sgt dmaMapped mapped = sgt at *
    obtain ⟨c₀, hc₀⟩ : ∃ c, c = apertureCall s epAddr aperture sgt := ⟨_, rfl⟩
    have ht : Tracked p own s.eng epAddr aperture sgt c₀ := by
      rw [hc₀]
      refine ⟨⟨hnd, hfree, hidx⟩, .inl ⟨[], .refl _,
        ⟨⟨rfl, rfl⟩, sum_dmaLen _, ?_, rfl, rfl, fun _ _ => .inl rfl⟩,
        fun _ => rfl, trivial, fun _ => ⟨rfl, rfl⟩, le_refl _, ⟨le_refl _, .inl rfl⟩, fun j _ hj => ?_⟩⟩
      · have hzero : (0 : U32).toNat = 0 := rfl
        simp [aperturePieces, apertureLeft, apertureCall]
      · exact absurd hj (Nat.not_lt_zero _)
    have hend := apertureLoop_ended hfit hsmall dmaMapped envs ht
    have hlen := apertureLoop_waiting (p := p) own dmaMapped envs (c := c₀)
    have hnone : c₀.chains = [] := by
      rw [hc₀]
      rfl
    obtain ⟨c, outcome, hloop, hr⟩ := hloop
    rw [← hc₀] at hloop
    rw [hloop] at hend hlen
    obtain ⟨-, hchains, hwait, -⟩ := leave_spec dmaMapped c outcome
    rw [hr, hchains]
    have hout : outcome = .waiting → (c.leave dmaMapped outcome).outcome = .waiting := by
      rintro rfl
      rfl
    refine ⟨fun hin hl hw => ?_, fun _ hw hall => ⟨fun hin => ?_, fun hdist hmaps => ?_⟩⟩
    · have := hend.ends hin (hwait hw)
      rw [hlen (hwait hw), hnone] at this
      simp only [List.length_nil] at this
      omega
    · exact hend.maps hin (fun h => hw (hout h)) hall
    · exact hend.inside hdist hall hmaps

end

def beforeEnd : Drv := { eng := { descIdx := 2047 } }

def entrySgt : SgTable := ⟨[⟨0x1000, 8⟩], 1, 1⟩

def entriesSgt : SgTable := ⟨[⟨0x1000, 4⟩, ⟨0x2000, 4⟩], 2, 2⟩

theorem xdmaXferAperture_maps_iff_cut : MapsAperture 1 beforeEnd.eng 0x20 4 entrySgt.entries
    (xdmaXferAperture {} 1 false 0x20 4 entrySgt true [] false [completedChain,
      completedChain] beforeEnd).chains :=
  ((xdmaXferAperture_maps_iff (p := {}) (s :=
    beforeEnd) ⟨by decide, by decide, by decide, by decide⟩ List.nodup_nil
    (show Unlinked 1 beforeEnd from fun _ => List.not_mem_nil) (by decide) false entrySgt true [] false
    [completedChain, completedChain] (by decide)).2 (by decide) (by decide) (by decide)).1 (by decide)

/-- Two entries are cut between them, and the second chain moves the first one again. -/
theorem xdmaXferAperture_moves_twice : ¬ ∀ (p : Params) (own : ℕ) (write : Bool)
    (epAddr : U64) (aperture : U32)
    (sgt : SgTable) (dmaMapped : Bool) (mapped : List SgEntry) (oom : Bool) (envs : List ChainEnv) (s : Drv),
      ApertureFits p epAddr aperture → s.eng.transferList.Nodup → Unlinked own s →
      s.eng.descIdx < s.eng.descMax → total (extents (XferCall.mapSgt sgt dmaMapped mapped).entries) <
        2 ^ 32 →
      (xdmaXferAperture p own write epAddr aperture sgt dmaMapped mapped oom envs s).freed = true →
      (∀ tr ∈ (xdmaXferAperture p own write epAddr aperture sgt dmaMapped mapped oom envs s).chains,
        tr.Completed ⟨own, 0⟩) →
      MapsAperture own s.eng epAddr aperture (XferCall.mapSgt sgt dmaMapped mapped).entries
        (xdmaXferAperture p own write epAddr aperture sgt dmaMapped mapped oom envs s).chains := by
  intro h
  have hmaps := h {} 1 false 0x20 4 entriesSgt true [] false [completedChain, completedChain] beforeEnd
    ⟨by decide, by decide, by decide, by decide⟩ List.nodup_nil (fun _ => List.not_mem_nil)
      (by decide) (by decide)
    (by decide) (by decide)
  exact absurd hmaps.host (by decide)

end XdmaDriver
