import XdmaDriver.ApertureMapping
import XdmaDriver.DescriptorMapping

/-!
The chains of `xdma_xfer_aperture` one after the other: where each of them begins, and
what all of them move together.
-/

namespace XdmaDriver

open Drv Spans Windows

def ChainTrace.room (tr : ChainTrace) : ℕ := tr.before.eng.descMax - tr.before.eng.descIdx

def chainsRoom (trs : List ChainTrace) : ℕ := (trs.map ChainTrace.room).sum

theorem chainsRoom_append (trs trs' : List ChainTrace) :
    chainsRoom (trs ++ trs') = chainsRoom trs + chainsRoom trs' := by
  simp [chainsRoom]

/-- Position `k` lies in the first entry, and the mask finds it in the window. -/
def RestartsAt (aperture : U32) (sgt : List SgEntry) (k : ℕ) : Prop :=
  (∃ sg ∈ sgt.head?, k < sg.dmaLen.toNat) ∧ k &&& (aperture.toNat - 1) = k % aperture.toNat

instance (aperture : U32) (sgt : List SgEntry) (k : ℕ) : Decidable (RestartsAt aperture sgt k) :=
  inferInstanceAs (Decidable (_ ∧ _))

/-- Wherever the end of the ring cuts the request behind some of the chains `trs`, it
does so at such a position. -/
def RestartsInside (p : Params) (aperture : U32) (sgt : List SgEntry) (trs : List ChainTrace) : Prop :=
  ∀ j, 1 ≤ j → j ≤ trs.length → chainsRoom (trs.take j) < (aperturePieces p aperture sgt).length →
    RestartsAt aperture sgt (total ((aperturePieces p aperture sgt).take (chainsRoom (trs.take j))))

instance (p : Params) (aperture : U32) (sgt : List SgEntry) (trs : List ChainTrace) :
    Decidable (RestartsInside p aperture sgt trs) :=
  decidable_of_iff (∀ j ∈ List.range' 1 trs.length,
    chainsRoom (trs.take j) < (aperturePieces p aperture sgt).length →
      RestartsAt aperture sgt (total ((aperturePieces p aperture sgt).take (chainsRoom (trs.take j)))))
    ⟨fun h j hj hle => h j (List.mem_range'_1.mpr ⟨hj, by omega⟩),
      fun h j hj => h j (List.mem_range'_1.mp hj).1 (by have := (List.mem_range'_1.mp hj).2; omega)⟩

theorem RestartsInside.of_append {p : Params} {aperture : U32} {sgt : List SgEntry}
    {trs trs' : List ChainTrace}
    (h : RestartsInside p aperture sgt (trs ++ trs')) : RestartsInside p aperture sgt trs := by
  intro j hj hle hlt
  have htake : (trs ++ trs').take j = trs.take j := List.take_append_of_le_length hle
  have := h j hj (by rw [List.length_append]; omega)
  rw [htake] at this
  exact this hlt

/-- The descriptors of the chains `trs` cover the host ranges in order, and pair the
byte at offset `k` with the device address at `k` modulo the aperture. -/
structure MapsAperture (own : ℕ) (e : XdmaEngine) (epAddr : U64) (aperture : U32) (sgt : List SgEntry)
    (trs : List ChainTrace) : Prop where
  host : ((trs.flatMap (ChainTrace.descs own)).flatMap fun d => span (d.hostAddr e.dir) d.bytes.toNat) =
    sgBytes sgt
  device : ((trs.flatMap (ChainTrace.descs own)).flatMap fun d =>
    pairs (d.hostAddr e.dir) (d.devAddr e.dir) d.bytes.toNat) =
      (sgBytes sgt).zip (windowed aperture.toNat epAddr 0 (sgBytes sgt).length)

theorem MovesPieces.pairs {dir : DmaDir} {base : U64} {a : ℕ} (ps : List (U64 × ℕ)) :
    ∀ {k : ℕ} {ds : List XdmaDesc}, (∀ y ∈ ps, y.2 < 2 ^ 32) → MovesPieces dir base a k ps ds →
      (ds.flatMap fun d => Spans.pairs (d.hostAddr dir) (d.devAddr dir) d.bytes.toNat) =
        windowPairs a base k ps := by
  induction ps with
  | nil =>
    intro k ds _ h
    cases ds with
    | nil => rfl
    | cons => exact h.elim
  | cons x ps ih =>
    intro k ds hlen h
    cases ds with
    | nil => exact h.elim
    | cons d ds =>
      have := hlen x List.mem_cons_self
      obtain ⟨⟨hb, hh, hd⟩, htail⟩ := h
      rw [List.flatMap_cons, ih (fun y hy => hlen y (List.mem_cons_of_mem _ hy)) htail, hb, hh, hd,
        BitVec.toNat_ofNat, Nat.mod_eq_of_lt this]
      rfl

theorem MovesPieces.host {dir : DmaDir} {base : U64} {a : ℕ} (ps : List (U64 × ℕ)) :
    ∀ {k : ℕ} {ds : List XdmaDesc}, (∀ y ∈ ps, y.2 < 2 ^ 32) → MovesPieces dir base a k ps ds →
      (ds.flatMap fun d => span (d.hostAddr dir) d.bytes.toNat) = covered ps := by
  induction ps with
  | nil =>
    intro k ds _ h
    cases ds with
    | nil => rfl
    | cons => exact h.elim
  | cons x ps ih =>
    intro k ds hlen h
    cases ds with
    | nil => exact h.elim
    | cons d ds =>
      have := hlen x List.mem_cons_self
      obtain ⟨⟨hb, hh, -⟩, htail⟩ := h
      rw [List.flatMap_cons, ih (fun y hy => hlen y (List.mem_cons_of_mem _ hy)) htail, hb, hh,
        BitVec.toNat_ofNat, Nat.mod_eq_of_lt this]
      rfl

namespace XferCall

structure ChainMoves (p : Params) (own : ℕ) (epAddr : U64) (aperture : U32)
    (sgt : List SgEntry) (c : XferCall)
    (ps qs : List (U64 × ℕ)) (c' : XferCall) (tr : ChainTrace) : Prop where
  ne : qs ≠ []
  before : tr.before = c.drv
  cursors : CursorsAt p epAddr aperture sgt c'.req (ps ++ qs)
  moves : MovesPieces c.drv.eng.dir epAddr aperture.toNat (total ps) qs (tr.descs own)
  room : qs.length ≤ tr.room ∧ (qs.length = tr.room ∨ apertureLeft p aperture sgt c'.req (ps ++ qs) = [])
  sgt : c'.sgt = c.sgt
  last : (c'.drv.tfer ⟨own, 0⟩).lastInRequest = true → c'.req.offset = c'.req.totalLen

variable {p : Params} {own : ℕ} {epAddr : U64} {aperture : U32} {c : XferCall} {ps : List (U64 × ℕ)}

structure ChainLaid (own : ℕ) (c : XferCall) (b : ApertureBuild) (i : ℕ) (c' : XferCall)
    (tr : ChainTrace) : Prop where
  trace : tr.before = c.drv ∧ tr.built = c'.drv
  sgt : c'.sgt = c.sgt
  req : c'.req = { c.req with offset := b.offset, sgOffset := b.sgOffset, sgIdx := i }
  desc : c'.drv.eng.desc = apertureLink c.drv.eng b.desc c.drv.eng.descIdx (b.descIdx - c.drv.eng.descIdx)
  xfer : (c'.drv.tfer ⟨own, 0⟩).descIndex = c.drv.eng.descIdx ∧
    (c'.drv.tfer ⟨own, 0⟩).descNum = b.descIdx - c.drv.eng.descIdx
  last : (c'.drv.tfer ⟨own, 0⟩).lastInRequest = decide (b.offset = c.req.totalLen)
  ring : c'.drv.eng.descIdx = (c.drv.eng.descIdx + (b.descIdx - c.drv.eng.descIdx)) % c.drv.eng.descMax

def apertureStart (c : XferCall) : ApertureBuild where
  desc := c.drv.eng.desc
  descIdx := c.drv.eng.descIdx
  sgOffset := c.req.sgOffset
  offset := c.req.offset
  epAddr := c.req.epAddr + (c.req.offset &&& (c.req.aperture - 1)).setWidth 64

variable (own) in
theorem apertureChain_laid {b : ApertureBuild} {i : ℕ}
    (hb : apertureEntries (apertureWindow p c.req.epAddr c.req.aperture) c.drv.eng.dir c.sgt.nents
      c.drv.eng.descMax c.sgt.entries c.req.sgIdx c.apertureStart = (b, i)) (dmaMapped :
      Bool) (dump : DumpRegs) :
    (b.descIdx - c.drv.eng.descIdx = 0 ∧ c.apertureChain p own dmaMapped dump = none) ∨
      ∃ c' tr, c.apertureChain p own dmaMapped dump = some (c', tr) ∧ ChainLaid own c b i c' tr := by
  unfold apertureStart at hb
  unfold apertureChain
  dsimp only
  rw [hb]
  by_cases hz : b.descIdx - c.drv.eng.descIdx = 0
  · exact .inl ⟨hz, if_pos hz⟩
  · apply Or.inr
    refine ⟨_, _, if_neg hz, ⟨rfl, rfl⟩, rfl, rfl, rfl, ?_, ?_, rfl⟩
    · simp
    · simp

theorem apertureStart_epAddr (hfit : ApertureFits p epAddr aperture) {sgt : List SgEntry}
    (hsmall : total (extents sgt) < 2 ^ 32) (h : CursorsAt p epAddr aperture sgt c.req ps) :
    c.apertureStart.epAddr.toNat = epAddr.toNat + (total ps &&& (aperture.toNat - 1)) := by
  have htotal := h.total_le hfit
  have hfits := hfit.fits
  have hpos := hfit.pos
  have hlt := aperture.isLt
  have hle : total ps &&& (aperture.toNat - 1) ≤ aperture.toNat - 1 := Nat.and_le_right
  have hand : (c.req.offset &&& (c.req.aperture - 1)).toNat = total ps &&& (aperture.toNat - 1) := by
    rw [h.window.2, aperture_mask hpos, h.offset, BitVec.toNat_ofNat, Nat.mod_eq_of_lt (by omega)]
  rw [apertureStart, BitVec.toNat_add, BitVec.toNat_setWidth, hand, h.window.1]
  omega

variable (own) in
theorem apertureChain_moves (hfit : ApertureFits p epAddr aperture) {sgt : List SgEntry}
    (hsmall : total (extents sgt) < 2 ^ 32) (h : CursorsAt p epAddr aperture sgt c.req ps)
    (hentries : c.sgt.entries = sgt) (hnents : sgt.length ≤ c.sgt.nents)
    (hleft : apertureLeft p aperture sgt c.req ps ≠ []) (hidx : c.drv.eng.descIdx < c.drv.eng.descMax)
    (hsg : c.req.sgIdx = 0) (hmask : total ps &&& (aperture.toNat - 1) = total ps % aperture.toNat)
    (dmaMapped : Bool) (dump : DumpRegs) :
    ∃ qs c' tr, c.apertureChain p own dmaMapped dump = some (c', tr) ∧
      ChainMoves p own epAddr aperture sgt c ps qs c' tr := by
  have htotal := h.total_le hfit
  have hep : AtPosition epAddr aperture.toNat (total ps) c.apertureStart.epAddr := by
    apply Or.inl
    rw [apertureStart_epAddr hfit hsmall h, hmask]
  have hin : OffsetInside c.apertureStart.sgOffset sgt := by
    have := h.inside
    rw [hsg, List.drop_zero] at this
    exact this
  obtain ⟨qs, idx, hw⟩ := apertureEntries_walked hfit c.drv.eng.dir c.sgt.nents
    c.drv.eng.descMax sgt (i := 0) hep (by omega) hidx.le hin
  obtain ⟨r, hr⟩ : ∃ r, apertureEntries (apertureWindow p c.req.epAddr c.req.aperture)
    c.drv.eng.dir c.sgt.nents
    c.drv.eng.descMax c.sgt.entries c.req.sgIdx c.apertureStart = r := ⟨_, rfl⟩
  have hr' := hr
  rw [h.window.1, h.window.2, hentries, hsg] at hr'
  rw [hr'] at hw
  obtain ⟨b, i⟩ := r
  have hsgOffset : c.apertureStart.sgOffset = c.req.sgOffset := rfl
  have hfirst : c.apertureStart.descIdx = c.drv.eng.descIdx := rfl
  have hcount : b.descIdx - c.drv.eng.descIdx = qs.length := by
    have := hw.walked.descIdx
    dsimp only at this
    omega
  have hi : i = idx := by
    have := hw.count.1
    dsimp only at this
    omega
  have hrest : apertureLeft p aperture sgt c.req ps = qs ++
    allPieces (apertureMaxlen p aperture) aperture.toNat
      (total ps + total qs) (extentsFrom b.sgOffset.toNat (sgt.drop i)) := by
    unfold apertureLeft
    rw [hsg, List.drop_zero, ← hsgOffset, hw.rest, hi]
  have hne : qs ≠ [] := by
    rintro rfl
    rcases hw.full.2 with hfull | hend
    · dsimp only at hfull
      simp at hcount
      omega
    · rw [hi, hend, List.drop_length] at hrest
      exact hleft hrest
  have hz : b.descIdx - c.drv.eng.descIdx ≠ 0 := by
    rw [hcount]
    exact fun h0 => hne (List.eq_nil_of_length_eq_zero h0)
  obtain ⟨c', tr, hchain, hlaid⟩ := (apertureChain_laid own hr dmaMapped dump).resolve_left fun h => hz h.1
  refine ⟨qs, c', tr, hchain, hne, hlaid.trace.1, ⟨?_, ?_, ?_, ?_, ?_, ?_⟩, ?_, ?_, hlaid.sgt, fun hl => ?_⟩
  · rw [hlaid.req]
    exact h.window
  · rw [hlaid.req]
    exact h.totalLen
  · have hpieces := h.pieces
    rw [hrest] at hpieces
    rw [hpieces, List.append_assoc, apertureLeft, hlaid.req, total_append]
  · rw [hlaid.req]
    dsimp only
    have hoffset := hw.walked.offset
    rw [apertureStart, h.offset] at hoffset
    rw [hoffset, total_append, BitVec.ofNat_add]
  · rw [hlaid.req, hi, total_append]
    have hplace := h.place
    rw [hsg, List.take_zero, extents_nil, total_nil, Nat.zero_add] at hplace
    have hnext := hw.place
    rw [hsgOffset] at hnext
    dsimp only at hnext ⊢
    omega
  · rw [hlaid.req, hi]
    exact hw.inside
  · rw [ChainTrace.descs, hlaid.trace.2, hlaid.xfer.1, hlaid.xfer.2, hcount, hlaid.desc, ← hfirst]
    apply MovesPieces.map_congr _ _ hw.walked.moves
    exact fun j => apertureLink_same _ _ _ _ _ j
  · have hle := hw.full.1
    have hlast := hw.walked.descIdx
    rw [ChainTrace.room, hlaid.trace.1]
    dsimp only at hle hlast
    refine ⟨by omega, ?_⟩
    rcases hw.full.2 with hfull | hend
    · apply Or.inl
      dsimp only at hfull
      omega
    · apply Or.inr
      rw [apertureLeft, hlaid.req, hi, hend, List.drop_length]
      rfl
  · rw [hlaid.last] at hl
    rw [hlaid.req]
    exact of_decide_eq_true hl

structure Placed (p : Params) (own : ℕ) (e : XdmaEngine) (epAddr : U64) (aperture : U32)
    (sgt : SgTable) (c : XferCall)
    (ps : List (U64 × ℕ)) : Prop where
  config : e.SameConfig c.drv.eng
  cursors : CursorsAt p epAddr aperture sgt.entries c.req ps
  mapped : c.req.offset ≠ c.req.totalLen → c.sgt = sgt
  moves : MovesPieces e.dir epAddr aperture.toNat 0 ps (c.chains.flatMap (ChainTrace.descs own))
  first : c.chains = [] → c.req.sgIdx = 0 ∧ ps = []
  count : c.chains.length ≤ ps.length
  room : ps.length ≤ chainsRoom c.chains ∧
    (ps.length = chainsRoom c.chains ∨ apertureLeft p aperture sgt.entries c.req ps = [])
  restarts : ∀ j, 1 ≤ j → j < c.chains.length →
    chainsRoom (c.chains.take j) < (aperturePieces p aperture sgt.entries).length →
    RestartsAt aperture sgt.entries
      (total ((aperturePieces p aperture sgt.entries).take (chainsRoom (c.chains.take j))))

variable {e : XdmaEngine} {sgt : SgTable}

theorem Placed.cut (h : Placed p own e epAddr aperture sgt c ps)
    (hleft : apertureLeft p aperture sgt.entries c.req ps ≠ []) :
    chainsRoom c.chains < (aperturePieces p aperture sgt.entries).length ∧
      total ((aperturePieces p aperture sgt.entries).take (chainsRoom c.chains)) = total ps := by
  have hlen := h.room.2.resolve_right hleft
  rw [h.cursors.pieces, ← hlen]
  constructor
  · rw [List.length_append]
    have := List.length_pos_of_ne_nil hleft
    omega
  · rw [List.take_left]

theorem Placed.restart (h : Placed p own e epAddr aperture sgt c ps)
    (hgood : c.chains ≠ [] → RestartsAt aperture sgt.entries (total ps)) :
    c.req.sgIdx = 0 ∧ total ps &&& (aperture.toNat - 1) = total ps % aperture.toNat := by
  by_cases hnil : c.chains = []
  · obtain ⟨hsg, rfl⟩ := h.first hnil
    exact ⟨hsg, by simp⟩
  · obtain ⟨⟨sg, hhead, hk⟩, hmask⟩ := hgood hnil
    refine ⟨?_, hmask⟩
    by_contra hsg
    obtain ⟨i, hi⟩ := Nat.exists_eq_add_one_of_ne_zero hsg
    cases hl : sgt.entries with
    | nil => simp [hl] at hhead
    | cons sg' sgs =>
      rw [hl] at hhead
      obtain rfl := Option.some.inj hhead
      have hplace := h.cursors.place
      rw [hl, hi, List.take_succ_cons, extents_cons, total_cons] at hplace
      dsimp only at hplace
      omega

theorem Placed.pass (hfit : ApertureFits p epAddr aperture) (hsmall : total (extents sgt.entries) < 2 ^ 32)
    (h : Placed p own e epAddr aperture sgt c ps) (hb : Between own c)
    (hleft : apertureLeft p aperture sgt.entries c.req ps ≠ [])
    (hgood : c.chains ≠ [] → RestartsAt aperture sgt.entries (total ps)) (dmaMapped : Bool) (env : ChainEnv) :
    ∃ c' tr, c.apertureChain p own dmaMapped env.dump = some (c', tr) ∧
      (0 ≤ (c'.queueAndWait p own apertureDone env tr).2 →
        ∃ ps', Placed p own e epAddr aperture sgt (c'.queueAndWait p own apertureDone env tr).1 ps') := by
  have hmore := (h.cursors.more_iff hfit hsmall).mpr hleft
  have hsgt : c.sgt = sgt := h.mapped fun he => by simp [he] at hmore
  obtain ⟨hsg, hmask⟩ := h.restart hgood
  obtain ⟨hcut, htake⟩ := h.cut hleft
  have hnents : sgt.entries.length ≤ c.sgt.nents := by
    rw [hsgt]
    exact List.length_take_le _ _
  obtain ⟨qs, c', tr, hchain, hm⟩ := apertureChain_moves own hfit hsmall h.cursors (by rw [hsgt]) hnents
    hleft hb.descIdx hsg hmask dmaMapped env.dump
  refine ⟨c', tr, hchain, fun hrv => ?_⟩
  obtain ⟨hlist, hcfg, -, -, -, -, hwoken⟩ := apertureChain_built hchain
  have hfree : Unlinked own c'.drv := fun i => by
    rw [hlist]
    exact hb.unlinked i
  obtain ⟨w, he, hall, -⟩ := apertureChain_ended (p := p) env hb hchain
  obtain ⟨_, -, hcases⟩ := queueAndWait_unmaps (p := p) apertureDone_bookkeeping
    apertureDone_keepsMapping env tr c'
    hwoken (hlist ▸ hb.nodup) hfree
  have hnext : (c'.queueAndWait p own apertureDone env tr).1.sgt = c'.sgt ∨
      (c'.drv.tfer ⟨own, 0⟩).lastInRequest = true :=
    hcases.elim (fun h => .inr h.1.2.1) fun h => .inl h.2.2
  generalize c'.queueAndWait p own apertureDone env tr = r at *
  have hdescs : ChainTrace.descs own { tr with woken := w } = tr.descs own := rfl
  refine ⟨ps ++ qs, (h.config.trans hcfg).trans he.config, ?_, fun hne => ?_, ?_, ?_, ?_, ?_, ?_⟩
  · rw [he.req]
    exact hm.cursors
  · rw [he.req] at hne
    rcases hnext with hsame | hlast
    · rw [hsame, hm.sgt, hsgt]
    · exact absurd (hm.last hlast) hne
  · rw [hall, List.flatMap_append, List.flatMap_singleton, hdescs]
    apply h.moves.append
    rw [Nat.zero_add, ← h.config.dir]
    exact hm.moves
  · rw [hall]
    simp
  · have := List.length_pos_of_ne_nil hm.ne
    have := h.count
    rw [hall, List.length_append, List.length_append, List.length_singleton]
    omega
  · have hroom : chainsRoom r.1.chains = chainsRoom c.chains + tr.room := by
      rw [hall, chainsRoom_append]
      rfl
    have hlen := h.room.2.resolve_right hleft
    rw [hroom, he.req, List.length_append]
    exact ⟨by have := hm.room.1; omega, hm.room.2.imp_left fun h => by omega⟩
  · intro j hj hlt
    rw [hall, List.length_append, List.length_singleton] at hlt
    rw [hall, List.take_append_of_le_length (by omega)]
    rcases Nat.lt_or_ge j c.chains.length with hjl | hjl
    · exact h.restarts j hj hjl
    · obtain rfl : j = c.chains.length := by omega
      rw [List.take_length, htake]
      intro _
      apply hgood
      rintro hnil
      simp [hnil] at hj

end XferCall

end XdmaDriver
