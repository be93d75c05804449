import XdmaDriver.Descriptor
import XdmaDriver.Lib.Spans
import Mathlib.Algebra.BigOperators.Group.List.Basic

namespace XdmaDriver

open Spans

/-- The software descriptors of one scatter entry. The fuel is the length of
the entry; every round but the last takes `blen` bytes off it. -/
def sdescSplit (blen : ℕ) : ℕ → U64 → ℕ → List SwDesc
  | 0, _, _ => []
  | fuel + 1, addr, tlen =>
    if tlen = 0 then []
    else if blen < tlen then
      ⟨addr, blen⟩ :: sdescSplit blen fuel (addr + (blen : U64)) (tlen - blen)
    else [⟨addr, tlen⟩]

def entrySdesc (p : Params) (sg : SgEntry) : List SwDesc :=
  sdescSplit p.descBlenMax sg.dmaLen.toNat sg.dmaAddress sg.dmaLen.toNat

/-- The entries of `req->sdesc` that `xdma_init_request` writes. -/
def requestSdesc (p : Params) (sgt : List SgEntry) : List SwDesc := sgt.flatMap (entrySdesc p)

def entryExtra (p : Params) (sg : SgEntry) : U32 :=
  let blen := BitVec.ofNat 32 p.descBlenMax
  if blen < sg.dmaLen then (sg.dmaLen + blen - 1) / blen else 0

/-- `max` of `xdma_init_request` at the allocation. The loop over the entries compares with
an `int`. -/
def requestMax (p : Params) (sgt : List SgEntry) : U32 :=
  let max := BitVec.ofNat 32 sgt.length
  max + ((sgt.take max.toInt.toNat).map (entryExtra p)).sum

def swDescBytes : ℕ := 16

/-- `xdma_request_alloc`: the size of the block, an `unsigned int`. `oom` says that neither
`kzalloc` nor `vmalloc` has one. -/
def xdmaRequestAlloc (p : Params) (oom : Bool) (sdescNr : U32) : Option U32 :=
  let size := BitVec.ofNat 32 (p.requestCbBytes + sdescNr.toNat * swDescBytes)
  if oom then none else some size

/-- The elements of `req->sdesc` in a block of `size` bytes. -/
def sdescRoom (p : Params) (size : U32) : ℕ := (size.toNat - p.requestCbBytes) / swDescBytes

/-- `xdma_init_request`. What it writes behind the block is not followed. -/
def xdmaInitRequest (p : Params) (oom : Bool) (sgt : List SgEntry) (epAddr : U64) :
    Option XdmaRequestCb :=
  let sdesc := requestSdesc p sgt
  match xdmaRequestAlloc p oom (requestMax p sgt) with
  | none => none
  | some _ =>
    if (requestMax p sgt).toInt < sdesc.length then none
    else some
      { epAddr := epAddr
        totalLen := (sgt.map SgEntry.dmaLen).sum
        swDescCnt := sdesc.length
        sdesc := sdesc }

def sdescBytes (ds : List SwDesc) : List U64 := covered (ds.map fun d => (d.addr, d.len))

def sgBytes (sgt : List SgEntry) : List U64 :=
  covered (sgt.map fun sg => (sg.dmaAddress, sg.dmaLen.toNat))

def lenSum (ds : List SwDesc) : ℕ := (ds.map SwDesc.len).sum

@[simp] theorem lenSum_nil : lenSum [] = 0 := rfl

@[simp] theorem lenSum_cons (d : SwDesc) (ds : List SwDesc) : lenSum (d :: ds) = d.len + lenSum ds := rfl

theorem lenSum_append (ds ds' : List SwDesc) : lenSum (ds ++ ds') = lenSum ds + lenSum ds' := by
  simp [lenSum]

theorem lenSum_take_le (ds : List SwDesc) (n : ℕ) : lenSum (ds.take n) ≤ lenSum ds := by
  conv_rhs => rw [← List.take_append_drop n ds, lenSum_append]
  exact Nat.le_add_right _ _

@[simp] theorem sdescBytes_nil : sdescBytes [] = [] := rfl

theorem sdescBytes_cons (d : SwDesc) (ds : List SwDesc) :
    sdescBytes (d :: ds) = span d.addr d.len ++ sdescBytes ds := rfl

theorem sdescBytes_append (ds es : List SwDesc) :
    sdescBytes (ds ++ es) = sdescBytes ds ++ sdescBytes es := by
  simp [sdescBytes, covered_append]

theorem mem_sdescBytes {ds : List SwDesc} {a : U64} :
    a ∈ sdescBytes ds ↔ ∃ d ∈ ds, a ∈ span d.addr d.len := by
  simp [sdescBytes, covered]

theorem sdescSplit_subset (blen fuel : ℕ) : ∀ {addr : U64} {tlen : ℕ} {a : U64},
    a ∈ sdescBytes (sdescSplit blen fuel addr tlen) → a ∈ span addr tlen := by
  induction fuel with
  | zero => simp [sdescSplit]
  | succ fuel ih =>
    intro addr tlen a ha
    unfold sdescSplit at ha
    split_ifs at ha with h0 hlt
    · simp at ha
    · rw [sdescBytes_cons, List.mem_append] at ha
      rw [← Nat.add_sub_cancel' hlt.le, span_add, List.mem_append]
      exact ha.imp_right ih
    · simpa [sdescBytes_cons] using ha

theorem sdescSplit_addr (blen fuel : ℕ) : ∀ {addr : U64} {tlen j : ℕ} {sd : SwDesc},
    (sdescSplit blen fuel addr tlen)[j]? = some sd →
      sd.addr = addr + (lenSum ((sdescSplit blen fuel addr tlen).take j) : U64) := by
  induction fuel with
  | zero => simp [sdescSplit]
  | succ fuel ih =>
    intro addr tlen j sd h
    unfold sdescSplit at h ⊢
    split_ifs at h ⊢ with h0 hlt
    · simp at h
    · cases j with
      | zero =>
        obtain rfl := Option.some.inj h
        simp
      | succ j =>
        rw [List.getElem?_cons_succ] at h
        rw [ih h, List.take_succ_cons, lenSum_cons, Nat.cast_add, add_assoc]
    · cases j with
      | zero =>
        obtain rfl := Option.some.inj h
        simp
      | succ j => simp at h

section

variable {blen : ℕ} (hb : 1 ≤ blen)

include hb

theorem sdescSplit_len : ∀ (fuel : ℕ) (addr : U64) (tlen : ℕ),
    ∀ d ∈ sdescSplit blen fuel addr tlen, 1 ≤ d.len ∧ d.len ≤ blen := by
  intro fuel
  induction fuel with
  | zero => simp [sdescSplit]
  | succ fuel ih =>
    intro addr tlen d hd
    unfold sdescSplit at hd
    split_ifs at hd with h0 hlt
    · simp at hd
    · rcases List.mem_cons.mp hd with rfl | hd
      · exact ⟨hb, le_refl _⟩
      · exact ih _ _ d hd
    · obtain rfl := List.mem_singleton.mp hd
      dsimp only
      omega

theorem sdescSplit_bytes : ∀ (fuel : ℕ) (addr : U64) (tlen : ℕ), tlen ≤ fuel →
    sdescBytes (sdescSplit blen fuel addr tlen) = span addr tlen := by
  intro fuel
  induction fuel with
  | zero =>
    intro addr tlen h
    obtain rfl : tlen = 0 := by omega
    rfl
  | succ fuel ih =>
    intro addr tlen h
    unfold sdescSplit
    split_ifs with h0 hlt
    · subst h0
      rfl
    · rw [sdescBytes_cons, ih _ _ (by omega)]
      change span addr blen ++ span (addr + (blen : U64)) (tlen - blen) = _
      rw [← span_add, Nat.add_sub_cancel' hlt.le]
    · simp [sdescBytes_cons]

theorem sdescSplit_lenSum (addr : U64) (tlen : ℕ) : lenSum (sdescSplit blen tlen addr tlen) = tlen := by
  have h := congrArg List.length (sdescSplit_bytes hb tlen addr tlen (le_refl _))
  rw [sdescBytes, length_covered, length_span, List.map_map] at h
  exact h

theorem sdescSplit_length : ∀ (fuel : ℕ) (addr : U64) (tlen : ℕ), tlen ≤ fuel →
    (sdescSplit blen fuel addr tlen).length = (tlen + blen - 1) / blen := by
  intro fuel
  induction fuel with
  | zero =>
    intro addr tlen h
    obtain rfl : tlen = 0 := by omega
    simp [sdescSplit, Nat.div_eq_of_lt (show blen - 1 < blen by omega)]
  | succ fuel ih =>
    intro addr tlen h
    unfold sdescSplit
    split_ifs with h0 hlt
    · subst h0
      simp [Nat.div_eq_of_lt (show blen - 1 < blen by omega)]
    · rw [List.length_cons, ih _ _ (by omega)]
      have hsplit : tlen + blen - 1 = (tlen - blen + blen - 1) + blen := by omega
      rw [hsplit, Nat.add_div_right _ (by omega)]
    · have hsplit : tlen + blen - 1 = (tlen - 1) + blen := by omega
      rw [List.length_singleton, hsplit, Nat.add_div_right _ (by omega),
        Nat.div_eq_of_lt (by omega)]

end

section

variable {p : Params} (hb : 1 ≤ p.descBlenMax) (sgt : List SgEntry)

include hb

theorem requestSdesc_len : ∀ d ∈ requestSdesc p sgt, 1 ≤ d.len ∧ d.len ≤ p.descBlenMax := by
  intro d hd
  obtain ⟨sg, -, hsg⟩ := List.mem_flatMap.mp hd
  exact sdescSplit_len hb _ _ _ d hsg

theorem requestSdesc_bytes : sdescBytes (requestSdesc p sgt) = sgBytes sgt := by
  induction sgt with
  | nil => rfl
  | cons sg sgt ih =>
    have hcons : requestSdesc p (sg :: sgt) = entrySdesc p sg ++ requestSdesc p sgt := rfl
    rw [hcons, sdescBytes_append, ih, entrySdesc, sdescSplit_bytes hb _ _ _ (le_refl _)]
    rfl

theorem requestSdesc_length : (requestSdesc p sgt).length =
    (sgt.map fun sg => (sg.dmaLen.toNat + p.descBlenMax - 1) / p.descBlenMax).sum := by
  induction sgt with
  | nil => rfl
  | cons sg sgt ih =>
    have hcons : requestSdesc p (sg :: sgt) = entrySdesc p sg ++ requestSdesc p sgt := rfl
    rw [hcons, List.length_append, ih, entrySdesc, sdescSplit_length hb _ _ _ (le_refl _)]
    rfl

end

structure Initialised (p : Params) (sgt : List SgEntry) (epAddr : U64)
    (req : XdmaRequestCb) : Prop where
  sdesc : req.sdesc = requestSdesc p sgt
  cnt : req.swDescCnt = (requestSdesc p sgt).length
  idx : req.swDescIdx = 0
  epAddr : req.epAddr = epAddr
  cb : req.cb = none

theorem xdmaInitRequest_none_iff (p : Params) (oom : Bool) (sgt : List SgEntry) (epAddr : U64) :
    xdmaInitRequest p oom sgt epAddr = none ↔
      oom = true ∨ (requestMax p sgt).toInt < (requestSdesc p sgt).length := by
  unfold xdmaInitRequest xdmaRequestAlloc
  cases oom <;> simp

theorem xdmaInitRequest_initialised {p : Params} {oom : Bool} {sgt : List SgEntry} {epAddr : U64}
    {req : XdmaRequestCb} (h : xdmaInitRequest p oom sgt epAddr = some req) :
    Initialised p sgt epAddr req := by
  unfold xdmaInitRequest at h
  cases hblock : xdmaRequestAlloc p oom (requestMax p sgt) with
  | none =>
    rw [hblock] at h
    cases h
  | some size =>
    rw [hblock] at h
    dsimp only at h
    split_ifs at h
    obtain rfl := Option.some.inj h
    exact ⟨rfl, rfl, rfl, rfl, rfl⟩

end XdmaDriver
