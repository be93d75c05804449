import XdmaDriver.RequestLifetime

/-!
The hardware descriptors of a synchronous request against its scatter list.
-/

namespace XdmaDriver

open Drv Spans

/-- The descriptors `ds` move the software descriptors `sds`, on an engine set up as
`e`, with device addresses from `epAddr` on. -/
def Describes (e : XdmaEngine) : U64 → List SwDesc → List XdmaDesc → Prop
  | _, [], [] => True
  | epAddr, sd :: sds, d :: ds =>
    (d.bytes = BitVec.ofNat 32 sd.len ∧ d.hostAddr e.dir = sd.addr ∧
      (e.streamingC2h = false → d.devAddr e.dir = epAddr)) ∧
      Describes e (if e.nonIncrAddr then epAddr else epAddr + (sd.len : U64)) sds ds
  | _, _, _ => False

theorem Holds.describes {e : XdmaEngine} (sds : List SwDesc) : ∀ {i : ℕ} {epAddr : U64},
    Holds e i epAddr sds → Describes e epAddr sds ((List.range' i sds.length).map e.desc) := by
  induction sds with
  | nil => exact fun _ => trivial
  | cons sd sds ih => exact fun h => ⟨h.1, ih h.2⟩

theorem Describes.append {e : XdmaEngine} (sds : List SwDesc) : ∀ {epAddr : U64} {sds' : List SwDesc}
    {ds ds' : List XdmaDesc}, Describes e epAddr sds ds →
      Describes e (epAfter e.nonIncrAddr epAddr sds) sds' ds' →
      Describes e epAddr (sds ++ sds') (ds ++ ds') := by
  induction sds with
  | nil =>
    intro epAddr sds' ds ds' h h'
    cases ds with
    | nil =>
      rw [epAfter_nil] at h'
      exact h'
    | cons => exact h.elim
  | cons sd sds ih =>
    intro epAddr sds' ds ds' h h'
    cases ds with
    | nil => exact h.elim
    | cons d ds =>
      rw [epAfter_cons] at h'
      exact ⟨h.1, ih h.2 h'⟩

theorem Describes.congr {e e' : XdmaEngine} (hc : e.SameConfig e') (sds : List SwDesc) :
    ∀ {epAddr : U64} {ds : List XdmaDesc}, Describes e epAddr sds ds → Describes e' epAddr sds ds := by
  have hst : e'.streamingC2h = e.streamingC2h := by
    rw [XdmaEngine.streamingC2h, XdmaEngine.streamingC2h, hc.streaming, hc.dir]
  induction sds with
  | nil => exact fun {_ ds} h => by cases ds <;> exact h
  | cons sd sds ih =>
    intro epAddr ds h
    cases ds with
    | nil => exact h.elim
    | cons d ds =>
      refine ⟨?_, ?_⟩
      · rw [hc.dir, hst]
        exact h.1
      · rw [hc.nonIncrAddr]
        exact ih h.2

section

variable {e : XdmaEngine} {blen : ℕ} (hblen : blen < 2 ^ 32)

include hblen

theorem Describes.bytes (sds : List SwDesc) : ∀ {epAddr : U64} {ds : List XdmaDesc},
    (∀ sd ∈ sds, 1 ≤ sd.len ∧ sd.len ≤ blen) → Describes e epAddr sds ds →
    ∀ d ∈ ds, 1 ≤ d.bytes.toNat ∧ d.bytes.toNat ≤ blen := by
  induction sds with
  | nil =>
    intro epAddr ds _ h
    cases ds with
    | nil => simp
    | cons => exact h.elim
  | cons sd sds ih =>
    intro epAddr ds hlen h d hd
    cases ds with
    | nil => exact h.elim
    | cons d' ds =>
      rcases List.mem_cons.mp hd with rfl | hd
      · have := hlen sd List.mem_cons_self
        rw [h.1.1, BitVec.toNat_ofNat, Nat.mod_eq_of_lt (by omega)]
        exact this
      · exact ih (fun sd hsd => hlen sd (List.mem_cons_of_mem _ hsd)) h.2 d hd

theorem Describes.hostBytes (sds : List SwDesc) : ∀ {epAddr : U64} {ds : List XdmaDesc},
    (∀ sd ∈ sds, sd.len ≤ blen) → Describes e epAddr sds ds →
    (ds.flatMap fun d => span (d.hostAddr e.dir) d.bytes.toNat) = sdescBytes sds := by
  induction sds with
  | nil =>
    intro epAddr ds _ h
    cases ds with
    | nil => rfl
    | cons => exact h.elim
  | cons sd sds ih =>
    intro epAddr ds hlen h
    cases ds with
    | nil => exact h.elim
    | cons d ds =>
      have := hlen sd List.mem_cons_self
      rw [List.flatMap_cons, ih (fun sd hsd => hlen sd (List.mem_cons_of_mem _ hsd)) h.2, h.1.1, h.1.2.1,
        BitVec.toNat_ofNat, Nat.mod_eq_of_lt (by omega), sdescBytes_cons]

theorem Describes.pairs (hst : e.streamingC2h = false) (hinc : e.nonIncrAddr = false)
    (sds : List SwDesc) : ∀ {epAddr : U64} {ds : List XdmaDesc}, (∀ sd ∈ sds, sd.len ≤ blen) →
      Describes e epAddr sds ds →
      (ds.flatMap fun d => pairs (d.hostAddr e.dir) (d.devAddr e.dir) d.bytes.toNat) =
        (sdescBytes sds).zip (span epAddr (lenSum sds)) := by
  induction sds with
  | nil =>
    intro epAddr ds _ h
    cases ds with
    | nil => rfl
    | cons => exact h.elim
  | cons sd sds ih =>
    intro epAddr ds hlen h
    cases ds with
    | nil => exact h.elim
    | cons d ds =>
      have := hlen sd List.mem_cons_self
      have htail := h.2
      rw [hinc] at htail
      rw [List.flatMap_cons, ih (fun sd hsd => hlen sd (List.mem_cons_of_mem _ hsd)) htail, h.1.1, h.1.2.1,
        h.1.2.2 hst, BitVec.toNat_ofNat, Nat.mod_eq_of_lt (by omega), sdescBytes_cons, lenSum_cons, span_add,
        List.zip_append (by simp)]
      rfl

omit hblen in
theorem Describes.fixed (hst : e.streamingC2h = false) (hfix : e.nonIncrAddr = true)
    (sds : List SwDesc) : ∀ {epAddr : U64} {ds : List XdmaDesc}, Describes e epAddr sds ds →
      ∀ d ∈ ds, d.devAddr e.dir = epAddr := by
  induction sds with
  | nil =>
    intro epAddr ds h
    cases ds with
    | nil => simp
    | cons => exact h.elim
  | cons sd sds ih =>
    intro epAddr ds h d hd
    cases ds with
    | nil => exact h.elim
    | cons d' ds =>
      have htail := h.2
      rw [hfix] at htail
      rcases List.mem_cons.mp hd with rfl | hd
      · exact h.1.2.2 hst
      · exact ih htail d hd

end

def ChainTrace.descs (own : ℕ) (tr : ChainTrace) : List XdmaDesc :=
  (List.range' (tr.built.tfer ⟨own, 0⟩).descIndex (tr.built.tfer ⟨own, 0⟩).descNum).map tr.built.eng.desc

def chainPairs (own : ℕ) (dir : DmaDir) (trs : List ChainTrace) : List (U64 × U64) :=
  (trs.flatMap (ChainTrace.descs own)).flatMap fun d => pairs (d.hostAddr dir) (d.devAddr dir) d.bytes.toNat

theorem chainPairs_append (own : ℕ) (dir : DmaDir) (trs trs' : List ChainTrace) :
    chainPairs own dir (trs ++ trs') = chainPairs own dir trs ++ chainPairs own dir trs' := by
  simp [chainPairs]

def ChainTrace.InRing (own n : ℕ) (tr : ChainTrace) : Prop :=
  0 < (tr.built.tfer ⟨own, 0⟩).descNum ∧
    (tr.built.tfer ⟨own, 0⟩).descIndex + (tr.built.tfer ⟨own, 0⟩).descNum ≤ n

namespace XferCall

variable {p : Params} {own : ℕ}

structure Moved (own : ℕ) (e : XdmaEngine) (epAddr : U64) (sds : List SwDesc) (c : XferCall) : Prop where
  config : e.SameConfig c.drv.eng
  sdesc : c.req.sdesc = sds
  cnt : c.req.swDescCnt = sds.length
  describes : Describes e epAddr (sds.take c.req.swDescIdx) (c.chains.flatMap (ChainTrace.descs own))
  epAddr : c.req.epAddr = epAfter e.nonIncrAddr epAddr (sds.take c.req.swDescIdx)
  inRing : ∀ tr ∈ c.chains, tr.InRing own e.descMax

theorem Pass.moved {e : XdmaEngine} {epAddr : U64} {sds : List SwDesc} {c : XferCall} {tr : ChainTrace}
    {r : XferCall × ℤ} (hp : Pass p own c tr r) (hb : SubmitBetween own c) (hn : c.nents ≠ 0)
    (h : Moved own e epAddr sds c) : Moved own e epAddr sds r.1 := by
  have hlen := chainSdesc_length (e := c.drv.eng) hb.wf
  have hreq : r.1.req = _ := hp.req.trans hp.built.req
  have hslice : chainSdesc c.drv.eng c.req = (sds.drop c.req.swDescIdx).take (chainLen c.drv.eng c.req) := by
    rw [chainSdesc, h.sdesc]
  have htake : sds.take (c.req.swDescIdx + chainLen c.drv.eng c.req) =
      sds.take c.req.swDescIdx ++ chainSdesc c.drv.eng c.req := by
    rw [List.take_add, hslice]
  have hni := h.config.nonIncrAddr
  have hcfg : (c.drv.transferInit c.req ⟨own, 0⟩).1.eng.SameConfig e :=
    XdmaEngine.SameConfig.symm (h.config.trans (transferInit_sameConfig c.drv c.req ⟨own, 0⟩))
  have hchain : Describes e (epAfter e.nonIncrAddr epAddr (sds.take c.req.swDescIdx))
      (chainSdesc c.drv.eng c.req) (tr.descs own) := by
    rw [← h.epAddr, ChainTrace.descs, hp.builtXfer.1, hp.builtXfer.2, hp.builtEng, ← hlen]
    exact (hp.built.holds.describes _).congr hcfg
  refine ⟨h.config.trans hp.config, ?_, ?_, ?_, ?_, ?_⟩
  · rw [hreq]
    exact h.sdesc
  · rw [hreq]
    exact h.cnt
  · rw [hreq, hp.chains, List.flatMap_append, List.flatMap_singleton]
    dsimp only
    rw [htake]
    exact h.describes.append _ hchain
  · rw [hreq]
    dsimp only
    rw [htake, epAfter_append, h.epAddr, hni]
  · intro tr' htr'
    rw [hp.chains] at htr'
    rcases List.mem_append.mp htr' with htr' | htr'
    · exact h.inRing tr' htr'
    · obtain rfl := List.mem_singleton.mp htr'
      rw [ChainTrace.InRing, hp.builtXfer.1, hp.builtXfer.2, ← h.config.descMax]
      exact ⟨hb.chainLen_pos hn, chainLen_inside c.req hb.descIdx⟩

/-- When all chains completed and no end of packet cut the request short, it was
moved as a whole. -/
def WholeIfCompleted (own : ℕ) (e : XdmaEngine) (c : XferCall) (outcome : CallEnd) : Prop :=
  e.eopFlush = false → (∃ rv, outcome = .returned rv) → (∀ tr ∈ c.chains, tr.Completed ⟨own, 0⟩) →
    c.req.swDescIdx = c.req.swDescCnt

theorem submitLoop_moved (dmaMapped : Bool) {e : XdmaEngine} {epAddr : U64} {sds : List SwDesc}
    (envs : List ChainEnv) {c : XferCall} (hb : SubmitBetween own c) (hm : Moved own e epAddr sds c) :
    Moved own e epAddr sds (c.submitLoop p own dmaMapped envs).1 ∧
      WholeIfCompleted own e (c.submitLoop p own dmaMapped envs).1 (c.submitLoop p own dmaMapped envs).2 := by
  refine chainLoop_rule (I := fun c => SubmitBetween own c ∧ Moved own e epAddr sds c)
    (J := fun c outcome => Moved own e epAddr sds c ∧ WholeIfCompleted own e c outcome)
    ?_ (fun c h _ => ⟨h.2, ?_⟩) (fun _ c h _ _ => ⟨h.2, ?_⟩) ?_ envs ⟨hb, hm⟩
  · rintro c ⟨hb, hm⟩ hmore
    refine ⟨hm, fun heop _ _ => ?_⟩
    have hz : c.nents = 0 := by simpa using hmore
    have hleft := hb.nents.resolve_right fun h => by simp [hm.config.eopFlush, heop] at h
    have := hb.wf.idx
    omega
  · rintro - ⟨rv, h⟩ -
    cases h
  · rintro - ⟨rv, h⟩ -
    cases h
  · rintro env c r ⟨hb, hm⟩ hmore hr
    obtain rfl := Option.some.inj hr
    have hn : c.nents ≠ 0 := by simpa using hmore
    obtain ⟨tr, hp⟩ := submitChain_pass p dmaMapped env hb hn
    have hm' := hp.moved hb hn hm
    refine ⟨fun hneg => ⟨hm', fun _ _ hall => ?_⟩, fun hrv => ⟨(hp.completed hrv).2, hm'⟩⟩
    exact absurd (hall tr (by simp [hp.chains])) (hp.failed hneg)

theorem submitLoop_terminates (dmaMapped : Bool) (envs : List ChainEnv) {c : XferCall}
    (h : SubmitBetween own c) (hl : c.nents ≤ envs.length) :
    (c.submitLoop p own dmaMapped envs).2 ≠ .waiting := by
  refine chainLoop_terminates (I := SubmitBetween own) XferCall.nents
    (fun c hmore => Nat.pos_of_ne_zero (by simpa using hmore)) ?_ envs h hl
  intro env c r hb hmore hr hrv
  obtain rfl := Option.some.inj hr
  have hn : c.nents ≠ 0 := by simpa using hmore
  obtain ⟨tr, hp⟩ := submitChain_pass p dmaMapped env hb hn
  have hb' := (hp.completed hrv).2
  refine ⟨hb', ?_⟩
  have hpos := hb.chainLen_pos hn
  have hleft := hb.left hn
  have hreq := hp.req.trans hp.built.req
  rcases hb'.nents with h' | h'
  · rw [hreq] at h'
    dsimp only at h'
    omega
  · omega

end XferCall

/-- The descriptors of the chains `trs` move the scatter list `sgt` between the host
and the device addresses from `epAddr` on. -/
structure MapsRequest (p : Params) (own : ℕ) (e : XdmaEngine) (epAddr : U64) (sgt : List SgEntry)
    (trs : List ChainTrace) : Prop where
  lengths : ∀ d ∈ trs.flatMap (ChainTrace.descs own), 1 ≤ d.bytes.toNat ∧ d.bytes.toNat ≤ p.descBlenMax
  host : ((trs.flatMap (ChainTrace.descs own)).flatMap fun d =>
    span (d.hostAddr e.dir) d.bytes.toNat) = sgBytes sgt
  inRing : ∀ tr ∈ trs, tr.InRing own e.descMax
  device : e.streamingC2h = false → e.nonIncrAddr = false →
    ((trs.flatMap (ChainTrace.descs own)).flatMap fun d =>
      pairs (d.hostAddr e.dir) (d.devAddr e.dir) d.bytes.toNat) =
        (sgBytes sgt).zip (span epAddr (sgBytes sgt).length)
  fixed : e.streamingC2h = false → e.nonIncrAddr = true →
    ∀ d ∈ trs.flatMap (ChainTrace.descs own), d.devAddr e.dir = epAddr

theorem length_sdescBytes (sds : List SwDesc) : (sdescBytes sds).length = lenSum sds := by
  rw [sdescBytes, length_covered, List.map_map]
  rfl

theorem XferCall.Moved.maps {p : Params} {own : ℕ} {e : XdmaEngine} {epAddr : U64} {sgt : List SgEntry}
    {c : XferCall} (hb : 1 ≤ p.descBlenMax) (hb' : p.descBlenMax < 2 ^ 32)
    (h : Moved own e epAddr (requestSdesc p sgt) c) (hall : c.req.swDescIdx = (requestSdesc p sgt).length) :
    MapsRequest p own e epAddr sgt c.chains := by
  have hd := h.describes
  rw [hall, List.take_length] at hd
  have hlen := requestSdesc_len hb sgt
  have hle : ∀ sd ∈ requestSdesc p sgt, sd.len ≤ p.descBlenMax := fun sd hsd => (hlen sd hsd).2
  have hbytes := requestSdesc_bytes hb sgt
  have hsum : lenSum (requestSdesc p sgt) = (sgBytes sgt).length := by
    rw [← hbytes, length_sdescBytes]
  refine ⟨hd.bytes hb' _ hlen, ?_, h.inRing, fun hst hinc => ?_, fun hst hfix => hd.fixed hst hfix _⟩
  · rw [hd.hostBytes hb' _ hle, hbytes]
  · rw [hd.pairs hb' hst hinc _ hle, hbytes, hsum]

theorem describes_moves {p : Params} {e : XdmaEngine} {epAddr : U64} {sgt : List SgEntry} {k : ℕ}
    {ds : List XdmaDesc}
    (hb : 1 ≤ p.descBlenMax) (hb' : p.descBlenMax < 2 ^ 32) (hst : e.streamingC2h = false)
    (hinc : e.nonIncrAddr = false) (h : Describes e epAddr ((requestSdesc p sgt).take k) ds) :
    (ds.flatMap fun d => pairs (d.hostAddr e.dir) (d.devAddr e.dir) d.bytes.toNat) <+:
      (sgBytes sgt).zip (span epAddr (sgBytes sgt).length) := by
  have hle : ∀ sd ∈ (requestSdesc p sgt).take k, sd.len ≤ p.descBlenMax := fun sd hsd =>
    (requestSdesc_len hb sgt sd (List.mem_of_mem_take hsd)).2
  have hsplit : sgBytes sgt =
      sdescBytes ((requestSdesc p sgt).take k) ++ sdescBytes ((requestSdesc p sgt).drop k) := by
    rw [← sdescBytes_append, List.take_append_drop, requestSdesc_bytes hb]
  rw [h.pairs hb' hst hinc _ hle, hsplit, List.length_append, span_add, length_sdescBytes,
    List.zip_append (by rw [length_sdescBytes, length_span])]
  exact List.prefix_append _ _

section

variable {p : Params} {own : ℕ} {s : Drv}

theorem XferCall.moved_start {epAddr : U64} {sgt : SgTable} {oom : Bool} {req : XdmaRequestCb}
    (h : xdmaInitRequest p oom sgt.entries epAddr = some req) :
    Moved own s.eng epAddr (requestSdesc p sgt.entries) (submitCall s req sgt) := by
  have hinit := xdmaInitRequest_initialised h
  exact ⟨.refl _, hinit.sdesc, hinit.cnt, by simp [submitCall, hinit.idx, Describes],
    by simp [submitCall, hinit.idx, hinit.epAddr], by simp [submitCall]⟩

theorem xdmaXferSubmit_moves (hb : 1 ≤ p.descBlenMax) (hb' : p.descBlenMax < 2 ^ 32)
    (hst : s.eng.streamingC2h = false) (hinc : s.eng.nonIncrAddr = false)
    (hnd : s.eng.transferList.Nodup) (hfree : Unlinked own s) (hidx : s.eng.descIdx < s.eng.descMax)
    (write : Bool) (epAddr : U64) (sgt : SgTable) (dmaMapped : Bool) (mapped : List SgEntry) (oom : Bool)
    (envs : List ChainEnv) :
    chainPairs own s.eng.dir (xdmaXferSubmit p own write epAddr sgt dmaMapped mapped oom envs s).chains <+:
      (sgBytes (XferCall.mapSgt sgt dmaMapped mapped).entries).zip
        (span epAddr (sgBytes (XferCall.mapSgt sgt dmaMapped mapped).entries).length) := by
  rcases xdmaXferSubmit_starts p own write epAddr sgt dmaMapped mapped oom envs s rfl with hno | hloop
  · rw [hno.2.1]
    exact List.nil_prefix
  · obtain ⟨req, c, outcome, hreq, hloop, hr⟩ := hloop
    have hm := (XferCall.submitLoop_moved (p := p) dmaMapped envs
      (XferCall.submitCall_between hnd hfree hidx hreq)
      (XferCall.moved_start hreq)).1
    rw [hloop] at hm
    rw [hr, (XferCall.leave_spec dmaMapped c outcome).2.1]
    exact describes_moves hb hb' hst hinc hm.describes

/-- The loop of `xdma_xfer_submit` over the chains ends, and a request whose chains
all completed has been moved as a whole, with descriptors that map it. -/
theorem xdmaXferSubmit_maps_request (hb : 1 ≤ p.descBlenMax) (hb' : p.descBlenMax ≤ 2 ^ 28 - 1)
    (hnd : s.eng.transferList.Nodup) (hfree : Unlinked own s) (hidx : s.eng.descIdx < s.eng.descMax)
    (write : Bool) (epAddr : U64) (sgt : SgTable) (dmaMapped : Bool) (mapped : List SgEntry) (oom : Bool)
    (envs : List ChainEnv) :
    ((requestSdesc p (XferCall.mapSgt sgt dmaMapped mapped).entries).length ≤ envs.length →
      (xdmaXferSubmit p own write epAddr sgt dmaMapped mapped oom envs s).outcome ≠ .waiting) ∧
    ∀ req ∈ (xdmaXferSubmit p own write epAddr sgt dmaMapped mapped oom envs s).req,
      (s.eng.eopFlush = false → (xdmaXferSubmit p own write epAddr sgt dmaMapped mapped oom
        envs s).freed = true →
        (∀ tr ∈ (xdmaXferSubmit p own write epAddr sgt dmaMapped mapped oom envs s).chains,
          tr.Completed ⟨own, 0⟩) → req.swDescIdx = req.swDescCnt) ∧
      (req.swDescIdx = req.swDescCnt →
        MapsRequest p own s.eng epAddr (XferCall.mapSgt sgt dmaMapped mapped).entries
          (xdmaXferSubmit p own write epAddr sgt dmaMapped mapped oom envs s).chains) := by
  rcases xdmaXferSubmit_starts p own write epAddr sgt dmaMapped mapped oom envs s rfl with hno | hloop
  · rw [hno.1]
    exact ⟨fun _ => hno.2.2.2, nofun⟩
  obtain ⟨req, c, outcome, hreq, hloop, hr⟩ := hloop
  have hb₀ := XferCall.submitCall_between (p := p) hnd hfree hidx hreq
  have hend := XferCall.submitLoop_terminates (p := p) dmaMapped envs hb₀
  obtain ⟨hm, hwhole⟩ := XferCall.submitLoop_moved (p := p) dmaMapped envs hb₀ (XferCall.moved_start hreq)
  have hcnt := (xdmaInitRequest_initialised hreq).cnt
  rw [hloop] at hend hm hwhole
  obtain ⟨hreq', hchains, hwait, hfreed⟩ := XferCall.leave_spec dmaMapped c outcome
  rw [hr]
  refine ⟨fun hl hw => ?_, fun req' hr' => ?_⟩
  · exact hend (hcnt.trans_le hl) (hwait hw)
  · obtain rfl := Option.some.inj (hreq'.symm.trans hr')
    rw [hchains]
    exact ⟨fun heop hf hall => hwhole heop (hfreed hf) hall,
      fun hall => hm.maps hb (by omega) (hall.trans hm.cnt)⟩

end

def completedChain : ChainEnv := { during := [.service 0 ⟨4, 1, 1⟩] }

def completedPair : ChainEnv := { during := [.service 0 ⟨4, 2, 2⟩] }

theorem xdmaXferSubmit_maps_request_split :
    let r := xdmaXferSubmit splitParams 1 false 0x20 splitSgt true [] false [completedPair,
      completedPair] twoSlots
    r.chains.length = 2 ∧ MapsRequest splitParams 1 twoSlots.eng 0x20 splitSgt.entries r.chains := by
  intro r
  obtain ⟨req, hreq⟩ : ∃ req, r.req = some req := Option.isSome_iff_exists.mp (by decide)
  have h := (xdmaXferSubmit_maps_request (p := splitParams) (s := twoSlots) (by decide) (by decide)
    List.nodup_nil (show Unlinked 1 twoSlots from fun _ => List.not_mem_nil)
      (by decide) false 0x20 splitSgt true [] false [completedPair, completedPair]).2 req hreq
  exact ⟨by decide, h.2 (h.1 rfl (by decide) (by decide))⟩

end XdmaDriver
