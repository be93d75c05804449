import XdmaDriver.ChainOutcomes
import XdmaDriver.DescriptorMapping

/-!
The count a synchronous request returns against the chains that completed.
-/

namespace XdmaDriver

open Drv Spans

/-- What the `switch` of `xdma_xfer_submit` makes of a state. -/
def stateError : TransferState → ℤ
  | .completed => 0
  | .failed => err .io
  | _ => err .timedOut

theorem waitEnd_stateError (p : Params) (s : Drv) (t : XferRef) (r : DumpRegs) :
    (s.waitEnd p t r).2 = stateError (s.tfer t).state := by
  unfold waitEnd
  cases (s.tfer t).state with
  | completed => rfl
  | failed => rfl
  | _ =>
    dsimp only
    split <;> rfl

namespace ChainTrace

variable {own : ℕ} {tr : ChainTrace}

def len (own : ℕ) (tr : ChainTrace) : ℕ := (tr.built.tfer ⟨own, 0⟩).len.toNat

def error (own : ℕ) (tr : ChainTrace) : ℤ :=
  match tr.woken with
  | none => err .busy
  | some w => stateError (w.tfer ⟨own, 0⟩).state

theorem error_neg (h : ¬ tr.Completed ⟨own, 0⟩) : tr.error own < 0 := by
  unfold error
  cases hw : tr.woken with
  | none => simp
  | some w =>
    dsimp only
    cases hst : (w.tfer ⟨own, 0⟩).state with
    | completed => exact absurd ⟨w, hw, hst⟩ h
    | _ => simp [stateError]

theorem error_completed (h : tr.Completed ⟨own, 0⟩) : tr.error own = 0 := by
  obtain ⟨w, hw, hst⟩ := h
  rw [Option.mem_def] at hw
  simp [error, hw, hst, stateError]

end ChainTrace

def lenTotal (own : ℕ) (trs : List ChainTrace) : ℕ := (trs.map (ChainTrace.len own)).sum

theorem lenTotal_append (own : ℕ) (trs : List ChainTrace) (tr : ChainTrace) :
    lenTotal own (trs ++ [tr]) = lenTotal own trs + tr.len own := by
  simp [lenTotal]

def chainBytes (own : ℕ) (dir : DmaDir) (trs : List ChainTrace) : List U64 :=
  (trs.flatMap (ChainTrace.descs own)).flatMap fun d => span (d.hostAddr dir) d.bytes.toNat

theorem transferQueue_busy {p : Params} {s : Drv} {t : XferRef} {w : U32} (hn : (s.tfer t).descNum ≠ 0)
    (ha : ¬ s.Accepts t) : (s.transferQueue p t w).2 = err .busy := by
  unfold transferQueue
  by_cases ho : s.offline = true
  · simp only [hn, ho, ↓reduceIte]
  by_cases hr : s.eng.shutdown.request = true
  · simp only [hn, ho, hr, Bool.false_eq_true, ↓reduceIte]
  · exact absurd ⟨hn, by simpa using ho, by simpa using hr⟩ ha

namespace XferCall

variable {p : Params} {own : ℕ}

structure Accounted (own : ℕ) (c : XferCall) (tr : ChainTrace) (r : XferCall × ℤ) : Prop where
  nents : r.1.nents = c.nents
  error : r.2 = tr.error own
  completed : tr.Completed ⟨own, 0⟩ → r.1.done = c.done + (c.drv.tfer ⟨own, 0⟩).len.toNat
  stopped : ¬ tr.Completed ⟨own, 0⟩ → r.1.done = c.done

theorem submitDone_plain {c : XferCall} (hst : c.drv.eng.streamingC2h = false) (x : XdmaTransfer) :
    submitDone c x = { c with done := if x.state = .completed then c.done + x.len.toNat else c.done } := by
  unfold submitDone
  by_cases hx : x.state = .completed
  · simp only [hx, hst, Bool.false_eq_true, ↓reduceIte]
  · simp only [hx, ↓reduceIte]

theorem queueAndWait_accounted (env : ChainEnv) (tr : ChainTrace) {c : XferCall} (hw : tr.woken = none)
    (hst : c.drv.eng.streamingC2h = false) (hnd : c.drv.eng.transferList.Nodup) (hfree : Unlinked own c.drv)
    (hn : (c.drv.tfer ⟨own, 0⟩).descNum ≠ 0) :
    ∃ w, (c.queueAndWait p own submitDone env tr).1.chains = c.chains ++ [{ tr with woken := w }] ∧
      Accounted own c { tr with woken := w } (c.queueAndWait p own submitDone env tr) := by
  by_cases ha : c.drv.Accepts ⟨own, 0⟩
  swap
  · have hbusy := transferQueue_busy (p := p) (w := env.startStatus) hn ha
    refine ⟨none, ?_⟩
    simp only [queueAndWait, hbusy, err_neg, ↓reduceIte]
    refine ⟨by rw [← hw], rfl, rfl, fun h => ?_, fun _ => rfl⟩
    obtain ⟨w, hw, -⟩ := h
    cases hw
  obtain ⟨hq, hrv⟩ := transferQueue_accepted (p := p) (w := env.startStatus) ha
  have hd := engineSteps_others p own env.during (hq.nodup (hfree 0) hnd)
  have hsame := (hq.same ⟨own, 0⟩).trans (hd.same ⟨own, 0⟩ rfl)
  have hcfg := hq.ring.config.trans hd.config
  simp only [queueAndWait, hrv, lt_self_iff_false, ↓reduceIte]
  generalize (c.drv.transferQueue p ⟨own, 0⟩ env.startStatus).1.engineSteps p own env.during = d at *
  have hplain := submitDone_plain
    (c := { c with drv := d, chains := c.chains ++ [{ tr with woken := some d }] })
    (hcfg.streamingC2h.trans hst) (d.tfer ⟨own, 0⟩)
  have hlen : (d.tfer ⟨own, 0⟩).len = (c.drv.tfer ⟨own, 0⟩).len := hsame.2.2.2.2.2.2.2.1
  have hcompl : ChainTrace.Completed { tr with woken := some d } ⟨own, 0⟩ ↔
      (d.tfer ⟨own, 0⟩).state = .completed := by
    simp [ChainTrace.Completed]
  rw [hplain]
  refine ⟨some d, ?_, ?_, ?_, fun h => ?_, fun h => ?_⟩
  · rw [unmapLast_chains]
  · rw [unmapLast_nents]
  · exact waitEnd_stateError p d ⟨own, 0⟩ env.dump
  · rw [unmapLast_done]
    dsimp only
    rw [if_pos (hcompl.mp h), hlen]
  · rw [unmapLast_done]
    dsimp only
    rw [if_neg fun hst => h (hcompl.mpr hst)]

theorem submitChain_accounted (p : Params) (dmaMapped : Bool) (env : ChainEnv) {c : XferCall}
    (hst : c.drv.eng.streamingC2h = false) (h : SubmitBetween own c) (hn : c.nents ≠ 0) :
    ∃ tr, Pass p own c tr (c.submitChain p own dmaMapped env) ∧
      tr.len own = lenSum (chainSdesc c.drv.eng c.req) % 2 ^ 32 ∧
      (c.submitChain p own dmaMapped env).1.nents = c.nents - chainLen c.drv.eng c.req ∧
      (c.submitChain p own dmaMapped env).2 = tr.error own ∧
      (tr.Completed ⟨own, 0⟩ → (c.submitChain p own dmaMapped env).1.done = c.done + tr.len own) ∧
      (¬ tr.Completed ⟨own, 0⟩ → (c.submitChain p own dmaMapped env).1.done = c.done) := by
  obtain ⟨tr, hp⟩ := submitChain_pass p dmaMapped env h hn
  have hchains := hp.chains
  have hpos := h.chainLen_pos hn
  obtain ⟨drv, req, hbuilt, hchain⟩ := submitChain_built p own dmaMapped env c
  rw [hchain] at hp hchains ⊢
  obtain ⟨w, hchains', ha⟩ := queueAndWait_accounted (p := p) env
    { before := c.drv, req := c.req, built := drv, dump := env.dump }
    (c := { c with drv := drv, req := req, nents := c.nents - chainLen c.drv.eng c.req })
    rfl (hbuilt.config.streamingC2h.trans hst) (hbuilt.list ▸ h.nodup)
    (fun i => by rw [hbuilt.list]; exact h.unlinked i) (by rw [hbuilt.num]; omega)
  obtain rfl := List.singleton_inj.mp (List.append_cancel_left (hchains.symm.trans hchains'))
  have hlen : (drv.tfer ⟨own, 0⟩).len = BitVec.ofNat 32 (lenSum (chainSdesc c.drv.eng c.req)) := by
    rw [hbuilt.xfer]
    dsimp only
    rw [(transferInit_built ⟨own, 0⟩ h.wf hpos).xfer]
  refine ⟨_, hp, ?_, ha.nents, ha.error, ha.completed, ha.stopped⟩
  rw [ChainTrace.len, hlen, BitVec.toNat_ofNat]

structure Advanced (own : ℕ) (e : XdmaEngine) (epAddr : U64) (sds : List SwDesc) (c : XferCall) : Prop where
  moved : Moved own e epAddr sds c
  completed : ∀ tr ∈ c.chains, tr.Completed ⟨own, 0⟩
  len : lenTotal own c.chains = lenSum (sds.take c.req.swDescIdx)
  done : c.done = lenTotal own c.chains
  nents : c.nents = sds.length - c.req.swDescIdx

structure Stopped (own : ℕ) (e : XdmaEngine) (epAddr : U64) (sds : List SwDesc) (oks : List ChainTrace)
    (stop : Option ChainTrace) (c : XferCall) (rv : ℤ) : Prop where
  chains : c.chains = oks ++ stop.toList
  completed : ∀ tr ∈ oks, tr.Completed ⟨own, 0⟩
  stopped : ∀ tr ∈ stop, ¬ tr.Completed ⟨own, 0⟩
  rv : rv = (stop.map (ChainTrace.error own)).getD 0
  done : c.done = lenTotal own oks
  moved : Moved own e epAddr sds c
  describes : ∃ k ≤ sds.length, Describes e epAddr (sds.take k) (oks.flatMap (ChainTrace.descs own)) ∧
    lenTotal own oks = lenSum (sds.take k) ∧ (stop = none → k = sds.length)

theorem lenSum_take_add {sds : List SwDesc} {k n : ℕ} :
    lenSum (sds.take (k + n)) = lenSum (sds.take k) + lenSum ((sds.drop k).take n) := by
  rw [List.take_add, lenSum_append]

theorem Advanced.next {e : XdmaEngine} {epAddr : U64} {sds : List SwDesc} (hsum : lenSum sds < 2 ^ 32)
    (hst : e.streamingC2h = false) (dmaMapped : Bool) (env : ChainEnv) {c : XferCall}
      (hb : SubmitBetween own c)
    (h : Advanced own e epAddr sds c) (hn : c.nents ≠ 0) :
    ((c.submitChain p own dmaMapped env).2 < 0 → ∃ oks stop, Stopped own e epAddr sds oks stop
      (c.submitChain p own dmaMapped env).1 (c.submitChain p own dmaMapped env).2) ∧
    (0 ≤ (c.submitChain p own dmaMapped env).2 → SubmitBetween own (c.submitChain p own dmaMapped env).1 ∧
      Advanced own e epAddr sds (c.submitChain p own dmaMapped env).1) := by
  obtain ⟨tr, hp, hlen, hnents, hrv, hcompl, hstop⟩ :=
    submitChain_accounted p dmaMapped env (h.moved.config.streamingC2h.trans hst) hb hn
  have hmoved := hp.moved hb hn h.moved
  have hreq : (c.submitChain p own dmaMapped env).1.req.swDescIdx = c.req.swDescIdx +
    chainLen c.drv.eng c.req := by
    rw [hp.req, hp.built.req]
  have hslice : chainSdesc c.drv.eng c.req = (sds.drop c.req.swDescIdx).take (chainLen c.drv.eng c.req) := by
    rw [chainSdesc, h.moved.sdesc]
  have hadd : lenSum (sds.take (c.req.swDescIdx + chainLen c.drv.eng c.req)) =
      lenSum (sds.take c.req.swDescIdx) + tr.len own := by
    have hle : lenSum (sds.take (c.req.swDescIdx + chainLen c.drv.eng c.req)) ≤ lenSum sds :=
      lenSum_take_le _ _
    rw [lenSum_take_add, ← hslice] at hle ⊢
    rw [hlen, Nat.mod_eq_of_lt (by omega)]
  by_cases hc : tr.Completed ⟨own, 0⟩
  · have hzero := hrv.trans (ChainTrace.error_completed hc)
    refine ⟨fun hneg => by omega, fun hpos => ⟨(hp.completed hpos).2, ?_⟩⟩
    constructor
    · exact hmoved
    · intro tr' htr'
      rw [hp.chains] at htr'
      rcases List.mem_append.mp htr' with htr' | htr'
      · exact h.completed tr' htr'
      · rw [List.mem_singleton.mp htr']
        exact hc
    · rw [hp.chains, lenTotal_append, hreq, hadd, h.len]
    · rw [hcompl hc, h.done, hp.chains, lenTotal_append, Nat.cast_add]
    · rw [hnents, hreq, h.nents]
      omega
  · refine ⟨fun _ => ⟨c.chains, some tr, ?_⟩, fun hpos => ?_⟩
    · constructor
      · exact hp.chains
      · exact h.completed
      · intro tr' htr'
        rw [Option.mem_def, Option.some.injEq] at htr'
        exact htr' ▸ hc
      · exact hrv
      · rw [hstop hc]
        exact h.done
      · exact hmoved
      · refine ⟨c.req.swDescIdx, ?_, h.moved.describes, h.len, by simp⟩
        rw [← h.moved.cnt]
        exact hb.wf.idx
    · have := ChainTrace.error_neg hc
      omega

theorem submitLoop_stopped {e : XdmaEngine} (epAddr : U64) {sds : List SwDesc} (hsum : lenSum sds < 2 ^ 32)
    (hst : e.streamingC2h = false) (dmaMapped : Bool) (envs : List ChainEnv) {c : XferCall}
      (hb : SubmitBetween own c)
    (h : Advanced own e epAddr sds c) (rv : ℤ) (hrv : (c.submitLoop p own dmaMapped envs).2 = .returned rv) :
    ∃ oks stop, Stopped own e epAddr sds oks stop (c.submitLoop p own dmaMapped envs).1 rv := by
  refine chainLoop_rule (I := fun c => SubmitBetween own c ∧ Advanced own e epAddr sds c)
    (J := fun c outcome => ∀ rv, outcome = .returned rv → ∃ oks stop, Stopped own e epAddr sds oks stop c rv)
    ?_ (fun _ _ _ => nofun) (fun _ _ _ _ _ => nofun) ?_ envs ⟨hb, h⟩ rv hrv
  · rintro c ⟨hb, h⟩ hmore rv hrv
    obtain rfl := CallEnd.returned.inj hrv
    have hzero : c.nents = 0 := by simpa using hmore
    have hle := hb.wf.idx
    rw [h.moved.cnt] at hle
    have hall : c.req.swDescIdx = sds.length := by
      have := h.nents
      omega
    refine ⟨c.chains, none, (List.append_nil _).symm, h.completed, by simp, rfl, h.done, h.moved, ?_⟩
    exact ⟨c.req.swDescIdx, hle, h.moved.describes, h.len, fun _ => hall⟩
  · rintro env c r ⟨hb, h⟩ hmore hr
    obtain rfl := Option.some.inj hr
    have hn : c.nents ≠ 0 := by simpa using hmore
    obtain ⟨hend, hnext⟩ := h.next (p := p) hsum hst dmaMapped env hb hn
    refine ⟨fun hneg rv hrv => ?_, hnext⟩
    obtain rfl := CallEnd.returned.inj hrv
    exact hend hneg

variable (p own) in
theorem submitLoop_not_overrun (dmaMapped : Bool) (envs : List ChainEnv) (c : XferCall) :
    (c.submitLoop p own dmaMapped envs).2 ≠ .overrun := by
  refine chainLoop_rule (I := fun _ => True) (J := fun _ outcome => outcome ≠ .overrun) ?_ ?_
    ?_ ?_ envs trivial
  · exact fun _ _ _ => CallEnd.noConfusion
  · exact fun _ _ _ => CallEnd.noConfusion
  · exact fun _ _ _ _ hr => absurd hr (Option.some_ne_none _)
  · exact fun _ _ _ _ _ _ => ⟨fun _ => CallEnd.noConfusion, fun _ => trivial⟩

end XferCall

/-- What the value `v` of a call says about its chains: the ones of `oks` completed, and
`stop`, if there was one, did not. -/
structure ReportsPrefix (own : ℕ) (dir : DmaDir) (bytes : List U64) (trs oks : List ChainTrace)
    (stop : Option ChainTrace) (v : ℤ) : Prop where
  chains : trs = oks ++ stop.toList
  order : chainBytes own dir trs <+: bytes
  completed : ∀ tr ∈ oks, tr.Completed ⟨own, 0⟩
  stopped : ∀ tr ∈ stop, ¬ tr.Completed ⟨own, 0⟩
  counted : 0 < lenTotal own oks → v = lenTotal own oks
  failed : lenTotal own oks = 0 → v < 0 ∧ ∃ tr ∈ stop, v = tr.error own
  moved : chainBytes own dir oks = bytes.take v.toNat
  whole : stop = none → v = bytes.length

theorem XferCall.Stopped.reports {p : Params} {own : ℕ} {e : XdmaEngine} {epAddr : U64} {sgt : List SgEntry}
    (hb : 1 ≤ p.descBlenMax) (hb' : p.descBlenMax < 2 ^ 32) (hpos : 1 ≤ (sgBytes sgt).length)
    {oks : List ChainTrace} {stop : Option ChainTrace} {c : XferCall} {rv : ℤ}
    (h : Stopped own e epAddr (requestSdesc p sgt) oks stop c rv) :
    ReportsPrefix own e.dir (sgBytes sgt) c.chains oks stop (if c.done ≠ 0 then c.done else rv) := by
  have hbytes := requestSdesc_bytes hb sgt
  have hle : ∀ sd ∈ requestSdesc p sgt, sd.len ≤ p.descBlenMax :=
    fun sd hsd => (requestSdesc_len hb sgt sd hsd).2
  have htake : ∀ k, sdescBytes ((requestSdesc p sgt).take k) <+: sgBytes sgt := by
    intro k
    conv_rhs => rw [← hbytes, ← List.take_append_drop k (requestSdesc p sgt), sdescBytes_append]
    exact List.prefix_append _ _
  obtain ⟨k, hk, hdesc, hlen, hall⟩ := h.describes
  have hmoved : chainBytes own e.dir oks = (sgBytes sgt).take (lenTotal own oks) := by
    rw [chainBytes, hdesc.hostBytes hb' _ fun sd hsd => hle sd (List.mem_of_mem_take hsd), hlen,
      ← length_sdescBytes]
    exact List.prefix_iff_eq_take.mp (htake k)
  have hzero : lenTotal own oks = 0 → ∃ tr ∈ stop, rv = tr.error own := by
    intro hz
    cases stop with
    | none =>
      rw [hall rfl, List.take_length] at hlen
      rw [← hbytes, length_sdescBytes] at hpos
      omega
    | some tr => exact ⟨tr, rfl, h.rv⟩
  constructor
  · exact h.chains
  · rw [chainBytes, h.moved.describes.hostBytes hb' _ fun sd hsd => hle sd (List.mem_of_mem_take hsd)]
    exact htake _
  · exact h.completed
  · exact h.stopped
  · intro hd
    rw [h.done, if_pos (by omega)]
  · intro hz
    obtain ⟨tr, htr, hrv⟩ := hzero hz
    rw [h.done, hz, Nat.cast_zero, if_neg (not_not.mpr rfl), hrv]
    exact ⟨ChainTrace.error_neg (h.stopped tr htr), tr, htr, rfl⟩
  · rw [hmoved, h.done]
    by_cases hz : lenTotal own oks = 0
    · obtain ⟨tr, htr, hrv⟩ := hzero hz
      have hneg := ChainTrace.error_neg (h.stopped tr htr)
      rw [hz, Nat.cast_zero, if_neg (not_not.mpr rfl), hrv, Int.toNat_of_nonpos hneg.le]
    · rw [if_pos (by omega), Int.toNat_natCast]
  · intro hnone
    rw [hall hnone, List.take_length, ← length_sdescBytes, hbytes] at hlen
    rw [h.done, hlen, if_pos (by omega)]

section

variable {p : Params} {own : ℕ} {s : Drv}

/-- The error with which `xdma_xfer_submit` ends before its first chain, if it does. -/
def submitRefusal (p : Params) (s : Drv) (write oom : Bool) (sgt : SgTable) : Option ℤ :=
  if s.offline then some (err .busy)
  else if s.eng.dir ≠ (if write then .toDevice else .fromDevice) then some (err .inval)
  else if sgt.nents = 0 then some (err .io)
  else if oom = true ∨ (requestMax p sgt.entries).toInt <
    (requestSdesc p sgt.entries).length then some (err .noMem)
  else none

theorem submitRefusal_neg {write oom : Bool} {sgt : SgTable} {v : ℤ}
    (h : submitRefusal p s write oom sgt = some v) :
    v < 0 := by
  unfold submitRefusal at h
  split_ifs at h
  all_goals
    obtain rfl := Option.some.inj h
    exact err_neg _

theorem xdmaXferSubmit_unstarted {write : Bool} {epAddr : U64} {sgt : SgTable} {dmaMapped : Bool}
    {mapped : List SgEntry} {oom : Bool} {envs : List ChainEnv} {r : XferResult}
    (hr : xdmaXferSubmit p own write epAddr sgt dmaMapped mapped oom envs s = r) :
    (r.req = none → ∃ v, submitRefusal p s write oom (XferCall.mapSgt sgt dmaMapped mapped) = some v ∧
      r.outcome = .returned v ∧ r.chains = []) ∧
    (r.req ≠ none → submitRefusal p s write oom (XferCall.mapSgt sgt dmaMapped mapped) = none) := by
  subst hr
  unfold xdmaXferSubmit submitRefusal
  by_cases ho : s.offline = true
  · simp [ho]
  by_cases hdir : s.eng.dir ≠ (if write then .toDevice else .fromDevice)
  · simp [ho, hdir]
  by_cases hz : (XferCall.mapSgt sgt dmaMapped mapped).nents = 0
  · simp [ho, hdir, hz]
  have hiff := xdmaInitRequest_none_iff p oom (XferCall.mapSgt sgt dmaMapped mapped).entries epAddr
  simp only [ho, hdir, hz, Bool.false_eq_true, ↓reduceIte]
  cases hinit : xdmaInitRequest p oom (XferCall.mapSgt sgt dmaMapped mapped).entries epAddr with
  | none =>
    rw [if_pos (hiff.mp hinit)]
    simp
  | some req =>
    have hfits := mt hiff.mpr (by rw [hinit]; exact Option.some_ne_none req)
    rw [if_neg hfits]
    dsimp only
    rw [(XferCall.leave_spec _ _ _).1]
    simp

end

end XdmaDriver
