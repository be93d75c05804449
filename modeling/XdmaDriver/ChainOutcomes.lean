import XdmaDriver.RequestLifetime

/-!
What a chain leaves in its transfer and in the result ring, and what `xdma_xfer_submit`
makes of it.
-/

namespace XdmaDriver

open Drv

def bytesOf (rs : List XdmaResult) : ℕ := (rs.map fun r => r.length.toNat).sum

theorem bytesOf_append (rs rs' : List XdmaResult) : bytesOf (rs ++ rs') = bytesOf rs + bytesOf rs' := by
  simp [bytesOf]

/-- The fields of a transfer that count when it has left the queue, and its result words. -/
structure ChainOutcome where
  state : TransferState
  last : Bool
  descCmpl : ℕ
  eopRcved : Bool
  len : ℕ
  results : List XdmaResult
  deriving DecidableEq, Repr

def chainOutcome (e : XdmaEngine) (x : XdmaTransfer) : ChainOutcome where
  state := x.state
  last := x.lastInRequest
  descCmpl := x.descCmpl
  eopRcved := x.eopRcved
  len := x.len.toNat
  results := (List.range x.descNum).map fun i => e.cyclicResult (x.descIndex + i)

theorem resultBytes_eq {e : XdmaEngine} {x : XdmaTransfer} {n : ℕ} (h : n ≤ x.descNum) :
    resultBytes e x n = bytesOf ((chainOutcome e x).results.take n) := by
  simp [resultBytes, bytesOf, chainOutcome, ← List.map_take, List.take_range, min_eq_left h,
    Function.comp_def]

namespace ChainOutcome

def syncBytes (streamingC2h : Bool) (o : ChainOutcome) : ℕ :=
  if streamingC2h then bytesOf (o.results.take o.descCmpl) else o.len

def Closes (flush : Bool) (o : ChainOutcome) : Prop := o.last = true ∨ flush = true ∧ o.eopRcved = true

instance (flush : Bool) (o : ChainOutcome) : Decidable (o.Closes flush) := inferInstanceAs (Decidable (_ ∨ _))

end ChainOutcome

def ChainTrace.outcome (own : ℕ) (tr : ChainTrace) : Option ChainOutcome :=
  tr.woken.map fun w => chainOutcome w.eng (w.tfer ⟨own, 0⟩)

namespace Drv

def CmplWithin (s : Drv) (t : XferRef) : Prop := (s.tfer t).descCmpl ≤ (s.tfer t).descNum

theorem CmplWithin.congr {s s' : Drv} {t : XferRef} (h : s.CmplWithin t) (htfer : s'.tfer = s.tfer) :
    s'.CmplWithin t := by
  rw [CmplWithin, htfer]
  exact h

variable {p : Params} {s : Drv} {t : XferRef}

theorem finalTransferState_cmplWithin (h : s.CmplWithin t) (u : XferRef) (c : ℕ) :
    (s.finalTransferState p u c).1.CmplWithin t := by
  by_cases hu : t = u
  swap
  · rw [CmplWithin, (finalTransferState_spec p s u c).other t hu]
    exact h
  subst hu
  unfold finalTransferState
  by_cases herr : statusError s.eng.dir s.eng.status
  · simp only [herr, ↓reduceIte]
    simpa [CmplWithin, engineErrHandle] using h
  by_cases hlt : c < (s.tfer t).descNum
  · by_cases heop : s.eng.eopFlush = true
    · simp only [herr, hlt, heop, ↓reduceIte]
      cases (s.tfer t).eopRcved || eopSeen s.eng (s.tfer t) c
      · simpa [CmplWithin] using hlt.le
      · simpa [CmplWithin, engineServiceShutdown] using hlt.le
    · simp only [herr, hlt, heop, ↓reduceIte]
      simpa [CmplWithin] using hlt.le
  · simp only [herr, hlt, ↓reduceIte]
    simp [CmplWithin]

theorem engineServiceFinalTransfer_cmplWithin (h : s.CmplWithin t) (u : Option XferRef) (c : ℕ) :
    (s.engineServiceFinalTransfer p u c).CmplWithin t := by
  cases u with
  | none => exact h
  | some u =>
    have hf := finalTransferState_cmplWithin (p := p) h u c
    unfold engineServiceFinalTransfer
    dsimp only
    split
    · exact hf
    · exact hf

theorem engineService_cmplWithin (h : s.CmplWithin t) (wb : U32) (r : ServiceRegs) :
    (s.engineService p wb r).1.CmplWithin t := by
  have hentry := h.congr (engineServiceEntry_sameQueue p wb r s).tfer
  unfold engineService
  by_cases hr : s.eng.running = false
  · simp only [hr, ↓reduceIte]
    exact h
  by_cases hc : serviceCount wb r = 0
  · simp only [hr, hc, ↓reduceIte]
    exact hentry
  simp only [hr, hc, ↓reduceIte]
  generalize s.engineServiceEntry p wb r = s₀ at hentry
  obtain ⟨s₁, s₂, c, pre, hperf, hs, hrun⟩ := engineServiceQueue_run p r.status (serviceCount wb r) s₀
  rw [hrun]
  have hlist : s₂.CmplWithin t := by
    have h₁ := hentry.congr hperf.tfer
    rw [CmplWithin, hs.tfer t]
    split
    · exact h₁
    · exact h₁
  have hfin := engineServiceFinalTransfer_cmplWithin (p := p) hlist s₂.eng.transferList.head? c
  exact hfin.congr (engineServiceResume_sameQueue p r.status _).tfer

theorem engineStep_cmplWithin {own : ℕ} (h : s.CmplWithin t) (ht : t.req = own) (st : EngineStep) :
    (s.engineStep p own st).CmplWithin t := by
  have hne : ∀ u : XferRef, u.req ≠ own → t ≠ u := fun u hu he => hu (he ▸ ht)
  cases engineStep_move p own s st with
  | kept _ _ _ htfer => exact h.congr htfer
  | serviced wb r hs =>
    rw [hs]
    exact engineService_cmplWithin h wb r
  | built req u last cb _ hu hs =>
    rw [hs, CmplWithin, buildChain_other s req u false last cb (hne u hu)]
    exact h
  | queued u hu _ hq =>
    rw [CmplWithin, hq.other (hne u hu)]
    exact h

theorem engineSteps_cmplWithin {own : ℕ} (ht : t.req = own) (steps : List EngineStep) : ∀ {s : Drv},
    s.CmplWithin t → (s.engineSteps p own steps).CmplWithin t := by
  induction steps with
  | nil => exact fun h => h
  | cons st steps ih => exact fun h => ih (engineStep_cmplWithin h ht st)

end Drv

def XdmaEngine.stopsAtEop (e : XdmaEngine) : Bool := e.streamingC2h && e.eopFlush

theorem XdmaEngine.SameConfig.streamingC2h {e e' : XdmaEngine} (h : e.SameConfig e') :
    e'.streamingC2h = e.streamingC2h := by
  rw [XdmaEngine.streamingC2h, XdmaEngine.streamingC2h, h.streaming, h.dir]

theorem XdmaEngine.SameConfig.stopsAtEop {e e' : XdmaEngine} (h : e.SameConfig e') :
    e'.stopsAtEop = e.stopsAtEop := by
  rw [XdmaEngine.stopsAtEop, XdmaEngine.stopsAtEop, h.streamingC2h, h.eopFlush]

namespace XferCall

variable {p : Params} {own : ℕ}

structure Counted (e : XdmaEngine) (c : XferCall) (x : Option ChainOutcome) (r : XferCall × ℤ) : Prop where
  within : ∀ o ∈ x, o.descCmpl ≤ o.results.length
  completed : ∀ o ∈ x, o.state = .completed → r.2 = 0 ∧ r.1.done = c.done + o.syncBytes e.streamingC2h ∧
    (r.1.nents = 0 ↔ o.Closes e.stopsAtEop)
  failed : ∀ o ∈ x, o.state = .failed → r.2 = err .io
  uncompleted : (∀ o ∈ x, o.state ≠ .completed) → r.2 < 0 ∧ r.1.done = c.done

theorem unmapLast_done (c : XferCall) (x : XdmaTransfer) : (c.unmapLast x).done = c.done := by
  unfold unmapLast
  split_ifs <;> rfl

theorem submitDone_completed {c : XferCall} {x : XdmaTransfer} (h : x.state = .completed)
    (hw : x.descCmpl ≤ x.descNum) :
    (submitDone c x).done = c.done + (chainOutcome c.drv.eng x).syncBytes c.drv.eng.streamingC2h ∧
      ((submitDone c x).nents = 0 ↔ c.nents = 0 ∨ c.drv.eng.stopsAtEop = true ∧ x.eopRcved = true) := by
  unfold submitDone XdmaEngine.stopsAtEop ChainOutcome.syncBytes
  rw [if_pos h]
  by_cases hst : c.drv.eng.streamingC2h = true
  · simp only [hst, ↓reduceIte, Bool.true_and]
    rw [resultBytes_eq hw]
    refine ⟨rfl, ?_⟩
    rw [← Bool.and_eq_true]
    by_cases hstop : (c.drv.eng.eopFlush && x.eopRcved) = true
    · simp [hstop]
    · simp [hstop]
  · simp only [hst, Bool.false_eq_true, ↓reduceIte, Bool.false_and, false_and, or_false]
    exact ⟨rfl, trivial⟩

theorem submitDone_uncompleted {c : XferCall} {x : XdmaTransfer} (h : x.state ≠ .completed) :
    submitDone c x = c := by
  unfold submitDone
  rw [if_neg h]

theorem queueAndWait_counted (env : ChainEnv) (tr : ChainTrace) {c : XferCall} (hw : tr.woken = none)
    (hnd : c.drv.eng.transferList.Nodup) (hfree : Unlinked own c.drv) (hx : c.drv.CmplWithin ⟨own, 0⟩)
    (hlast : (c.drv.tfer ⟨own, 0⟩).lastInRequest = decide (c.nents = 0)) :
    ∃ w, (c.queueAndWait p own submitDone env tr).1.chains = c.chains ++ [{ tr with woken := w }] ∧
      Counted c.drv.eng c (({ tr with woken := w } : ChainTrace).outcome own)
        (c.queueAndWait p own submitDone env tr) := by
  by_cases ha : c.drv.Accepts ⟨own, 0⟩
  swap
  · obtain ⟨hq, hrv⟩ := transferQueue_refused (p := p) (w := env.startStatus) ha
    refine ⟨none, ?_⟩
    simp only [queueAndWait, hrv, ↓reduceIte]
    refine ⟨by rw [← hw], ?_⟩
    have hout : ∀ o, o ∉ (({ tr with woken := none } : ChainTrace).outcome own) :=
      by simp [ChainTrace.outcome]
    constructor
    · exact fun o ho => absurd ho (hout o)
    · exact fun o ho => absurd ho (hout o)
    · exact fun o ho => absurd ho (hout o)
    · exact fun _ => ⟨hrv, rfl⟩
  obtain ⟨hq, hrv⟩ := transferQueue_accepted (p := p) (w := env.startStatus) ha
  generalize hqe : c.drv.transferQueue p ⟨own, 0⟩ env.startStatus = q at hq hrv
  obtain ⟨q, rv⟩ := q
  dsimp only at hq hrv
  subst hrv
  have hd := engineSteps_others p own env.during (hq.nodup (hfree 0) hnd)
  have hwithin : (q.engineSteps p own env.during).CmplWithin ⟨own, 0⟩ := by
    refine engineSteps_cmplWithin (t := ⟨own, 0⟩) rfl env.during ?_
    rw [CmplWithin, hq.tfer, Function.update_self]
    exact hx
  generalize hde : q.engineSteps p own env.during = d at hd hwithin
  have hcfg : c.drv.eng.SameConfig d.eng := hq.ring.config.trans hd.config
  have hkeep : (d.tfer ⟨own, 0⟩).lastInRequest = decide (c.nents = 0) := by
    rw [(hd.same _ rfl).2.2.2.2.1, (hq.same _).2.2.2.2.1]
    exact hlast
  refine ⟨some d, ?_⟩
  simp only [queueAndWait, hqe, lt_self_iff_false, ↓reduceIte, hde]
  obtain ⟨hdrv, hchains, -, -⟩ := submitDone_bookkeeping
    { c with drv := d, chains := c.chains ++ [{ tr with woken := some d }] } (d.tfer ⟨own, 0⟩)
  refine ⟨by rw [unmapLast_chains]; exact hchains, ?_⟩
  have hout : ∀ o ∈ ({ tr with woken := some d } : ChainTrace).outcome own, o =
    chainOutcome d.eng (d.tfer ⟨own, 0⟩) :=
    fun o ho => (Option.some.inj ho).symm
  rw [hdrv]
  constructor
  · intro o ho
    rw [hout o ho]
    simpa [chainOutcome, CmplWithin] using hwithin
  · intro o ho hst
    rw [hout o ho] at hst ⊢
    obtain ⟨hdone, hnents⟩ := submitDone_completed
      (c := { c with drv := d, chains := c.chains ++ [{ tr with woken := some d }] }) hst hwithin
    have hrv : (d.waitEnd p ⟨own, 0⟩ env.dump).2 = 0 := by
      change (d.tfer ⟨own, 0⟩).state = .completed at hst
      simp [waitEnd, hst]
    refine ⟨hrv, ?_, ?_⟩
    · rw [unmapLast_done, ← hcfg.streamingC2h]
      exact hdone
    · rw [unmapLast_nents, ← hcfg.stopsAtEop, ChainOutcome.Closes, chainOutcome, hkeep, decide_eq_true_eq]
      exact hnents
  · intro o ho hst
    rw [hout o ho] at hst
    change (d.tfer ⟨own, 0⟩).state = .failed at hst
    simp [waitEnd, hst]
  · intro hno
    have hst : (d.tfer ⟨own, 0⟩).state ≠ .completed := hno _ rfl
    refine ⟨not_le.mp fun h => hst (waitEnd_nonneg.mp h), ?_⟩
    rw [unmapLast_done, submitDone_uncompleted hst]

theorem submitChain_counted (p : Params) (dmaMapped : Bool) (env : ChainEnv) {c : XferCall}
    (h : SubmitBetween own c)
    (hn : c.nents ≠ 0) : ∃ tr, Pass p own c tr (c.submitChain p own dmaMapped env) ∧
      Counted c.drv.eng c (tr.outcome own) (c.submitChain p own dmaMapped env) := by
  obtain ⟨tr, hp⟩ := submitChain_pass p dmaMapped env h hn
  refine ⟨tr, hp, ?_⟩
  have hleft := h.left hn
  have hlen := chainLen_le c.drv.eng c.req
  have hchains := hp.chains
  obtain ⟨drv, req, hbuilt, hchain⟩ := submitChain_built p own dmaMapped env c
  have hcfg := hbuilt.config
  rw [hchain] at hchains ⊢
  obtain ⟨w, hchains', hc⟩ := queueAndWait_counted (p := p) env
    { before := c.drv, req := c.req, built := drv, dump := env.dump }
    (c := { c with drv := drv, req := req, nents := c.nents - chainLen c.drv.eng c.req })
    rfl (hbuilt.list ▸ h.nodup) (fun i => by rw [hbuilt.list]; exact h.unlinked i)
    (by rw [CmplWithin, hbuilt.unserved.1]; exact Nat.zero_le _)
    (by rw [hbuilt.lastInRequest, decide_eq_decide]; dsimp only; omega)
  obtain rfl := List.singleton_inj.mp (List.append_cancel_left (hchains.symm.trans hchains'))
  constructor
  · exact hc.within
  · rw [← hcfg.streamingC2h, ← hcfg.stopsAtEop]
    exact hc.completed
  · exact hc.failed
  · exact hc.uncompleted

end XferCall

namespace ChainOutcome

def syncSum (streamingC2h : Bool) (os : List ChainOutcome) : ℕ := (os.map (syncBytes streamingC2h)).sum

theorem syncSum_append (st : Bool) (os os' : List ChainOutcome) :
    syncSum st (os ++ os') = syncSum st os + syncSum st os' := by
  simp [syncSum]

@[simp] theorem syncSum_singleton (st : Bool) (o : ChainOutcome) : syncSum st [o] = o.syncBytes st := by
  simp [syncSum]

structure Done (o : ChainOutcome) : Prop where
  state : o.state = .completed
  within : o.descCmpl ≤ o.results.length

structure GoesOn (flush : Bool) (o : ChainOutcome) : Prop extends Done o where
  more : ¬ o.Closes flush

end ChainOutcome

open ChainOutcome in
/-- A loop of `xdma_xfer_submit` that saw the outcomes `xs` of its chains has counted
`done` and leaves with `rv`. -/
inductive CallTally (st flush : Bool) : List (Option ChainOutcome) → ℤ → ℤ → Prop
  | nothing : CallTally st flush [] 0 0
  | closed {os : List ChainOutcome} {o : ChainOutcome} (hos : ∀ o ∈ os, o.GoesOn flush) (ho : o.Done)
      (hlast : o.Closes flush) : CallTally st flush (os.map some ++ [some o]) (syncSum st (os ++ [o])) 0
  | stopped {os : List ChainOutcome} {x : Option ChainOutcome} {rv : ℤ} (hos : ∀ o ∈ os, o.GoesOn flush)
      (hx : ∀ o ∈ x, o.state ≠ .completed) (hrv : rv < 0) (hfailed : ∀ o ∈ x,
        o.state = .failed → rv = err .io) :
      CallTally st flush (os.map some ++ [x]) (syncSum st os) rv

namespace XferCall

variable {p : Params} {own : ℕ}

def outcomes (own : ℕ) (c : XferCall) : List (Option ChainOutcome) := c.chains.map (ChainTrace.outcome own)

structure Tallied (own : ℕ) (e : XdmaEngine) (c : XferCall) : Prop where
  config : e.SameConfig c.drv.eng
  ended : c.nents = 0 → CallTally e.streamingC2h e.stopsAtEop (c.outcomes own) c.done 0
  going : c.nents ≠ 0 → ∃ os : List ChainOutcome, c.outcomes own = os.map some ∧
    c.done = ChainOutcome.syncSum e.streamingC2h os ∧ ∀ o ∈ os, o.GoesOn e.stopsAtEop

theorem Counted.tallied {e : XdmaEngine} {c : XferCall} {tr : ChainTrace} {r : XferCall × ℤ}
    (hp : Pass p own c tr r)
    (hc : Counted c.drv.eng c (tr.outcome own) r) (h : Tallied own e c) (hn : c.nents ≠ 0) :
    (r.2 < 0 → CallTally e.streamingC2h e.stopsAtEop (r.1.outcomes own) r.1.done r.2) ∧
      (0 ≤ r.2 → Tallied own e r.1) := by
  obtain ⟨os, hos, hdone, hgoes⟩ := h.going hn
  have hchains : r.1.outcomes own = os.map some ++ [tr.outcome own] := by
    rw [outcomes, hp.chains, List.map_append, List.map_singleton, ← hos]
    rfl
  have hcompleted := hc.completed
  rw [h.config.streamingC2h, h.config.stopsAtEop] at hcompleted
  by_cases hst : ∃ o ∈ tr.outcome own, o.state = .completed
  · obtain ⟨o, ho, hst⟩ := hst
    obtain ⟨hrv, hadd, hclose⟩ := hcompleted o ho hst
    have hsum : r.1.done = ChainOutcome.syncSum e.streamingC2h (os ++ [o]) := by
      rw [hadd, hdone, ChainOutcome.syncSum_append, ChainOutcome.syncSum_singleton, Nat.cast_add]
    rw [ho] at hchains
    have hfin : o.Done := ⟨hst, hc.within o ho⟩
    refine ⟨fun hneg => by omega, fun _ => ⟨h.config.trans hp.config, fun hz => ?_, fun hnz => ?_⟩⟩
    · rw [hchains, hsum]
      exact .closed hgoes hfin (hclose.mp hz)
    · refine ⟨os ++ [o], by rw [hchains, List.map_append, List.map_singleton], hsum, fun o' ho' => ?_⟩
      rcases List.mem_append.mp ho' with ho' | ho'
      · exact hgoes o' ho'
      · obtain rfl := List.mem_singleton.mp ho'
        exact ⟨hfin, fun hcl => hnz (hclose.mpr hcl)⟩
  · have hno : ∀ o ∈ tr.outcome own, o.state ≠ .completed := fun o ho hst' => hst ⟨o, ho, hst'⟩
    obtain ⟨hneg, hsame⟩ := hc.uncompleted hno
    refine ⟨fun _ => ?_, fun hrv => by omega⟩
    rw [hchains, hsame, hdone]
    exact .stopped hgoes hno hneg hc.failed

theorem submitLoop_tallied (dmaMapped : Bool) {e : XdmaEngine} (envs : List ChainEnv) {c : XferCall}
    (hb : SubmitBetween own c) (h : Tallied own e c) (rv : ℤ)
    (hrv : (c.submitLoop p own dmaMapped envs).2 = .returned rv) :
    CallTally e.streamingC2h e.stopsAtEop ((c.submitLoop p own dmaMapped envs).1.outcomes own)
      (c.submitLoop p own dmaMapped envs).1.done rv := by
  refine chainLoop_rule (I := fun c => SubmitBetween own c ∧ Tallied own e c)
    (J := fun c outcome => ∀ rv, outcome = .returned rv →
      CallTally e.streamingC2h e.stopsAtEop (c.outcomes own) c.done rv)
    ?_ (fun _ _ _ => nofun) (fun _ _ _ _ _ => nofun) ?_ envs ⟨hb, h⟩ rv hrv
  · rintro c ⟨-, h⟩ hmore rv hrv
    obtain rfl := CallEnd.returned.inj hrv
    exact h.ended (by simpa using hmore)
  · rintro env c r ⟨hb, h⟩ hmore hr
    obtain rfl := Option.some.inj hr
    have hn : c.nents ≠ 0 := by simpa using hmore
    obtain ⟨tr, hp, hc⟩ := submitChain_counted p dmaMapped env hb hn
    obtain ⟨hend, hnext⟩ := hc.tallied hp h hn
    refine ⟨fun hneg rv hrv => ?_, fun hpos => ⟨(hp.completed hpos).2, hnext hpos⟩⟩
    obtain rfl := CallEnd.returned.inj hrv
    exact hend hneg

end XferCall

theorem xdmaXferSubmit_tally {p : Params} {own : ℕ} {s : Drv} (hnd : s.eng.transferList.Nodup)
    (hfree : Unlinked own s)
    (hidx : s.eng.descIdx < s.eng.descMax) {write : Bool} {epAddr : U64} {sgt : SgTable} {dmaMapped : Bool}
    {mapped : List SgEntry} {oom : Bool} {envs : List ChainEnv} {r : XferResult} {v : ℤ}
    (hr : xdmaXferSubmit p own write epAddr sgt dmaMapped mapped oom envs s = r)
      (hv : r.outcome = .returned v)
    (hchains : r.chains ≠ []) :
    ∃ done rv, CallTally s.eng.streamingC2h s.eng.stopsAtEop (r.chains.map (ChainTrace.outcome own)) done rv ∧
      v = if done ≠ 0 then done else rv := by
  rcases xdmaXferSubmit_starts p own write epAddr sgt dmaMapped mapped oom envs s hr with hno | hloop
  · exact absurd hno.2.1 hchains
  obtain ⟨req, c, outcome, hreq, hloop, rfl⟩ := hloop
  have htally := XferCall.submitLoop_tallied (p := p) (e := s.eng) dmaMapped envs
    (XferCall.submitCall_between hnd hfree hidx hreq) ⟨.refl _, fun _ => .nothing,
      fun _ => ⟨[], rfl, rfl, nofun⟩⟩
  rw [hloop] at htally
  cases outcome with
  | returned rv => exact ⟨c.done, rv, htally rv rfl, (CallEnd.returned.inj hv).symm⟩
  | waiting => cases hv
  | overrun => cases hv

end XdmaDriver
