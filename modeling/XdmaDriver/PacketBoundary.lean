import XdmaDriver.ChainService

/-!
The end of a packet in `eop_flush` mode: which bytes `xdma_xfer_submit` counts, and whether
it goes on to another chain.
-/

namespace XdmaDriver

open Drv

theorem mem_results_take {e : XdmaEngine} {x : XdmaTransfer} {n : ℕ} (h : n ≤ x.descNum) :
    (∃ w ∈ (chainOutcome e x).results.take n, w.Eop) ↔ ∃ i < n, (e.cyclicResult (x.descIndex + i)).Eop := by
  simp [chainOutcome, ← List.map_take, List.take_range, min_eq_left h]

namespace ChainTrace

variable (own : ℕ) (env : ChainEnv) (tr : ChainTrace)

/-- The events around the chain are those of the hardware. -/
def Hardware : Prop := ChainEvents (tr.built.tfer ⟨own, 0⟩) tr.built.eng.cyclicResult env.during

def reported : Option ℕ :=
  (firstReport (tr.built.tfer ⟨own, 0⟩) tr.built.eng.cyclicResult env.during).map Prod.fst

def results : List XdmaResult := ((tr.outcome own).map ChainOutcome.results).getD []

def descNum : ℕ := (tr.built.tfer ⟨own, 0⟩).descNum

def EndsRequest : Prop := tr.req.swDescIdx + tr.descNum own = tr.req.swDescCnt

end ChainTrace

structure TakenAt (own : ℕ) (tr : ChainTrace) (o : ChainOutcome) (n : ℕ) : Prop where
  length : o.results.length = tr.descNum own
  cmpl : o.descCmpl = n
  within : n ≤ tr.descNum own
  early : n < tr.descNum own → o.eopRcved = true ∧ ∃ w ∈ o.results.take n, w.Eop
  full : n = tr.descNum own → o.eopRcved = false
  last : o.last = true ↔ tr.EndsRequest own

namespace TakenAt

variable {own : ℕ} {tr : ChainTrace} {o : ChainOutcome} {n : ℕ}

theorem syncBytes (h : TakenAt own tr o n) : o.syncBytes true = bytesOf (o.results.take n) := by
  rw [ChainOutcome.syncBytes, if_pos rfl, h.cmpl]

theorem closes_iff (h : TakenAt own tr o n) : o.Closes true ↔ n < tr.descNum own ∨ tr.EndsRequest own := by
  unfold ChainOutcome.Closes
  rw [h.last]
  rcases h.within.lt_or_eq with hlt | he
  · simp [hlt, (h.early hlt).1]
  · simp [he, h.full he]

theorem plain (h : TakenAt own tr o n) (hno : ∀ w ∈ o.results, ¬ w.Eop) :
    o.syncBytes true = bytesOf o.results := by
  have he : n = tr.descNum own := by
    by_contra hne
    obtain ⟨-, w, hw, heop⟩ := h.early (lt_of_le_of_ne h.within hne)
    exact hno w (List.mem_of_mem_take hw) heop
  rw [h.syncBytes, he, ← h.length, List.take_length]

theorem packet (h : TakenAt own tr o n) {ws ws' : List XdmaResult} {w : XdmaResult}
    (hsplit : o.results = ws ++ w :: ws')
    (hno : ∀ w ∈ ws, ¬ w.Eop) :
    o.syncBytes true = bytesOf (ws ++ [w]) + bytesOf (ws'.take (n - ws.length - 1)) := by
  have hlt : ws.length < n := by
    by_contra hge
    have hlen := h.length
    rw [hsplit, List.length_append, List.length_cons] at hlen
    obtain ⟨-, v, hv, heop⟩ := h.early (by omega)
    rw [hsplit, List.take_append_of_le_length (not_lt.mp hge)] at hv
    exact hno v (List.mem_of_mem_take hv) heop
  obtain ⟨k, rfl⟩ := Nat.exists_eq_add_of_lt hlt
  have hk : ws.length + k + 1 - ws.length - 1 = k := by omega
  have htake : (ws ++ w :: ws').take (ws.length + (k + 1)) = (ws ++ [w]) ++ ws'.take k := by
    rw [List.take_length_add_append, List.take_succ_cons, List.append_cons]
  rw [h.syncBytes, hsplit, hk, Nat.add_assoc, htake, bytesOf_append]

end TakenAt

namespace XferCall

variable {p : Params} {own : ℕ}

variable (p own) in
theorem queueAndWait_woken {account : XferCall → XdmaTransfer → XferCall}
    (hacc : Bookkeeping account) (env : ChainEnv)
    (tr : ChainTrace) (c : XferCall) {q : Drv × ℤ} (hq : c.drv.transferQueue p ⟨own, 0⟩ env.startStatus = q) :
    (q.2 < 0 → (c.queueAndWait p own account env tr).1.chains = c.chains ++ [tr] ∧
      (c.queueAndWait p own account env tr).2 = q.2) ∧
    (¬ q.2 < 0 →
      (c.queueAndWait p own account env tr).1.chains =
        c.chains ++ [{ tr with woken := some (q.1.engineSteps p own env.during) }] ∧
      (c.queueAndWait p own account env tr).1.drv =
        ((q.1.engineSteps p own env.during).waitEnd p ⟨own, 0⟩ env.dump).1.transferDestroy ⟨own, 0⟩ ∧
      (c.queueAndWait p own account env tr).2 =
        ((q.1.engineSteps p own env.during).waitEnd p ⟨own, 0⟩ env.dump).2) := by
  unfold queueAndWait
  simp only [hq]
  constructor
  · intro hneg
    rw [if_pos hneg]
    exact ⟨rfl, rfl⟩
  · intro hneg
    rw [if_neg hneg]
    obtain ⟨hdrv, hchains, -, -⟩ := hacc { c with
      drv := q.1.engineSteps p own env.during
      chains := c.chains ++ [{ tr with woken := some (q.1.engineSteps p own env.during) }] }
      ((q.1.engineSteps p own env.during).tfer ⟨own, 0⟩)
    rw [unmapLast_chains, unmapLast_drv, hdrv]
    exact ⟨hchains, rfl, rfl⟩

theorem submitChain_appends (p : Params) (own : ℕ) (dmaMapped : Bool) (env : ChainEnv) (c : XferCall) :
    ∃ tr, (c.submitChain p own dmaMapped env).1.chains = c.chains ++ [tr] := by
  obtain ⟨drv, req, -, hchain⟩ := submitChain_built p own dmaMapped env c
  obtain ⟨hrefused, haccepted⟩ := queueAndWait_woken p own submitDone_bookkeeping env
    { before := c.drv, req := c.req, built := drv, dump := env.dump }
    { c with drv := drv, req := req, nents := c.nents - chainLen c.drv.eng c.req } rfl
  rw [hchain]
  by_cases hneg : (drv.transferQueue p ⟨own, 0⟩ env.startStatus).2 < 0
  · exact ⟨_, (hrefused hneg).1⟩
  · exact ⟨_, (haccepted hneg).1⟩

theorem submitChain_taken (dmaMapped : Bool) {env : ChainEnv} {c : XferCall} {tr : ChainTrace}
    (h : SubmitBetween own c) (hn : c.nents ≠ 0) (hidle : c.drv.eng.transferList = [] ∧
      c.drv.eng.running = false)
    (hflush : c.drv.eng.eopFlush = true)
    (hchains : (c.submitChain p own dmaMapped env).1.chains = c.chains ++ [tr]) (hhw : tr.Hardware own env) :
    (∀ o ∈ tr.outcome own, o.state = .completed → ∃ n, tr.reported own env = some n ∧ TakenAt own tr o n) ∧
      (0 ≤ (c.submitChain p own dmaMapped env).2 →
        (c.submitChain p own dmaMapped env).1.drv.eng.transferList = [] ∧
          (c.submitChain p own dmaMapped env).1.drv.eng.running = false) := by
  have hends : c.nents = chainLen c.drv.eng c.req ↔
      c.req.swDescIdx + chainLen c.drv.eng c.req = c.req.swDescCnt := by
    have hleft := h.left hn
    have hlen := chainLen_le c.drv.eng c.req
    omega
  obtain ⟨drv, req, hbuilt, hchain⟩ := submitChain_built p own dmaMapped env c
  have hlist : drv.eng.transferList = [] := hbuilt.list.trans hidle.1
  have hstopped : drv.eng.running = false := hbuilt.running.trans hidle.2
  rw [hchain] at hchains ⊢
  obtain ⟨hrefused, haccepted⟩ := queueAndWait_woken p own submitDone_bookkeeping env
    { before := c.drv, req := c.req, built := drv, dump := env.dump }
    { c with drv := drv, req := req, nents := c.nents - chainLen c.drv.eng c.req } rfl
  dsimp only at hrefused haccepted
  by_cases ha : drv.Accepts ⟨own, 0⟩
  swap
  · obtain ⟨-, hrv⟩ := transferQueue_refused (p := p) (w := env.startStatus) ha
    obtain ⟨hchains', hrv'⟩ := hrefused hrv
    obtain rfl := List.singleton_inj.mp (List.append_cancel_left (hchains.symm.trans hchains'))
    exact ⟨nofun, fun hpos => absurd hrv (not_lt.mpr (hrv' ▸ hpos))⟩
  obtain ⟨hq, hrv⟩ := transferQueue_accepted (p := p) (w := env.startStatus) ha
  obtain ⟨hchains', hdrv, hend⟩ := haccepted (by rw [hrv]; exact lt_irrefl 0)
  obtain rfl := List.singleton_inj.mp (List.append_cancel_left (hchains.symm.trans hchains'))
  rw [hdrv, hend]
  unfold ChainTrace.Hardware at hhw
  unfold ChainTrace.reported
  dsimp only at hhw ⊢
  generalize (drv.transferQueue p ⟨own, 0⟩ env.startStatus).1 = q at *
  have hwait : SoleWaiting (drv.tfer ⟨own, 0⟩) ⟨own, 0⟩ q := by
    obtain ⟨w, hstarted⟩ := hq.idle hstopped
    constructor
    · rw [hq.list, hlist, List.nil_append]
    · exact fun _ => hstarted.dequeued
    · exact hq.same _
    · exact hq.state
    · rw [hq.tfer, Function.update_self]
      exact hbuilt.unserved.2
  have hqflush : q.eng.eopFlush = true := by
    rw [hq.ring.config.eopFlush, hbuilt.config.eopFlush]
    exact hflush
  have hwords : q.eng.cyclicResult = drv.eng.cyclicResult := hq.ring.2.2.2.2.2.2.2.1
  rw [← hwords] at hhw ⊢
  have hsteps := hwait.steps (p := p) env.during (by rw [hbuilt.num]; exact h.chainLen_pos hn) hqflush hhw
  dsimp only at hsteps
  generalize q.engineSteps p own env.during = d at *
  have hout : ∀ o ∈ ({ before := c.drv, req := c.req, built := drv, woken := some d, dump := env.dump } :
      ChainTrace).outcome own, o = chainOutcome d.eng (d.tfer ⟨own, 0⟩) := fun o ho =>
      (Option.some.inj ho).symm
  rcases hsteps with hw | ⟨ht, hend⟩
  · have hunfinished : (d.tfer ⟨own, 0⟩).state ≠ .completed := by
      rw [hw.state]
      nofun
    constructor
    · intro o ho hst
      rw [hout o ho] at hst
      exact absurd hst hunfinished
    · exact fun hpos => absurd (waitEnd_nonneg.mp hpos) hunfinished
  · constructor
    · intro o ho hst
      rw [hout o ho] at hst ⊢
      have hst : (d.tfer ⟨own, 0⟩).state = .completed := hst
      obtain ⟨n, post, hfirst, hle, hc⟩ := hend.resolve_left (by rw [hst]; nofun)
      refine ⟨n, by rw [hfirst]; rfl, ?_⟩
      obtain ⟨hnum, hindex, -, -, hlast, -⟩ := ht.same
      have hnum' : (d.tfer ⟨own, 0⟩).descNum = ChainTrace.descNum own
        { before := c.drv, req := c.req, built := drv, woken := some d, dump := env.dump } := hnum
      have heop := hc.eop
      rw [← hnum, hnum'] at hle heop
      constructor
      · rw [← hnum']
        simp [chainOutcome]
      · exact hc.cmpl
      · exact hle
      · intro hlt
        rcases heop with ⟨-, heop, hseen⟩ | ⟨he, -⟩
        · refine ⟨heop, (mem_results_take (hle.trans hnum'.ge)).mpr ?_⟩
          rw [hindex]
          exact hseen
        · omega
      · intro he
        rcases heop with ⟨hlt, -⟩ | ⟨-, hno⟩
        · omega
        · exact hno
      · have hend : (chainOutcome d.eng (d.tfer ⟨own, 0⟩)).last =
          decide (c.nents = chainLen c.drv.eng c.req) :=
          hlast.trans hbuilt.lastInRequest
        rw [hend, decide_eq_true_eq, ChainTrace.EndsRequest, ← hnum', hnum, hbuilt.num]
        exact hends
    · intro hpos
      have hst := waitEnd_nonneg.mp hpos
      rw [waitEnd_finished fun hu => hu.1 hst]
      exact ⟨ht.list, ht.stopped⟩

end XferCall

theorem CallTally.split {st flush : Bool} {xs : List (Option ChainOutcome)} {done rv : ℤ}
    (h : CallTally st flush xs done rv)
    {ps qs : List (Option ChainOutcome)} {o : ChainOutcome} (hxs : xs = ps ++ some o :: qs)
    (ho : o.state = .completed) :
    ∃ os : List ChainOutcome, ps = os.map some ∧ (∀ o ∈ os, o.GoesOn flush) ∧ (qs = [] ↔ o.Closes flush) ∧
      (qs = [] → done = ChainOutcome.syncSum st (os ++ [o]) ∧ rv = 0) := by
  -- with more chains behind it, the chain is among those that went on
  have hinner : ∀ {os : List ChainOutcome} {x : Option ChainOutcome}, (∀ o ∈ os, o.GoesOn flush) → qs ≠ [] →
      os.map some ++ [x] = ps ++ some o :: qs →
      ∃ os : List ChainOutcome, ps = os.map some ∧ (∀ o ∈ os, o.GoesOn flush) ∧ (qs = [] ↔ o.Closes flush) ∧
        (qs = [] → done = ChainOutcome.syncSum st (os ++ [o]) ∧ rv = 0) := by
    intro os x hos hne heq
    obtain ⟨qs', y, rfl⟩ := List.eq_nil_or_concat' qs |>.resolve_left hne
    rw [← List.cons_append, ← List.append_assoc] at heq
    obtain ⟨heq, -⟩ := List.append_inj' heq rfl
    obtain ⟨front, back, rfl, hfront, hback⟩ := List.map_eq_append_iff.mp heq
    obtain ⟨o', rest, rfl, ho', -⟩ := List.map_eq_cons_iff.mp hback
    obtain rfl := Option.some.inj ho'
    have hgoes := hos o' (by simp)
    refine ⟨front, hfront.symm, fun o ho => hos o (List.mem_append_left _ ho), ?_,
      fun hnil => absurd hnil hne⟩
    exact iff_of_false hne hgoes.more
  cases h with
  | nothing => simp at hxs
  | @closed os o' hos ho' hlast =>
    by_cases hqs : qs = []
    · subst hqs
      obtain ⟨hps, heq⟩ := List.append_inj' hxs rfl
      obtain rfl : o' = o := by simpa using heq
      exact ⟨os, hps.symm, hos, iff_of_true rfl hlast, fun _ => ⟨rfl, rfl⟩⟩
    · exact hinner hos hqs hxs
  | @stopped os x _ hos hx hneg hfailed =>
    by_cases hqs : qs = []
    · subst hqs
      obtain ⟨-, heq⟩ := List.append_inj' hxs rfl
      obtain rfl : x = some o := by simpa using heq
      exact absurd ho (hx o rfl)
    · exact hinner hos hqs hxs

section

variable {p : Params} {own : ℕ} {s : Drv}

theorem xdmaXferSubmit_taken (hidle : s.eng.transferList = [] ∧ s.eng.running = false)
    (hidx : s.eng.descIdx < s.eng.descMax) (hflush : s.eng.eopFlush = true) {write : Bool}
    {epAddr : U64} {sgt : SgTable}
    {dmaMapped : Bool} {mapped : List SgEntry} {oom : Bool} {envs : List ChainEnv} {r : XferResult}
    (hr : xdmaXferSubmit p own write epAddr sgt dmaMapped mapped oom envs s = r)
    (hhw : ∀ (k : ℕ) (tr : ChainTrace) (env : ChainEnv), r.chains[k]? = some tr → envs[k]? = some env →
      tr.Hardware own env) :
    ∀ (k : ℕ) (tr : ChainTrace) (env : ChainEnv), r.chains[k]? = some tr → envs[k]? = some env →
      ∀ o ∈ tr.outcome own, o.state = .completed → ∃ n, tr.reported own env = some n ∧
        TakenAt own tr o n := by
  rcases xdmaXferSubmit_starts p own write epAddr sgt dmaMapped mapped oom envs s hr with hno | hloop
  · simp [hno.2.1]
  obtain ⟨req, c, outcome, hreq, hloop, rfl⟩ := hloop
  have hbetween : XferCall.SubmitBetween own _ :=
    XferCall.submitCall_between (by rw [hidle.1]; exact List.nodup_nil)
    (fun i => by rw [hidle.1]; exact List.not_mem_nil) hidx hreq
  rw [(XferCall.leave_spec dmaMapped c outcome).2.1] at hhw ⊢
  obtain rfl : c = (XferCall.chainLoop (fun c => c.nents ≠ 0)
    (fun env c => some (c.submitChain p own dmaMapped env)) envs
    (XferCall.submitCall s req (XferCall.mapSgt sgt dmaMapped mapped))).1 := (congrArg Prod.fst hloop).symm
  have hstart : (XferCall.submitCall s req (XferCall.mapSgt sgt dmaMapped mapped)).chains.length = 0 := rfl
  have heach := @XferCall.chainLoop_each (fun c => c.nents ≠ 0)
    (fun env c => some (c.submitChain p own dmaMapped env))
    (fun c => XferCall.SubmitBetween own c ∧ (c.drv.eng.transferList = [] ∧ c.drv.eng.running = false) ∧
      c.drv.eng.eopFlush = true)
    (fun tr env => tr.Hardware own env)
    (fun tr env => ∀ o ∈ tr.outcome own, o.state = .completed →
      ∃ n, tr.reported own env = some n ∧ TakenAt own tr o n) ?_ ?_ envs
    (XferCall.submitCall s req (XferCall.mapSgt sgt dmaMapped mapped)) ⟨hbetween, hidle, hflush⟩
  · simp only [hstart, Nat.zero_add] at heach
    exact heach hhw
  · intro env c r hr
    obtain rfl := Option.some.inj hr
    exact XferCall.submitChain_appends p own dmaMapped env c
  · rintro env c r tr ⟨hb, hidle, hflush⟩ hmore hr hchains hH
    obtain rfl := Option.some.inj hr
    have hn : c.nents ≠ 0 := by simpa using hmore
    obtain ⟨htaken, hnext⟩ := XferCall.submitChain_taken dmaMapped hb hn hidle hflush hchains hH
    obtain ⟨tr', hp⟩ := XferCall.submitChain_pass p dmaMapped env hb hn
    exact ⟨htaken, fun hpos => ⟨(hp.completed hpos).2, hnext hpos, hp.config.eopFlush.trans hflush⟩⟩

/-- The chain `tr` is completed and has the first end of packet of the request, behind the
results `ws` of its own: the call returns the bytes up to it and starts no other chain exactly
when the chain is taken off early or ends the request, and the results counted behind it are
empty. -/
theorem packet_boundary_iff (hidle : s.eng.transferList = [] ∧ s.eng.running = false)
    (hidx : s.eng.descIdx < s.eng.descMax) (hst : s.eng.streamingC2h = true) (hflush : s.eng.eopFlush = true)
    {write : Bool} {epAddr : U64} {sgt : SgTable} {dmaMapped : Bool} {mapped : List SgEntry} {oom : Bool}
    {envs : List ChainEnv} {r : XferResult} {v : ℤ}
    (hr : xdmaXferSubmit p own write epAddr sgt dmaMapped mapped oom envs s = r)
      (hv : r.outcome = .returned v)
    (hhw : ∀ (k : ℕ) (tr : ChainTrace) (env : ChainEnv), r.chains[k]? = some tr → envs[k]? = some env →
      tr.Hardware own env)
    {pre post : List ChainTrace} {tr : ChainTrace} {env : ChainEnv} (hchains : r.chains = pre ++ tr :: post)
    (henv : envs[pre.length]? = some env) (hdone : tr.Completed ⟨own, 0⟩)
    (hpre : ∀ tr' ∈ pre, ∀ w ∈ tr'.results own, ¬ w.Eop) {ws ws' : List XdmaResult} {w : XdmaResult}
    (hsplit : tr.results own = ws ++ w :: ws') (hws : ∀ w ∈ ws, ¬ w.Eop) (_hw : w.Eop) :
    ∃ n, tr.reported own env = some n ∧
      ((v = (pre.map fun tr' => bytesOf (tr'.results own)).sum + bytesOf (ws ++ [w]) ∧ post = []) ↔
        (n < tr.descNum own ∨ tr.EndsRequest own) ∧ bytesOf (ws'.take (n - ws.length - 1)) = 0) := by
  have htaken := xdmaXferSubmit_taken hidle hidx hflush hr hhw
  obtain ⟨done, rv, htally, hvalue⟩ := xdmaXferSubmit_tally (by rw [hidle.1]; exact List.nodup_nil)
    (fun i => by rw [hidle.1]; exact List.not_mem_nil) hidx hr hv (by simp [hchains])
  obtain ⟨d, hwoken, hcompleted⟩ := hdone
  obtain ⟨o, ho⟩ : ∃ o, tr.outcome own = some o := ⟨_, congrArg _ hwoken⟩
  have hstate : o.state = .completed := by
    obtain rfl : chainOutcome d.eng (d.tfer ⟨own, 0⟩) = o := by
      rw [ChainTrace.outcome, Option.mem_def.mp hwoken] at ho
      exact Option.some.inj ho
    exact hcompleted
  have hresults : o.results = ws ++ w :: ws' := by
    rw [← hsplit, ChainTrace.results, ho]
    rfl
  have hlt : pre.length < r.chains.length := by simp [hchains]
  obtain ⟨n, hn, ht⟩ := htaken pre.length tr env (by simp [hchains]) henv o ho hstate
  refine ⟨n, hn, ?_⟩
  have hstop : s.eng.stopsAtEop = true := by rw [XdmaEngine.stopsAtEop, hst, hflush]; rfl
  rw [hst, hstop] at htally
  obtain ⟨os, hos, hgoes, hnil, hsum⟩ := htally.split
    (show _ = pre.map (ChainTrace.outcome own) ++ some o :: post.map (ChainTrace.outcome own) by
      rw [hchains, List.map_append, List.map_cons, ho]) hstate
  rw [List.map_eq_nil_iff] at hnil hsum
  -- the chains before are counted as a whole
  have hbefore : ChainOutcome.syncSum true os = (pre.map fun tr' => bytesOf (tr'.results own)).sum := by
    rw [ChainOutcome.syncSum]
    congr 1
    have hlen : pre.length = os.length := by simpa using congrArg List.length hos
    apply List.ext_getElem
    · rw [List.length_map, List.length_map, hlen]
    intro k hk hk'
    rw [List.length_map] at hk hk'
    rw [List.getElem_map, List.getElem_map]
    have houtcome : pre[k].outcome own = some os[k] := by
      have := congrArg (fun xs => xs[k]?) hos
      simpa [List.getElem?_map, hk, hk'] using this
    have hk₁ : k < envs.length := lt_trans hk' (List.getElem?_eq_some_iff.mp henv).1
    obtain ⟨n', -, ht'⟩ := htaken k pre[k] envs[k]
      (by rw [hchains, List.getElem?_append_left hk']; exact List.getElem?_eq_getElem hk')
      (List.getElem?_eq_getElem hk₁) os[k] houtcome (hgoes os[k] (List.getElem_mem hk)).state
    have hwords : pre[k].results own = os[k].results := by
      rw [ChainTrace.results, houtcome]
      rfl
    rw [ht'.plain, hwords]
    rw [← hwords]
    exact hpre pre[k] (List.getElem_mem hk')
  have hthis := ht.packet hresults hws
  rw [ht.closes_iff] at hnil
  rw [← hnil]
  constructor
  · rintro ⟨rfl, hpost⟩
    refine ⟨hpost, ?_⟩
    obtain ⟨rfl, rfl⟩ := hsum hpost
    rw [ChainOutcome.syncSum_append, ChainOutcome.syncSum_singleton, hbefore, hthis] at hvalue
    split_ifs at hvalue
    · omega
    · omega
  · rintro ⟨hpost, hempty⟩
    refine ⟨?_, hpost⟩
    obtain ⟨rfl, rfl⟩ := hsum hpost
    rw [ChainOutcome.syncSum_append, ChainOutcome.syncSum_singleton, hbefore, hthis, hempty] at hvalue
    split_ifs at hvalue
    · omega
    · omega

end

def packetRead (descIdx : ℕ) (events : List (List EngineStep)) : XferResult :=
  xdmaXferSubmit {} 1 false 0 ⟨[⟨0x1000, 64⟩, ⟨0x2000, 64⟩], 2, 2⟩ true [] false
  (events.map fun sts => { during := sts })
    { eng := { streaming := true, eopFlush := true, descIdx := descIdx } }

def shortPacket : List EngineStep := [.result 0 ⟨1, 4⟩, .service 0 ⟨0, 1, 1⟩]

def twoPackets : List EngineStep := [.result 0 ⟨1, 4⟩, .result 1 ⟨1, 4⟩, .service 0 ⟨0, 2, 1⟩]

def atRingEnd : List EngineStep := [.result 2047 ⟨1, 4⟩, .service 0 ⟨0, 1, 1⟩]

theorem shortPacket_events {x : XdmaTransfer} (hn : x.descNum = 2) (words : ℕ → XdmaResult) :
    ChainEvents x words shortPacket := by
  constructor
  · decide
  · intro wb r hmem
    have hr : wb = 0 ∧ r = ⟨0, 1, 1⟩ := by simpa [shortPacket] using hmem
    rw [hr.1, hr.2, hn]
    decide
  · intro n post hfirst i w hmem
    have hpost : post = [] := by
      simp only [shortPacket, firstReport] at hfirst
      split_ifs at hfirst
      exact (congrArg Prod.snd (Option.some.inj hfirst)).symm
    rw [hpost] at hmem
    cases hmem

theorem packet_boundary_iff_short : ∃ tr : ChainTrace, (packetRead 0 [shortPacket]).chains = [tr] ∧
    (packetRead 0 [shortPacket]).outcome = .returned 4 ∧ tr.results 1 = [⟨1, 4⟩, ⟨0, 0⟩] ∧
    ∃ n, tr.reported 1 { during := shortPacket } = some n ∧ (n < tr.descNum 1 ∨ tr.EndsRequest 1) := by
  obtain ⟨tr, hchains⟩ := List.length_eq_one_iff.mp
    (show (packetRead 0 [shortPacket]).chains.length = 1 by decide)
  have hresults : (packetRead 0 [shortPacket]).chains.map (ChainTrace.results 1) =
    [[⟨1, 4⟩, ⟨0, 0⟩]] := by decide
  have hnum : (packetRead 0 [shortPacket]).chains.map (ChainTrace.descNum 1) = [2] := by decide
  have hdone : ∀ tr ∈ (packetRead 0 [shortPacket]).chains, tr.Completed ⟨1, 0⟩ := by decide
  rw [hchains] at hresults hnum hdone
  have hresults := List.singleton_inj.mp hresults
  have hevents : ∀ (k : ℕ) (tr' : ChainTrace) (env : ChainEnv),
    (packetRead 0 [shortPacket]).chains[k]? = some tr' →
      [({ during := shortPacket } : ChainEnv)][k]? = some env → tr'.Hardware 1 env := by
    intro k tr' env hk henv
    rw [hchains] at hk
    cases k with
    | zero =>
      obtain rfl := Option.some.inj hk
      obtain rfl := Option.some.inj henv
      exact shortPacket_events (List.singleton_inj.mp hnum) _
    | succ k => simp at hk
  obtain ⟨n, hn, hiff⟩ := packet_boundary_iff (p := {})
    (s := { eng := { streaming := true, eopFlush := true, descIdx := 0 } })
      (r := packetRead 0 [shortPacket]) (v := 4)
    (by decide) (by decide) rfl rfl rfl (by decide) hevents
    (show (packetRead 0 [shortPacket]).chains = [] ++ tr :: [] from hchains) rfl (hdone tr List.mem_cons_self)
    (by simp) (show tr.results 1 = [] ++ ⟨1, 4⟩ :: [⟨0, 0⟩] from hresults) (by simp) (by decide)
  exact ⟨tr, hchains, by decide, hresults, n, hn, (hiff.mp (by decide)).1⟩

/-- One call reports both packets of a chain: their bytes are added up. And where the ring
ends behind the packet, its chain is complete, and another one is started. -/
theorem packet_boundary_missed :
    (packetRead 0 [twoPackets]).outcome = .returned 8 ∧
      (packetRead 0 [twoPackets]).chains.map (ChainTrace.results 1) = [[⟨1, 4⟩, ⟨1, 4⟩]] ∧
      (packetRead 2047 [atRingEnd, []]).chains.map (ChainTrace.results 1) = [[⟨1, 4⟩], [⟨0, 0⟩]] ∧
      bytesOf [⟨1, 4⟩] = 4 ∧ XdmaResult.Eop ⟨1, 4⟩ := by
  decide

end XdmaDriver
