import XdmaDriver.AioAccounting
import XdmaDriver.ChainOutcomes

/-!
The result of a request from the outcomes of its chains: what `xdma_xfer_submit` returns,
against what `xdma_xfer_completion` and `async_io_handler` pass to `ki_complete`.
-/

namespace XdmaDriver

open Drv

namespace ChainOutcome

def asyncBytes (streamingC2h : Bool) (o : ChainOutcome) : ℕ :=
  if streamingC2h then bytesOf o.results else o.len

/-- The sum of `xdma_xfer_completion`, which ends at the first failed chain. -/
def asyncSum (st : Bool) : List ChainOutcome → ℕ
  | [] => 0
  | o :: os => if o.state = .completed then o.asyncBytes st + asyncSum st os else 0

def syncDone (st flush : Bool) : List ChainOutcome → ℕ
  | [] => 0
  | o :: os =>
    if o.state = .completed then o.syncBytes st + if o.Closes flush then 0 else syncDone st flush os else 0

def Fails (flush : Bool) : List ChainOutcome → Prop
  | [] => False
  | o :: os => o.state ≠ .completed ∨ ¬ o.Closes flush ∧ Fails flush os

def FailsEmpty (st flush : Bool) : List ChainOutcome → Prop
  | [] => False
  | o :: os => o.state ≠ .completed ∨ ¬ o.Closes flush ∧ o.syncBytes st = 0 ∧ FailsEmpty st flush os

def uncounted (st flush : Bool) : List ChainOutcome → ℕ
  | [] => 0
  | o :: os =>
    if o.state = .completed then (if st then bytesOf (o.results.drop o.descCmpl) else 0) +
      if o.Closes flush then asyncSum st os else uncounted st flush os
    else 0

def EndsWithin (left : ℕ) (os : List ChainOutcome) : Prop :=
  os.length ≤ left ∨ ∃ o ∈ os.take left, o.state = .failed

instance (left : ℕ) (os : List ChainOutcome) : Decidable (EndsWithin left os) :=
    inferInstanceAs (Decidable (_ ∨ _))

theorem failsEmpty_iff (st flush : Bool) (os : List ChainOutcome) :
    FailsEmpty st flush os ↔ Fails flush os ∧ syncDone st flush os = 0 := by
  induction os with
  | nil => simp [FailsEmpty, Fails]
  | cons o os ih =>
    unfold FailsEmpty Fails syncDone
    by_cases hst : o.state = .completed
    · by_cases hcl : o.Closes flush
      · simp [hst, hcl]
      · simp only [hst, hcl, ih, ne_eq, not_true_eq_false, not_false_eq_true, true_and, false_or, ↓reduceIte,
          Nat.add_eq_zero_iff]
        tauto
    · simp [hst]

theorem asyncBytes_eq (st : Bool) (o : ChainOutcome) :
    o.asyncBytes st = o.syncBytes st + if st then bytesOf (o.results.drop o.descCmpl) else 0 := by
  cases st with
  | false => rfl
  | true =>
    have h := bytesOf_append (o.results.take o.descCmpl) (o.results.drop o.descCmpl)
    rw [List.take_append_drop] at h
    exact h

theorem asyncSum_eq (st flush : Bool) (os : List ChainOutcome) :
    asyncSum st os = syncDone st flush os + uncounted st flush os := by
  induction os with
  | nil => rfl
  | cons o os ih =>
    unfold asyncSum syncDone uncounted
    by_cases hst : o.state = .completed
    · simp only [hst, ↓reduceIte, asyncBytes_eq]
      by_cases hcl : o.Closes flush
      · simp only [hcl, ↓reduceIte]
        omega
      · simp only [hcl, ↓reduceIte, ih]
        omega
    · simp [hst]

end ChainOutcome

open ChainOutcome

theorem CallTally.value {st flush : Bool} {xs : List (Option ChainOutcome)} {done rv : ℤ}
    (h : CallTally st flush xs done rv) (hne : xs ≠ []) {os : List ChainOutcome} (hxs : xs <+: os.map some)
    (hos : ∀ o ∈ os, o.state = .completed ∨ o.state = .failed) :
    done = syncDone st flush os ∧ (Fails flush os → rv = err .io) ∧ (¬ Fails flush os → rv = 0) := by
  have hgoes : ∀ (pre rest : List ChainOutcome), (∀ o ∈ pre, o.GoesOn flush) →
      syncDone st flush (pre ++ rest) = syncSum st pre + syncDone st flush rest ∧
        (Fails flush (pre ++ rest) ↔ Fails flush rest) := by
    intro pre
    induction pre with
    | nil => exact fun rest _ => ⟨by simp [syncSum], Iff.rfl⟩
    | cons o pre ih =>
      intro rest hpre
      obtain ⟨hsum, hf⟩ := ih rest fun o' ho' => hpre o' (List.mem_cons_of_mem _ ho')
      have ho := hpre o List.mem_cons_self
      simp only [List.cons_append, syncDone, Fails, ho.state, ho.more, hsum, hf, ↓reduceIte, ne_eq,
        not_true_eq_false, not_false_eq_true, true_and, false_or, and_true]
      simp [syncSum, Nat.add_assoc]
  have hsplit : ∀ (pre : List ChainOutcome) (x : Option ChainOutcome), pre.map some ++ [x] <+: os.map some →
      ∃ o rest, x = some o ∧ os = pre ++ o :: rest := by
    rintro pre x ⟨rest, hrest⟩
    obtain ⟨pre', os', rfl, hpre, hos'⟩ := List.map_eq_append_iff.mp hrest.symm
    obtain ⟨front, last, rfl, hfront, hlast⟩ := List.map_eq_append_iff.mp hpre
    obtain ⟨o, rfl, ho⟩ := List.map_eq_singleton_iff.mp hlast
    obtain rfl := List.map_injective_iff.mpr (Option.some_injective _) hfront
    exact ⟨o, os', ho.symm, by simp⟩
  cases h with
  | nothing => exact absurd rfl hne
  | @closed pre o hpre ho hlast =>
    obtain ⟨o', rest, heq, rfl⟩ := hsplit _ _ hxs
    obtain rfl := Option.some.inj heq
    obtain ⟨hsum, hf⟩ := hgoes pre (o :: rest) hpre
    rw [hsum, hf]
    simp [syncDone, Fails, ho.state, hlast, syncSum_append]
  | @stopped pre x _ hpre hx hneg hfailed =>
    obtain ⟨o, rest, rfl, rfl⟩ := hsplit _ _ hxs
    have hst : o.state = .failed := (hos o (by simp)).resolve_left (hx o rfl)
    obtain ⟨hsum, hf⟩ := hgoes pre (o :: rest) hpre
    rw [hsum, hf]
    simp [syncDone, Fails, hst, hfailed o rfl hst]

namespace Completion

variable {p : Params}

theorem chain_completed {t : XferRef} {r : DumpRegs} {c : Completion}
    (h : (chainOutcome c.drv.eng (c.drv.tfer t)).state = .completed) :
    c.chain p t r = ({
      drv := c.drv.transferDestroy t
      nents := c.nents - (c.drv.tfer t).descNum
      done := c.done + (chainOutcome c.drv.eng (c.drv.tfer t)).asyncBytes c.drv.eng.streamingC2h }, 0) := by
  have h : (c.drv.tfer t).state = .completed := h
  unfold chain asyncBytes
  simp only [h]
  rw [resultBytes_eq (le_refl _), List.take_of_length_le (by simp [chainOutcome])]
  rfl

theorem chain_failed {t : XferRef} {r : DumpRegs} {c : Completion}
    (h : (chainOutcome c.drv.eng (c.drv.tfer t)).state = .failed) :
    (c.chain p t r).1.done = c.done ∧ (c.chain p t r).2 = err .io := by
  have h : (c.drv.tfer t).state = .failed := h
  unfold chain
  simp only [h, and_self]

theorem loop_returns (p : Params) (own : ℕ) (dump : ℕ → DumpRegs) (st : Bool) (left : ℕ) :
    ∀ {i : ℕ} {c : Completion} {os : List ChainOutcome},
    c.drv.eng.streamingC2h = st →
    (∀ k < left, ∀ o ∈ os[k]?, chainOutcome c.drv.eng (c.drv.tfer ⟨own, i + k⟩) = o) →
    (∀ o ∈ os, o.state = .completed ∨ o.state = .failed) → (∀ o ∈ os, o.results ≠ []) →
    c.nents = ((os.map fun o => o.results.length).sum : ℕ) → ∀ n : ℤ,
      (loop p own dump left i c).2 = .returned n ↔ EndsWithin left os ∧ n = c.done + asyncSum st os := by
  have hzero : ∀ {c : Completion} {os : List ChainOutcome}, (∀ o ∈ os, o.results ≠ []) →
      c.nents = ((os.map fun o => o.results.length).sum : ℕ) → (c.nents = 0 ↔ os = []) := by
    intro c os hpos hsum
    rw [hsum, Nat.cast_eq_zero]
    cases os with
    | nil => simp
    | cons o os => simp [hpos o]
  have hnone : ∀ {c : Completion} {os : List ChainOutcome} (left : ℕ) (n : ℤ), os = [] →
      (CallEnd.returned c.done = .returned n ↔ EndsWithin left os ∧ n = c.done + asyncSum st os) := by
    rintro c os left n rfl
    simp [EndsWithin, asyncSum, eq_comm]
  induction left with
  | zero =>
    intro i c os _ _ _ hpos hsum n
    have hz := hzero hpos hsum
    unfold loop
    dsimp only
    by_cases hnil : os = []
    · rw [if_pos (hz.mpr hnil)]
      exact hnone 0 n hnil
    · rw [if_neg (mt hz.mp hnil)]
      simp [EndsWithin, hnil]
  | succ left ih =>
    intro i c os hst hshow hos hpos hsum n
    have hz := hzero hpos hsum
    unfold loop
    by_cases hnil : os = []
    · rw [if_pos (hz.mpr hnil)]
      exact hnone (left + 1) n hnil
    rw [if_neg (mt hz.mp hnil)]
    cases os with
    | nil => exact absurd rfl hnil
    | cons o os =>
      have ho := hshow 0 (Nat.succ_pos left) o rfl
      rw [Nat.add_zero] at ho
      rcases hos o List.mem_cons_self with hc | hf
      · have hlen : o.results.length = (c.drv.tfer ⟨own, i⟩).descNum := by
          rw [← ho]
          simp [chainOutcome]
        rw [chain_completed (by rw [ho]; exact hc), ho, hst]
        dsimp only
        rw [if_neg (lt_irrefl 0)]
        refine (@ih (i + 1) ⟨c.drv.transferDestroy ⟨own, i⟩, _, _⟩ os hst ?_
          (fun o' ho' => hos o' (List.mem_cons_of_mem _ ho'))
          (fun o' ho' => hpos o' (List.mem_cons_of_mem _ ho')) ?_ n).trans ?_
        rotate_left 2
        · have hends : EndsWithin (left + 1) (o :: os) ↔ EndsWithin left os := by
            simp [EndsWithin, hc]
          rw [hends, asyncSum, if_pos hc, Nat.cast_add, ← add_assoc]
        · intro k hk o' ho'
          have hnext := hshow (k + 1) (by omega) o' ho'
          rwa [← Nat.add_assoc, Nat.add_right_comm] at hnext
        · rw [hsum, List.map_cons, List.sum_cons, hlen, Nat.cast_add]
          dsimp only
          omega
      · obtain ⟨hdone, hrv⟩ := chain_failed (p := p) (r := dump i) (by rw [ho]; exact hf)
        dsimp only
        rw [hrv, hdone, if_pos (err_neg .io)]
        simp [EndsWithin, asyncSum, hf, eq_comm]

end Completion

namespace AioRun

variable {c : AioCall} {s : AioRun}

theorem step_counters {s' : AioRun} {a : AioStep} (hs : s.step c a = some s') :
    (∃ i n, a = .complete i n ∧ s'.completed = s.completed ++ [i]) ∨
      s'.aio.caio = s.aio.caio ∧ s'.completed = s.completed := by
  cases a with
  | segment env rv =>
    simp only [AioRun.step] at hs
    by_cases hret : s.outcome.isSome = true
    · simp [hret] at hs
    simp only [hret, Bool.false_eq_true, ↓reduceIte] at hs
    cases hio : c.io[s.i]? with
    | none => simp [hio] at hs
    | some io =>
      simp only [hio] at hs
      generalize c.segment io env = r at hs
      obtain ⟨cb, check⟩ := r
      cases check with
      | misaligned rv' =>
        obtain rfl := Option.some.inj hs
        exact .inr ⟨rfl, rfl⟩
      | unmapped rv' =>
        obtain rfl := Option.some.inj hs
        exact .inr ⟨rfl, rfl⟩
      | ready =>
        obtain rfl := Option.some.inj hs
        exact .inr ⟨rfl, rfl⟩
  | leave =>
    simp only [AioRun.step] at hs
    split_ifs at hs
    obtain rfl := Option.some.inj hs
    exact .inr ⟨rfl, rfl⟩
  | complete i n =>
    simp only [AioRun.step] at hs
    split_ifs at hs
    obtain rfl := Option.some.inj hs
    exact .inl ⟨i, n, rfl, rfl⟩

theorem Reachable.res (h : Reachable c s) : s.completed = [] → s.aio.caio.res = 0 := by
  refine Transition.Reachable.invariant (I := fun s : AioRun => s.completed = [] → s.aio.caio.res = 0) ?_ ?_ h
  · rintro s rfl -
    rfl
  · intro s a s' hs _ hstep hnone
    rcases step_counters hstep with ⟨i, n, -, hdone⟩ | ⟨hcaio, hdone⟩
    · simp [hdone] at hnone
    · rw [hcaio]
      exact hs (hdone ▸ hnone)

theorem Reachable.one_segment (h : Reachable c s) (hone : c.io.length = 1) (hq : 0 ∈ s.queued)
    (hnew : 0 ∉ s.completed)
    (n : ℤ) : ∃ s', s.step c (.complete 0 n) = some s' ∧ s'.aio.kiComplete = [n] := by
  have hc := h.counted
  have hnone : s.completed = [] := by
    rw [List.eq_nil_iff_forall_not_mem]
    intro j hj
    have hlt := List.mem_range.mp (hc.queued.subset (hc.completed.2 hj))
    have hin := hc.inside
    obtain rfl : j = 0 := by omega
    exact hnew hj
  refine ⟨_, if_pos ⟨hq, hnew⟩, ?_⟩
  have hh := Aio.asyncIoHandler_handled hc.free.1 hc.free.2 hc.noError.1 hc.noError.2 0 n
  have hlast := (hh.last (by rw [hc.cmplCnt, hc.reqCnt, hnone, hone]; rfl)).1
  have hempty := (hc.counting (by rw [hnone, hone]; exact Nat.zero_lt_one)).1
  dsimp only
  rw [hlast, hempty, h.res hnone, zero_add, List.nil_append]

end AioRun

structure Shows (own : ℕ) (req : XdmaRequestCb) (s : Drv) (os : List ChainOutcome) : Prop where
  outcome : ∀ k < tferMax, ∀ o ∈ os[k]?, chainOutcome s.eng (s.tfer ⟨own, k⟩) = o
  nonempty : ∀ o ∈ os, o.results ≠ []
  total : req.swDescCnt = (os.map fun o => o.results.length).sum

def AioPasses (p : Params) (own : ℕ) (req : XdmaRequestCb) (dump : ℕ → DumpRegs) (s : Drv)
    (c : AioCall) (run : AioRun)
    (v : ℤ) : Prop :=
  ∃ n run', (xdmaXferCompletion p own req dump s).2 = .returned n ∧ run.step c (.complete 0 n) = some run' ∧
    run'.aio.kiComplete = [v]

structure SameResult (st flush : Bool) (os : List ChainOutcome) : Prop where
  inArray : EndsWithin tferMax os
  failure : ¬ FailsEmpty st flush os
  counted : uncounted st flush os = 0

section

variable {p : Params} {own own' : ℕ} {s s' : Drv}

theorem aio_passes_iff {c : AioCall} {run : AioRun} (hrun : AioRun.Reachable c run) (hone : c.io.length = 1)
    (hq : 0 ∈ run.queued) (hnew : 0 ∉ run.completed) {req : XdmaRequestCb} (dump : ℕ → DumpRegs)
    {os : List ChainOutcome} (hshow : Shows own' req s' os) (hos : ∀ o ∈ os, o.state = .completed ∨
      o.state = .failed)
    (v : ℤ) : AioPasses p own' req dump s' c run v ↔ EndsWithin tferMax os ∧
      v = asyncSum s'.eng.streamingC2h os := by
  have hloop := Completion.loop_returns p own' dump s'.eng.streamingC2h tferMax (i := 0)
    (c := { drv := s', nents := req.swDescCnt }) rfl
    (fun k hk o ho => by rw [Nat.zero_add]; exact hshow.outcome k hk o ho) hos hshow.nonempty
    (by rw [hshow.total])
  constructor
  · rintro ⟨n, run', hret, hstep, hki⟩
    obtain ⟨run'', hstep', hki'⟩ := hrun.one_segment hone hq hnew n
    obtain rfl := Option.some.inj (hstep.symm.trans hstep')
    obtain rfl := List.singleton_inj.mp (hki'.symm.trans hki)
    have hends := (hloop n).mp hret
    rwa [zero_add] at hends
  · rintro ⟨hends, rfl⟩
    obtain ⟨run', hstep, hki⟩ := hrun.one_segment hone hq hnew (asyncSum s'.eng.streamingC2h os)
    exact ⟨_, run', (hloop _).mpr ⟨hends, by rw [zero_add]⟩, hstep, hki⟩

/-- A request whose chains have the outcomes `os`: the value that a call of one segment
passes to `ki_complete` is the one that `xdma_xfer_submit` returns, exactly when both take
the same bytes and no failure comes before the first of them. -/
theorem aio_result_iff (hnd : s.eng.transferList.Nodup) (hfree : Unlinked own s)
    (hidx : s.eng.descIdx < s.eng.descMax) {write : Bool} {epAddr : U64} {sgt : SgTable} {dmaMapped : Bool}
    {mapped : List SgEntry} {oom : Bool} {envs : List ChainEnv} {r : XferResult} {v : ℤ}
    (hr : xdmaXferSubmit p own write epAddr sgt dmaMapped mapped oom envs s = r)
      (hv : r.outcome = .returned v)
    (hchains : r.chains ≠ []) {os : List ChainOutcome} (hos : ∀ o ∈ os, o.state = .completed ∨
      o.state = .failed)
    (hsync : r.chains.map (ChainTrace.outcome own) <+: os.map some)
    {c : AioCall} {run : AioRun} (hrun : AioRun.Reachable c run) (hone : c.io.length = 1)
      (hq : 0 ∈ run.queued)
    (hnew : 0 ∉ run.completed) {req : XdmaRequestCb} (dump : ℕ → DumpRegs) (hshow : Shows own' req s' os)
    (hst : s'.eng.streamingC2h = s.eng.streamingC2h) :
    AioPasses p own' req dump s' c run v ↔ SameResult s.eng.streamingC2h s.eng.stopsAtEop os := by
  obtain ⟨done, rv, htally, hvalue⟩ := xdmaXferSubmit_tally hnd hfree hidx hr hv hchains
  obtain ⟨rfl, hfail, hok⟩ := htally.value (by simpa using hchains) hsync hos
  have hsum := asyncSum_eq s.eng.streamingC2h s.eng.stopsAtEop os
  have hempty := failsEmpty_iff s.eng.streamingC2h s.eng.stopsAtEop os
  have hneg := err_neg .io
  rw [aio_passes_iff hrun hone hq hnew dump hshow hos v, hst, hvalue]
  constructor
  · rintro ⟨hends, heq⟩
    by_cases hz : syncDone s.eng.streamingC2h s.eng.stopsAtEop os = 0
    · rw [if_neg (by simpa using hz)] at heq
      have hnf : ¬ Fails s.eng.stopsAtEop os := fun hf => by
        have := hfail hf
        omega
      have := hok hnf
      exact ⟨hends, fun he => hnf (hempty.mp he).1, by omega⟩
    · rw [if_pos (by simpa using hz)] at heq
      exact ⟨hends, fun he => hz (hempty.mp he).2, by omega⟩
  · rintro ⟨hends, hne, hcounted⟩
    refine ⟨hends, ?_⟩
    rw [hsum, hcounted, Nat.add_zero]
    by_cases hz : syncDone s.eng.streamingC2h s.eng.stopsAtEop os = 0
    · rw [if_neg (by simpa using hz), hz, hok fun hf => hne (hempty.mpr ⟨hf, hz⟩)]
      rfl
    · rw [if_pos (by simpa using hz)]

end

def oneRead : AioCall := { write := false, io := [⟨0x1000, 64⟩] }

def queuedRead : NowaitResult := xdmaXferSubmitNowait {} 2 (.aio 0 0) false 0 smallSgt true [] false [{}] {}

def servicedRead (r : ServiceRegs) : Drv := (queuedRead.drv.engineService {} 0 r).1

def waitedRead (r : ServiceRegs) : XferResult :=
  xdmaXferSubmit {} 1 false 0 smallSgt true [] false [{ during := [.service 0 r] }] {}

def readOutcome (state : TransferState) (descCmpl : ℕ) :
    ChainOutcome := ⟨state, true, descCmpl, false, 64, [⟨0, 0⟩]⟩

theorem oneRead_run : ∃ run, AioRun.Reachable oneRead run ∧ 0 ∈ run.queued ∧ 0 ∉ run.completed := by
  obtain ⟨run, hrun⟩ : ∃ run, Transition.run (AioRun.step oneRead) (fun _ _ => True) (AioRun.start oneRead)
      [.segment AioRun.pageEnv (err .iocbQueued), .leave] = some run := ⟨_, rfl⟩
  refine ⟨run, AioRun.reachable_of_run hrun, ?_⟩
  obtain rfl := Option.some.inj hrun
  decide

theorem queuedRead_shows {req : XdmaRequestCb} (hreq : queuedRead.req = some req) {r : ServiceRegs}
    {o : ChainOutcome}
    (ho : chainOutcome (servicedRead r).eng ((servicedRead r).tfer ⟨2, 0⟩) = o)
      (hlen : o.results.length = 1) :
    Shows 2 req (servicedRead r) [o] := by
  have hcnt : queuedRead.req.map XdmaRequestCb.swDescCnt = some 1 := by decide
  rw [hreq] at hcnt
  constructor
  · intro k _ o' ho'
    cases k with
    | zero =>
      obtain rfl := Option.some.inj ho'
      exact ho
    | succ k => simp at ho'
  · intro o' ho'
    obtain rfl := List.mem_singleton.mp ho'
    exact List.ne_nil_of_length_pos (by omega)
  · simpa [hlen] using hcnt

theorem aio_result_iff_read : ∃ run req, AioRun.Reachable oneRead run ∧
    (waitedRead ⟨4, 1, 1⟩).outcome = .returned 64 ∧
    AioPasses {} 2 req (fun _ => ⟨0, 0⟩) (servicedRead ⟨4, 1, 1⟩) oneRead run 64 := by
  obtain ⟨run, hrun, hq, hnew⟩ := oneRead_run
  obtain ⟨req, hreq⟩ : ∃ req, queuedRead.req = some req := Option.isSome_iff_exists.mp (by decide)
  have hshow := queuedRead_shows hreq (r := ⟨4, 1, 1⟩) (o := readOutcome .completed 1) (by decide) (by decide)
  refine ⟨run, req, hrun, by decide, ?_⟩
  apply (aio_result_iff (s := {}) (r := waitedRead ⟨4, 1, 1⟩) List.nodup_nil
    (show Unlinked 1 {} by simp [Unlinked])
    (by decide) rfl (by decide) (by decide) (by decide)
      (by decide) hrun (by decide) hq hnew _ hshow (by decide)).mpr
  exact ⟨by decide, by simp [FailsEmpty, readOutcome], by decide⟩

/-- The only chain fails: the call that waits returns an error, and the other one reports
a success of no bytes. -/
theorem aio_failure_passes_zero : (waitedRead ⟨0x200, 1, 0⟩).outcome = .returned (err .io) ∧
    ∃ run req, AioRun.Reachable oneRead run ∧ 0 ∈ run.queued ∧ 0 ∉ run.completed ∧
      Shows 2 req (servicedRead ⟨0x200, 1, 0⟩) [readOutcome .failed 0] ∧
      (waitedRead ⟨0x200, 1, 0⟩).chains.map (ChainTrace.outcome 1) = [some (readOutcome .failed 0)] ∧
      AioPasses {} 2 req (fun _ => ⟨0, 0⟩) (servicedRead ⟨0x200, 1, 0⟩) oneRead run 0 ∧
      ¬ AioPasses {} 2 req (fun _ => ⟨0, 0⟩) (servicedRead ⟨0x200, 1, 0⟩) oneRead run (err .io) := by
  obtain ⟨run, hrun, hq, hnew⟩ := oneRead_run
  obtain ⟨req, hreq⟩ : ∃ req, queuedRead.req = some req := Option.isSome_iff_exists.mp (by decide)
  have hshow := queuedRead_shows hreq (r := ⟨0x200, 1, 0⟩) (o := readOutcome .failed 0)
    (by decide) (by decide)
  have hpass := aio_passes_iff (p := {}) hrun (by decide) hq hnew (fun _ => ⟨0, 0⟩) hshow (by decide)
  refine ⟨by decide, run, req, hrun, hq, hnew, hshow, by decide, (hpass 0).mpr (by decide), fun h => ?_⟩
  exact absurd ((hpass (err .io)).mp h).2 (by decide)

end XdmaDriver
