import XdmaDriver.Contexts
import XdmaDriver.Lib.Transition

/-!
The completion thread of polled mode, which sleeps while none of its engines has a transfer
queued, and the submissions that queue transfers and wake it.
-/

namespace XdmaDriver

open Transition Drv

/-- Where `xthread_main` is: testing the engines left of `xthread_work_pending`, in
`xthread_reschedule`, before `thp->schedule = 0`, or polling the engines left. -/
inductive ThreadPc
  | check (rest : List ℕ)
  | reschedule
  | clear
  | process (rest : List ℕ)
  deriving DecidableEq

def ThreadPc.next : ThreadPc → Option ℕ
  | .process rest => rest.head?
  | _ => none

/-- `xdma_xfer_submit` and `xdma_xfer_aperture`, `cdev_aio_read` and `cdev_aio_write`, and
`dbuf_submit_slot`. -/
inductive CallKind
  | sync | aio | dbuf
  deriving DecidableEq

/-- A submission in progress. `queued` tells that it has queued a transfer and not woken the
thread since, `woken` that an aio call is past its wakeup. -/
structure SubmitCall where
  kind : CallKind
  engine : ℕ
  queued : Bool := false
  woken : Bool := false
  deriving DecidableEq

/-- A completion thread, the engines on its `work_list`, and the submissions to them. -/
structure PollRun where
  workList : List ℕ
  drv : ℕ → Drv := fun _ => {}
  schedule : Bool := false
  pc : ThreadPc
  calls : ℕ → Option SubmitCall := fun _ => none

inductive PollAct
  | check
  | wake
  | clear
  | poll (wb : U32) (r : ServiceRegs)
  | again
  | start (c : ℕ) (kind : CallKind) (e : ℕ)
  | build (c : ℕ) (req : XdmaRequestCb) (t : XferRef) (needUnmap last : Bool) (cb : Option IoCb)
  | queue (c : ℕ) (t : XferRef) (w : U32)
  | wakeup (c : ℕ)
  | wait (c : ℕ) (t : XferRef) (r : DumpRegs)
  | ret (c : ℕ)

namespace SubmitCall

/-- The calls to `transfer_queue` of the three loops: that of a synchronous submission wakes
the thread after each one, that of an aio call at the end. -/
def MayQueue (call : SubmitCall) : Prop := call.woken = false ∧ (call.kind = .sync → call.queued = false)

def MayWake (call : SubmitCall) : Prop :=
  match call.kind with
  | .sync => call.queued = true
  | .aio => call.woken = false
  | .dbuf => False

/-- Where the call may return: an aio call also when a later segment of its vector is not
aligned or cannot be mapped. -/
def MayReturn (call : SubmitCall) : Prop := call.kind = .sync → call.queued = false

instance (call : SubmitCall) : Decidable call.MayQueue := inferInstanceAs (Decidable (_ ∧ _))

instance (call : SubmitCall) : Decidable call.MayWake :=
  decidable_of_iff ((call.kind = .sync ∧ call.queued = true) ∨ call.kind = .aio ∧ call.woken = false) (by
    unfold MayWake
    cases call.kind <;> simp)

instance (call : SubmitCall) : Decidable call.MayReturn := inferInstanceAs (Decidable (_ → _))

end SubmitCall

namespace PollRun

variable (p : Params)

def setDrv (s : PollRun) (e : ℕ) (d : Drv) : PollRun := { s with drv := Function.update s.drv e d }

def setCall (s : PollRun) (c : ℕ) (call : Option SubmitCall) : PollRun :=
  { s with calls := Function.update s.calls c call }

/-- A step of the thread. `xthread_work_pending` tests one engine after the other, and
`engine_service_poll` returns without a service call when it has seen no writeback. -/
def threadStep (s : PollRun) : PollAct → Option PollRun
  | .check =>
    match s.pc with
    | .check (e :: rest) =>
      some { s with pc := if (s.drv e).eng.transferList ≠ [] then .clear else .check rest }
    | .check [] => some { s with pc := .reschedule }
    | _ => none
  | .wake => if s.pc = .reschedule ∧ s.schedule then some { s with pc := .clear } else none
  | .clear => if s.pc = .clear then some { s with schedule := false, pc := .process s.workList } else none
  | .poll wb r =>
    match s.pc with
    | .process (e :: rest) =>
      let d := if wb = 0 then s.drv e else ((s.drv e).engineService p wb r).1
      some { s.setDrv e d with pc := .process rest }
    | _ => none
  | .again => if s.pc = .process [] then some { s with pc := .check s.workList } else none
  | _ => none

def callStep (s : PollRun) (c : ℕ) (call : SubmitCall) : PollAct → Option PollRun
  | .build _ req t u last cb => some (s.setDrv call.engine ((s.drv call.engine).buildChain req t u last cb).1)
  | .queue _ t w =>
    let (d, rv) := (s.drv call.engine).transferQueue p t w
    if call.MayQueue then
      some ((s.setDrv call.engine d).setCall c (some { call with queued := call.queued || decide (0 ≤ rv) }))
    else none
  | .wakeup _ =>
    if call.MayWake then
      some { s.setCall c (some { call with queued := false, woken := decide (call.kind = .aio) }) with
        schedule := true }
    else none
  | .wait _ t r =>
    if call.kind = .sync ∧ call.queued = false then
      some (s.setDrv call.engine (((s.drv call.engine).waitEnd p t r).1.transferDestroy t))
    else none
  | .ret _ => if call.MayReturn then some (s.setCall c none) else none
  | _ => none

def step (s : PollRun) : PollAct → Option PollRun
  | .start c kind e =>
    if s.calls c = none ∧ e ∈ s.workList then some (s.setCall c (some { kind := kind, engine := e }))
    else none
  | .build c req t u last cb => (s.calls c).bind fun call => s.callStep p c call (.build c req t u last cb)
  | .queue c t w => (s.calls c).bind fun call => s.callStep p c call (.queue c t w)
  | .wakeup c => (s.calls c).bind fun call => s.callStep p c call (.wakeup c)
  | .wait c t r => (s.calls c).bind fun call => s.callStep p c call (.wait c t r)
  | .ret c => (s.calls c).bind fun call => s.callStep p c call (.ret c)
  | a => s.threadStep p a

def Started (s : PollRun) : Prop := s.pc = .check s.workList ∧ ∀ c, s.calls c = none

def YetToCheck (s : PollRun) (e : ℕ) : Prop :=
  match s.pc with
  | .check rest => e ∈ rest
  | .reschedule => False
  | .clear => True
  | .process _ => True

instance (s : PollRun) (e : ℕ) : Decidable (s.YetToCheck e) := by
  unfold YetToCheck
  cases s.pc <;> infer_instance

/-- A submission that has queued a transfer and returns without waking the thread, as
`dbuf_submit_slot` and an aio call with a bad later segment do, finds the thread about to test
the engine anyway, or woken by another one. -/
def Wakes (s : PollRun) : PollAct → Prop
  | .ret c => ∀ call ∈ s.calls c, call.queued = true → s.schedule = true ∨ s.YetToCheck call.engine
  | _ => True

instance (s : PollRun) (a : PollAct) : Decidable (s.Wakes a) := by
  apply @PollAct.casesOn _ a <;> intros <;> (dsimp only [Wakes]; infer_instance)

def ToBeWoken (s : PollRun) (e : ℕ) : Prop :=
  ∃ c call, s.calls c = some call ∧ call.engine = e ∧ call.queued = true

def Covered (s : PollRun) (e : ℕ) : Prop :=
  (s.drv e).eng.transferList = [] ∨ s.schedule = true ∨ s.YetToCheck e ∨ s.ToBeWoken e

variable {p}

theorem Covered.mono {s s' : PollRun} {e : ℕ} (h : s.Covered e)
    (hlist : (s.drv e).eng.transferList = [] → (s'.drv e).eng.transferList = [])
    (hschedule : s.schedule = true → s'.Covered e) (hcheck : s.YetToCheck e → s'.Covered e)
    (hwoken : s.ToBeWoken e → s'.Covered e) : s'.Covered e := by
  rcases h with h | h | h | h
  · exact .inl (hlist h)
  · exact hschedule h
  · exact hcheck h
  · exact hwoken h

theorem setDrv_covered {s : PollRun} {e₀ : ℕ} {d : Drv}
    (hd : (s.drv e₀).eng.transferList = [] → d.eng.transferList = []) {e : ℕ} (h : s.Covered e) :
    (s.setDrv e₀ d).Covered e := by
  refine h.mono ?_ (fun h => .inr (.inl h)) (fun h => .inr (.inr (.inl h))) fun h => .inr (.inr (.inr h))
  intro hl
  change (Function.update s.drv e₀ d e).eng.transferList = []
  by_cases hee : e = e₀
  · subst hee
    rw [Function.update_self]
    exact hd hl
  · rwa [Function.update_of_ne hee]

theorem wait_nil (t : XferRef) (r : DumpRegs) {d : Drv} (h : d.eng.transferList = []) :
    ((d.waitEnd p t r).1.transferDestroy t).eng.transferList = [] := by
  change (d.waitEnd p t r).1.eng.transferList = []
  by_cases hu : d.Unfinished t
  · by_cases hr : r.Ok
    · rw [waitEnd_dumpOk hu hr]
      have habort : ((d.engineStatusRead r.status).transferAbort t).1.eng.transferList = [] := by
        have hread : (d.engineStatusRead r.status).eng.transferList = [] := h
        by_cases hn : ((d.engineStatusRead r.status).tfer t).descNum = 0
        · simp only [transferAbort, hn, ↓reduceIte]
          exact hread
        · rw [(transferAbort_aborted hn).1.list, hread]
          rfl
      split_ifs
      · exact habort
      · exact habort
    · rw [waitEnd_dumpFailed hu hr]
      exact h
  · rw [waitEnd_finished hu]
    exact h

theorem threadStep_covered {s s' : PollRun} {a : PollAct} (hs : ∀ e ∈ s.workList, s.Covered e)
    (h : s.threadStep p a = some s') : s'.workList = s.workList ∧ ∀ e ∈ s.workList, s'.Covered e := by
  cases a with
  | check =>
    simp only [threadStep] at h
    cases hpc : s.pc with
    | check rest =>
      rw [hpc] at h
      cases rest with
      | nil =>
        obtain rfl := Option.some.inj h
        refine ⟨rfl, fun e he => (hs e he).mono id (fun h => .inr (.inl h)) (fun hy => ?_) fun h =>
          .inr (.inr (.inr h))⟩
        rw [YetToCheck, hpc] at hy
        exact absurd hy List.not_mem_nil
      | cons e₀ rest =>
        obtain rfl := Option.some.inj h
        refine ⟨rfl, fun e he => (hs e he).mono id (fun h => .inr (.inl h)) (fun hy => ?_) fun h =>
          .inr (.inr (.inr h))⟩
        rw [YetToCheck, hpc] at hy
        by_cases hl : (s.drv e₀).eng.transferList = []
        · rcases List.mem_cons.mp hy with rfl | hy
          · exact .inl hl
          · refine .inr (.inr (.inl ?_))
            simp only [YetToCheck, hl, ne_eq, not_true_eq_false, ↓reduceIte]
            exact hy
        · refine .inr (.inr (.inl ?_))
          simp only [YetToCheck, hl, ne_eq, not_false_eq_true, ↓reduceIte]
    | reschedule => simp [hpc] at h
    | clear => simp [hpc] at h
    | process rest => simp [hpc] at h
  | wake =>
    obtain ⟨-, h⟩ := Option.ite_none_right_eq_some.mp h
    obtain rfl := Option.some.inj h
    exact ⟨rfl, fun e _ => .inr (.inr (.inl trivial))⟩
  | clear =>
    obtain ⟨-, h⟩ := Option.ite_none_right_eq_some.mp h
    obtain rfl := Option.some.inj h
    exact ⟨rfl, fun e _ => .inr (.inr (.inl trivial))⟩
  | poll wb r =>
    simp only [threadStep] at h
    cases hpc : s.pc with
    | process rest =>
      rw [hpc] at h
      cases rest with
      | nil => simp at h
      | cons e₀ rest =>
        obtain rfl := Option.some.inj h
        exact ⟨rfl, fun e _ => .inr (.inr (.inl trivial))⟩
    | check rest => simp [hpc] at h
    | reschedule => simp [hpc] at h
    | clear => simp [hpc] at h
  | again =>
    obtain ⟨-, h⟩ := Option.ite_none_right_eq_some.mp h
    obtain rfl := Option.some.inj h
    exact ⟨rfl, fun e he => .inr (.inr (.inl he))⟩
  | start c kind e => simp [threadStep] at h
  | build c req t u last cb => simp [threadStep] at h
  | queue c t w => simp [threadStep] at h
  | wakeup c => simp [threadStep] at h
  | wait c t r => simp [threadStep] at h
  | ret c => simp [threadStep] at h

theorem setCall_covered {s : PollRun} {c : ℕ} {call' : Option SubmitCall}
    (hc : ∀ call, s.calls c = some call → call.queued = true →
      ∃ call₁, call' = some call₁ ∧ call₁.engine = call.engine ∧ call₁.queued = true)
    {e : ℕ} (h : s.Covered e) : (s.setCall c call').Covered e := by
  refine h.mono id (fun h => .inr (.inl h)) (fun h => .inr (.inr (.inl h))) ?_
  rintro ⟨c₁, call, hcall, he, hq⟩
  refine .inr (.inr (.inr ?_))
  by_cases hcc : c₁ = c
  · subst hcc
    obtain ⟨call₁, rfl, he₁, hq₁⟩ := hc call hcall hq
    exact ⟨c₁, call₁, Function.update_self .., he₁.trans he, hq₁⟩
  · exact ⟨c₁, call, (Function.update_of_ne hcc ..).trans hcall, he, hq⟩

theorem queue_covered {s : PollRun} {c : ℕ} {call : SubmitCall} (hcall : s.calls c = some call) (t : XferRef)
    (w : U32) {e : ℕ} (h : s.Covered e) :
    ((s.setDrv call.engine ((s.drv call.engine).transferQueue p t w).1).setCall c (some { call with
      queued := call.queued || decide (0 ≤ ((s.drv call.engine).transferQueue p t w).2) })).Covered e := by
  by_cases hacc : (s.drv call.engine).Accepts t
  · have hrv := (transferQueue_accepted (p := p) (w := w) hacc).2
    by_cases hee : e = call.engine
    · subst hee
      refine .inr (.inr (.inr ⟨c, _, Function.update_self .., rfl, ?_⟩))
      simp [hrv]
    · refine h.mono ?_ (fun h => .inr (.inl h)) (fun h => .inr (.inr (.inl h))) ?_
      · intro hl
        change (Function.update s.drv call.engine _ e).eng.transferList = []
        rwa [Function.update_of_ne hee]
      · rintro ⟨c₁, call₁, hcall₁, he, hq⟩
        have hcc : c₁ ≠ c := by
          rintro rfl
          rw [hcall] at hcall₁
          obtain rfl := Option.some.inj hcall₁
          exact hee he.symm
        exact .inr (.inr (.inr ⟨c₁, call₁, (Function.update_of_ne hcc ..).trans hcall₁, he, hq⟩))
  · rw [(transferQueue_refused hacc).1]
    refine setCall_covered ?_ (setDrv_covered id h)
    intro call₁ hcall₁ hq
    obtain rfl := Option.some.inj (hcall.symm.trans hcall₁)
    refine ⟨_, rfl, rfl, ?_⟩
    rw [hq, Bool.true_or]

theorem callStep_covered {s s' : PollRun} {c : ℕ} {call : SubmitCall} {a : PollAct}
    (hcall : s.calls c = some call)
    (hs : ∀ e ∈ s.workList, s.Covered e)
    (ha : a = .ret c → call.queued = true → s.schedule = true ∨ s.YetToCheck call.engine)
    (hret : ∀ c', a = .ret c' → c' = c) (h : s.callStep p c call a = some s') :
    s'.workList = s.workList ∧ ∀ e ∈ s.workList, s'.Covered e := by
  cases a with
  | build c' req t u last cb =>
    obtain rfl := Option.some.inj h
    refine ⟨rfl, fun e he => setDrv_covered (fun hl => ?_) (hs e he)⟩
    rw [buildChain_eng, transferInit_transferList]
    exact hl
  | queue c' t w =>
    obtain ⟨-, h⟩ := Option.ite_none_right_eq_some.mp h
    obtain rfl := Option.some.inj h
    exact ⟨rfl, fun e he => queue_covered hcall t w (hs e he)⟩
  | wakeup c' =>
    obtain ⟨-, h⟩ := Option.ite_none_right_eq_some.mp h
    obtain rfl := Option.some.inj h
    exact ⟨rfl, fun e _ => .inr (.inl rfl)⟩
  | wait c' t r =>
    obtain ⟨-, h⟩ := Option.ite_none_right_eq_some.mp h
    obtain rfl := Option.some.inj h
    exact ⟨rfl, fun e he => setDrv_covered (wait_nil t r) (hs e he)⟩
  | ret c' =>
    obtain ⟨-, h⟩ := Option.ite_none_right_eq_some.mp h
    obtain rfl := Option.some.inj h
    obtain rfl := hret c' rfl
    refine ⟨rfl, fun e he => ?_⟩
    by_cases hq : call.queued = true ∧ call.engine = e
    · obtain ⟨hq, rfl⟩ := hq
      exact .inr ((ha rfl hq).imp id .inl)
    · refine (hs e he).mono id (fun h => .inr (.inl h)) (fun h => .inr (.inr (.inl h))) ?_
      rintro ⟨c₁, call₁, hcall₁, he₁, hq₁⟩
      have hcc : c₁ ≠ c' := by
        rintro rfl
        obtain rfl := Option.some.inj (hcall.symm.trans hcall₁)
        exact hq ⟨hq₁, he₁⟩
      exact .inr (.inr (.inr ⟨c₁, call₁, (Function.update_of_ne hcc ..).trans hcall₁, he₁, hq₁⟩))
  | check => simp [callStep] at h
  | wake => simp [callStep] at h
  | clear => simp [callStep] at h
  | poll wb r => simp [callStep] at h
  | again => simp [callStep] at h
  | start c' kind e => simp [callStep] at h

theorem step_covered {s s' : PollRun} {a : PollAct} (hs : ∀ e ∈ s.workList, s.Covered e) (ha : s.Wakes a)
    (h : s.step p a = some s') : s'.workList = s.workList ∧ ∀ e ∈ s.workList, s'.Covered e := by
  cases a with
  | start c kind e =>
    obtain ⟨⟨hnone, -⟩, h⟩ := Option.ite_none_right_eq_some.mp h
    obtain rfl := Option.some.inj h
    refine ⟨rfl, fun e he => setCall_covered (fun call hcall => ?_) (hs e he)⟩
    rw [hnone] at hcall
    cases hcall
  | build c req t u last cb =>
    obtain ⟨call, hcall, h⟩ := Option.bind_eq_some_iff.mp h
    exact callStep_covered hcall hs (by simp) (by simp) h
  | queue c t w =>
    obtain ⟨call, hcall, h⟩ := Option.bind_eq_some_iff.mp h
    exact callStep_covered hcall hs (by simp) (by simp) h
  | wakeup c =>
    obtain ⟨call, hcall, h⟩ := Option.bind_eq_some_iff.mp h
    exact callStep_covered hcall hs (by simp) (by simp) h
  | wait c t r =>
    obtain ⟨call, hcall, h⟩ := Option.bind_eq_some_iff.mp h
    exact callStep_covered hcall hs (by simp) (by simp) h
  | ret c =>
    obtain ⟨call, hcall, h⟩ := Option.bind_eq_some_iff.mp h
    exact callStep_covered hcall hs (fun _ => ha call hcall) (by simp) h
  | check => exact threadStep_covered (p := p) (a := .check) hs h
  | wake => exact threadStep_covered (p := p) (a := .wake) hs h
  | clear => exact threadStep_covered (p := p) (a := .clear) hs h
  | poll wb r => exact threadStep_covered (p := p) (a := .poll wb r) hs h
  | again => exact threadStep_covered (p := p) (a := .again) hs h

/-- The thread does not sleep over a queued transfer while every submission that returns
without waking it finds it awake for the engine. -/
theorem not_asleep_over_work {s : PollRun} (h : Reachable (step p) Started Wakes s)
    (hcalls : ∀ c, s.calls c = none) {e : ℕ} (he : e ∈ s.workList)
    (hl : (s.drv e).eng.transferList ≠ []) : ¬ (s.pc = .reschedule ∧ s.schedule = false) := by
  have hs : ∀ e ∈ s.workList, s.Covered e := by
    apply h.invariant (I := fun s => ∀ e ∈ s.workList, s.Covered e)
    · rintro s ⟨hpc, -⟩ e he
      refine .inr (.inr (.inl ?_))
      rw [YetToCheck, hpc]
      exact he
    · intro s a s' hs ha hstep
      obtain ⟨hwork, hs'⟩ := step_covered hs ha hstep
      rwa [hwork]
  rintro ⟨hpc, hschedule⟩
  rcases hs e he with h | h | h | ⟨c, call, hcall, -⟩
  · exact hl h
  · exact absurd (hschedule.symm.trans h) Bool.false_ne_true
  · rw [YetToCheck, hpc] at h
    exact h
  · rw [hcalls c] at hcall
    cases hcall

def wokenRun : List PollAct :=
  [.check, .start 0 .sync 0, .build 0 { sdesc := [⟨0, 8⟩], swDescCnt := 1 } ⟨0, 0⟩ true true none, .check,
    .queue 0 ⟨0, 0⟩ 1, .wakeup 0, .wait 0 ⟨1, 0⟩ ⟨0, 0⟩, .ret 0]

def sleepyThread : PollRun := { workList := [0, 1], pc := .check [0, 1] }

theorem sleepyThread_started : sleepyThread.Started := ⟨rfl, fun _ => rfl⟩

theorem calls_of_run {ok : PollRun → PollAct → Prop} [∀ s a, Decidable (ok s a)] {s : PollRun}
    {as : List PollAct}
    (hs : run (step { pollMode := true }) ok sleepyThread as = some s)
    (h : ∀ c, ((run (step { pollMode := true }) ok sleepyThread as).bind fun s => s.calls c) = none) (c : ℕ) :
    s.calls c = none := by
  have hc := h c
  rwa [hs, Option.bind_some] at hc

theorem not_asleep_over_work_woken : ∃ s, Reachable (step { pollMode := true }) Started Wakes s ∧
    (s.drv 0).eng.transferList = [⟨0, 0⟩] ∧ ¬ (s.pc = .reschedule ∧ s.schedule = false) := by
  have hrun : (run (step { pollMode := true }) Wakes sleepyThread wokenRun).map
      (fun s => ((s.drv 0).eng.transferList, s.workList)) = some ([⟨0, 0⟩], [0, 1]) := by decide
  obtain ⟨s, hs, heq⟩ := Option.map_eq_some_iff.mp hrun
  obtain ⟨hl, hwork⟩ := Prod.mk.inj heq
  have hcalls : ∀ c, s.calls c = none := calls_of_run hs fun c => by cases c <;> rfl
  have hreach := Reachable.of_run (.init sleepyThread_started) hs
  exact ⟨s, hreach, hl, not_asleep_over_work (e := 0) hreach hcalls (by rw [hwork]; decide)
    (by rw [hl]; decide)⟩

def dbufRun : List PollAct :=
  [.check, .check, .check, .start 0 .dbuf 0,
    .build 0 { sdesc := [⟨0, 8⟩], swDescCnt := 1 } ⟨0, 0⟩ false true (some (.dbuf 0)),
    .queue 0 ⟨0, 0⟩ 1, .ret 0]

theorem asleep_over_work : ¬ ∀ (p : Params) (s : PollRun), Reachable (step p) Started (fun _ _ => True) s →
    (∀ c, s.calls c = none) → ∀ e ∈ s.workList, (s.drv e).eng.transferList ≠ [] →
      ¬ (s.pc = .reschedule ∧ s.schedule = false) := by
  intro h
  have hrun : (run (step { pollMode := true }) (fun _ _ => True) sleepyThread dbufRun).map
      (fun s => ((s.drv 0).eng.transferList, s.workList, s.pc, s.schedule)) =
        some ([⟨0, 0⟩], [0, 1], .reschedule, false) := by decide
  obtain ⟨s, hs, heq⟩ := Option.map_eq_some_iff.mp hrun
  simp only [Prod.mk.injEq] at heq
  obtain ⟨hl, hwork, hpc, hschedule⟩ := heq
  have hcalls : ∀ c, s.calls c = none := calls_of_run hs fun c => by cases c <;> rfl
  exact h _ s (.of_run (.init sleepyThread_started) hs) hcalls 0 (by rw [hwork]; decide) (by rw [hl]; decide)
    ⟨hpc, hschedule⟩

end PollRun

end XdmaDriver
