import XdmaDriver.PolledWakeup
import XdmaDriver.WritebackMonitor

/-!
The calls of `engine_service_poll` that a completion thread makes. It drops its lock at each visit, so
that submissions queue transfers, and waits that time out take them off, from one visit to the next.
-/

namespace XdmaDriver

open Transition Drv

/-- What `list_entry(engine->transfer_list.next, ..)` points to. In an empty list `next` is the
list head, which lies in the engine and in no transfer. -/
inductive NextTransfer
  | transfer (t : XferRef)
  | listHead
  deriving DecidableEq, Repr

def nextTransfer (d : Drv) : NextTransfer :=
  match d.eng.transferList with
  | [] => .listHead
  | t :: _ => .transfer t

/-- A call of `engine_service_poll`, with the engine as it finds it. -/
structure PollCall where
  engine : ℕ
  drv : Drv
  next : NextTransfer
  expected : U32

def PollCall.Real (call : PollCall) : Prop :=
  ∃ t, call.drv.eng.transferList.head? = some t ∧ call.next = .transfer t ∧
    call.expected = BitVec.ofNat 32 (call.drv.tfer t).descCmplTh

/-- `listHead` is the memory where the list head would have the field `desc_cmpl_th` if it were one of
a transfer. -/
def xdmaThreadCmplStatusProc (listHead : U32) (engine : ℕ) (d : Drv) : PollCall :=
  let next := nextTransfer d
  let expected : U32 :=
    match next with
    | .transfer t => BitVec.ofNat 32 (d.tfer t).descCmplTh
    | .listHead => listHead
  ⟨engine, d, next, expected⟩

/-- The thread among the submissions, with the call of `engine_service_poll` it is in, and all its calls so
far. -/
structure VisitRun where
  run : PollRun
  visit : Option PollCall := none
  polls : List PollCall := []

inductive VisitAct
  | visit (listHead : U32)
  | poll (words : List U32) (r : ServiceRegs)
  | other (a : PollAct)

namespace VisitRun

/-- A visit makes the call, which then reads `words` from the writeback location. -/
def step (p : Params) (s : VisitRun) : VisitAct → Option VisitRun
  | .visit listHead =>
    match s.run.pc, s.visit with
    | .process (e :: _), none =>
      let call := xdmaThreadCmplStatusProc listHead e (s.run.drv e)
      some { s with visit := some call, polls := s.polls ++ [call] }
    | _, _ => none
  | .poll words r =>
    s.visit.bind fun call =>
      (s.run.step p (.poll (engineServiceWbMonitor call.expected words) r)).map fun run =>
        { s with run := run, visit := none }
  | .other (.poll _ _) => none
  | .other a => (s.run.step p a).map fun run => { s with run := run }

structure Begins (s : VisitRun) : Prop where
  run : s.run.Started
  visit : s.visit = none
  polls : s.polls = []

/-- The thread comes to an engine only while a transfer is queued to it. -/
def VisitsBusy (s : VisitRun) : VisitAct → Prop
  | .visit _ => ∀ e ∈ s.run.pc.next, (s.run.drv e).eng.transferList ≠ []
  | _ => True

instance (s : VisitRun) (a : VisitAct) : Decidable (s.VisitsBusy a) := by
  unfold VisitsBusy
  split <;> infer_instance

variable {p : Params} {s s' : VisitRun}

theorem proc_real_iff (listHead : U32) (e : ℕ) (d : Drv) :
    (xdmaThreadCmplStatusProc listHead e d).Real ↔ d.eng.transferList ≠ [] := by
  unfold xdmaThreadCmplStatusProc PollCall.Real nextTransfer
  cases d.eng.transferList with
  | nil => simp
  | cons t rest => simp

theorem step_polls {a : VisitAct} (h : s.step p a = some s') :
    s'.polls = s.polls ∧ (∀ listHead, a ≠ .visit listHead) ∨
      ∃ listHead e, a = .visit listHead ∧ s.run.pc.next = some e ∧
        s'.polls = s.polls ++ [xdmaThreadCmplStatusProc listHead e (s.run.drv e)] := by
  cases a with
  | visit listHead =>
    simp only [step] at h
    split at h
    · rename_i e rest hpc _
      obtain rfl := Option.some.inj h
      exact .inr ⟨listHead, e, rfl, by rw [hpc]; rfl, rfl⟩
    · cases h
  | poll words r =>
    obtain ⟨call, -, h⟩ := Option.bind_eq_some_iff.mp h
    obtain ⟨run, -, rfl⟩ := Option.map_eq_some_iff.mp h
    exact .inl ⟨rfl, by simp⟩
  | other a =>
    refine .inl ⟨?_, by simp⟩
    cases a with
    | poll wb r => cases h
    | _ =>
      obtain ⟨run, -, rfl⟩ := Option.map_eq_some_iff.mp h
      rfl

theorem step_real_iff {a : VisitAct} (hs : ∀ call ∈ s.polls, call.Real) (h : s.step p a = some s') :
    (∀ call ∈ s'.polls, call.Real) ↔ s.VisitsBusy a := by
  rcases step_polls h with ⟨hpolls, hne⟩ | ⟨listHead, e, rfl, hnext, hpolls⟩
  · rw [hpolls]
    refine iff_of_true hs ?_
    cases a with
    | visit listHead => exact absurd rfl (hne listHead)
    | poll words r => exact trivial
    | other a => exact trivial
  · rw [hpolls, List.forall_mem_append, List.forall_mem_singleton, proc_real_iff, and_iff_right hs]
    simp [VisitsBusy, hnext]

/-- While the thread comes to busy engines only, every call is for a transfer at the head of its list;
and a step keeps this exactly if it is no visit of an idle engine. -/
theorem polls_real (h : Reachable (step p) Begins VisitsBusy s) : (∀ call ∈ s.polls, call.Real) ∧
    ∀ a s', s.step p a = some s' → ((∀ call ∈ s'.polls, call.Real) ↔ s.VisitsBusy a) := by
  have hs : ∀ call ∈ s.polls, call.Real := by
    refine h.invariant (I := fun s => ∀ call ∈ s.polls, call.Real) ?_ ?_
    · intro s hs call hcall
      rw [hs.polls] at hcall
      cases hcall
    · exact fun s a s' hs ha hstep => (step_real_iff hs hstep).mpr ha
  exact ⟨hs, fun a s' hstep => step_real_iff hs hstep⟩

def twoEngines : VisitRun := { run := { workList := [0, 1], pc := .check [0, 1] } }

theorem twoEngines_begins : twoEngines.Begins := ⟨⟨rfl, fun _ => rfl⟩, rfl, rfl⟩

def queueRun (c : ℕ) : List VisitAct :=
  [.start c .sync c, .build c { sdesc := [⟨0, 8⟩], swDescCnt := 1 } ⟨c, 0⟩ true true none, .queue c ⟨c, 0⟩ 1,
    .wakeup c].map .other

theorem polls_real_late : ∃ s : VisitRun, Reachable (step { pollMode := true }) Begins VisitsBusy s ∧
    s.polls.map PollCall.next = [.transfer ⟨0, 0⟩, .transfer ⟨1, 0⟩] ∧ ∀ call ∈ s.polls, call.Real := by
  have hrun : (Transition.run (step { pollMode := true }) VisitsBusy twoEngines (queueRun 0 ++
      [.other .check, .other .clear, .visit 0] ++ queueRun 1 ++ [.poll [1] ⟨0, 1, 0⟩, .visit 0])).map
        (fun s => s.polls.map PollCall.next) = some [.transfer ⟨0, 0⟩, .transfer ⟨1, 0⟩] := by decide
  obtain ⟨s, hs, hpolls⟩ := exists_reachable twoEngines_begins hrun
  exact ⟨s, hs, hpolls, (polls_real hs).1⟩

/-- The thread goes on for its first engine and visits the second, which is idle. -/
theorem poll_not_real : ¬ ∀ (p : Params) (s : VisitRun), Reachable (step p) Begins (fun _ _ => True) s →
    ∀ call ∈ s.polls, call.Real := by
  intro h
  have hrun : (Transition.run (step { pollMode := true }) (fun _ _ => True) twoEngines (queueRun 0 ++
      [.other .check, .other .clear, .visit 0, .poll [] ⟨0, 0, 0⟩, .visit 7])).map
        (fun s => s.polls.map fun call => (call.next, call.expected)) =
          some [(.transfer ⟨0, 0⟩, 1), (.listHead, 7)] := by decide
  obtain ⟨s, hs, hpolls⟩ := exists_reachable twoEngines_begins hrun
  obtain ⟨call, hcall, hnext⟩ : ∃ call ∈ s.polls, (call.next, call.expected) =
    (NextTransfer.listHead, (7 : U32)) := by
    rw [← List.mem_map, hpolls]
    decide
  obtain ⟨t, -, htransfer, -⟩ := h _ s hs call hcall
  rw [(Prod.mk.inj hnext).1] at htransfer
  cases htransfer

end VisitRun

end XdmaDriver
