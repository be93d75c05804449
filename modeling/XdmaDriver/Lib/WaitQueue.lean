import Mathlib.Logic.Function.Iterate

/-!
Waiting for a condition on a wait queue: a task that sleeps until the condition holds or a
signal arrives, and a task that polls it. A waker makes the condition true and wakes the queue.
-/

namespace WaitQueue

/-- Where a task is in an interruptible wait: before its first test, before it puts itself on
the queue, on the queue and before its next test, refused by a pending signal and before a last
test, asleep, or done. -/
inductive Phase
  | check
  | prepare
  | queued (woken : Bool)
  | signalled
  | asleep
  | ready
  | interrupted
  deriving DecidableEq, Repr

namespace Phase

def advance (cond pending : Bool) : Phase → Option Phase
  | check => some (if cond then ready else prepare)
  | prepare => some (if pending then signalled else queued false)
  | queued woken => some (if cond then ready else if woken || pending then prepare else asleep)
  | signalled => some (if cond then ready else interrupted)
  | asleep | ready | interrupted => none

def wake : Phase → Phase
  | queued _ => queued true
  | asleep => prepare
  | ph => ph

def signal : Phase → Phase
  | asleep => prepare
  | ph => ph

def steps : Phase → ℕ
  | ready | interrupted => 0
  | check | queued _ | signalled => 1
  | prepare => 2
  | asleep => 3

theorem wake_ne_asleep (ph : Phase) : ph.wake ≠ asleep := by cases ph <;> simp [wake]

theorem signal_ne_asleep (ph : Phase) : ph.signal ≠ asleep := by cases ph <;> simp [signal]

theorem wake_ready {ph : Phase} : ph.wake = ready ↔ ph = ready := by cases ph <;> simp [wake]

theorem signal_ready {ph : Phase} : ph.signal = ready ↔ ph = ready := by cases ph <;> simp [signal]

theorem advance_asleep {cond pending : Bool} {ph : Phase} (h : ph.advance cond pending = some asleep) :
    cond = false := by
  cases cond with
  | false => rfl
  | true =>
    cases ph with
    | prepare => cases pending <;> cases h
    | _ => cases h

theorem advance_ready {cond pending : Bool} {ph : Phase} (h : ph.advance cond pending = some ready) :
    cond = true := by
  cases cond with
  | true => rfl
  | false =>
    cases ph with
    | prepare => cases pending <;> cases h
    | queued woken => cases woken <;> cases pending <;> cases h
    | _ => cases h

/-- While the condition holds, a task that is not asleep gets one step nearer to its end. -/
theorem advance_steps (pending : Bool) {ph : Phase} (hasleep : ph ≠ asleep) (h : ph.steps ≠ 0) :
    ∃ ph', ph.advance true pending = some ph' ∧ ph' ≠ asleep ∧ ph' ≠ interrupted ∧ ph'.steps < ph.steps := by
  cases ph with
  | asleep => exact absurd rfl hasleep
  | ready | interrupted => exact absurd rfl h
  | check | signalled => exact ⟨ready, rfl, by simp, by simp, by simp [steps]⟩
  | queued woken => exact ⟨ready, rfl, by simp, by simp, by simp [steps]⟩
  | prepare => cases pending <;> exact ⟨_, rfl, by simp, by simp, by simp [steps]⟩

end Phase

/-- Where a task is in a poll: about to put itself on the queue, about to test, before it
sleeps, or asleep. `triggered` tells of a wakeup since the task last cleared it. -/
inductive PollPhase
  | enter
  | test (triggered : Bool)
  | sleep (triggered : Bool)
  | asleep
  deriving DecidableEq, Repr

namespace PollPhase

def advance : PollPhase → Option PollPhase
  | enter => some (test false)
  | test triggered => some (sleep triggered)
  | sleep triggered => some (if triggered then test false else asleep)
  | asleep => none

def wake : PollPhase → PollPhase
  | enter => enter
  | test _ => test true
  | sleep _ => sleep true
  | asleep => test false

/-- A task that a condition set from now on cannot miss: it tests it again, or has been told. -/
def Attends : PollPhase → Prop
  | enter | test _ => True
  | sleep triggered => triggered = true
  | asleep => False

instance (ph : PollPhase) : Decidable ph.Attends := by
  cases ph <;> unfold Attends <;> infer_instance

theorem wake_attends (ph : PollPhase) : ph.wake.Attends := by cases ph <;> simp [wake, Attends]

theorem Attends.advance {ph ph' : PollPhase} (h : ph.Attends) (ht : ∀ triggered, ph ≠ test triggered)
    (hs : ph.advance = some ph') : ph'.Attends := by
  cases ph with
  | enter =>
    obtain rfl := Option.some.inj hs
    trivial
  | test triggered => exact absurd rfl (ht triggered)
  | sleep triggered =>
    obtain rfl : triggered = true := h
    obtain rfl := Option.some.inj hs
    trivial
  | asleep => exact h.elim

end PollPhase

end WaitQueue
