import XdmaDriver.BarAccess
import XdmaDriver.InterruptMask
import XdmaDriver.Lib.Transition
import XdmaDriver.Lib.WaitQueue

/-!
The user interrupts: their service by the interrupt handlers, and the character devices that
pass the events on to readers and pollers.
-/

namespace XdmaDriver

open Transition WaitQueue

/-- The user loop of `xdma_isr`: the user interrupts it serves, of those left from `user` on. -/
def isrUsers : ℕ → ℕ → U32 → U32 → List ℕ
  | 0, _, _, _ => []
  | n + 1, user, mask, userIrq =>
    if userIrq = 0 then []
    else if userIrq &&& mask ≠ 0 then user :: isrUsers n (user + 1) (mask <<< 1) (userIrq &&& ~~~mask)
    else isrUsers n (user + 1) (mask <<< 1) userIrq

/-- The loop of `xdma_user_isr_register`, from `i` on: the users whose handler it sets. -/
def registerUsers : ℕ → ℕ → U32 → List ℕ
  | 0, _, _ => []
  | n + 1, i, mask =>
    if mask = 0 then []
    else if (1 <<< i : U32) &&& mask = 0 then registerUsers n (i + 1) mask
    else i :: registerUsers n (i + 1) (mask &&& ~~~(1 <<< i : U32))

/-- What `char_events_read` returns before it waits, 0 if it goes on. -/
def charEventsReadEntry (check : ℤ) (count pos : U64) : ℤ :=
  if check < 0 then check else if count ≠ 4 then -eproto else if pos &&& 3 ≠ 0 then -eproto else 0

/-- A `char_events_read` that is past its checks, with the signal it has pending, or a
`char_events_poll`. -/
inductive EventCall
  | read (user : ℕ) (phase : Phase) (pending : Bool)
  | poll (user : ℕ) (phase : PollPhase)
  deriving DecidableEq

/-- What happened to the user interrupts. A read of an event is `given` when the copy to the
user succeeds. -/
inductive UserEvent
  | isr (userIrq : U32)
  | line (user : ℕ)
  | raised (user : ℕ)
  | handled (user : ℕ)
  | read (user : ℕ) (events : U32) (given : Bool)
  | polled (user : ℕ) (readable : Bool)
  deriving DecidableEq

/-- The user interrupts of a device, the calls on its event nodes, the user interrupts that a
running `xdma_isr` still has to serve, and the events so far, the newest first. -/
structure EventRun where
  userMax : ℕ
  eventsIrq : ℕ → U32 := fun _ => 0
  handler : ℕ → Bool := fun _ => false
  isr : Option (List ℕ) := none
  calls : ℕ → Option EventCall := fun _ => none
  log : List UserEvent := []

inductive EventAct
  | isr (userIrq : U32)
  | isrService
  | isrReturn
  | userIrq (user : ℕ)
  | register (mask : U32) (handler : Bool)
  | read (c user : ℕ) (check : ℤ) (count pos : U64)
  | poll (c user : ℕ) (check : ℤ)
  | signal (c : ℕ)
  | advance (c : ℕ)
  | take (c uncopied : ℕ)
  | interrupted (c : ℕ)
  | test (c : ℕ)
  | timeout (c : ℕ)

namespace EventCall

def user : EventCall → ℕ
  | read user _ _ | poll user _ => user

def wake (i : ℕ) : EventCall → EventCall
  | read user phase pending => read user (if user = i then phase.wake else phase) pending
  | poll user phase => poll user (if user = i then phase.wake else phase)

def signal : EventCall → EventCall
  | read user phase _ => read user phase.signal true
  | poll user .asleep => poll user (.test false)
  | poll user phase => poll user phase

def advance (events : U32) : EventCall → Option EventCall
  | read user phase pending => (phase.advance (events ≠ 0) pending).map (read user · pending)
  | poll _ (.test _) => none
  | poll user phase => phase.advance.map (poll user)

def Awake : EventCall → Prop
  | read _ phase _ => phase ≠ .asleep
  | poll _ phase => phase.Attends

end EventCall

namespace EventRun

def setCall (s : EventRun) (c : ℕ) (call : Option EventCall) : EventRun :=
  { s with calls := Function.update s.calls c call }

def record (s : EventRun) (e : UserEvent) : EventRun := { s with log := e :: s.log }

def userIrqService (s : EventRun) (i : ℕ) : EventRun :=
  if s.handler i then s.record (.handled i)
  else if s.eventsIrq i = 0 then
    { s.record (.raised i) with
      eventsIrq := Function.update s.eventsIrq i 1
      calls := fun c => (s.calls c).map (·.wake i) }
  else s.record (.raised i)

def finish (s : EventRun) (c : ℕ) : EventCall → EventAct → Option EventRun
  | .read user .ready _, .take _ uncopied =>
    some (({ s with eventsIrq := Function.update s.eventsIrq user 0 }.setCall c none).record
      (.read user (s.eventsIrq user) (uncopied = 0)))
  | .read _ .interrupted _, .interrupted _ => some (s.setCall c none)
  | .poll user (.test triggered), .test _ =>
    if s.eventsIrq user ≠ 0 then some ((s.setCall c none).record (.polled user true))
    else some ((s.setCall c (some (.poll user (.sleep triggered)))).record (.polled user false))
  | .poll _ _, .timeout _ => some (s.setCall c none)
  | _, _ => none

def step (s : EventRun) : EventAct → Option EventRun
  | .isr userIrq =>
    if s.isr = none then
      some { s.record (.isr userIrq) with isr := some (isrUsers s.userMax 0 1 userIrq) }
    else none
  | .isrService =>
    match s.isr with
    | some (i :: rest) => some { s.userIrqService i with isr := some rest }
    | _ => none
  | .isrReturn => if s.isr = some [] then some { s with isr := none } else none
  -- A line of a user interrupt is requested for each user below `user_max`.
  | .userIrq i => if i < s.userMax then some ((s.record (.line i)).userIrqService i) else none
  | .register mask handler =>
    some { s with handler := fun i => if i ∈ registerUsers s.userMax 0 mask then handler else s.handler i }
  | .read c user check count pos =>
    if s.calls c = none then
      some (if charEventsReadEntry check count pos = 0 then s.setCall c (some (.read user .check false))
      else s)
    else none
  | .poll c user check =>
    if s.calls c = none then some (if check < 0 then s else s.setCall c (some (.poll user .enter))) else none
  | .signal c => (s.calls c).map fun call => s.setCall c (some call.signal)
  | .advance c =>
    (s.calls c).bind fun call => (call.advance (s.eventsIrq call.user)).map fun call' =>
      s.setCall c (some call')
  | .take c uncopied => (s.calls c).bind fun call => s.finish c call (.take c uncopied)
  | .interrupted c => (s.calls c).bind fun call => s.finish c call (.interrupted c)
  | .test c => (s.calls c).bind fun call => s.finish c call (.test c)
  | .timeout c => (s.calls c).bind fun call => s.finish c call (.timeout c)

def pendingOf (i : ℕ) : List UserEvent → Bool
  | [] => false
  | .raised j :: log => i = j || pendingOf i log
  | .read j _ _ :: log => i ≠ j && pendingOf i log
  | _ :: log => pendingOf i log

def Faithful : List UserEvent → Prop
  | [] => True
  | .read i events _ :: log => events = (if pendingOf i log then 1 else 0) ∧ Faithful log
  | .polled i readable :: log => readable = pendingOf i log ∧ Faithful log
  | _ :: log => Faithful log

def requests (i : ℕ) (log : List UserEvent) : ℕ :=
  log.countP fun
    | .isr userIrq => userIrq.getLsbD i
    | .line j => i = j
    | _ => false

def serves (i : ℕ) (log : List UserEvent) : ℕ :=
  log.countP fun
    | .raised j | .handled j => i = j
    | _ => false

def Opened (s : EventRun) : Prop := ∃ userMax, s = { userMax := XdmaDev.clampMax userMax maxUserIrq }

theorem isrUsers_eq (n : ℕ) : ∀ {user : ℕ} (userIrq : U32), user + n ≤ 32 →
    isrUsers n user (BitVec.twoPow 32 user) userIrq = (List.range' user n).filter (userIrq.getLsbD ·) := by
  induction n with
  | zero => intro user userIrq _; rfl
  | succ n ih =>
    intro user userIrq h
    have hbit := twoPow_and_ne_zero (show user < 32 by omega) userIrq
    rw [BitVec.and_comm] at hbit
    have hnext : (BitVec.twoPow 32 user) <<< 1 = BitVec.twoPow 32 (user + 1) := by
      rw [BitVec.twoPow_eq, BitVec.twoPow_eq, ← BitVec.shiftLeft_add]
    rw [isrUsers, List.range'_succ, List.filter_cons]
    by_cases hz : userIrq = 0
    · subst hz
      simp
    by_cases hu : userIrq.getLsbD user = true
    · rw [if_neg hz, if_pos (hbit.mpr hu), if_pos hu, hnext, ih _ (by omega)]
      refine congrArg _ (List.filter_congr fun k hk => ?_)
      obtain ⟨hk, hlt⟩ := List.mem_range'_1.mp hk
      have hne : user ≠ k := by omega
      simp [BitVec.getLsbD_twoPow, hne]
      omega
    · rw [if_neg hz, if_neg (fun hc => hu (hbit.mp hc)), if_neg hu, hnext, ih _ (by omega)]

theorem count_isrUsers {userMax : ℕ} (hmax : userMax ≤ 32) (userIrq : U32) {i : ℕ} (hi : i < userMax) :
    (isrUsers userMax 0 1 userIrq).count i = if userIrq.getLsbD i then 1 else 0 := by
  have h : isrUsers userMax 0 (BitVec.twoPow 32 0) userIrq = _ := isrUsers_eq userMax userIrq (by omega)
  rw [show (1 : U32) = BitVec.twoPow 32 0 from rfl, h, ((List.nodup_range').filter _).count]
  simp [hi]

/-- The flags of the events, the log and the waiting calls agree, and `xdma_isr` has served
the users it has read as requested, but for those it still has to serve. -/
structure Sound (s : EventRun) : Prop where
  userMax : s.userMax ≤ maxUserIrq
  latch : ∀ i, s.eventsIrq i = if pendingOf i s.log then 1 else 0
  faithful : Faithful s.log
  awake : ∀ c call, s.calls c = some call → s.eventsIrq call.user ≠ 0 → call.Awake
  served : ∀ i < s.userMax, requests i s.log = serves i s.log + (s.isr.getD []).count i

theorem latch_ne_zero {s : EventRun} (h : s.Sound) (i : ℕ) :
    s.eventsIrq i ≠ 0 ↔ pendingOf i s.log = true := by
  rw [h.latch i]
  cases pendingOf i s.log <;> simp

@[simp] theorem user_wake (i : ℕ) (call : EventCall) : (call.wake i).user = call.user := by cases call <;> rfl

theorem wake_awake (call : EventCall) : (call.wake call.user).Awake := by
  cases call with
  | read user phase pending => simpa [EventCall.wake, EventCall.user,
      EventCall.Awake] using phase.wake_ne_asleep
  | poll user phase => simpa [EventCall.wake, EventCall.user, EventCall.Awake] using phase.wake_attends

theorem Awake.wake {call : EventCall} (h : call.Awake) (i : ℕ) : (call.wake i).Awake := by
  by_cases hi : call.user = i
  · exact hi ▸ wake_awake call
  · cases call with
    | read user phase pending => simpa [EventCall.wake, EventCall.Awake, if_neg (show ¬user = i from hi)] using h
    | poll user phase => simpa [EventCall.wake, EventCall.Awake, if_neg (show ¬user = i from hi)] using h

section Service

variable (s : EventRun) (i : ℕ)

theorem userIrqService_cases : (s.handler i = true ∧ s.userIrqService i = s.record (.handled i)) ∨
    (s.handler i = false ∧ s.eventsIrq i ≠ 0 ∧ s.userIrqService i = s.record (.raised i)) ∨
    s.handler i = false ∧ s.eventsIrq i = 0 ∧ s.userIrqService i =
      { s.record (.raised i) with
        eventsIrq := Function.update s.eventsIrq i 1
        calls := fun c => (s.calls c).map (·.wake i) } := by
  unfold userIrqService
  cases hh : s.handler i with
  | true => exact .inl ⟨rfl, if_pos rfl⟩
  | false =>
    by_cases hz : s.eventsIrq i = 0
    · exact .inr (.inr ⟨rfl, hz, by rw [if_neg Bool.false_ne_true, if_pos hz]⟩)
    · exact .inr (.inl ⟨rfl, hz, by rw [if_neg Bool.false_ne_true, if_neg hz]⟩)

@[simp] theorem userIrqService_userMax : (s.userIrqService i).userMax = s.userMax := by
  rcases userIrqService_cases s i with ⟨-, h⟩ | ⟨-, -, h⟩ | ⟨-, -, h⟩ <;> rw [h] <;> rfl

theorem userIrqService_log : (s.userIrqService i).log = .handled i :: s.log ∨
    (s.userIrqService i).log = .raised i :: s.log := by
  rcases userIrqService_cases s i with ⟨-, h⟩ | ⟨-, -, h⟩ | ⟨-, -, h⟩ <;> rw [h]
  · exact .inl rfl
  · exact .inr rfl
  · exact .inr rfl

theorem requests_userIrqService (j : ℕ) : requests j (s.userIrqService i).log = requests j s.log := by
  rcases userIrqService_log s i with h | h <;> rw [h] <;> simp [requests]

theorem serves_userIrqService (j : ℕ) :
    serves j (s.userIrqService i).log = serves j s.log + if j = i then 1 else 0 := by
  rcases userIrqService_log s i with h | h <;> rw [h] <;> simp [serves, List.countP_cons]

theorem userIrqService_awake (h : ∀ c call, s.calls c = some call → s.eventsIrq call.user ≠ 0 → call.Awake) :
    ∀ c call, (s.userIrqService i).calls c = some call → (s.userIrqService i).eventsIrq call.user ≠ 0 →
      call.Awake := by
  rcases userIrqService_cases s i with ⟨-, hs⟩ | ⟨-, -, hs⟩ | ⟨-, -, hs⟩ <;> rw [hs]
  · exact h
  · exact h
  · intro c call hc hne
    obtain ⟨call, hcall, rfl⟩ := Option.map_eq_some_iff.mp hc
    by_cases hi : call.user = i
    · exact hi ▸ wake_awake call
    · rw [user_wake] at hne
      simp only [Function.update_of_ne hi] at hne
      exact Awake.wake (h c call hcall hne) i

theorem userIrqService_latch (h : ∀ i, s.eventsIrq i = if pendingOf i s.log then 1 else 0) (j : ℕ) :
    (s.userIrqService i).eventsIrq j = if pendingOf j (s.userIrqService i).log then 1 else 0 := by
  rcases userIrqService_cases s i with ⟨-, hs⟩ | ⟨-, hne, hs⟩ | ⟨-, -, hs⟩ <;> rw [hs]
  · exact h j
  · by_cases hj : j = i
    · subst hj
      have hp := h j
      rw [if_pos (by_contra fun hn => hne (by rw [hp, if_neg hn]))] at hp
      simpa [record, pendingOf] using hp
    · simpa [record, pendingOf, hj] using h j
  · by_cases hj : j = i
    · subst hj
      simp [record, pendingOf]
    · simpa [record, pendingOf, hj] using h j

theorem userIrqService_faithful (h : Faithful s.log) : Faithful (s.userIrqService i).log := by
  rcases userIrqService_log s i with hs | hs <;> rw [hs] <;> exact h

end Service

theorem Sound.setCall {s : EventRun} (h : s.Sound) (c : ℕ) (new : Option EventCall)
    (hnew : ∀ call, new = some call → s.eventsIrq call.user ≠ 0 → call.Awake) : (s.setCall c new).Sound where
  userMax := h.userMax
  latch := h.latch
  faithful := h.faithful
  awake := by
    intro c' call hcall hne
    by_cases hc : c' = c
    · subst hc
      exact hnew call (by simpa [EventRun.setCall] using hcall) hne
    · exact h.awake c' call (by simpa [EventRun.setCall, hc] using hcall) hne
  served := h.served

theorem Sound.service (s : EventRun) (i : ℕ) (users : List ℕ) (isr : Option (List ℕ))
    (hmax : s.userMax ≤ maxUserIrq)
    (hlatch : ∀ i, s.eventsIrq i = if pendingOf i s.log then 1 else 0) (hfaithful : Faithful s.log)
    (hawake : ∀ c call, s.calls c = some call → s.eventsIrq call.user ≠ 0 → call.Awake)
    (hserved : ∀ j < s.userMax, requests j s.log = serves j s.log + (if j = i then 1 else 0) + users.count j)
    (heq : isr.getD [] = users) :
    ({ s.userIrqService i with isr := isr } : EventRun).Sound where
  userMax := by simpa using hmax
  latch := userIrqService_latch s i hlatch
  faithful := userIrqService_faithful s i hfaithful
  awake := userIrqService_awake s i hawake
  served := by
    intro j hj
    rw [userIrqService_userMax] at hj
    rw [requests_userIrqService, serves_userIrqService, heq]
    exact hserved j hj

theorem Sound.finish {s s' : EventRun} (h : s.Sound) {c : ℕ} {call : EventCall} {a : EventAct}
    (hf : s.finish c call a = some s') : s'.Sound := by
  unfold EventRun.finish at hf
  split at hf
  · rename_i user pending c' uncopied
    obtain rfl := Option.some.inj hf
    constructor
    · exact h.userMax
    · intro j
      by_cases hj : j = user
      · subst hj
        simp [record, EventRun.setCall, pendingOf]
      · simpa [record, EventRun.setCall, pendingOf, hj] using h.latch j
    · exact ⟨h.latch user, h.faithful⟩
    · intro c'' call hcall hne
      by_cases hc : c'' = c
      · simp [record, EventRun.setCall, hc] at hcall
      · refine h.awake c'' call (by simpa [record, EventRun.setCall, hc] using hcall) ?_
        by_cases hu : call.user = user
        · simp [record, EventRun.setCall, hu] at hne
        · simpa [record, EventRun.setCall, hu] using hne
    · simpa [record, EventRun.setCall, requests, serves] using h.served
  · obtain rfl := Option.some.inj hf
    exact h.setCall c _ (by simp)
  · rename_i user triggered c'
    split at hf
    · rename_i hne
      obtain rfl := Option.some.inj hf
      have hs := h.setCall c none (by simp)
      refine ⟨hs.userMax, hs.latch, ⟨?_, hs.faithful⟩, hs.awake, ?_⟩
      · exact ((latch_ne_zero h user).mp hne).symm
      · simpa [record, requests, serves] using hs.served
    · rename_i hz
      obtain rfl := Option.some.inj hf
      have hs := h.setCall c (some (.poll user (.sleep triggered))) (by
        rintro call hcall hne
        obtain rfl := Option.some.inj hcall
        exact absurd hne hz)
      refine ⟨hs.userMax, hs.latch, ⟨?_, hs.faithful⟩, hs.awake, ?_⟩
      · have := latch_ne_zero h user
        cases hp : pendingOf user s.log with
        | true => exact absurd (this.mpr hp) hz
        | false => exact hp.symm
      · simpa [record, requests, serves] using hs.served
  · obtain rfl := Option.some.inj hf
    exact h.setCall c _ (by simp)
  · cases hf

theorem advance_poll {phase : PollPhase} (ht : ∀ triggered, phase ≠ .test triggered)
    (events : U32) (user : ℕ) :
    (EventCall.poll user phase).advance events = phase.advance.map (.poll user) := by
  cases phase with
  | test triggered => exact absurd rfl (ht triggered)
  | _ => rfl

theorem Awake.advance {call call' : EventCall} {events : U32} (h : events ≠ 0 → call.Awake)
    (ha : call.advance events = some call') : call'.user = call.user ∧ (events ≠ 0 → call'.Awake) := by
  cases call with
  | read user phase pending =>
    obtain ⟨phase', hphase, rfl⟩ := Option.map_eq_some_iff.mp ha
    refine ⟨rfl, fun hne hasleep => ?_⟩
    subst hasleep
    exact absurd (Phase.advance_asleep hphase) (by simpa using hne)
  | poll user phase =>
    by_cases ht : ∃ triggered, phase = .test triggered
    · obtain ⟨triggered, rfl⟩ := ht
      cases ha
    · have ht : ∀ triggered, phase ≠ .test triggered := by simpa using ht
      rw [advance_poll ht] at ha
      obtain ⟨phase', hphase, rfl⟩ := Option.map_eq_some_iff.mp ha
      exact ⟨rfl, fun hne => PollPhase.Attends.advance (h hne) ht hphase⟩

theorem signal_user (call : EventCall) : call.signal.user = call.user := by
  cases call with
  | read user phase pending => rfl
  | poll user phase => cases phase <;> rfl

theorem signal_awake {call : EventCall} (h : call.Awake) : call.signal.Awake := by
  cases call with
  | read user phase pending => exact phase.signal_ne_asleep
  | poll user phase =>
    cases phase with
    | asleep => exact h.elim
    | _ => exact h

theorem Sound.step {s s' : EventRun} {a : EventAct} (h : s.Sound) (hs : s.step a = some s') : s'.Sound := by
  cases a with
  | isr userIrq =>
    obtain ⟨hnone, hs⟩ := Option.ite_none_right_eq_some.mp hs
    obtain rfl := Option.some.inj hs
    refine ⟨h.userMax, h.latch, h.faithful, h.awake, fun i hi => ?_⟩
    have hbefore := h.served i hi
    rw [hnone] at hbefore
    have hmax : s.userMax ≤ 32 := h.userMax.trans (by decide)
    simp only [Option.getD_some, count_isrUsers hmax userIrq hi]
    simp only [record, requests, serves, List.countP_cons, Option.getD_none, List.count_nil] at hbefore ⊢
    simp [hbefore]
  | isrService =>
    cases hisr : s.isr with
    | none => simp [EventRun.step, hisr] at hs
    | some users =>
      cases users with
      | nil => simp [EventRun.step, hisr] at hs
      | cons i rest =>
        simp only [EventRun.step, hisr] at hs
        obtain rfl := Option.some.inj hs
        refine Sound.service s i rest (some rest) h.userMax h.latch h.faithful h.awake (fun j hj => ?_) rfl
        have := h.served j hj
        rw [hisr, Option.getD_some, List.count_cons] at this
        by_cases hij : j = i
        · subst hij
          simp at this ⊢
          omega
        · simpa [hij, Ne.symm hij] using this
  | isrReturn =>
    obtain ⟨hisr, hs⟩ := Option.ite_none_right_eq_some.mp hs
    obtain rfl := Option.some.inj hs
    refine ⟨h.userMax, h.latch, h.faithful, h.awake, fun i hi => ?_⟩
    simpa [hisr] using h.served i hi
  | userIrq i =>
    obtain ⟨hi, hs⟩ := Option.ite_none_right_eq_some.mp hs
    obtain rfl := Option.some.inj hs
    refine Sound.service (s.record (.line i)) i (s.isr.getD []) ((s.record (.line i)).userIrqService i).isr
      h.userMax h.latch h.faithful h.awake (fun j hj => ?_) ?_
    · have := h.served j hj
      simp only [record, requests, serves, List.countP_cons] at this ⊢
      simp [this]
      omega
    · rcases userIrqService_cases (s.record (.line i)) i with ⟨-, hc⟩ | ⟨-, -, hc⟩ | ⟨-, -, hc⟩
        <;> rw [hc] <;> rfl
  | register mask handler =>
    obtain rfl := Option.some.inj hs
    exact ⟨h.userMax, h.latch, h.faithful, h.awake, h.served⟩
  | read c user check count pos =>
    obtain ⟨-, hs⟩ := Option.ite_none_right_eq_some.mp hs
    obtain rfl := Option.some.inj hs
    split
    · exact h.setCall c _ (by
        rintro call hcall -
        obtain rfl := Option.some.inj hcall
        exact Phase.noConfusion)
    · exact h
  | poll c user check =>
    obtain ⟨-, hs⟩ := Option.ite_none_right_eq_some.mp hs
    obtain rfl := Option.some.inj hs
    split
    · exact h
    · exact h.setCall c _ (by
        rintro call hcall -
        obtain rfl := Option.some.inj hcall
        trivial)
  | signal c =>
    obtain ⟨call, hcall, rfl⟩ := Option.map_eq_some_iff.mp hs
    apply h.setCall
    rintro _ hc hne
    obtain rfl := Option.some.inj hc
    rw [signal_user] at hne
    exact signal_awake (h.awake c call hcall hne)
  | advance c =>
    obtain ⟨call, hcall, hs⟩ := Option.bind_eq_some_iff.mp hs
    obtain ⟨call', ha, rfl⟩ := Option.map_eq_some_iff.mp hs
    obtain ⟨huser, hawake⟩ := Awake.advance (h.awake c call hcall) ha
    apply h.setCall
    rintro _ hc hne
    obtain rfl := Option.some.inj hc
    exact hawake (huser ▸ hne)
  | take c uncopied | interrupted c | test c | timeout c =>
    obtain ⟨call, -, hs⟩ := Option.bind_eq_some_iff.mp hs
    exact h.finish hs

theorem Sound.opened {s : EventRun} (h : s.Opened) : s.Sound := by
  obtain ⟨userMax, rfl⟩ := h
  exact ⟨XdmaDev.clampMax_le _ _, fun _ => rfl, trivial, by simp, by simp [requests, serves]⟩

theorem Sound.reachable {s : EventRun} {ok : EventRun → EventAct → Prop}
    (h : Reachable EventRun.step Opened ok s) :
    s.Sound :=
  h.invariant (fun _ => Sound.opened) fun _ _ _ hs _ hstep => hs.step hstep

theorem user_events_delivered {s : EventRun} (h : Reachable step Opened (fun _ _ => True) s) :
    Faithful s.log ∧ (∀ i, s.eventsIrq i = if pendingOf i s.log then 1 else 0) ∧
      ∀ i < s.userMax, requests i s.log = serves i s.log + (s.isr.getD []).count i :=
  have hs := Sound.reachable h
  ⟨hs.faithful, hs.latch, hs.served⟩

theorem opened_sixteen : Opened { userMax := 16 } := ⟨16, rfl⟩

def twoUsers : List EventAct :=
  [.read 0 2 0 4 0, .advance 0, .advance 0, .advance 0, .isr 5, .isrService, .isrService,
    .advance 0, .advance 0,
    .take 0 0, .isrReturn]

theorem user_events_delivered_twoUsers : ∃ s : EventRun,
    s.log = [.read 2 1 true, .raised 2, .raised 0, .isr 5] ∧ Faithful s.log ∧
      (∀ i, s.eventsIrq i = if pendingOf i s.log then 1 else 0) ∧
      ∀ i < s.userMax, requests i s.log = serves i s.log + (s.isr.getD []).count i := by
  have hrun : (run step (fun _ _ => True) { userMax := 16 } twoUsers).map log =
      some [.read 2 1 true, .raised 2, .raised 0, .isr 5] := by decide +kernel
  obtain ⟨s, hs, hlog⟩ := exists_reachable opened_sixteen hrun
  exact ⟨s, hlog, user_events_delivered hs⟩

def Reading (s : EventRun) (i : ℕ) : Prop := ∃ c phase pending, s.calls c = some (.read i phase pending)

/-- A read of a node starts while no other is in progress. -/
def OneReader (s : EventRun) : EventAct → Prop
  | .read _ user _ _ _ => ¬s.Reading user
  | _ => True

/-- Where each node has one reader: past its wait it still finds the event. -/
structure Exclusive (s : EventRun) : Prop where
  one : ∀ c c' i phase phase' pending pending', s.calls c = some (.read i phase pending) →
    s.calls c' = some (.read i phase' pending') → c = c'
  ready : ∀ c i pending, s.calls c = some (.read i .ready pending) → s.eventsIrq i ≠ 0
  log : ∀ i events given, .read i events given ∈ s.log → events = 1

theorem Exclusive.setCall {s : EventRun} (h : s.Exclusive) (c : ℕ) (new : Option EventCall)
    (hread : ∀ i phase pending, new = some (.read i phase pending) →
      (∃ phase' pending', s.calls c = some (.read i phase' pending')) ∨ ¬s.Reading i)
    (hready : ∀ i pending, new = some (.read i .ready pending) → s.eventsIrq i ≠ 0) :
      (s.setCall c new).Exclusive := by
  have hcalls (c' : ℕ) (i : ℕ) (phase : Phase) (pending : Bool)
      (hc : (s.setCall c new).calls c' = some (.read i phase pending)) :
      (c' = c ∧ new = some (.read i phase pending)) ∨ c' ≠ c ∧ s.calls c' = some (.read i phase pending) := by
    by_cases hcc : c' = c
    · exact .inl ⟨hcc, by simpa [EventRun.setCall, hcc] using hc⟩
    · exact .inr ⟨hcc, by simpa [EventRun.setCall, hcc] using hc⟩
  have hother {c' i : ℕ} {phase phase' : Phase} {pending pending' : Bool} (hne : c' ≠ c)
      (hnew : new = some (.read i phase pending)) (hc : s.calls c' = some (.read i phase' pending')) :
        False := by
    rcases hread _ _ _ hnew with ⟨phase'', pending'', hold⟩ | hnot
    · exact hne (h.one _ _ _ _ _ _ _ hc hold)
    · exact hnot ⟨c', phase', pending', hc⟩
  constructor
  · intro c₁ c₂ i phase phase' pending pending' h₁ h₂
    rcases hcalls _ _ _ _ h₁ with ⟨rfl, hn₁⟩ | ⟨hne₁, hc₁⟩ <;>
      rcases hcalls _ _ _ _ h₂ with ⟨rfl, hn₂⟩ | ⟨hne₂, hc₂⟩
    · rfl
    · exact (hother hne₂ hn₁ hc₂).elim
    · exact (hother hne₁ hn₂ hc₁).elim
    · exact h.one _ _ _ _ _ _ _ hc₁ hc₂
  · intro c' i pending hc
    rcases hcalls _ _ _ _ hc with ⟨-, hnew⟩ | ⟨-, hold⟩
    · exact hready i pending hnew
    · exact h.ready c' i pending hold
  · exact h.log

theorem read_of_wake {call : EventCall} {j i : ℕ} {phase : Phase} {pending : Bool}
    (h : call.wake j = .read i phase pending) :
    ∃ phase', call = .read i phase' pending ∧ (phase = .ready → phase' = .ready) := by
  cases call with
  | poll user ph => cases h
  | read user ph pend =>
    simp only [EventCall.wake, EventCall.read.injEq] at h
    obtain ⟨rfl, hph, rfl⟩ := h
    refine ⟨ph, rfl, fun hr => ?_⟩
    subst hr
    split at hph
    · exact Phase.wake_ready.mp hph
    · exact hph

theorem Exclusive.userIrqService {s : EventRun} (h : s.Exclusive) (i : ℕ) :
    (s.userIrqService i).Exclusive := by
  have hlog : ∀ j events given, .read j events given ∈ (s.userIrqService i).log → events = 1 := by
    intro j events given hmem
    rcases userIrqService_log s i with hl | hl <;> rw [hl] at hmem
      <;> exact h.log j events given (by simpa using hmem)
  rcases userIrqService_cases s i with ⟨-, hs⟩ | ⟨-, -, hs⟩ | ⟨-, -, hs⟩
  · exact ⟨by rw [hs]; exact h.one, by rw [hs]; exact h.ready, hlog⟩
  · exact ⟨by rw [hs]; exact h.one, by rw [hs]; exact h.ready, hlog⟩
  · refine ⟨?_, ?_, hlog⟩ <;> rw [hs]
    · intro c c' j phase phase' pending pending' hc hc'
      obtain ⟨call, hcall, hw⟩ := Option.map_eq_some_iff.mp hc
      obtain ⟨call', hcall', hw'⟩ := Option.map_eq_some_iff.mp hc'
      obtain ⟨_, rfl, -⟩ := read_of_wake hw
      obtain ⟨_, rfl, -⟩ := read_of_wake hw'
      exact h.one _ _ _ _ _ _ _ hcall hcall'
    · intro c j pending hc
      obtain ⟨call, hcall, hw⟩ := Option.map_eq_some_iff.mp hc
      obtain ⟨_, rfl, hready⟩ := read_of_wake hw
      obtain rfl := hready rfl
      by_cases hj : j = i
      · subst hj
        simp
      · simpa [Function.update_of_ne hj] using h.ready c j pending hcall

theorem Exclusive.finish {s s' : EventRun} (h : s.Exclusive) (hs : s.Sound) {c : ℕ}
    {call : EventCall} {a : EventAct}
    (hcall : s.calls c = some call) (hf : s.finish c call a = some s') : s'.Exclusive := by
  unfold EventRun.finish at hf
  split at hf
  · rename_i user pending c' uncopied
    obtain rfl := Option.some.inj hf
    have hnone := h.setCall c none (by simp) (by simp)
    have hne := h.ready c user pending hcall
    refine ⟨hnone.one, fun c'' i pend hc => ?_, ?_⟩
    · -- The one call on this node is the one that has just ended.
      have hcc : c'' ≠ c := fun hcc => by simp [record, EventRun.setCall, hcc] at hc
      have hold : s.calls c'' = some (.read i .ready pend) := by
        simpa [record, EventRun.setCall, hcc] using hc
      have hi : i ≠ user := fun hi => hcc (h.one _ _ _ _ _ _ _ (hi ▸ hold) hcall)
      simpa [record, EventRun.setCall, Function.update_of_ne hi] using h.ready c'' i pend hold
    · intro i events given hmem
      rcases List.mem_cons.mp hmem with heq | hmem
      · simp only [UserEvent.read.injEq] at heq
        obtain ⟨rfl, rfl, -⟩ := heq
        rw [hs.latch i, if_pos ((latch_ne_zero hs i).mp hne)]
      · exact h.log i events given hmem
  · obtain rfl := Option.some.inj hf
    exact h.setCall c _ (by simp) (by simp)
  · rename_i user triggered c'
    split at hf
    · obtain rfl := Option.some.inj hf
      have hnone := h.setCall c none (by simp) (by simp)
      exact ⟨hnone.one, hnone.ready, fun i events given hmem =>
        h.log i events given (by simpa [record, EventRun.setCall] using hmem)⟩
    · obtain rfl := Option.some.inj hf
      have hpoll := h.setCall c (some (.poll user (.sleep triggered))) (by simp) (by simp)
      exact ⟨hpoll.one, hpoll.ready, fun i events given hmem =>
        h.log i events given (by simpa [record, EventRun.setCall] using hmem)⟩
  · obtain rfl := Option.some.inj hf
    exact h.setCall c _ (by simp) (by simp)
  · cases hf

theorem Exclusive.step {s s' : EventRun} {a : EventAct} (h : s.Exclusive) (hs : s.Sound) (hone : s.OneReader a)
    (hstep : s.step a = some s') : s'.Exclusive := by
  cases a with
  | isr userIrq =>
    obtain ⟨-, hstep⟩ := Option.ite_none_right_eq_some.mp hstep
    obtain rfl := Option.some.inj hstep
    exact ⟨h.one, h.ready, fun i events given hmem => h.log i events given (by simpa [record] using hmem)⟩
  | isrService =>
    cases hisr : s.isr with
    | none => simp [EventRun.step, hisr] at hstep
    | some users =>
      cases users with
      | nil => simp [EventRun.step, hisr] at hstep
      | cons i rest =>
        simp only [EventRun.step, hisr] at hstep
        obtain rfl := Option.some.inj hstep
        have hx := h.userIrqService i
        exact ⟨hx.one, hx.ready, hx.log⟩
  | isrReturn =>
    obtain ⟨-, hstep⟩ := Option.ite_none_right_eq_some.mp hstep
    obtain rfl := Option.some.inj hstep
    exact ⟨h.one, h.ready, h.log⟩
  | userIrq i =>
    obtain ⟨-, hstep⟩ := Option.ite_none_right_eq_some.mp hstep
    obtain rfl := Option.some.inj hstep
    apply Exclusive.userIrqService
    exact ⟨h.one, h.ready, fun j events given hmem => h.log j events given (by simpa [record] using hmem)⟩
  | register mask handler =>
    obtain rfl := Option.some.inj hstep
    exact ⟨h.one, h.ready, h.log⟩
  | read c user check count pos =>
    obtain ⟨-, hstep⟩ := Option.ite_none_right_eq_some.mp hstep
    obtain rfl := Option.some.inj hstep
    split
    · apply h.setCall
      · rintro i phase pending hnew
        simp only [Option.some.injEq, EventCall.read.injEq] at hnew
        exact .inr (hnew.1 ▸ hone)
      · simp
    · exact h
  | poll c user check =>
    obtain ⟨-, hstep⟩ := Option.ite_none_right_eq_some.mp hstep
    obtain rfl := Option.some.inj hstep
    split
    · exact h
    · exact h.setCall c _ (by simp) (by simp)
  | signal c =>
    obtain ⟨call, hcall, rfl⟩ := Option.map_eq_some_iff.mp hstep
    cases call with
    | poll user phase => cases phase <;> exact h.setCall c _ (by simp [EventCall.signal]) (by simp [EventCall.signal])
    | read user phase pending =>
      apply h.setCall
      · rintro i phase' pending' hnew
        simp only [EventCall.signal, Option.some.injEq, EventCall.read.injEq] at hnew
        exact .inl ⟨phase, pending, hnew.1 ▸ hcall⟩
      · rintro i pending' hnew
        simp only [EventCall.signal, Option.some.injEq, EventCall.read.injEq] at hnew
        obtain ⟨rfl, hready, -⟩ := hnew
        exact h.ready c user pending (by rw [hcall, Phase.signal_ready.mp hready])
  | advance c =>
    obtain ⟨call, hcall, hstep⟩ := Option.bind_eq_some_iff.mp hstep
    obtain ⟨call', ha, rfl⟩ := Option.map_eq_some_iff.mp hstep
    cases call with
    | poll user phase =>
      have hpoll : ∀ i ph pend, call' ≠ .read i ph pend := by
        rintro i ph pend rfl
        cases phase <;> simp [EventCall.advance, PollPhase.advance] at ha
      exact h.setCall c _ (by simp [hpoll]) (by simp [hpoll])
    | read user phase pending =>
      obtain ⟨phase', hphase, rfl⟩ := Option.map_eq_some_iff.mp ha
      apply h.setCall
      · rintro i ph pend hnew
        simp only [Option.some.injEq, EventCall.read.injEq] at hnew
        exact .inl ⟨phase, pending, hnew.1 ▸ hcall⟩
      · rintro i pend hnew
        simp only [Option.some.injEq, EventCall.read.injEq] at hnew
        obtain ⟨rfl, rfl, -⟩ := hnew
        exact of_decide_eq_true (Phase.advance_ready hphase)
  | take c uncopied | interrupted c | test c | timeout c =>
    obtain ⟨call, hcall, hstep⟩ := Option.bind_eq_some_iff.mp hstep
    exact h.finish hs hcall hstep

theorem Exclusive.opened {s : EventRun} (h : s.Opened) : s.Exclusive := by
  obtain ⟨userMax, rfl⟩ := h
  exact ⟨by simp, by simp, by simp⟩

theorem exclusive_read_finds_event {s : EventRun} (h : Reachable step Opened OneReader s)
    {i : ℕ} {events : U32}
    {given : Bool} (hread : .read i events given ∈ s.log) : events = 1 := by
  have hboth : s.Sound ∧ s.Exclusive := by
    apply h.invariant (I := fun s => s.Sound ∧ s.Exclusive)
    · exact fun _ ho => ⟨.opened ho, .opened ho⟩
    · exact fun _ _ _ hs hok hstep => ⟨hs.1.step hstep, hs.2.step hs.1 hok hstep⟩
  exact hboth.2.log i events given hread

theorem exclusive_read_finds_event_line : ∃ s : EventRun, Reachable step Opened OneReader s ∧
    (∃ events, .read 2 events true ∈ s.log) ∧ ∀ events, .read 2 events true ∈ s.log → events = 1 := by
  have hread : Reachable step Opened OneReader
      (({ userMax := 16 } : EventRun).setCall 0 (some (.read 2 .check false))) :=
    .step (a := .read 0 2 0 4 0) (.init opened_sixteen) (by simp [OneReader, Reading]) rfl
  have hline := Reachable.step (a := EventAct.userIrq 2) hread trivial rfl
  have hready := Reachable.step (a := EventAct.advance 0) hline trivial rfl
  have htaken := Reachable.step (a := EventAct.take 0 0) hready trivial rfl
  exact ⟨_, htaken, ⟨_, List.mem_cons_self⟩, fun _ hlog => exclusive_read_finds_event htaken hlog⟩

theorem two_readers_find_nothing : ∃ s : EventRun, Reachable step Opened (fun _ _ => True) s ∧
    s.log = [.read 2 0 true, .read 2 1 true, .raised 2, .line 2] := by
  have hrun : (run step (fun _ _ => True) { userMax := 16 } [.read 0 2 0 4 0, .read 1 2 0 4 0,
    .userIrq 2, .advance 0,
      .advance 1, .take 0 0, .take 1 0]).map log = some [.read 2 0 true, .read 2 1 true,
      .raised 2, .line 2] := by
    decide +kernel
  exact exists_reachable opened_sixteen hrun

def lastAct (c : ℕ) : EventCall → EventAct
  | .read _ _ _ => .take c 0
  | .poll _ _ => .test c

def answer : EventCall → UserEvent
  | .read user _ _ => .read user 1 true
  | .poll user _ => .polled user true

def Waiting : EventCall → Prop
  | .read _ phase _ => phase ≠ .interrupted
  | .poll _ _ => True

/-- A call alone, without any other step of the system, ends with an answer. -/
def Answers (s : EventRun) (c : ℕ) (call : EventCall) (n : ℕ) : Prop :=
  ∃ s', run step (fun _ _ => True) s (List.replicate n (.advance c) ++ [lastAct c call]) = some s' ∧
    s'.calls c = none ∧ s'.log = answer call :: s.log

theorem Answers.last {s : EventRun} {c : ℕ} {call : EventCall} (s' : EventRun)
    (hstep : s.step (lastAct c call) = some s') (hnone : s'.calls c = none)
    (hlog : s'.log = answer call :: s.log) : s.Answers c call 0 := by
  refine ⟨s', ?_, hnone, hlog⟩
  rw [List.replicate_zero, List.nil_append, run, if_pos trivial, hstep]
  rfl

theorem Answers.advance {s : EventRun} {c n : ℕ} {call : EventCall} (call' : EventCall)
    (hcall : s.calls c = some call) (ha : call.advance (s.eventsIrq call.user) = some call')
    (hlast : lastAct c call' = lastAct c call) (hanswer : answer call' = answer call)
    (h : (s.setCall c (some call')).Answers c call' n) : s.Answers c call (n + 1) := by
  obtain ⟨s', hrun, hnone, hlog⟩ := h
  refine ⟨s', ?_, hnone, by rw [hlog, hanswer]; rfl⟩
  have hstep : s.step (.advance c) = some (s.setCall c (some call')) := by simp [EventRun.step, hcall, ha]
  rw [List.replicate_succ, List.cons_append, run, if_pos trivial, hstep, Option.bind_some, ← hlast, hrun]

theorem read_answers {i c : ℕ} {pending : Bool} (n : ℕ) : ∀ {s : EventRun} {phase : Phase},
    s.calls c = some (.read i phase pending) → s.eventsIrq i = 1 → phase ≠ .asleep → phase ≠ .interrupted →
    phase.steps ≤ n → ∃ m ≤ n, s.Answers c (.read i phase pending) m := by
  induction n with
  | zero =>
    intro s phase hcall hone hasleep hint hsteps
    obtain rfl : phase = .ready := by
      cases phase <;> simp_all [Phase.steps]
    refine ⟨0, le_refl _, Answers.last (({ s with
      eventsIrq := Function.update s.eventsIrq i 0 }.setCall c none).record
        (.read i (s.eventsIrq i) true)) ?_ ?_ ?_⟩
    · rw [lastAct, EventRun.step, hcall]
      rfl
    · simp [record, EventRun.setCall]
    · rw [hone]
      rfl
  | succ n ih =>
    intro s phase hcall hone hasleep hint hsteps
    by_cases hz : phase.steps = 0
    · obtain ⟨m, hm, h⟩ := ih hcall hone hasleep hint (by omega)
      exact ⟨m, by omega, h⟩
    · obtain ⟨phase', hphase, hasleep', hint', hlt⟩ := Phase.advance_steps pending hasleep hz
      have ha : (EventCall.read i phase pending).advance (s.eventsIrq i) = some (.read i phase' pending) := by
        simp [EventCall.advance, hone, hphase]
      obtain ⟨m, hm, h⟩ := ih (s := s.setCall c (some (.read i phase' pending)))
        (by simp [EventRun.setCall]) hone hasleep' hint' (by omega)
      exact ⟨m + 1, by omega, Answers.advance _ hcall ha rfl rfl h⟩

theorem poll_answers {s : EventRun} {i c : ℕ} {phase : PollPhase} (hcall : s.calls c = some (.poll i phase))
    (hne : s.eventsIrq i ≠ 0) (h : phase.Attends) : ∃ m ≤ 1, s.Answers c (.poll i phase) m := by
  have htest {s : EventRun} {triggered : Bool} (hcall : s.calls c = some (.poll i (.test triggered)))
      (hne : s.eventsIrq i ≠ 0) : s.Answers c (.poll i (.test triggered)) 0 := by
    apply Answers.last ((s.setCall c none).record (.polled i true))
    · rw [lastAct, EventRun.step, hcall, Option.bind_some, EventRun.finish, if_pos hne]
    · simp [record, EventRun.setCall]
    · rfl
  cases phase with
  | test triggered => exact ⟨0, by omega, htest hcall hne⟩
  | enter =>
    refine ⟨1, le_refl _, Answers.advance (.poll i (.test false)) hcall rfl rfl rfl ?_⟩
    exact htest (by simp [EventRun.setCall]) hne
  | sleep triggered =>
    obtain rfl : triggered = true := h
    refine ⟨1, le_refl _, Answers.advance (.poll i (.test false)) hcall rfl rfl rfl ?_⟩
    exact htest (by simp [EventRun.setCall]) hne
  | asleep => exact h.elim

theorem event_not_slept_through {s : EventRun} (h : Reachable step Opened (fun _ _ => True) s) {c : ℕ}
    {call : EventCall} (hcall : s.calls c = some call) (hwait : Waiting call)
      (hne : s.eventsIrq call.user ≠ 0) :
    ∃ n ≤ 2, s.Answers c call n := by
  have hs := Sound.reachable h
  have hawake := hs.awake c call hcall hne
  cases call with
  | read i phase pending =>
    have hone : s.eventsIrq i = 1 := by rw [hs.latch i, if_pos ((latch_ne_zero hs i).mp hne)]
    apply read_answers 2 hcall hone hawake hwait
    cases phase <;> simp_all [Phase.steps, EventCall.Awake]
  | poll i phase =>
    obtain ⟨m, hm, hans⟩ := poll_answers hcall hne hawake
    exact ⟨m, by omega, hans⟩

theorem event_not_slept_through_asleep : ∃ s : EventRun, s.log = [.raised 2, .line 2] ∧
    ∃ n ≤ 2, s.Answers 0 (.read 2 .prepare false) n := by
  have hrun : (run step (fun _ _ => True) { userMax := 16 }
      [.read 0 2 0 4 0, .advance 0, .advance 0, .advance 0, .userIrq 2]).map
        (fun s => (s.log, s.calls 0, s.eventsIrq 2)) =
          some ([.raised 2, .line 2], some (.read 2 .prepare false), 1) := by
    decide +kernel
  obtain ⟨s, hs, heq⟩ := exists_reachable opened_sixteen hrun
  simp only [Prod.mk.injEq] at heq
  obtain ⟨hlog, hcall, hone⟩ := heq
  exact ⟨s, hlog, event_not_slept_through hs hcall Phase.noConfusion (by rw [EventCall.user, hone]; decide)⟩

end EventRun

end XdmaDriver
