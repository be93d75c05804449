import XdmaDriver.Service
import XdmaDriver.Lib.Transition

/-!
The loop of `engine_service_wb_monitor`, which takes the writeback word in two steps, and the
device, which writes its completed counts to the word at any time.
-/

namespace XdmaDriver

open Transition

def WbDone (expected wb : U32) : Prop := Drv.wbErr wb = true ∨ expected ≤ wb

instance (expected wb : U32) : Decidable (WbDone expected wb) := inferInstanceAs (Decidable (_ ∨ _))

def wbTimeout (expected wb : U32) : U32 := if expected < wb &&& wbCountMask then expected ||| wbErrMask
    else wb

/-- The loop, for the words that it reads until it ends or times out. -/
def wbLoop (expected : U32) : List U32 → U32 → U32
  | [], wb => wbTimeout expected wb
  | wb :: words, _ => if WbDone expected wb then wb else wbLoop expected words wb

def engineServiceWbMonitor (expected : U32) (words : List U32) : U32 :=
  if expected = 0 then 0 else wbLoop expected words 0

/-- Where the monitor is: at the read, at the clear of a word that is not zero, at the tests
that follow, or returned. -/
inductive MonitorPc
  | read (expected : U32)
  | clear (expected wb : U32)
  | test (expected wb : U32)
  | returned (wb : U32)
  deriving DecidableEq, Repr

def MonitorPc.toClear : MonitorPc → Option U32
  | .clear _ wb => some wb
  | _ => none

structure WbRun where
  word : U32 := 0
  newest : U32 := 0
  pc : MonitorPc := .returned 0
  seen : List U32 := []
  words : List U32 := []
  deriving DecidableEq

inductive WbAct
  | device (count : U32)
  | call (expected : U32)
  | read
  | clear
  | test (timeout : Bool)
  deriving DecidableEq

namespace WbRun

def step (s : WbRun) : WbAct → Option WbRun
  | .device count => if s.newest < count then some { s with word := count, newest := count } else none
  | .call expected =>
    match s.pc with
    | .returned _ => some { s with pc := if expected = 0 then .returned 0 else .read expected, words := [] }
    | _ => none
  | .read =>
    match s.pc with
    | .read expected =>
      some { s with
        pc := if s.word ≠ 0 then .clear expected s.word else .test expected s.word
        seen := s.seen ++ [s.word]
        words := s.words ++ [s.word] }
    | _ => none
  | .clear =>
    match s.pc with
    | .clear expected wb => some { s with word := 0, pc := .test expected wb }
    | _ => none
  | .test timeout =>
    match s.pc with
    | .test expected wb =>
      some { s with
        pc := if WbDone expected wb then .returned wb
          else if timeout then .returned (wbTimeout expected wb) else .read expected }
    | _ => none

/-- The newest count is in the word or has been read. -/
def Kept (s : WbRun) : Prop := s.newest = 0 ∨ s.word = s.newest ∨ s.newest ∈ s.seen

instance (s : WbRun) : Decidable s.Kept := inferInstanceAs (Decidable (_ ∨ _ ∨ _))

/-- A clear finds the word that has been read. -/
def Undisturbed (s : WbRun) : WbAct → Prop
  | .clear => ∀ wb ∈ s.pc.toClear, s.word = wb
  | _ => True

instance (s : WbRun) : ∀ a, Decidable (s.Undisturbed a)
  | .clear => Option.decidableForallMem s.pc.toClear
  | .device _ | .call _ | .read | .test _ => inferInstanceAs (Decidable True)

def Starts (s : WbRun) : Prop := s = {}

theorem step_cases {s s' : WbRun} {a : WbAct} (h : s.step a = some s') :
    (∃ count, a = .device count ∧ s.newest < count ∧ s' = { s with word := count, newest := count }) ∨
    (∃ expected wb, a = .call expected ∧ s.pc = .returned wb ∧
      s' = { s with pc := if expected = 0 then .returned 0 else .read expected, words := [] }) ∨
    (∃ expected, a = .read ∧ s.pc = .read expected ∧
      s' = { s with
        pc := if s.word ≠ 0 then .clear expected s.word else .test expected s.word
        seen := s.seen ++ [s.word]
        words := s.words ++ [s.word] }) ∨
    (∃ expected wb, a = .clear ∧ s.pc = .clear expected wb ∧
      s' = { s with word := 0, pc := .test expected wb }) ∨
    ∃ timeout expected wb, a = .test timeout ∧ s.pc = .test expected wb ∧
      s' = { s with
        pc := if WbDone expected wb then .returned wb
          else if timeout then .returned (wbTimeout expected wb) else .read expected } := by
  cases a with
  | device count =>
    obtain ⟨hlt, h⟩ := Option.ite_none_right_eq_some.mp h
    exact .inl ⟨count, rfl, hlt, (Option.some.inj h).symm⟩
  | call expected =>
    cases hpc : s.pc <;> simp only [step, hpc] at h <;> cases h
    exact .inr (.inl ⟨_, _, rfl, rfl, rfl⟩)
  | read =>
    cases hpc : s.pc <;> simp only [step, hpc] at h <;> cases h
    exact .inr (.inr (.inl ⟨_, rfl, rfl, rfl⟩))
  | clear =>
    cases hpc : s.pc <;> simp only [step, hpc] at h <;> cases h
    exact .inr (.inr (.inr (.inl ⟨_, _, rfl, rfl, rfl⟩)))
  | test timeout =>
    cases hpc : s.pc <;> simp only [step, hpc] at h <;> cases h
    exact .inr (.inr (.inr (.inr ⟨_, _, _, rfl, rfl, rfl⟩)))

/-- The device writes counts that it has not written before, and the monitor only what it has
read. -/
structure Inv (s : WbRun) : Prop where
  word : s.word = 0 ∨ s.word = s.newest
  seen : ∀ w ∈ s.seen, w.toNat ≤ s.newest.toNat
  clear : ∀ expected wb, s.pc = .clear expected wb → wb ∈ s.seen ∧ s.word ≠ 0 ∧
    (s.newest ∈ s.seen → wb = s.newest)

theorem Inv.step {s s' : WbRun} {a : WbAct} (h : Inv s) (hs : s.step a = some s') : Inv s' := by
  rcases step_cases hs with ⟨count, -, hlt, rfl⟩ | ⟨expected, wb, -, -, rfl⟩ | ⟨expected, -, -, rfl⟩ |
    ⟨expected, wb, -, -, rfl⟩ | ⟨timeout, expected, wb, -, -, rfl⟩
  · rw [BitVec.lt_def] at hlt
    refine ⟨.inr rfl, ?_, ?_⟩
    · intro w hw
      exact (h.seen w hw).trans hlt.le
    · intro expected wb hpc
      obtain ⟨hmem, -, -⟩ := h.clear expected wb hpc
      refine ⟨hmem, ?_, ?_⟩
      · rintro rfl
        exact Nat.not_lt_zero _ hlt
      · intro hnew
        exact absurd (h.seen count hnew) (not_le.mpr hlt)
  · refine ⟨h.word, h.seen, ?_⟩
    intro e w hclear
    dsimp only at hclear
    split_ifs at hclear
  · refine ⟨h.word, ?_, ?_⟩
    · intro w hw
      rcases List.mem_append.mp hw with hw | hw
      · exact h.seen w hw
      · rw [List.mem_singleton.mp hw]
        rcases h.word with hz | hn
        · rw [hz]
          exact Nat.zero_le _
        · rw [hn]
    · intro e w hclear
      dsimp only at hclear
      split_ifs at hclear with hne
      obtain ⟨rfl, rfl⟩ := MonitorPc.clear.inj hclear
      exact ⟨by simp, hne, fun _ => h.word.resolve_left hne⟩
  · refine ⟨.inl rfl, h.seen, ?_⟩
    intro e w hclear
    cases hclear
  · refine ⟨h.word, h.seen, ?_⟩
    intro e w hclear
    dsimp only at hclear
    split_ifs at hclear

theorem Inv.reachable {ok : WbRun → WbAct → Prop} {s : WbRun} (h : Reachable WbRun.step Starts ok s) :
    Inv s := by
  refine h.invariant ?_ fun s a s' hs _ hstep => hs.step hstep
  rintro s rfl
  exact ⟨.inl rfl, by simp, fun e w hclear => by cases hclear⟩

/-- A step keeps the newest count unless it clears one that has come after the read. -/
theorem kept_step {s s' : WbRun} {a : WbAct} (hi : Inv s) (hk : s.Kept) (hs : s.step a = some s') :
    s'.Kept ↔ s.Undisturbed a := by
  rcases step_cases hs with ⟨count, rfl, -, rfl⟩ | ⟨expected, wb, rfl, -, rfl⟩ | ⟨expected, rfl, -, rfl⟩ |
    ⟨expected, wb, rfl, hpc, rfl⟩ | ⟨timeout, expected, wb, rfl, -, rfl⟩
  · exact iff_of_true (.inr (.inl rfl)) trivial
  · exact iff_of_true hk trivial
  · refine iff_of_true (hk.imp id (Or.imp id fun h => ?_)) trivial
    exact List.mem_append_left _ h
  · obtain ⟨hmem, hne, hold⟩ := hi.clear expected wb hpc
    have hword := hi.word.resolve_left hne
    have hund : s.Undisturbed .clear ↔ s.word = wb := by simp [Undisturbed, hpc, MonitorPc.toClear]
    rw [hund]
    constructor
    · rintro (hz | hz | hseen)
      · exact absurd (hword.trans hz) hne
      · -- the word is zero now, and no count is
        exact absurd (hword.trans hz.symm) hne
      · exact hword.trans (hold hseen).symm
    · intro heq
      refine .inr (.inr ?_)
      change s.newest ∈ s.seen
      rw [← hword, heq]
      exact hmem
  · exact iff_of_true hk trivial

/-- In a run in which the device never writes between a read and its clear, the newest count is
kept, and a next step loses it exactly if it is such a clear. -/
theorem newest_kept_iff {s : WbRun} (h : Reachable step Starts Undisturbed s) :
    s.Kept ∧ ∀ a s', s.step a = some s' → (s'.Kept ↔ s.Undisturbed a) := by
  have hboth : Inv s ∧ s.Kept := by
    refine h.invariant (I := fun s => Inv s ∧ s.Kept) ?_ ?_
    · rintro s rfl
      exact ⟨@Inv.reachable Undisturbed _ (.init rfl), .inl rfl⟩
    · rintro s a s' ⟨hi, hk⟩ hok hstep
      exact ⟨hi.step hstep, (kept_step hi hk hstep).mpr hok⟩
  exact ⟨hboth.2, fun a s' => kept_step hboth.1 hboth.2⟩

theorem newest_kept_iff_two : ∃ s : WbRun, s.newest = 2 ∧ s.seen = [1, 2] ∧ s.Kept := by
  have hrun : (run step Undisturbed {} [.call 2, .device 1, .read, .clear, .test false, .device 2,
    .read, .clear]).map
      (fun s => (s.newest, s.seen)) = some (2, [1, 2]) := by decide
  obtain ⟨s, hreach, hs⟩ := exists_reachable (show Starts {} from rfl) hrun
  exact ⟨s, congrArg Prod.fst hs, congrArg Prod.snd hs, (newest_kept_iff hreach).1⟩

/-- The device writes the second count after the monitor has read the first. -/
theorem newest_lost : ¬ ∀ s : WbRun, Reachable step Starts (fun _ _ => True) s → s.Kept := by
  intro h
  have hrun : (run step (fun _ _ => True) {} [.call 2, .device 1, .read, .device 2, .clear]).map
      (fun s => decide s.Kept) = some false := by decide
  obtain ⟨s, hreach, hs⟩ := exists_reachable (show Starts {} from rfl) hrun
  exact of_decide_eq_false hs (h s hreach)

end WbRun

end XdmaDriver
