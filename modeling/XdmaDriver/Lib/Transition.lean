import Mathlib.Logic.Basic
import Mathlib.Data.List.Basic

namespace Transition

variable {σ α : Type*}

/-- States reached from `init` by steps that all meet `ok`. -/
inductive Reachable (step : σ → α → Option σ) (init : σ → Prop) (ok : σ → α → Prop) : σ → Prop
  | init {s : σ} (h : init s) : Reachable step init ok s
  | step {s s' : σ} {a : α} (hr : Reachable step init ok s) (ha : ok s a)
      (hs : step s a = some s') : Reachable step init ok s'

variable {step : σ → α → Option σ} {init : σ → Prop} {ok : σ → α → Prop}

theorem Reachable.invariant {I : σ → Prop} (hinit : ∀ s, init s → I s)
    (hstep : ∀ s a s', I s → ok s a → step s a = some s' → I s')
    {s : σ} (h : Reachable step init ok s) : I s := by
  induction h with
  | init h => exact hinit _ h
  | step _ ha hs ih => exact hstep _ _ _ ih ha hs

theorem Reachable.mono {ok' : σ → α → Prop} (hok : ∀ s a, ok s a → ok' s a) {s : σ}
    (h : Reachable step init ok s) : Reachable step init ok' s := by
  induction h with
  | init h => exact .init h
  | step _ ha hs ih => exact .step ih (hok _ _ ha) hs

def run (step : σ → α → Option σ) (ok : σ → α → Prop) [∀ s a, Decidable (ok s a)] (s : σ) :
    List α → Option σ
  | [] => some s
  | a :: as => if ok s a then (step s a).bind fun s' => run step ok s' as else none

theorem Reachable.of_run [∀ s a, Decidable (ok s a)] {as : List α} {s s' : σ}
    (h : Reachable step init ok s) (hrun : run step ok s as = some s') :
    Reachable step init ok s' := by
  induction as generalizing s with
  | nil =>
    obtain rfl := Option.some.inj hrun
    exact h
  | cons a as ih =>
    obtain ⟨ha, hrun⟩ := Option.ite_none_right_eq_some.mp hrun
    obtain ⟨t, ht, hrun⟩ := Option.bind_eq_some_iff.mp hrun
    exact ih (.step h ha ht) hrun

theorem exists_reachable [∀ s a, Decidable (ok s a)] {β : Type*} {as : List α} {s : σ} {f : σ → β}
    {b : β} (h : init s) (hrun : (run step ok s as).map f = some b) :
    ∃ s', Reachable step init ok s' ∧ f s' = b := by
  obtain ⟨s', hs', hf⟩ := Option.map_eq_some_iff.mp hrun
  exact ⟨s', .of_run (.init h) hs', hf⟩

end Transition
