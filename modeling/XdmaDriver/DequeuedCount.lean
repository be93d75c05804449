import XdmaDriver.Completions

/-!
`engine->desc_dequeued` against the completed count of the hardware, with `eop_flush` off.
-/

namespace XdmaDriver

open Transition Drv

namespace Drv

variable {p : Params}

theorem finalTransfer_dequeued {s : Drv} {h : XferRef} {c : ℕ} (herr : ¬ statusError s.eng.dir s.eng.status)
    (heop : s.eng.eopFlush = false) :
    (s.engineServiceFinalTransfer p (some h) c).eng.descDequeued = s.eng.descDequeued +
      (s.tfer h).descNum := by
  have hstate : (s.finalTransferState p h c).2 = true ∧
      (s.finalTransferState p h c).1.eng.descDequeued = s.eng.descDequeued + (s.tfer h).descNum := by
    unfold finalTransferState
    rw [if_neg herr]
    by_cases hc : c < (s.tfer h).descNum
    · rw [if_pos hc, heop]
      exact ⟨rfl, rfl⟩
    · rw [if_neg hc]
      exact ⟨rfl, rfl⟩
  simp only [engineServiceFinalTransfer]
  generalize s.finalTransferState p h c = r at hstate
  obtain ⟨s', del⟩ := r
  obtain ⟨rfl, hdeq⟩ := hstate
  exact hdeq

theorem engineServiceResume_busy {w : U32} {s : Drv} (hr : s.eng.running = true)
    (hl : s.eng.transferList ≠ []) :
    s.engineServiceResume p w = s := by
  unfold engineServiceResume
  rw [if_neg (by simp [hr]), if_neg hl]

theorem engineService_busy {wb : U32} {r : ServiceRegs} {s : Drv} {h u : XferRef} {tl : List XferRef}
    (hrun : s.eng.running = true) (hl : s.eng.transferList = h :: u :: tl) (hc : serviceCount wb r ≠ 0)
    (hle : u32Sub (serviceCount wb r) s.eng.descDequeued ≤ (s.tfer h).descNum) (heop : s.eng.eopFlush = false)
    (herr : ¬ statusError s.eng.dir (s.usedStatus wb r)) (hbusy : ¬ s.StopsFirst wb r) :
    (s.engineService p wb r).1.eng.running = true ∧ (s.engineService p wb r).1.eng.transferList = u :: tl ∧
      (s.engineService p wb r).1.eng.descDequeued = s.eng.descDequeued + (s.tfer h).descNum ∧
      (s.engineService p wb r).1.eng.starts = s.eng.starts := by
  have hentry := engineServiceEntry_sameQueue p wb r s
  obtain ⟨hst, hdir, hflush, hdeq, -, hss, -, hrn⟩ := engineServiceEntry_eng p wb r s
  rw [engineService_count hrun hc]
  rw [if_neg hbusy, hrun] at hrn
  generalize s.engineServiceEntry p wb r = s₀ at *
  obtain ⟨s₁, hperf, hq⟩ := engineServiceQueue_head (p := p) (w := r.status) (s := s₀)
    (n := serviceCount wb r)
    (hentry.list.trans hl) (by rw [hdeq, hentry.tfer]; exact hle)
  have herr₁ : ¬ statusError s₁.eng.dir s₁.eng.status := by
    rw [hperf.eng]
    change ¬ statusError s₀.eng.dir s₀.eng.status
    rwa [hdir, hst]
  have heop₁ : s₁.eng.eopFlush = false := by
    rw [hperf.eng]
    exact hflush.trans heop
  obtain ⟨hleft, hrunning, hstarts⟩ := finalTransfer_headLeft (p := p) (s := s₁) (h := h)
    (c := u32Sub (serviceCount wb r) s₀.eng.descDequeued) (.inr (.inl heop₁))
  have hcounted := finalTransfer_dequeued (p := p) (h := h)
    (c := u32Sub (serviceCount wb r) s₀.eng.descDequeued)
    herr₁ heop₁
  rw [hq]
  generalize s₁.engineServiceFinalTransfer p (some h)
    (u32Sub (serviceCount wb r) s₀.eng.descDequeued) = s₂ at *
  have hrun₂ : s₂.eng.running = true := by
    rw [hrunning, if_neg herr₁, hperf.eng]
    exact hrn
  have hlist₂ : s₂.eng.transferList = u :: tl := by
    rw [hleft.list, hperf.eng]
    change s₀.eng.transferList.tail = _
    rw [hentry.list, hl, List.tail_cons]
  rw [engineServiceResume_busy hrun₂ (by simp [hlist₂])]
  refine ⟨hrun₂, hlist₂, ?_, ?_⟩
  · rw [hcounted, hperf.eng, hperf.tfer, hentry.tfer]
    change s₀.eng.descDequeued + _ = _
    rw [hdeq]
  · rw [hstarts.starts, hperf.eng]
    exact hss

end Drv

structure ChainRun extends QueueRun where
  chain : ℕ := 0

namespace ChainRun

variable (p : Params)

def startedNum (s : Drv) : ℕ := s.eng.started.elim 0 fun t => (s.tfer t).descNum

def after (s : ChainRun) (q : QueueRun) : ChainRun :=
  { q with chain := if q.drv.eng.starts = s.drv.eng.starts then s.chain else startedNum q.drv }

def step (s : ChainRun) (a : QueueAct) : Option ChainRun := (s.toQueueRun.step p a).map s.after

def IdleNoFlush (s : ChainRun) : Prop := s.toQueueRun.IdleNoFlush

/-- Within a run of the engine the completed count never decreases, and it never exceeds the
chain; no wait ends. -/
def Counts (s : ChainRun) : QueueAct → Prop
  | .build _ _ => True
  | .queue _ _ => True
  | .service wb r => s.drv.eng.running = true → s.lastSeen ≤ serviceCount wb r ∧ serviceCount wb r ≤ s.chain
  | .wait _ _ => False

/-- Where the engine is BUSY without an error and a transfer waits behind the head, the count
covers the head in full. -/
def CoversHead (s : ChainRun) : QueueAct → Prop
  | .service wb r => s.drv.eng.running = true → serviceCount wb r ≠ 0 →
      statusError s.drv.eng.dir (s.drv.usedStatus wb r) ∨ s.drv.StopsFirst wb r ∨
      s.drv.eng.transferList.tail = [] ∨
        ∀ h ∈ s.drv.eng.transferList.head?, s.drv.eng.descDequeued +
          (s.drv.tfer h).descNum ≤ serviceCount wb r
  | _ => True

/-- No call underflows where it takes the descriptors dequeued from the completed count. -/
def NoUnderflow (s : ChainRun) : Prop :=
  ∀ wb r, s.Counts (.service wb r) → s.drv.eng.running = true → serviceCount wb r ≠ 0 →
    s.drv.eng.descDequeued ≤ serviceCount wb r

instance (s : ChainRun) (a : QueueAct) : Decidable (s.Counts a) := by
  apply @QueueAct.casesOn _ a <;> intros <;> (dsimp only [Counts]; infer_instance)

instance (s : ChainRun) (a : QueueAct) : Decidable (s.CoversHead a) := by
  apply @QueueAct.casesOn _ a <;> intros <;> (dsimp only [CoversHead]; infer_instance)

structure Behind (s : ChainRun) : Prop where
  eopFlush : s.drv.eng.eopFlush = false
  head : s.drv.eng.running = true → ∃ h tl, s.drv.eng.transferList = h :: tl ∧
    s.drv.eng.descDequeued ≤ s.lastSeen ∧
    (s.drv.eng.descDequeued = 0 ∧ (s.drv.tfer h).descNum = s.chain ∨ s.drv.eng.descDequeued = s.chain)

variable {p}

section

variable {s s' : ChainRun}

theorem behind_of_idle (h : s.IdleNoFlush) : s.Behind :=
  ⟨h.2, fun hr => by simp [h.1.2] at hr⟩

theorem Behind.noUnderflow (hs : s.Behind) : s.NoUnderflow := by
  intro wb r hcounts hrun _
  obtain ⟨-, -, -, hle, -⟩ := hs.head hrun
  exact hle.trans (hcounts hrun).1

variable {q : QueueRun}

theorem after_chain (h : q.drv.eng.starts = s.drv.eng.starts) : (s.after q).chain = s.chain := if_pos h

theorem after_started {d : Drv} {t : XferRef} {ts : List XferRef} {w : U32} (hstart : Started d q.drv t w)
    (hstarts : d.eng.starts = s.drv.eng.starts) (hflush : d.eng.eopFlush = false)
      (hl : d.eng.transferList = t :: ts) :
    (s.after q).Behind := by
  have hnew : q.drv.eng.starts ≠ s.drv.eng.starts := by
    rw [hstart.starts, hstarts]
    exact Nat.succ_ne_self _
  refine ⟨hstart.ring.config.eopFlush.trans hflush, fun _ => ?_⟩
  refine ⟨t, ts, hstart.transferList.trans hl, ?_, .inl ⟨hstart.dequeued, ?_⟩⟩
  · change q.drv.eng.descDequeued ≤ _
    rw [hstart.dequeued]
    exact Nat.zero_le _
  · change _ = if q.drv.eng.starts = s.drv.eng.starts then s.chain else startedNum q.drv
    rw [if_neg hnew, startedNum, hstart.started]
    rfl

structure GoesOn (s : ChainRun) (q : QueueRun) : Prop where
  running : s.drv.eng.running = true
  starts : q.drv.eng.starts = s.drv.eng.starts
  dequeued : q.drv.eng.descDequeued = s.drv.eng.descDequeued
  seen : s.lastSeen ≤ q.lastSeen
  head : ∀ h tl, s.drv.eng.transferList = h :: tl →
    (∃ tl', q.drv.eng.transferList = h :: tl') ∧ (q.drv.tfer h).descNum = (s.drv.tfer h).descNum

theorem Behind.after_same (hs : s.Behind) (hflush : q.drv.eng.eopFlush = false)
    (hon : q.drv.eng.running = true → s.GoesOn q) : (s.after q).Behind := by
  refine ⟨hflush, fun hr => ?_⟩
  have hon := hon hr
  obtain ⟨h, tl, hl, hle, hchain⟩ := hs.head hon.running
  obtain ⟨⟨tl', hl'⟩, hnum⟩ := hon.head h tl hl
  refine ⟨h, tl', hl', ?_, ?_⟩
  · change q.drv.eng.descDequeued ≤ q.lastSeen
    rw [hon.dequeued]
    exact hle.trans hon.seen
  · change q.drv.eng.descDequeued = 0 ∧ (q.drv.tfer h).descNum = (s.after q).chain ∨
      q.drv.eng.descDequeued = (s.after q).chain
    rw [after_chain hon.starts, hon.dequeued, hnum]
    exact hchain

theorem build_behind {t : XferRef} {x : XdmaTransfer} (hs : s.Behind)
    (h : s.toQueueRun.step p (.build t x) = some q) : (s.after q).Behind := by
  simp only [QueueRun.step, Option.ite_none_left_eq_some, Option.some.injEq] at h
  obtain ⟨ht, rfl⟩ := h
  refine hs.after_same hs.eopFlush fun hr => ⟨hr, rfl, rfl, le_refl _, fun u tl hl => ⟨⟨tl, hl⟩, ?_⟩⟩
  have hu : u ≠ t := fun he => ht (by rw [hl, he]; exact List.mem_cons_self)
  simp only [modify_of_ne _ _ _ _ hu]

theorem queue_behind {t : XferRef} {w : U32} (hs : s.Behind) (h : s.toQueueRun.step p (.queue t w) = some q) :
    (s.after q).Behind := by
  simp only [QueueRun.step, Option.ite_none_left_eq_some, Option.some.injEq] at h
  obtain ⟨ht, rfl⟩ := h
  by_cases hacc : s.drv.Accepts t
  · obtain ⟨hqueued, -⟩ := transferQueue_accepted (p := p) (w := w) hacc
    by_cases hrun : s.drv.eng.running = true
    · have hbusy := hqueued.busy hrun
      have hstarts : (s.drv.transferQueue p t w).1.eng.starts = s.drv.eng.starts := by rw [hbusy]
      refine hs.after_same (hqueued.ring.config.eopFlush.trans hs.eopFlush) fun _ =>
        ⟨hrun, hstarts, ?_, ?_, ?_⟩
      · change (s.drv.transferQueue p t w).1.eng.descDequeued = _
        rw [hbusy]
      · change s.lastSeen ≤ if s.seenAt = (s.drv.transferQueue p t w).1.eng.starts then s.seen else 0
        rw [hstarts]
        exact le_refl _
      · intro u tl hl
        refine ⟨⟨tl ++ [t], ?_⟩, (hqueued.same u).1⟩
        exact hqueued.list.trans (by rw [hl, List.cons_append])
    · obtain ⟨w', hstart⟩ := hqueued.idle (by simpa using hrun)
      obtain ⟨u, tl, hl⟩ := List.exists_cons_of_ne_nil (show s.drv.eng.transferList ++ [t] ≠ [] by simp)
      simp only [hl, List.head_cons] at hstart
      exact after_started hstart rfl hs.eopFlush hl
  · simp only [(transferQueue_refused (p := p) (w := w) hacc).1]
    exact hs.after_same hs.eopFlush fun hr => ⟨hr, rfl, rfl, le_refl _, fun u tl hl => ⟨⟨tl, hl⟩, rfl⟩⟩

theorem service_run {wb : U32} {r : ServiceRegs} (hrun : s.drv.eng.running = true)
    (h : s.toQueueRun.step p (.service wb r) = some q) :
    q = ⟨(s.drv.engineService p wb r).1, serviceCount wb r, s.drv.eng.starts⟩ := by
  simp only [QueueRun.step, hrun, ↓reduceIte, Option.some.injEq] at h
  exact h.symm

theorem left_le {c dequeued chain n : ℕ} (hc : c < 2 ^ 32) (hle : dequeued ≤ c) (hchain : c ≤ chain)
    (h : dequeued = 0 ∧ n = chain ∨ dequeued = chain) : u32Sub c dequeued ≤ n := by
  rw [u32Sub_of_le hle hc]
  omega

structure Passed (s : ChainRun) (s' : ChainRun) (h u : XferRef) (tl : List XferRef) (c : ℕ) : Prop where
  running : s'.drv.eng.running = true
  eopFlush : s'.drv.eng.eopFlush = false
  list : s'.drv.eng.transferList = u :: tl
  dequeued : s'.drv.eng.descDequeued = s.drv.eng.descDequeued + (s.drv.tfer h).descNum
  seen : s'.lastSeen = c
  chain : s'.chain = s.chain

theorem service_passes {wb : U32} {r : ServiceRegs} {h u : XferRef} {tl : List XferRef} (hs : s.Behind)
    (hrun : s.drv.eng.running = true) (hc : serviceCount wb r ≠ 0)
      (hl : s.drv.eng.transferList = h :: u :: tl)
    (hle : u32Sub (serviceCount wb r) s.drv.eng.descDequeued ≤ (s.drv.tfer h).descNum)
    (herr : ¬ statusError s.drv.eng.dir (s.drv.usedStatus wb r)) (hbusy : ¬ s.drv.StopsFirst wb r)
    (hstep : s.toQueueRun.step p (.service wb r) = some q) :
      s.Passed (s.after q) h u tl (serviceCount wb r) := by
  obtain ⟨hrunning, hlist, hdeq, hstarts⟩ := engineService_busy (p := p) hrun hl hc hle hs.eopFlush herr hbusy
  obtain rfl := service_run hrun hstep
  refine ⟨hrunning, ?_, hlist, hdeq, ?_, after_chain hstarts⟩
  · obtain ⟨out, heffect⟩ := engineService_effect p wb r s.drv
    exact heffect.ring.config.eopFlush.trans hs.eopFlush
  · exact if_pos hstarts.symm

theorem service_ends {wb : U32} {r : ServiceRegs} {h : XferRef} {tl : List XferRef} (hs : s.Behind)
    (hrun : s.drv.eng.running = true) (hc : serviceCount wb r ≠ 0) (hl : s.drv.eng.transferList = h :: tl)
    (hle : u32Sub (serviceCount wb r) s.drv.eng.descDequeued ≤ (s.drv.tfer h).descNum)
    (hend : (statusError s.drv.eng.dir (s.drv.usedStatus wb r) ∨ s.drv.StopsFirst wb r) ∨ tl = [])
    (hstep : s.toQueueRun.step p (.service wb r) = some q) : (s.after q).Behind := by
  obtain rfl := service_run hrun hstep
  obtain ⟨s₁, hsvc, hleft, hrunning, hstarts⟩ :=
    engineService_headLeft (p := p) hrun hl hc hle (.inr (.inl hs.eopFlush))
  have hlist : s₁.eng.transferList = tl := by rw [hleft.list, hl, List.tail_cons]
  have hflush : s₁.eng.eopFlush = false := hleft.ring.config.eopFlush.trans hs.eopFlush
  cases tl with
  | nil =>
    have hidle : (s.drv.engineService p wb r).1.eng.running ≠ true := by
      rw [hsvc, Ne, engineServiceResume_iff, not_not]
      exact hlist
    refine hs.after_same ?_ fun hr => absurd hr hidle
    change (s.drv.engineService p wb r).1.eng.eopFlush = false
    rw [hsvc]
    exact (engineServiceResume_sameQueue p r.status s₁).ring.config.eopFlush.trans hflush
  | cons u tl =>
    have hstopped : s₁.eng.running = false := by
      rw [hrunning]
      exact if_pos (hend.resolve_right (List.cons_ne_nil u tl))
    have hstart := engineServiceResume_started (p := p) (w := r.status) hstopped hlist
    rw [hsvc]
    exact after_started hstart hstarts.starts hflush hlist

theorem service_behind {wb : U32} {r : ServiceRegs} (hs : s.Behind) (hcounts : s.Counts (.service wb r))
    (hcovers : s.CoversHead (.service wb r)) (hstep : s.toQueueRun.step p (.service wb r) = some q) :
    (s.after q).Behind := by
  have hdrv := QueueRun.step_service_drv hstep
  by_cases hrun : s.drv.eng.running = true
  · obtain ⟨hseen, hchain⟩ := hcounts hrun
    by_cases hc : serviceCount wb r = 0
    · rw [engineService_zero hrun hc] at hdrv
      have hq := engineServiceEntry_sameQueue p wb r s.drv
      obtain ⟨-, -, hflush, hdeq, -, hstarts, -, -⟩ := engineServiceEntry_eng p wb r s.drv
      rw [← hdrv] at hq hflush hdeq hstarts
      refine hs.after_same (hflush.trans hs.eopFlush) fun _ => ⟨hrun, hstarts, hdeq, ?_, fun h tl hl => ?_⟩
      · exact hseen.trans (hc ▸ Nat.zero_le _)
      · exact ⟨⟨tl, hq.list.trans hl⟩, by rw [hq.tfer]⟩
    · obtain ⟨h, tl, hl, hle, hhead⟩ := hs.head hrun
      have hleft := left_le (serviceCount_lt wb r) (hle.trans hseen) hchain hhead
      by_cases hend : (statusError s.drv.eng.dir (s.drv.usedStatus wb r) ∨ s.drv.StopsFirst wb r) ∨ tl = []
      · exact service_ends hs hrun hc hl hleft hend hstep
      · obtain ⟨hgo, hne⟩ := not_or.mp hend
        obtain ⟨herr, hbusy⟩ := not_or.mp hgo
        obtain ⟨u, tl', rfl⟩ := List.exists_cons_of_ne_nil hne
        have hpassed := service_passes hs hrun hc hl hleft herr hbusy hstep
        have hcover : s.drv.eng.descDequeued + (s.drv.tfer h).descNum ≤ serviceCount wb r := by
          rcases hcovers hrun hc with he | he | he | he
          · exact absurd he herr
          · exact absurd he hbusy
          · exact absurd he (by simp [hl])
          · exact he h (by simp [hl])
        refine ⟨hpassed.eopFlush, fun _ => ⟨u, tl', hpassed.list, ?_, .inr ?_⟩⟩
        · rw [hpassed.dequeued, hpassed.seen]
          exact hcover
        · rw [hpassed.dequeued, hpassed.chain]
          omega
  · have hidle : s.drv.eng.running = false := by simpa using hrun
    rw [engineService_stopped hidle] at hdrv
    have hflush : q.drv.eng.eopFlush = false := by
      rw [hdrv]
      exact hs.eopFlush
    refine hs.after_same hflush fun hr => ?_
    rw [hdrv] at hr
    exact absurd hr hrun

theorem step_behind {a : QueueAct} (hs : s.Behind) (hok : s.Counts a ∧ s.CoversHead a)
    (h : s.step p a = some s') :
    s'.Behind := by
  obtain ⟨q, hq, rfl⟩ := Option.map_eq_some_iff.mp h
  cases a with
  | build t x => exact build_behind hs hq
  | queue t w => exact queue_behind hs hq
  | service wb r => exact service_behind hs hok.1 hok.2 hq
  | wait t r => exact hok.1.elim

/-- A call that does not cover the head leaves more dequeued than the hardware completed. -/
theorem service_overtakes {wb : U32} {r : ServiceRegs} (hs : s.Behind) (hcounts : s.Counts (.service wb r))
    (hcovers : ¬ s.CoversHead (.service wb r)) (h : s.step p (.service wb r) = some s') :
      ¬ s'.NoUnderflow := by
  obtain ⟨q, hq, rfl⟩ := Option.map_eq_some_iff.mp h
  simp only [CoversHead, Classical.not_imp, not_or] at hcovers
  obtain ⟨hrun, hc, herr, hbusy, hne, hshort⟩ := hcovers
  obtain ⟨h, tl, hl, hle, hhead⟩ := hs.head hrun
  obtain ⟨hseen, hchain⟩ := hcounts hrun
  rw [hl, List.tail_cons] at hne
  obtain ⟨u, tl', rfl⟩ := List.exists_cons_of_ne_nil hne
  have hleft := left_le (serviceCount_lt wb r) (hle.trans hseen) hchain hhead
  have hpassed := service_passes hs hrun hc hl hleft herr hbusy hq
  intro hno
  -- the next call may read the same count
  have hagain := hno wb r (fun _ => ⟨hpassed.seen.le, hpassed.chain ▸ hchain⟩) hpassed.running hc
  rw [hpassed.dequeued] at hagain
  exact hshort fun v hv => by
    rw [hl, List.head?_cons, Option.mem_some] at hv
    exact hv ▸ hagain

theorem step_noUnderflow_iff {a : QueueAct} (hs : s.Behind) (hcounts : s.Counts a)
    (h : s.step p a = some s') :
    s'.NoUnderflow ↔ s.CoversHead a := by
  constructor
  · intro hno
    cases a with
    | service wb r =>
      by_contra hcovers
      exact service_overtakes hs hcounts hcovers h hno
    | build t x => exact trivial
    | queue t w => exact trivial
    | wait t r => exact trivial
  · exact fun hcovers => (step_behind hs ⟨hcounts, hcovers⟩ h).noUnderflow

end

/-- The descriptors dequeued stay within the completed count while every call covers the head it
takes off the list. -/
theorem dequeued_within_count {s : ChainRun}
    (h : Reachable (step p) IdleNoFlush (fun s a => s.Counts a ∧ s.CoversHead a) s) :
    s.NoUnderflow ∧ ∀ a s', s.Counts a → s.step p a = some s' → (s'.NoUnderflow ↔ s.CoversHead a) := by
  have hs : s.Behind := h.invariant (fun _ => behind_of_idle) fun _ _ _ hI hok hstep =>
    step_behind hI hok hstep
  exact ⟨hs.noUnderflow, fun a s' hcounts hstep => step_noUnderflow_iff hs hcounts hstep⟩

theorem dequeued_within_count_twoQueued : ∃ s : ChainRun, s.drv.eng.transferList = [⟨1, 0⟩] ∧
    s.drv.eng.running = true ∧ s.drv.eng.descDequeued = 2 ∧ s.NoUnderflow := by
  have hidle : IdleNoFlush {} := ⟨⟨rfl, rfl⟩, rfl⟩
  have hrun : (run (step {}) (fun s a => s.Counts a ∧ s.CoversHead a) {}
      (QueueRun.twoQueued ++ [.service 0 ⟨1, 2, 1⟩])).map
      (fun s => (s.drv.eng.transferList, s.drv.eng.running, s.drv.eng.descDequeued)) =
        some ([⟨1, 0⟩], true, 2) := by
    decide
  obtain ⟨s, hs, heq⟩ := exists_reachable hidle hrun
  simp only [Prod.mk.injEq] at heq
  obtain ⟨hl, hr, hd⟩ := heq
  exact ⟨s, hl, hr, hd, (dequeued_within_count hs).1⟩

/-- The engine is found BUSY with one of the two descriptors done: both are counted. -/
theorem dequeued_overtakes : ¬ ∀ (p : Params) (s : ChainRun), Reachable (step p) IdleNoFlush Counts s →
    s.NoUnderflow := by
  intro h
  have hidle : IdleNoFlush {} := ⟨⟨rfl, rfl⟩, rfl⟩
  have hrun : (run (step {}) Counts {} (QueueRun.twoQueued ++ [.service 0 ⟨1, 1, 1⟩])).map
      (fun s => (decide (s.Counts (.service 0 ⟨1, 1, 1⟩)), s.drv.eng.running, s.drv.eng.descDequeued)) =
        some (true, true, 2) := by decide
  obtain ⟨s, hs, heq⟩ := exists_reachable hidle hrun
  simp only [Prod.mk.injEq, decide_eq_true_eq] at heq
  obtain ⟨hcounts, hr, hd⟩ := heq
  have hle := h {} s hs 0 ⟨1, 1, 1⟩ hcounts hr (by decide)
  rw [hd] at hle
  exact absurd hle (by decide)

end ChainRun

end XdmaDriver
