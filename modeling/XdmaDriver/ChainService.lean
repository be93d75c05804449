import XdmaDriver.ChainOutcomes
import XdmaDriver.HeadService

/-!
One chain on an engine with no other transfer: the service calls up to the one that takes
it off the queue, in `eop_flush` mode.
-/

namespace XdmaDriver

open Drv

/-- A step of the hardware, and of the service calls it causes. -/
def EngineStep.fromHardware : EngineStep → Bool
  | .service _ _ => true
  | .result _ _ => true
  | _ => false

def XdmaResult.Eop (w : XdmaResult) : Prop := w.status &&& rxStatusEop ≠ 0

instance (w : XdmaResult) : Decidable w.Eop := inferInstanceAs (Decidable (_ ≠ _))

def Reported (x : XdmaTransfer) (words : ℕ → XdmaResult) (n : ℕ) : Prop :=
  n = x.descNum ∨ ∃ i < n, (words (x.descIndex + i)).Eop

instance (x : XdmaTransfer) (words : ℕ → XdmaResult) (n : ℕ) : Decidable (Reported x words n) :=
  inferInstanceAs (Decidable (_ ∨ _))

def firstReport (x : XdmaTransfer) : (ℕ → XdmaResult) → List EngineStep → Option (ℕ × List EngineStep)
  | _, [] => none
  | words, st :: sts =>
    match st with
    | .service wb r => if Reported x words (serviceCount wb r) then some (serviceCount wb r, sts)
        else firstReport x words sts
    | .result i w => firstReport x (Function.update words i w) sts
    | _ => firstReport x words sts

/-- The hardware writes the result words and the counts of one chain: it reports no more
descriptors than there are, and the words it has reported stay. -/
structure ChainEvents (x : XdmaTransfer) (words : ℕ → XdmaResult) (sts : List EngineStep) : Prop where
  hardware : ∀ st ∈ sts, st.fromHardware = true
  counts : ∀ wb r, .service wb r ∈ sts → serviceCount wb r ≤ x.descNum
  kept : ∀ n post, firstReport x words sts = some (n, post) → ∀ i w, .result i w ∈ post →
    ¬ (x.descIndex ≤ i ∧ i < x.descIndex + n)

namespace Drv

structure SoleWaiting (x : XdmaTransfer) (t : XferRef) (s : Drv) : Prop where
  list : s.eng.transferList = [t]
  dequeued : s.eng.running = true → s.eng.descDequeued = 0
  same : x.SameRequest (s.tfer t)
  state : (s.tfer t).state = .submitted
  noEop : (s.tfer t).eopRcved = false

structure SoleTaken (x : XdmaTransfer) (t : XferRef) (s : Drv) : Prop where
  list : s.eng.transferList = []
  stopped : s.eng.running = false
  same : x.SameRequest (s.tfer t)

structure CompletedBy (x : XdmaTransfer) (t : XferRef) (n : ℕ) (s : Drv) : Prop where
  state : (s.tfer t).state = .completed
  cmpl : (s.tfer t).descCmpl = n
  eop : n < x.descNum ∧ (s.tfer t).eopRcved = true ∧ (∃ i < n, (s.eng.cyclicResult (x.descIndex + i)).Eop) ∨
    n = x.descNum ∧ (s.tfer t).eopRcved = false

theorem eopSeen_iff {e : XdmaEngine} {x : XdmaTransfer} {n : ℕ} :
    eopSeen e x n = true ↔ ∃ i < n, (e.cyclicResult (x.descIndex + i)).Eop := by
  simp [eopSeen, XdmaResult.Eop]

theorem CompletedBy.reported {x : XdmaTransfer} {t : XferRef} {n : ℕ} {s : Drv} (h : CompletedBy x t n s) :
    Reported x s.eng.cyclicResult n := by
  rcases h.eop with ⟨-, -, hseen⟩ | ⟨he, -⟩
  · exact .inr hseen
  · exact .inl he

variable {p : Params} {x : XdmaTransfer} {t : XferRef} {s : Drv}

theorem SoleWaiting.of_sameQueue {s' : Drv} (h : SoleWaiting x t s) (hq : SameQueue s s')
    (hd : s'.eng.running = true → s'.eng.descDequeued = 0) : SoleWaiting x t s' := by
  constructor
  · rw [hq.list, h.list]
  · exact hd
  · rw [hq.tfer]
    exact h.same
  · rw [hq.tfer]
    exact h.state
  · rw [hq.tfer]
    exact h.noEop

theorem engineServiceResume_dequeued (p : Params) (w : U32) (h : s.eng.transferList ≠ [])
    (hd : s.eng.running = true → s.eng.descDequeued = 0) :
      (s.engineServiceResume p w).eng.descDequeued = 0 := by
  by_cases hr : s.eng.running = true
  · have hsame : s.engineServiceResume p w = s := by
      unfold engineServiceResume
      simp [hr, h]
    rw [hsame]
    exact hd hr
  · obtain ⟨u, us, hl⟩ := List.exists_cons_of_ne_nil h
    exact (engineServiceResume_started (by simpa using hr) hl).dequeued

theorem engineServiceResume_stopped (p : Params) (w : U32) (h : s.eng.transferList = []) :
    (s.engineServiceResume p w).eng.running = false := by
  by_contra hr
  exact (engineServiceResume_iff p w s).mp (by simpa using hr) h

theorem SoleWaiting.final (h : SoleWaiting x t s) (hflush : s.eng.eopFlush = true) {n : ℕ}
    (hn : n ≤ x.descNum)
    (w : U32) {s' : Drv} (hs : engineServiceResume p w (s.engineServiceFinalTransfer p (some t) n) = s') :
    s'.eng.cyclicResult = s.eng.cyclicResult ∧ (SoleWaiting x t s' ∧ ¬ Reported x s.eng.cyclicResult n ∨
      SoleTaken x t s' ∧ ((s'.tfer t).state = .failed ∨ CompletedBy x t n s')) := by
  have hspec := finalTransferState_spec p s t n
  have hring := hspec.ring
  have hsame := h.same.trans hspec.same
  have hnum := h.same.1
  have hseen : eopSeen s.eng (s.tfer t) n = true ↔ ∃ i < n, (s.eng.cyclicResult (x.descIndex + i)).Eop := by
    rw [eopSeen_iff, ← h.same.2.1]
  have hcases : (s.finalTransferState p t n).2 = false ∧
    ((s.finalTransferState p t n).1.tfer t).eopRcved = false ∧
        (s.finalTransferState p t n).1.eng = s.eng ∧ ¬ Reported x s.eng.cyclicResult n ∨
      (s.finalTransferState p t n).2 = true ∧ (((s.finalTransferState p t n).1.tfer t).state = .failed ∨
        CompletedBy x t n (s.finalTransferState p t n).1) := by
    unfold finalTransferState
    by_cases herr : statusError s.eng.dir s.eng.status
    · simp [herr, engineErrHandle]
    by_cases hlt : n < (s.tfer t).descNum
    · simp only [herr, hlt, hflush, ↓reduceIte, h.noEop, Bool.false_or]
      cases heop : eopSeen s.eng (s.tfer t) n
      · rw [heop] at hseen
        simp only [Bool.false_eq_true, false_iff] at hseen
        exact .inl ⟨rfl, by simp, rfl, not_or.mpr ⟨by omega, hseen⟩⟩
      · refine .inr ⟨rfl, .inr ⟨?_, ?_, .inl ⟨hnum ▸ hlt, ?_, hseen.mp heop⟩⟩⟩
        · simp
        · simp [engineServiceShutdown]
        · simp [engineServiceShutdown]
    · simp only [herr, hlt, ↓reduceIte]
      refine .inr ⟨trivial, .inr ⟨?_, ?_, .inr ⟨by omega, ?_⟩⟩⟩
      · simp
      · have heq : (s.tfer t).descNum = n := by omega
        simp [heq]
      · simp [h.noEop]
  rw [engineServiceFinalTransfer] at hs
  generalize s.finalTransferState p t n = r at *
  obtain ⟨s₁, del⟩ := r
  dsimp only at *
  rcases hcases with ⟨rfl, hno, heng, hrep⟩ | ⟨rfl, hfin⟩
  · have hlist : s₁.eng.transferList = [t] := hspec.list.trans h.list
    have hw : SoleWaiting x t s₁ := ⟨hlist, by rw [heng]; exact h.dequeued, hsame,
      (hspec.kept rfl).trans h.state, hno⟩
    have hq := engineServiceResume_sameQueue p w s₁
    obtain rfl : engineServiceResume p w s₁ = s' := hs
    refine ⟨by rw [hq.ring.2.2.2.2.2.2.2.1, heng], .inl ⟨?_, hrep⟩⟩
    exact hw.of_sameQueue hq fun _ => engineServiceResume_dequeued p w (by simp [hlist]) hw.dequeued
  · have hnil : (s₁.listDelHead.engineTransferCompletion t).eng.transferList = [] := by
      simp [listDelHead, hspec.list, h.list]
    have hq := engineServiceResume_sameQueue p w (s₁.listDelHead.engineTransferCompletion t)
    obtain rfl : engineServiceResume p w (s₁.listDelHead.engineTransferCompletion t) = s' := hs
    have htfer : (engineServiceResume p w (s₁.listDelHead.engineTransferCompletion t)).tfer =
      s₁.tfer := hq.tfer
    have hwords : (engineServiceResume p w (s₁.listDelHead.engineTransferCompletion t)).eng.cyclicResult =
        s₁.eng.cyclicResult := hq.ring.2.2.2.2.2.2.2.1
    refine ⟨hwords.trans hring.2.2.2.2.2.2.2.1, .inr ⟨⟨?_, engineServiceResume_stopped p w hnil, ?_⟩, ?_⟩⟩
    · rw [hq.list, hnil]
    · rw [htfer]
      exact hsame
    · rw [htfer]
      refine hfin.imp_right fun hc => ⟨?_, ?_, ?_⟩
      · rw [htfer]
        exact hc.state
      · rw [htfer]
        exact hc.cmpl
      · rw [htfer, hwords]
        exact hc.eop

theorem SoleWaiting.idle (h : SoleWaiting x t s) (hr : s.eng.running = false) (wb : U32) (r : ServiceRegs) :
    SoleWaiting x t (s.engineService p wb r).1 ∧ (s.engineService p wb r).1.eng.running = false := by
  rw [engineService_stopped hr]
  exact ⟨h.of_sameQueue (engineStatusRead_sameQueue s _) h.dequeued, hr⟩

theorem SoleWaiting.service (h : SoleWaiting x t s) (hflush : s.eng.eopFlush = true) (hpos : 0 < x.descNum)
    (hr : s.eng.running = true) {wb : U32} {r : ServiceRegs} (hn : serviceCount wb r ≤ x.descNum) {s' : Drv}
    (hs : (s.engineService p wb r).1 = s') : s'.eng.cyclicResult = s.eng.cyclicResult ∧
      (SoleWaiting x t s' ∧ ¬ Reported x s.eng.cyclicResult (serviceCount wb r) ∨
        SoleTaken x t s' ∧ ((s'.tfer t).state = .failed ∨ CompletedBy x t (serviceCount wb r) s')) := by
  have hentry := engineServiceEntry_sameQueue p wb r s
  obtain ⟨-, -, heop, hdeq, -⟩ := engineServiceEntry_eng p wb r s
  have hw := h.of_sameQueue hentry fun _ => by rw [hdeq, h.dequeued hr]
  have hwords : (s.engineServiceEntry p wb r).eng.cyclicResult = s.eng.cyclicResult :=
    hentry.ring.2.2.2.2.2.2.2.1
  by_cases hc : serviceCount wb r = 0
  · rw [engineService_zero hr hc] at hs
    subst hs
    refine ⟨hwords, .inl ⟨hw, ?_⟩⟩
    rw [hc]
    rintro (hz | ⟨i, hi, -⟩)
    · omega
    · omega
  rw [engineService_count hr hc] at hs
  have hdeq₀ : (s.engineServiceEntry p wb r).eng.descDequeued = 0 := hdeq.trans (h.dequeued hr)
  generalize s.engineServiceEntry p wb r = s₀ at *
  have hcount : u32Sub (serviceCount wb r) s₀.eng.descDequeued = serviceCount wb r := by
    rw [hdeq₀]
    exact u32Sub_zero (serviceCount_lt wb r)
  obtain ⟨s₁, hperf, hq⟩ := engineServiceQueue_head (p := p) (w := r.status) hw.list
    (by rw [hcount, hw.same.1]; exact hn)
  have hw₁ : SoleWaiting x t s₁ := by
    refine hw.of_sameQueue ⟨?_, hperf.tfer, hperf.log, hperf.offline, ?_⟩ fun _ => ?_
    · rw [hperf.eng]
    · rw [hperf.eng]
      simp [XdmaEngine.SameRing]
    · rw [hperf.eng]
      exact hdeq₀
  have hwords₁ : s₁.eng.cyclicResult = s.eng.cyclicResult := by rw [hperf.eng, ← hwords]
  rw [hq, hcount] at hs
  rw [← hwords₁]
  exact hw₁.final (by rw [hperf.eng]; exact heop.trans hflush) hn r.status hs

theorem SoleTaken.step (h : SoleTaken x t s) {st : EngineStep} (hst : st.fromHardware = true) :
    SoleTaken x t (s.engineStep p t.req st) ∧ (s.engineStep p t.req st).tfer = s.tfer ∧
      ∀ i, (∀ w, st ≠ .result i w) → (s.engineStep p t.req st).eng.cyclicResult i = s.eng.cyclicResult i := by
  cases st with
  | service wb r =>
    have hs : s.engineStep p t.req (.service wb r) = s.engineStatusRead r.statusRc :=
      engineService_stopped h.stopped
    rw [hs]
    exact ⟨⟨h.list, h.stopped, h.same⟩, rfl, fun _ _ => rfl⟩
  | result j w =>
    refine ⟨⟨h.list, h.stopped, h.same⟩, rfl, fun i hi => Function.update_of_ne ?_ _ _⟩
    rintro rfl
    exact hi w rfl
  | build => cases hst
  | queue => cases hst
  | destroy => cases hst
  | setOffline => cases hst
  | shutdownRequest => cases hst
  | shutdownClear => cases hst

theorem SoleTaken.steps (sts : List EngineStep) : ∀ {s : Drv}, SoleTaken x t s →
    (∀ st ∈ sts, st.fromHardware = true) →
    SoleTaken x t (s.engineSteps p t.req sts) ∧ (s.engineSteps p t.req sts).tfer = s.tfer ∧
      ∀ i, (∀ w, .result i w ∉ sts) → (s.engineSteps p t.req sts).eng.cyclicResult i =
        s.eng.cyclicResult i := by
  induction sts with
  | nil => exact fun h _ => ⟨h, rfl, fun _ _ => rfl⟩
  | cons st sts ih =>
    intro s h hst
    obtain ⟨hstep, htfer, hwords⟩ := h.step (p := p) (hst st List.mem_cons_self)
    obtain ⟨hsteps, htfer', hwords'⟩ := ih hstep fun st hmem => hst st (List.mem_cons_of_mem _ hmem)
    refine ⟨hsteps, htfer'.trans htfer, fun i hi => ?_⟩
    exact (hwords' i fun w hmem => hi w (List.mem_cons_of_mem _ hmem)).trans
      (hwords i fun w he => hi w (he ▸ List.mem_cons_self))

theorem SoleWaiting.idle_steps (sts : List EngineStep) : ∀ {s : Drv}, SoleWaiting x t s →
    s.eng.running = false →
    (∀ st ∈ sts, st.fromHardware = true) → SoleWaiting x t (s.engineSteps p t.req sts) := by
  induction sts with
  | nil => exact fun h _ _ => h
  | cons st sts ih =>
    intro s h hr hst
    have hsts : ∀ st ∈ sts, st.fromHardware = true := fun st hmem => hst st (List.mem_cons_of_mem _ hmem)
    cases st with
    | service wb r =>
      obtain ⟨hw, hstop⟩ := h.idle (p := p) hr wb r
      exact ih hw hstop hsts
    | result j w => exact ih ⟨h.list, h.dequeued, h.same, h.state, h.noEop⟩ hr hsts
    | build => cases hst _ List.mem_cons_self
    | queue => cases hst _ List.mem_cons_self
    | destroy => cases hst _ List.mem_cons_self
    | setOffline => cases hst _ List.mem_cons_self
    | shutdownRequest => cases hst _ List.mem_cons_self
    | shutdownClear => cases hst _ List.mem_cons_self

theorem SoleWaiting.steps (sts : List EngineStep) (hpos : 0 < x.descNum) : ∀ {s : Drv}, SoleWaiting x t s →
    s.eng.eopFlush = true → ChainEvents x s.eng.cyclicResult sts →
    SoleWaiting x t (s.engineSteps p t.req sts) ∨
      SoleTaken x t (s.engineSteps p t.req sts) ∧ (((s.engineSteps p t.req sts).tfer t).state = .failed ∨
        ∃ n post, firstReport x s.eng.cyclicResult sts = some (n, post) ∧ n ≤ x.descNum ∧
          CompletedBy x t n (s.engineSteps p t.req sts)) := by
  induction sts with
  | nil => exact fun h _ _ => .inl h
  | cons st sts ih =>
    intro s h hflush hev
    have hst : ∀ st ∈ sts, st.fromHardware = true :=
      fun st hmem => hev.hardware st (List.mem_cons_of_mem _ hmem)
    have hcounts : ∀ wb r, .service wb r ∈ sts → serviceCount wb r ≤ x.descNum := fun wb r hmem =>
      hev.counts wb r (List.mem_cons_of_mem _ hmem)
    cases st with
    | service wb r =>
      by_cases hr : s.eng.running = true
      swap
      · exact .inl (h.idle_steps (.service wb r :: sts) (by simpa using hr) hev.hardware)
      have hn := hev.counts wb r List.mem_cons_self
      have hfirst : firstReport x s.eng.cyclicResult (.service wb r :: sts) =
          if Reported x s.eng.cyclicResult (serviceCount wb r) then some (serviceCount wb r, sts)
          else firstReport x s.eng.cyclicResult sts := rfl
      have hkept := hev.kept
      obtain ⟨s', hs⟩ : ∃ s', (s.engineService p wb r).1 = s' := ⟨_, rfl⟩
      have hflush' : s'.eng.eopFlush = true := by
        obtain ⟨out, he⟩ := engineService_effect p wb r s
        rw [← hs]
        exact he.ring.config.eopFlush.trans hflush
      have hrun : s.engineSteps p t.req (.service wb r :: sts) = s'.engineSteps p t.req sts := by
        rw [← hs]
        rfl
      obtain ⟨hwords, hcase⟩ := h.service (p := p) hflush hpos hr hn hs
      rw [hrun, hfirst] at *
      rcases hcase with ⟨hw, hno⟩ | ⟨htaken, hend⟩
      · rw [if_neg hno, ← hwords] at hkept ⊢
        exact ih hw hflush' ⟨hst, hcounts, hkept⟩
      · obtain ⟨hsteps, htfer, hafter⟩ := htaken.steps (p := p) sts hst
        refine .inr ⟨hsteps, ?_⟩
        rw [htfer]
        refine hend.imp_right fun hc => ?_
        have hrep := hc.reported
        rw [hwords] at hrep
        rw [if_pos hrep] at hkept ⊢
        refine ⟨_, _, rfl, hn, by rw [htfer]; exact hc.state, by rw [htfer]; exact hc.cmpl, ?_⟩
        rw [htfer]
        refine hc.eop.imp_left fun ⟨hlt, heop, i, hi, hw⟩ => ⟨hlt, heop, i, hi, ?_⟩
        rw [hafter _ fun w hmem => hkept _ _ rfl _ w hmem (by omega)]
        exact hw
    | result j w => exact ih ⟨h.list, h.dequeued, h.same, h.state, h.noEop⟩ hflush ⟨hst, hcounts, hev.kept⟩
    | build => cases hev.hardware _ List.mem_cons_self
    | queue => cases hev.hardware _ List.mem_cons_self
    | destroy => cases hev.hardware _ List.mem_cons_self
    | setOffline => cases hev.hardware _ List.mem_cons_self
    | shutdownRequest => cases hev.hardware _ List.mem_cons_self
    | shutdownClear => cases hev.hardware _ List.mem_cons_self

end Drv

end XdmaDriver
