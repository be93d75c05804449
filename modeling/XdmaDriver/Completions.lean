import XdmaDriver.QueueRuns

/-!
Which transfers a service call takes off the queue, against what the hardware
executed: non-cyclic transfers, `eop_flush` off.
-/

namespace XdmaDriver

open Transition Drv

namespace QueueRun

variable {p : Params}

def lastSeen (s : QueueRun) : ℕ := if s.seenAt = s.drv.eng.starts then s.seen else 0

/-- What the hardware reports: within a run of the engine a count that never
decreases and never exceeds the descriptors of the chain started last. -/
def HardwareCount (s : QueueRun) : QueueAct → Prop
  | .build _ x => x.cyclic = false
  | .queue _ _ => True
  | .service wb r => s.drv.eng.running = true → s.lastSeen ≤ serviceCount wb r ∧
      ∀ t ∈ s.drv.eng.started, serviceCount wb r ≤ (s.drv.tfer t).descNum
  | .wait _ _ => False

/-- The engine is found BUSY and without an error only with a zero count, or with
the full count of the only queued transfer. -/
def BusyMeansUnread (s : QueueRun) : QueueAct → Prop
  | .service wb r => s.drv.eng.running = true → serviceCount wb r ≠ 0 →
      statusError s.drv.eng.dir (s.drv.usedStatus wb r) ∨ s.drv.StopsFirst wb r ∨
        ∃ t ∈ s.drv.eng.transferList.head?, s.drv.eng.transferList = [t] ∧
          serviceCount wb r = (s.drv.tfer t).descNum
  | _ => True

def IdleNoFlush (s : QueueRun) : Prop := s.Idle ∧ s.drv.eng.eopFlush = false

/-- What a service call may do to a queued transfer: keep it submitted, drop it
as completed after the hardware executed all of it, or drop the started transfer
as failed when the engine has stopped or reports an error. -/
inductive Accounted (s : QueueRun) (wb : U32) (r : ServiceRegs) (s' : Drv) (t : XferRef) : Prop
  | kept (hl : t ∈ s'.eng.transferList) (hst : (s'.tfer t).state = .submitted)
  | completed (hl : t ∉ s'.eng.transferList) (hst : (s'.tfer t).state = .completed)
      (hs : s.drv.eng.started = some t) (hc : (s.drv.tfer t).descNum ≤ serviceCount wb r)
  | failed (hl : t ∉ s'.eng.transferList) (hst : (s'.tfer t).state = .failed)
      (hs : s.drv.eng.started = some t)
      (hstop : statusError s.drv.eng.dir (s.drv.usedStatus wb r) ∨ s.drv.StopsFirst wb r)

instance (s : QueueRun) (a : QueueAct) : Decidable (s.HardwareCount a) := by
  apply @QueueAct.casesOn _ a <;> intros <;> (dsimp only [HardwareCount]; infer_instance)

instance (s : QueueRun) (a : QueueAct) : Decidable (s.BusyMeansUnread a) := by
  apply @QueueAct.casesOn _ a <;> intros <;> (dsimp only [BusyMeansUnread]; infer_instance)

structure HeadStarted (s : QueueRun) : Prop where
  eopFlush : s.drv.eng.eopFlush = false
  nodup : s.drv.eng.transferList.Nodup
  submitted : ∀ t ∈ s.drv.eng.transferList, (s.drv.tfer t).state = .submitted
  head : s.drv.eng.running = true → ∃ h tl, s.drv.eng.transferList = h :: tl ∧
    s.drv.eng.started = some h ∧ s.drv.eng.descDequeued = 0

theorem headStarted_of_idle {s : QueueRun} (h : s.IdleNoFlush) : s.HeadStarted :=
  ⟨h.2, by rw [h.1.1]; exact List.nodup_nil, by simp [h.1.1], fun hr => by simp [h.1.2] at hr⟩

theorem queue_headStarted {s : QueueRun} {t : XferRef} {w : U32} (hs : s.HeadStarted)
    (ht : t ∉ s.drv.eng.transferList) : HeadStarted { s with drv := (s.drv.transferQueue p t w).1 } := by
  by_cases hacc : s.drv.Accepts t
  · obtain ⟨hq, -⟩ := transferQueue_accepted (p := p) (w := w) hacc
    refine ⟨?_, ?_, ?_, fun _ => ?_⟩
    · exact hq.ring.config.eopFlush.trans hs.eopFlush
    · exact hq.nodup ht hs.nodup
    · intro u hu
      rw [hq.list] at hu
      by_cases hut : u = t
      · subst hut
        exact hq.state
      · have hu : u ∈ s.drv.eng.transferList := by simpa [hut] using hu
        change ((s.drv.transferQueue p t w).1.tfer u).state = _
        rw [hq.other hut]
        exact hs.submitted u hu
    · by_cases hrun : s.drv.eng.running = true
      · obtain ⟨h, tl, hl, hst, hd⟩ := hs.head hrun
        have hb := hq.busy hrun
        refine ⟨h, tl ++ [t], ?_, ?_, ?_⟩
        · simp [hq.list, hl]
        · change (s.drv.transferQueue p t w).1.eng.started = _
          rw [hb]
          exact hst
        · change (s.drv.transferQueue p t w).1.eng.descDequeued = _
          rw [hb]
          exact hd
      · obtain ⟨w', hstart⟩ := hq.idle (by simpa using hrun)
        obtain ⟨h, tl, hl⟩ := List.exists_cons_of_ne_nil
          (show s.drv.eng.transferList ++ [t] ≠ [] by simp)
        refine ⟨h, tl, hq.list.trans hl, ?_, hstart.dequeued⟩
        simpa [hl] using hstart.started
  · simp only [(transferQueue_refused (p := p) (w := w) hacc).1]
    exact hs

theorem sameQueue_headStarted {s s' : QueueRun} (hs : s.HeadStarted) (hq : SameQueue s.drv s'.drv)
    (hrun : s'.drv.eng.running = true → s.drv.eng.running = true ∧
      s'.drv.eng.started = s.drv.eng.started ∧ s'.drv.eng.descDequeued = s.drv.eng.descDequeued) :
    s'.HeadStarted := by
  refine ⟨hq.ring.config.eopFlush.trans hs.eopFlush, hq.list ▸ hs.nodup, ?_, fun hr => ?_⟩
  · rw [hq.list, hq.tfer]
    exact hs.submitted
  · obtain ⟨hr, hst, hd⟩ := hrun hr
    rw [hq.list, hst, hd]
    exact hs.head hr

theorem count_accounted {s s' : QueueRun} {wb : U32} {r : ServiceRegs} {h : XferRef}
    {tl : List XferRef} (hs : s.HeadStarted) (hrun : s.drv.eng.running = true)
    (hc : serviceCount wb r ≠ 0) (hl : s.drv.eng.transferList = h :: tl)
    (hst : s.drv.eng.started = some h) (hdeq : s.drv.eng.descDequeued = 0)
    (hle : serviceCount wb r ≤ (s.drv.tfer h).descNum)
    (hok : statusError s.drv.eng.dir (s.drv.usedStatus wb r) ∨ s.drv.StopsFirst wb r ∨
      (tl = [] ∧ serviceCount wb r = (s.drv.tfer h).descNum))
    (hdrv : s'.drv = (s.drv.engineService p wb r).1) :
    s'.HeadStarted ∧ ∀ t ∈ s.drv.eng.transferList, s.Accounted wb r s'.drv t := by
  have hsub : u32Sub (serviceCount wb r) s.drv.eng.descDequeued = serviceCount wb r := by
    rw [hdeq]
    exact u32Sub_zero (serviceCount_lt wb r)
  obtain ⟨s₁, hsvc, hleft, hrun₁, -⟩ := engineService_headLeft (p := p) hrun hl hc
    (by rw [hsub]; exact hle) (.inr (.inl hs.eopFlush))
  rw [hsub] at hleft
  have hfin := hleft.trans_sameQueue (engineServiceResume_sameQueue p r.status s₁)
  rw [← hsvc, ← hdrv] at hfin
  have hlist : s'.drv.eng.transferList = tl := by rw [hfin.list, hl, List.tail_cons]
  have hnd := hs.nodup
  rw [hl, List.nodup_cons] at hnd
  refine ⟨⟨hfin.ring.config.eopFlush.trans hs.eopFlush, hlist ▸ hnd.2, ?_, fun hr => ?_⟩, ?_⟩
  · intro t ht
    rw [hlist] at ht
    rw [hfin.other t (fun he => hnd.1 (he ▸ ht))]
    exact hs.submitted t (hl ▸ List.mem_cons_of_mem h ht)
  · rw [hdrv, hsvc] at hr
    have hne : s₁.eng.transferList ≠ [] := (engineServiceResume_iff p r.status s₁).mp hr
    obtain ⟨t, ts, hl₁⟩ := List.exists_cons_of_ne_nil hne
    have hstopped : s₁.eng.running = false := by
      rcases hok with he | he | ⟨he, -⟩
      · simp [hrun₁, he]
      · simp [hrun₁, he]
      · rw [hleft.list, hl, he] at hne
        exact absurd rfl hne
    have hstart := engineServiceResume_started (p := p) (w := r.status) hstopped hl₁
    rw [hdrv, hsvc]
    exact ⟨t, ts, hstart.transferList.trans hl₁, hstart.started, hstart.dequeued⟩
  · intro t ht
    by_cases hth : t = h
    · subst hth
      have hgone : t ∉ s'.drv.eng.transferList := hlist ▸ hnd.1
      have hstate := hfin.state
      by_cases herr : statusError s.drv.eng.dir (s.drv.usedStatus wb r)
      · rw [if_pos herr] at hstate
        exact .failed hgone hstate hst (.inl herr)
      rw [if_neg herr] at hstate
      by_cases hlt : serviceCount wb r < (s.drv.tfer t).descNum
      · rw [if_pos hlt] at hstate
        refine .failed hgone hstate hst (.inr ?_)
        rcases hok with he | he | ⟨-, he⟩
        · exact absurd he herr
        · exact he
        · omega
      · rw [if_neg hlt] at hstate
        exact .completed hgone hstate hst (not_lt.mp hlt)
    · refine .kept ?_ ?_
      · rw [hlist]
        simpa [hl, hth] using ht
      · rw [hfin.other t hth]
        exact hs.submitted t ht

theorem service_accounted {s s' : QueueRun} {wb : U32} {r : ServiceRegs} (hs : s.HeadStarted)
    (hhw : s.HardwareCount (.service wb r)) (hok : s.BusyMeansUnread (.service wb r))
    (hdrv : s'.drv = (s.drv.engineService p wb r).1) :
    s'.HeadStarted ∧ ∀ t ∈ s.drv.eng.transferList, s.Accounted wb r s'.drv t := by
  have hkeep (hq : SameQueue s.drv s'.drv) :
      ∀ t ∈ s.drv.eng.transferList, s.Accounted wb r s'.drv t := fun t ht =>
    .kept (hq.list ▸ ht) (by rw [hq.tfer]; exact hs.submitted t ht)
  by_cases hrun : s.drv.eng.running = true
  swap
  · have hrun : s.drv.eng.running = false := by simpa using hrun
    have hd : s'.drv = s.drv.engineStatusRead r.statusRc := hdrv.trans (engineService_stopped hrun)
    have hq : SameQueue s.drv s'.drv := hd ▸ engineStatusRead_sameQueue _ _
    refine ⟨sameQueue_headStarted hs hq fun hr => ?_, hkeep hq⟩
    rw [hd] at hr
    exact absurd (hrun.symm.trans hr) (by simp)
  by_cases hc : serviceCount wb r = 0
  · have hd : s'.drv = s.drv.engineServiceEntry p wb r := hdrv.trans (engineService_zero hrun hc)
    have hq : SameQueue s.drv s'.drv := hd ▸ engineServiceEntry_sameQueue p wb r s.drv
    obtain ⟨-, -, -, hdeq, hst, -, -, -⟩ := engineServiceEntry_eng p wb r s.drv
    exact ⟨sameQueue_headStarted hs hq fun _ => ⟨hrun, by rw [hd, hst], by rw [hd, hdeq]⟩, hkeep hq⟩
  · obtain ⟨h, tl, hl, hst, hdeq⟩ := hs.head hrun
    have hbusy := hok hrun hc
    exact count_accounted hs hrun hc hl hst hdeq ((hhw hrun).2 h (by simp [hst]))
      (by simpa [hl] using hbusy) hdrv

theorem step_headStarted {s s' : QueueRun} {a : QueueAct} (hs : s.HeadStarted)
    (hok : s.HardwareCount a ∧ s.BusyMeansUnread a) (h : s.step p a = some s') : s'.HeadStarted := by
  cases a with
  | build t x =>
    simp only [step, Option.ite_none_left_eq_some, Option.some.injEq] at h
    obtain ⟨ht, rfl⟩ := h
    refine ⟨hs.eopFlush, hs.nodup, fun u hu => ?_, hs.head⟩
    simp only [modify_of_ne _ _ _ _ (fun he : u = t => ht (he ▸ hu))]
    exact hs.submitted u hu
  | queue t w =>
    simp only [step, Option.ite_none_left_eq_some, Option.some.injEq] at h
    obtain ⟨ht, rfl⟩ := h
    exact queue_headStarted hs ht
  | service wb r =>
    exact (service_accounted hs hok.1 hok.2 (step_service_drv h)).1
  | wait t r => exact hok.1.elim

/-- Every service call of a run accounts for all queued transfers. -/
theorem completions_match_hardware {s s' : QueueRun} {wb : U32} {r : ServiceRegs} {t : XferRef}
    (h : Reachable (step p) IdleNoFlush (fun s a => s.HardwareCount a ∧ s.BusyMeansUnread a) s)
    (hhw : s.HardwareCount (.service wb r)) (hok : s.BusyMeansUnread (.service wb r))
    (hs : s.step p (.service wb r) = some s') (ht : t ∈ s.drv.eng.transferList) :
    s.Accounted wb r s'.drv t := by
  have hI : s.HeadStarted := h.invariant (fun _ => headStarted_of_idle)
    fun _ _ _ hI hok hstep => step_headStarted hI hok hstep
  exact (service_accounted hI hhw hok (step_service_drv hs)).2 t ht

def twoQueued : List QueueAct :=
  [.build ⟨0, 0⟩ { descNum := 2 }, .queue ⟨0, 0⟩ 1, .build ⟨1, 0⟩ { descNum := 3 }, .queue ⟨1, 0⟩ 1]

theorem completions_match_hardware_twoQueued : ∃ s s' : QueueRun, s.step {} (.service 0 ⟨4, 2, 1⟩) = some s' ∧
    s.drv.eng.transferList = [⟨0, 0⟩, ⟨1, 0⟩] ∧ s.Accounted 0 ⟨4, 2, 1⟩ s'.drv ⟨0, 0⟩ := by
  have hidle : IdleNoFlush {} := ⟨⟨rfl, rfl⟩, rfl⟩
  have hrun : (run (step {}) (fun s a => s.HardwareCount a ∧ s.BusyMeansUnread a) {} twoQueued).map
      (fun s => (s.drv.eng.transferList, decide (s.HardwareCount (.service 0 ⟨4, 2, 1⟩)),
        decide (s.BusyMeansUnread (.service 0 ⟨4, 2, 1⟩)), (s.step {} (.service 0 ⟨4, 2, 1⟩)).isSome)) =
          some ([⟨0, 0⟩, ⟨1, 0⟩], true, true, true) := by decide
  obtain ⟨s, hs, heq⟩ := exists_reachable hidle hrun
  simp only [Prod.mk.injEq, decide_eq_true_eq, Option.isSome_iff_exists] at heq
  obtain ⟨hl, hhw, hok, s', hs'⟩ := heq
  exact ⟨s, s', hs', hl, completions_match_hardware hs hhw hok hs' (by simp [hl])⟩

/-- The first service call finds the engine BUSY with the full count and drops
the first transfer; the second one finds it idle with the same count and fails
the second transfer, which was never started. -/
theorem completions_miss_hardware : ¬ ∀ (p : Params) (s s' : QueueRun) (wb : U32) (r : ServiceRegs)
    (t : XferRef), Reachable (step p) IdleNoFlush HardwareCount s → s.HardwareCount (.service wb r) →
      s.step p (.service wb r) = some s' → t ∈ s.drv.eng.transferList → s.Accounted wb r s'.drv t := by
  intro h
  have hidle : IdleNoFlush {} := ⟨⟨rfl, rfl⟩, rfl⟩
  have hrun : (run (step {}) HardwareCount {} (twoQueued ++ [.service 0 ⟨1, 2, 1⟩])).map
      (fun s => (s.drv.eng.transferList, s.drv.eng.started, decide (s.HardwareCount (.service 0 ⟨0, 2, 0⟩)),
        (s.step {} (.service 0 ⟨0, 2, 0⟩)).map fun s' => ((s'.drv.tfer ⟨1, 0⟩).state))) =
          some ([⟨1, 0⟩], some ⟨0, 0⟩, true, some .failed) := by decide
  obtain ⟨s, hs, heq⟩ := exists_reachable hidle hrun
  simp only [Prod.mk.injEq, decide_eq_true_eq, Option.map_eq_some_iff] at heq
  obtain ⟨hl, hstarted, hhw, s', hs', hstate⟩ := heq
  cases h {} s s' 0 ⟨0, 2, 0⟩ ⟨1, 0⟩ hs hhw hs' (by simp [hl]) with
  | kept _ hst => simp [hstate] at hst
  | completed _ hst => simp [hstate] at hst
  | failed _ _ hst => simp [hstarted] at hst

end QueueRun

end XdmaDriver
