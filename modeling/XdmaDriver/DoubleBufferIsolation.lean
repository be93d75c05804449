import XdmaDriver.DoubleBufferErrors

/-!
The sessions of the double-buffer mode, and the completions that mark its slots.
-/

namespace XdmaDriver

open Transition Drv

structure SessionRun where
  run : DbufRun := {}
  first : ℕ := 0

namespace DbufRun

variable {p : Params} {s s' : DbufRun}

def Starts (s : DbufRun) : DbufAct → Bool
  | .start fault io alloc => (s.cdev.ioctlDoDbufStart fault io alloc).2.isNone
  | _ => false

def MarkedBy (s s' : DbufRun) (i : Fin 2) (t : XferRef) : Prop :=
  s.cdev.dbufActive = true ∧ t ∈ s.cdev.drv.eng.transferList ∧ t ∉ s'.cdev.drv.eng.transferList ∧
    (s.cdev.drv.tfer t).cb = some (.dbuf i) ∧ (s.cdev.drv.tfer t).lastInRequest = true

instance (s s' : DbufRun) (i : Fin 2) (t : XferRef) : Decidable (s.MarkedBy s' i t) :=
  inferInstanceAs (Decidable (_ ∧ _ ∧ _ ∧ _ ∧ _))

theorem step_marked {a : DbufAct} (hnodup : s.cdev.drv.eng.transferList.Nodup)
    (hs : s.step p a = some s') {i : Fin 2}
    (hi : (s.cdev.dbuf i).filled = false) (hi' : (s'.cdev.dbuf i).filled = true) :
      ∃ t, s.MarkedBy s' i t := by
  have hsame (h : (s'.cdev.dbuf i).filled = (s.cdev.dbuf i).filled) : False := by simp [h, hi] at hi'
  have hclear (j : Fin 2) (h : (s'.cdev.dbuf i).filled = ((s.clearSlot j).cdev.dbuf i).filled) : False := by
    by_cases hj : i = j
    · subst hj
      simp [h, clearSlot] at hi'
    · simp [h, clearSlot, XdmaCdev.setSlot_of_ne hj, hi] at hi'
  have hfailed (s : DbufRun) (caller : DbufCaller) (rv : ℤ) :
    (s.submitFailed caller rv).cdev.dbuf = s.cdev.dbuf := by
    cases caller <;> rfl
  cases step_slotMove hs with
  | kept h => exact (hsame (h.filled i)).elim
  | unwound rv h => exact (hsame (h.filled i)).elim
  | started fault io alloc bus ha hret hpc h => exact (hsame (h.filled i)).elim
  | woken count hpc hfilled hact h => exact (hsame (h.filled i)).elim
  | refused oom caller j rv ha hpc hreq heq => exact (hclear j (by rw [heq, hfailed])).elim
  | allocated oom caller j req ha hpc hreq heq => exact (hclear j (by rw [heq])).elim
  | built c ha hpc hn heq => exact (hsame (by rw [heq, (buildNext_built s c).cdev])).elim
  | dropped w c rv ha hpc hacc heq => exact (hsame (by rw [heq, hfailed])).elim
  | queued w c ha hpc hacc heq =>
    refine (hsame ?_).elim
    rw [heq, (queueNext_accepted hacc).2]
    rfl
  | serviced wb r ha heq =>
    obtain ⟨out, he⟩ := engineService_effect p wb r s.cdev.drv
    have hsv := XdmaCdev.service_spec he
    rw [← XdmaCdev.service_drv] at he
    subst heq
    rcases (hsv.filled i).mp hi' with hf | ⟨ha, t, ht, hcb, hlast⟩
    · simp [hi] at hf
    · rw [he.list] at hnodup
      refine ⟨t, ha, ?_, fun ht' => (List.nodup_append.mp hnodup).2.2 t ht t ht' rfl, hcb, hlast⟩
      rw [he.list]
      exact List.mem_append_left _ ht

end DbufRun

namespace SessionRun

variable {p : Params} {s s' : SessionRun}

def step (p : Params) (s : SessionRun) (a : DbufAct) : Option SessionRun :=
  (s.run.step p a).map fun r => ⟨r, if s.run.Starts a then s.run.nextReq else s.first⟩

def Begins (s : SessionRun) : Prop := s.run.Begins ∧ s.first ≤ s.run.nextReq

theorem run_of_step {a : DbufAct} {r : DbufRun} (hs : s.step p a = some s') (hr : s.run.step p a = some r) :
    s'.run = r := by
  rw [step, hr] at hs
  exact (congrArg run (Option.some.inj hs)).symm

/-- The requests from `first` on are those of the session. They alone mark the slots,
and a slot that a read finds marked has been served by its current request. -/
structure Isolated (p : Params) (s : SessionRun) : Prop where
  marked : ∀ a s', s.step p a = some s' → ∀ i, (s.run.cdev.dbuf i).filled = false →
    (s'.run.cdev.dbuf i).filled = true → ∃ t, s.run.MarkedBy s'.run i t
  own : ∀ a s', s.step p a = some s' → ∀ i t, s.run.MarkedBy s'.run i t → s.first ≤ t.req
  read : s.run.cdev.dbufActive = true → ∀ count, s.run.pc = .readWait count →
    ∀ i, (s.run.cdev.dbuf i).filled = true →
      (∃ t ∈ s.run.cur i, (s.run.cdev.drv.tfer t).lastInRequest = true) ∧ ∀ t ∈ s.run.cur i,
        s.first ≤ t.req ∧ t ∉ s.run.cdev.drv.eng.transferList ∧ DbufRun.Ended (s.run.cdev.drv.tfer t).state

structure SessionKept (s : SessionRun) : Prop where
  first : s.first ≤ s.run.nextReq
  own : ∀ c, s.run.pc.At c → s.first ≤ c.own
  cur : s.run.cdev.dbufActive = true → ∀ i, ¬ s.run.pc.Owes i → ∀ t ∈ s.run.cur i, s.first ≤ t.req
  last : s.run.cdev.dbufActive = true → ∀ i, ¬ s.run.pc.Owes i → (s.run.cdev.dbuf i).filled = true →
    ∃ t ∈ s.run.cur i, (s.run.cdev.drv.tfer t).lastInRequest = true

theorem sessionKept_of_begins (h : s.Begins) : s.SessionKept := by
  obtain ⟨⟨⟨hpc, hact, -, -, -⟩, -⟩, hfirst⟩ := h
  constructor
  · exact hfirst
  all_goals simp [DbufPc.At, hpc, hact]

theorem started_sessionKept {fault : Bool} {io : XdmaDbufIoctl} {alloc : Fin 2 → DbufAlloc} {r : DbufRun}
    (hs : s.run.step p (.start fault io alloc) = some r)
    (ha : (s.run.cdev.ioctlDoDbufStart fault io alloc).2 = none) : SessionKept ⟨r, s.run.nextReq⟩ := by
  obtain ⟨-, ⟨rv, hret, -⟩ | ⟨-, rfl⟩⟩ := DbufRun.step_start hs
  · simp [ha] at hret
  have howes : ∀ i, DbufPc.Owes (.submit .start 0) i := fun i => Fin.zero_le i
  constructor
  · exact le_refl _
  · simp [DbufPc.At]
  · exact fun _ i ho => absurd (howes i) ho
  · exact fun _ i ho => absurd (howes i) ho

theorem SessionKept.same {r : DbufRun} (h : s.SessionKept) (hsame : DbufRun.SameSlots s.run r)
    (hat : ∀ c, r.pc.At c → r.pc = s.run.pc)
    (hact : r.cdev.dbufActive = true → s.run.cdev.dbufActive = true ∧ ∀ i, s.run.pc.Owes i → r.pc.Owes i) :
    SessionKept ⟨r, s.first⟩ := by
  constructor
  · rw [hsame.nextReq]
    exact h.first
  · exact fun c hc => h.own c (hat c hc ▸ hc)
  · intro ha i ho
    rw [hsame.cur]
    exact h.cur (hact ha).1 i fun h' => ho ((hact ha).2 i h')
  · intro ha i ho hi
    rw [hsame.cur, hsame.tfer]
    exact h.last (hact ha).1 i (fun h' => ho ((hact ha).2 i h')) (hsame.filled i ▸ hi)

theorem submitFailed_sessionKept {r : DbufRun} {n : ℕ} (caller : DbufCaller) (rv : ℤ) (hfirst : n ≤ r.nextReq)
    (h : caller ≠ .start → r.cdev.dbufActive = true → ∀ i, (∀ t ∈ r.cur i, n ≤ t.req) ∧
      ((r.cdev.dbuf i).filled = true → ∃ t ∈ r.cur i, (r.cdev.drv.tfer t).lastInRequest = true)) :
    SessionKept ⟨r.submitFailed caller rv, n⟩ := by
  cases caller with
  | start =>
    constructor
    · exact hfirst
    all_goals simp [DbufRun.submitFailed, DbufPc.At]
  | read count =>
    constructor
    · exact hfirst
    · simp [DbufRun.submitFailed, DbufPc.At]
    · exact fun ha i _ => (h (by simp) ha i).1
    · exact fun ha i _ => (h (by simp) ha i).2

theorem serviced_sessionKept {wb : U32} {r : ServiceRegs} (h : s.SessionKept)
    (ht : s.run.SlotsTracked DbufRun.Ended) :
    SessionKept ⟨{ s.run with cdev := s.run.cdev.service p wb r }, s.first⟩ := by
  obtain ⟨out, he⟩ := engineService_effect p wb r s.run.cdev.drv
  have hsv := XdmaCdev.service_spec he
  rw [← XdmaCdev.service_drv] at he
  generalize s.run.cdev.service p wb r = cdev at hsv he ⊢
  have hactive : cdev.dbufActive = s.run.cdev.dbufActive := by rw [hsv.frame]
  constructor
  · exact h.first
  · exact h.own
  · exact fun ha => h.cur (hactive ▸ ha)
  · intro ha i ho hi
    have hlast : ∀ u, (cdev.drv.tfer u).lastInRequest = (s.run.cdev.drv.tfer u).lastInRequest :=
      fun u => (he.same u).2.2.2.2.1
    simp only [hlast]
    rcases (hsv.filled i).mp hi with hf | ⟨ha, t, hto, hcb, hl⟩
    · exact h.last (hactive ▸ ha) i ho hf
    · refine ⟨t, (ht.slots ha).owned t ?_ i hcb, hl⟩
      rw [he.list]
      exact List.mem_append_left _ hto

theorem SessionKept.cleared {i j : Fin 2} (h : s.SessionKept) (ha : s.run.cdev.dbufActive = true)
    (ho : j ≠ i → ¬ s.run.pc.Owes j) : (∀ t ∈ (s.run.clearSlot i).cur j, s.first ≤ t.req) ∧
      (((s.run.clearSlot i).cdev.dbuf j).filled = true →
        ∃ t ∈ (s.run.clearSlot i).cur j, (s.run.cdev.drv.tfer t).lastInRequest = true) := by
  by_cases hj : j = i
  · subst hj
    simp [DbufRun.clearSlot]
  · have hcur : (s.run.clearSlot i).cur j = s.run.cur j := by simp [DbufRun.clearSlot, hj]
    have hdbuf : (s.run.clearSlot i).cdev.dbuf j = s.run.cdev.dbuf j := by
      simp [DbufRun.clearSlot, XdmaCdev.setSlot_of_ne hj]
    rw [hcur, hdbuf]
    exact ⟨h.cur ha j (ho hj), h.last ha j (ho hj)⟩

theorem allocated_sessionKept {caller : DbufCaller} {i : Fin 2} {req : XdmaRequestCb} (h : s.SessionKept)
    (hpc : s.run.pc = .submit caller i) :
    SessionKept ⟨{ s.run.clearSlot i with
      pc := .chain ⟨caller, i, s.run.nextReq, req, req.swDescCnt, 0⟩, nextReq := s.run.nextReq +
        1 }, s.first⟩ := by
  have howes {j : Fin 2}
      (ho : ¬ DbufPc.Owes (.chain ⟨caller, i, s.run.nextReq, req, req.swDescCnt, 0⟩) j) (hj : j ≠ i) :
      ¬ s.run.pc.Owes j := fun ho' => ho (by
    rw [hpc] at ho'
    cases caller with
    | start => exact ⟨rfl, lt_of_le_of_ne ho' (Ne.symm hj)⟩
    | read count => exact absurd ho'.symm hj)
  constructor
  · exact h.first.trans (Nat.le_succ _)
  · rintro c (hc | hc)
    · obtain rfl := DbufPc.chain.inj hc
      exact h.first
    · cases hc
  · exact fun ha j ho => (h.cleared ha (howes ho)).1
  · exact fun ha j ho => (h.cleared ha (howes ho)).2

theorem built_sessionKept {c : DbufSubmit} (h : s.SessionKept) (ht : s.run.SlotsTracked DbufRun.Ended)
    (hpc : s.run.pc = .chain c) (hn : c.nents ≠ 0) : SessionKept ⟨s.run.buildNext c, s.first⟩ := by
  have hb := DbufRun.buildNext_built s.run c
  have hfresh := ht.numbered.not_used hpc
  have hactive : (s.run.buildNext c).cdev.dbufActive = s.run.cdev.dbufActive := by rw [hb.cdev]
  have hdbuf : (s.run.buildNext c).cdev.dbuf = s.run.cdev.dbuf := by rw [hb.cdev]
  have howes : ∀ j, (s.run.buildNext c).pc.Owes j ↔ s.run.pc.Owes j := by simp [hb.pc, hpc, DbufPc.Owes]
  constructor
  · rw [hb.nextReq]
    exact h.first
  · rintro c' (hc | hc)
    · simp [hb.pc] at hc
    · rw [hb.pc] at hc
      obtain rfl := DbufPc.queue.inj hc
      exact h.own c (.inl hpc)
  · intro ha j ho t htc
    rw [howes] at ho
    by_cases hj : j = c.i
    · subst hj
      rw [hb.cur, Function.update_self, List.mem_append, List.mem_singleton] at htc
      rcases htc with htc | rfl
      · exact h.cur (hactive ▸ ha) _ ho t htc
      · exact h.own c (.inl hpc)
    · exact h.cur (hactive ▸ ha) j ho t (by simpa [hb.cur, hj] using htc)
  · intro ha j ho hf
    rw [howes] at ho
    rw [hdbuf] at hf
    have hj : j ≠ c.i := by
      rintro rfl
      simp [(ht.chain c hpc hn).1] at hf
    obtain ⟨t, htc, hl⟩ := h.last (hactive ▸ ha) j ho hf
    refine ⟨t, by simpa [hb.cur, hj] using htc, ?_⟩
    dsimp only
    rw [hb.other t fun he => hfresh (.inr ⟨j, he ▸ htc⟩)]
    exact hl

theorem queued_sessionKept {w : U32} {c : DbufSubmit} (h : s.SessionKept) (hpc : s.run.pc = .queue c)
    (hacc : s.run.cdev.drv.Accepts c.ref) : SessionKept ⟨s.run.queueNext p w c, s.first⟩ := by
  obtain ⟨hq, heq⟩ := DbufRun.queueNext_accepted (p := p) (w := w) hacc
  generalize s.run.queueNext p w c = r at hq heq ⊢
  have hpc' : r.pc = .chain { c with tferIdx := c.tferIdx + 1 } := by rw [heq]
  have hcur : r.cur = s.run.cur := by rw [heq]; rfl
  have hdbuf : r.cdev.dbuf = s.run.cdev.dbuf := by rw [heq]; rfl
  have hactive : r.cdev.dbufActive = s.run.cdev.dbufActive := by rw [heq]; rfl
  have hnext : r.nextReq = s.run.nextReq := by rw [heq]; rfl
  have howes : ∀ j, r.pc.Owes j ↔ s.run.pc.Owes j := by simp [hpc', hpc, DbufPc.Owes]
  constructor
  · rw [hnext]
    exact h.first
  · rintro c' (hc | hc)
    · rw [hpc'] at hc
      obtain rfl := DbufPc.chain.inj hc
      exact h.own c (.inr hpc)
    · simp [hpc'] at hc
  · intro ha j ho
    rw [howes] at ho
    rw [hcur]
    exact h.cur (hactive ▸ ha) j ho
  · intro ha j ho hf
    rw [howes] at ho
    rw [hdbuf] at hf
    obtain ⟨t, htc, hl⟩ := h.last (hactive ▸ ha) j ho hf
    refine ⟨t, hcur ▸ htc, ?_⟩
    exact (hq.same t).2.2.2.2.1.trans hl

theorem step_sessionKept {a : DbufAct} (h : s.SessionKept) (ht : s.run.SlotsTracked DbufRun.Ended)
    (hs : s.step p a = some s') : s'.SessionKept := by
  obtain ⟨r, hr, rfl⟩ := Option.map_eq_some_iff.mp hs
  by_cases hst : s.run.Starts a = true
  · rw [if_pos hst]
    cases a with
    | start fault io alloc => exact started_sessionKept hr (by simpa [DbufRun.Starts] using hst)
    | _ => simp [DbufRun.Starts] at hst
  rw [if_neg hst]
  cases DbufRun.step_slotMove hr with
  | kept hsame hpc hact =>
    exact h.same hsame hpc.at_eq fun ha => ⟨(hact ha).1, fun i hi => (hpc.owes i).mpr hi⟩
  | unwound rv hsame hact hpc hpc' =>
    refine h.same hsame (by simp [hpc', DbufPc.At]) fun ha => ⟨hact ▸ ha, fun i hi => ?_⟩
    simp [hpc, DbufPc.Owes] at hi
  | started fault io alloc bus ha hret =>
    subst ha
    simp [DbufRun.Starts, hret] at hst
  | woken count hpc hfilled hact hsame hcdev hpc' =>
    refine h.same hsame (by simp [hpc', DbufPc.At]) fun ha => ⟨hact, fun i hi => ?_⟩
    simp [hpc, DbufPc.Owes] at hi
  | refused oom caller i rv ha hpc hreq heq =>
    subst heq
    apply submitFailed_sessionKept (r := s.run.clearSlot i) caller rv h.first
    intro hc ha j
    apply h.cleared ha
    intro hj
    cases caller with
    | start => exact absurd rfl hc
    | read count => simp [hpc, DbufPc.Owes, hj.symm]
  | allocated oom caller i req ha hpc hreq heq => exact heq ▸ allocated_sessionKept h hpc
  | built c ha hpc hn heq => exact heq ▸ built_sessionKept h ht hpc hn
  | dropped w c rv ha hpc hacc heq =>
    subst heq
    apply submitFailed_sessionKept c.caller rv h.first
    intro hc ha j
    have ho : ¬ s.run.pc.Owes j := by simp [hpc, DbufPc.Owes, hc]
    exact ⟨h.cur ha j ho, h.last ha j ho⟩
  | queued w c ha hpc hacc heq => exact heq ▸ queued_sessionKept h hpc hacc
  | serviced wb r ha heq => exact heq ▸ serviced_sessionKept h ht

theorem session_kept (h : Reachable (step p) Begins (fun s a => s.run.StartsDrained a) s) :
    s.run.SlotsTracked DbufRun.Ended ∧ s.SessionKept := by
  refine h.invariant (I := fun s => s.run.SlotsTracked DbufRun.Ended ∧ s.SessionKept) ?_ ?_
  · exact fun _ h => ⟨DbufRun.slotsTracked_of_begins h.1, sessionKept_of_begins h⟩
  · rintro s a s' ⟨ht, hk⟩ ha hs
    obtain ⟨r, hr, -⟩ := Option.map_eq_some_iff.mp hs
    refine ⟨?_, step_sessionKept hk ht hs⟩
    rw [run_of_step hs hr]
    exact ht.step ha hr

theorem SessionKept.isolated (h : s.SessionKept) (ht : s.run.SlotsTracked DbufRun.Ended) : s.Isolated p := by
  constructor
  · intro a s' hs i hi hi'
    obtain ⟨r, hr, -⟩ := Option.map_eq_some_iff.mp hs
    rw [run_of_step hs hr] at hi' ⊢
    exact DbufRun.step_marked ht.nodup hr hi hi'
  · rintro a s' - i t ⟨ha, hl, -, hcb, -⟩
    have hslots := ht.slots ha
    exact h.cur ha i (fun ho => hslots.owes i ho t hl hcb) t (hslots.owned t hl i hcb)
  · intro ha count hpc i hi
    have ho : ¬ s.run.pc.Owes i := by simp [hpc, DbufPc.Owes]
    refine ⟨h.last ha i ho hi, fun t htc => ?_⟩
    have hend := ht.filled i hi t htc
    refine ⟨h.cur ha i ho t htc, fun hl => ?_, hend⟩
    rw [(ht.linked t hl).1] at hend
    simp [DbufRun.Ended] at hend

/-- The mode started only behind the transfers of the last session, no slot is marked by
one of those; with no transfer failed either, a marked slot was brought completely. -/
theorem sessions_isolated : (Reachable (step p) Begins (fun s a => s.run.StartsDrained a) s → s.Isolated p) ∧
    (Reachable (step p) Begins (fun s a => s.run.NoFailure a) s → ∀ i, (s.run.cdev.dbuf i).filled = true →
      ∀ t ∈ s.run.cur i, (s.run.cdev.drv.tfer t).state = .completed) := by
  constructor
  · intro h
    obtain ⟨ht, hk⟩ := session_kept h
    exact hk.isolated ht
  · intro h
    have hkept : s.run.SlotsTracked (· = .completed) := by
      refine h.invariant (I := fun s => s.run.SlotsTracked (· = .completed))
        (fun _ h => DbufRun.slotsTracked_of_begins h.1) ?_
      intro s a s' hk ha hs
      obtain ⟨r, hr, -⟩ := Option.map_eq_some_iff.mp hs
      rw [run_of_step hs hr]
      exact DbufRun.SlotsTracked.step_noFailure hk ha hr
    exact hkept.filled

def restartRun : List DbufAct :=
  DbufRun.startedRun ++ [.service 0 ⟨xdmaStatDescCompleted, 2, 1⟩, .stop] ++ DbufRun.startedRun ++
    [.service 0 ⟨xdmaStatDescCompleted, 1, 1⟩, .read 4096]

theorem begins_default : Begins {} := ⟨⟨⟨rfl, rfl, rfl, rfl, fun _ => rfl⟩, fun _ => rfl⟩, le_refl _⟩

theorem sessions_isolated_restart : ∃ s : SessionRun, (s.first, s.run.pc, s.run.cur 0) =
    (2, .readWait 4096, [⟨2, 0⟩]) ∧
    s.Isolated {} ∧ ∀ i, (s.run.cdev.dbuf i).filled = true →
      ∀ t ∈ s.run.cur i, (s.run.cdev.drv.tfer t).state = .completed := by
  have hrun : (Transition.run (step {}) (fun s a => s.run.NoFailure a) {} restartRun).map
      (fun s => (s.first, s.run.pc, s.run.cur 0)) = some (2, .readWait 4096, [⟨2, 0⟩]) := by decide
  obtain ⟨s, hs, heq⟩ := exists_reachable begins_default hrun
  exact ⟨s, heq, sessions_isolated.1 (hs.mono fun _ _ h => h.startsDrained), sessions_isolated.2 hs⟩

/-- The mode is stopped with both slots queued and started anew; the first transfer of
the old session marks a slot of the new one. -/
theorem session_marked_by_last : ¬ ∀ (p : Params) (s : SessionRun),
    Reachable (step p) Begins (fun _ _ => True) s →
    s.Isolated p := by
  intro h
  have hrun : (Transition.run (step {}) (fun _ _ => True) {} (DbufRun.startedRun ++ [.stop] ++
    DbufRun.startedRun)).map
      (fun s => (s.first, (s.step {} (.service 0 ⟨xdmaStatDescCompleted, 1, 1⟩)).map
        fun s' => decide (s.run.MarkedBy s'.run 0 ⟨0, 0⟩))) = some (2, some true) := by decide
  obtain ⟨s, hs, heq⟩ := exists_reachable begins_default hrun
  obtain ⟨hfirst, hmark⟩ := Prod.mk.inj heq
  obtain ⟨s', hs', hmark⟩ := Option.map_eq_some_iff.mp hmark
  have := (h {} s hs).own _ s' hs' 0 ⟨0, 0⟩ (of_decide_eq_true hmark)
  simp [hfirst] at this

end SessionRun

end XdmaDriver
