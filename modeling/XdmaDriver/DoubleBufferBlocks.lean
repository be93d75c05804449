import XdmaDriver.DoubleBufferMemory

/-!
The memory of a double-buffer session: `xdma_xfer_submit_nowait` allocates a request for
each submission of a slot, and `dbuf_io_done` does not call `xdma_xfer_completion`, which
would free it.
-/

namespace XdmaDriver

open Transition Drv

def xdmaDbufNum : ℕ := 2

/-- A run with what belongs to its session: the requests that are allocated and not freed,
and the number of its successful reads. -/
structure BlockRun where
  run : DbufRun := {}
  live : List ℕ := []
  reads : ℕ := 0

def DbufPc.Resubmits : DbufPc → Prop
  | .chain c | .queue c => c.caller ≠ .start
  | _ => False

instance : DecidablePred DbufPc.Resubmits
  | .chain c | .queue c => inferInstanceAs (Decidable (c.caller ≠ .start))
  | .idle | .readWait _ | .submit _ _ | .unwind _ => inferInstanceAs (Decidable False)

namespace BlockRun

def after (s : BlockRun) (a : DbufAct) (run : DbufRun) : BlockRun :=
  match a, s.run.pc, run.pc with
  | .start _ _ _, _, .submit _ _ => { run := run }
  | .submit _, _, .chain c => { s with run := run, live := s.live ++ [c.own] }
  | .queue _, _, .chain _ => { s with run := run }
  | .queue _, .queue c, _ => { s with run := run, live := s.live.erase c.own }
  | .submitted, .chain c, _ => { s with run := run, reads := if c.caller = .start then s.reads
      else s.reads + 1 }
  | _, _, _ => { s with run := run }

def step (p : Params) (s : BlockRun) (a : DbufAct) : Option BlockRun := (s.run.step p a).map (s.after a)

structure Begins (s : BlockRun) : Prop where
  run : s.run.Begins
  live : s.live = []
  reads : s.reads = 0

def Counted (live : List ℕ) (n : ℕ) (active : Bool) : DbufPc → Prop
  | .idle | .readWait _ => (active = true → live.length = xdmaDbufNum + n) ∧
      (n = 0 ∧ live.length ≤ xdmaDbufNum ∨ live.length = xdmaDbufNum + n)
  | .submit .start i => n = 0 ∧ live.length = i.val
  | .submit (.read _) _ => live.length = xdmaDbufNum + n
  | .chain c | .queue c => c.own ∈ live ∧
      (c.caller = .start ∧ n = 0 ∧ live.length = c.i.val + 1 ∨
        c.caller ≠ .start ∧ live.length = xdmaDbufNum + n + 1)
  | .unwind _ => active = false ∧ n = 0 ∧ live.length ≤ xdmaDbufNum

variable {p : Params} {s s' : BlockRun} {live : List ℕ} {n : ℕ} {active : Bool}

theorem Counted.inactive {pc : DbufPc} (h : Counted live n active pc) : Counted live n false pc := by
  cases pc with
  | idle => exact ⟨nofun, h.2⟩
  | readWait count => exact ⟨nofun, h.2⟩
  | unwind rv => exact ⟨rfl, h.2⟩
  | submit caller i => cases caller <;> exact h
  | chain c => exact h
  | queue c => exact h

theorem submitFailed_counted {r : DbufRun} {caller : DbufCaller} {rv : ℤ}
    (hstart : caller = .start → n = 0 ∧ live.length ≤ xdmaDbufNum)
    (hread : caller ≠ .start → live.length = xdmaDbufNum + n) :
    Counted live n (r.submitFailed caller rv).cdev.dbufActive (r.submitFailed caller rv).pc := by
  cases caller with
  | start => exact ⟨rfl, hstart rfl⟩
  | read count => exact ⟨fun _ => hread nofun, .inr (hread nofun)⟩

theorem submit_counted {oom : Bool} (h : Counted s.live s.reads s.run.cdev.dbufActive s.run.pc)
    (hs : s.step p (.submit oom) = some s') : Counted s'.live s'.reads s'.run.cdev.dbufActive s'.run.pc := by
  obtain ⟨r, hr, rfl⟩ := Option.map_eq_some_iff.mp hs
  obtain ⟨caller, i, hpc, rfl⟩ := DbufRun.step_submit hr
  rw [hpc] at h
  unfold DbufRun.submitSlot
  dsimp only
  cases hreq : (s.run.clearSlot i).cdev.slotRequest p oom i with
  | error rv =>
    have hkept : s.after (.submit oom) ((s.run.clearSlot i).submitFailed caller rv) =
        { s with run := (s.run.clearSlot i).submitFailed caller rv } := by
      cases caller <;> rfl
    rw [hkept]
    apply submitFailed_counted
    · rintro rfl
      exact ⟨h.1, h.2.trans_le (Nat.le_of_lt i.isLt)⟩
    · cases caller with
      | start => exact fun hne => absurd rfl hne
      | read count => exact fun _ => h
  | ok req =>
    refine ⟨List.mem_append_right _ List.mem_cons_self, ?_⟩
    simp only [after, List.length_append, List.length_singleton]
    cases caller with
    | start => exact .inl ⟨rfl, h.1, congrArg (· + 1) h.2⟩
    | read count => exact .inr ⟨nofun, congrArg (· + 1) h⟩

theorem queue_counted {w : U32} (h : Counted s.live s.reads s.run.cdev.dbufActive s.run.pc)
    (hs : s.step p (.queue w) = some s') : Counted s'.live s'.reads s'.run.cdev.dbufActive s'.run.pc := by
  obtain ⟨r, hr, rfl⟩ := Option.map_eq_some_iff.mp hs
  obtain ⟨c, hpc, rfl⟩ := DbufRun.step_queue hr
  rw [hpc] at h
  by_cases hacc : s.run.cdev.drv.Accepts c.ref
  · obtain ⟨-, hnext⟩ := DbufRun.queueNext_accepted (p := p) (w := w) hacc
    rw [hnext]
    exact h
  · obtain ⟨rv, hnext⟩ := DbufRun.queueNext_refused (p := p) (w := w) hacc
    have hfreed : s.after (.queue w) (s.run.submitFailed c.caller rv) =
        { s with run := s.run.submitFailed c.caller rv, live := s.live.erase c.own } := by
      unfold after
      cases hc : c.caller <;> simp only [hpc, DbufRun.submitFailed]
    rw [hnext, hfreed]
    obtain ⟨hmem, hcount⟩ := h
    have hlen := List.length_erase_of_mem hmem
    apply submitFailed_counted
    · intro hc
      obtain ⟨-, hn, hl⟩ := hcount.resolve_right fun h => h.1 hc
      exact ⟨hn, by rw [hlen, hl]; exact Nat.le_of_lt c.i.isLt⟩
    · intro hc
      obtain ⟨-, hl⟩ := hcount.resolve_left fun h => hc h.1
      rw [hlen, hl, Nat.add_sub_cancel]

theorem submitted_counted (h : Counted s.live s.reads s.run.cdev.dbufActive s.run.pc)
    (hs : s.step p .submitted = some s') : Counted s'.live s'.reads s'.run.cdev.dbufActive s'.run.pc := by
  obtain ⟨r, hr, rfl⟩ := Option.map_eq_some_iff.mp hs
  obtain ⟨c, hpc, -, rfl⟩ := DbufRun.step_submitted hr
  rw [hpc] at h
  simp only [after, hpc]
  obtain ⟨-, hcount⟩ := h
  cases hc : c.caller with
  | read count =>
    obtain ⟨-, hl⟩ := hcount.resolve_left fun h => by simp [hc] at h
    have hnext : s.live.length = xdmaDbufNum + (s.reads + 1) := hl
    exact ⟨fun _ => hnext, .inr hnext⟩
  | start =>
    obtain ⟨-, hn, hl⟩ := hcount.resolve_right fun h => h.1 hc
    by_cases hi : c.i = 0
    · simp only [DbufRun.submitDone, hi, ↓reduceIte]
      exact ⟨hn, by rw [hl, hi]; rfl⟩
    · simp only [DbufRun.submitDone, hi, ↓reduceIte]
      have hboth : s.live.length = xdmaDbufNum + s.reads := by
        simp only [xdmaDbufNum]
        omega
      exact ⟨fun _ => hboth, .inr hboth⟩

theorem start_counted {fault : Bool} {io : XdmaDbufIoctl} {alloc : Fin 2 → DbufAlloc}
    (h : Counted s.live s.reads s.run.cdev.dbufActive s.run.pc) (hs : s.step p (.start fault io alloc) = some s') :
    Counted s'.live s'.reads s'.run.cdev.dbufActive s'.run.pc := by
  obtain ⟨r, hr, rfl⟩ := Option.map_eq_some_iff.mp hs
  obtain ⟨hpc, ⟨rv, hret, rfl⟩ | ⟨hret, rfl⟩⟩ := DbufRun.step_start hr
  · rw [hpc] at h
    have hsame : s.after (.start fault io alloc)
        { s.run with cdev := (s.run.cdev.ioctlDoDbufStart fault io alloc).1, ret := rv } =
        { s with run := { s.run with cdev := (s.run.cdev.ioctlDoDbufStart fault io alloc).1, ret := rv } } := by
      simp only [after, hpc]
    rw [hsame]
    rcases XdmaCdev.ioctlDoDbufStart_cases fault io alloc s.run.cdev with ⟨_, -, hno⟩ | ⟨hnone, -⟩
    · simp only [hpc, hno.active]
      exact h
    · simp [hnone] at hret
  · exact ⟨rfl, rfl⟩

theorem wake_counted {fault : Bool} (h : Counted s.live s.reads s.run.cdev.dbufActive s.run.pc)
    (hs : s.step p (.wake fault) = some s') : Counted s'.live s'.reads s'.run.cdev.dbufActive s'.run.pc := by
  obtain ⟨r, hr, rfl⟩ := Option.map_eq_some_iff.mp hs
  obtain ⟨count, hpc, -, rfl⟩ := DbufRun.step_wake hr
  rw [hpc] at h
  have hsame : s.after (.wake fault) (s.run.readWoken fault count) =
    { s with run := s.run.readWoken fault count } := by
    simp only [after]
  rw [hsame]
  unfold DbufRun.readWoken
  dsimp only
  split_ifs with hact hfault
  · exact h
  · exact h
  · exact h.1 (Bool.eq_true_of_not_eq_false hact)

theorem service_counted {wb : U32} {r : ServiceRegs}
    (h : Counted s.live s.reads s.run.cdev.dbufActive s.run.pc)
    (hs : s.step p (.service wb r) = some s') :
      Counted s'.live s'.reads s'.run.cdev.dbufActive s'.run.pc := by
  obtain ⟨r', hr, rfl⟩ := Option.map_eq_some_iff.mp hs
  obtain rfl := Option.some.inj hr
  obtain ⟨out, he⟩ := engineService_effect p wb r s.run.cdev.drv
  have hact : (s.run.cdev.service p wb r).dbufActive = s.run.cdev.dbufActive := by
    rw [(XdmaCdev.service_spec he).frame]
  have hsame : s.after (.service wb r) { s.run with cdev := s.run.cdev.service p wb r } =
      { s with run := { s.run with cdev := s.run.cdev.service p wb r } } := by
    simp only [after]
  rw [hsame]
  simpa only [hact] using h

theorem stop_counted {r : DbufRun} (h : Counted s.live s.reads s.run.cdev.dbufActive s.run.pc)
    (hpc : r.pc = s.run.pc)
    (hcdev : r.cdev = s.run.cdev.ioctlDoDbufStop) : Counted s.live s.reads r.cdev.dbufActive r.pc := by
  rw [hpc, hcdev]
  rcases DbufRun.ioctlDoDbufStop_cases s.run.cdev with ⟨hsame, -⟩ | ⟨-, hstop⟩
  · rw [hsame]
    exact h
  · rw [hstop]
    exact h.inactive

theorem step_counted {a : DbufAct} (h : Counted s.live s.reads s.run.cdev.dbufActive s.run.pc)
    (hs : s.step p a = some s') : Counted s'.live s'.reads s'.run.cdev.dbufActive s'.run.pc := by
  have hstep := Option.map_eq_some_iff.mp hs
  cases a with
  | start fault io alloc => exact start_counted h hs
  | submit oom => exact submit_counted h hs
  | queue w => exact queue_counted h hs
  | submitted => exact submitted_counted h hs
  | wake fault => exact wake_counted h hs
  | service wb r => exact service_counted h hs
  | build =>
    obtain ⟨r, hr, rfl⟩ := hstep
    obtain ⟨c, hpc, -, -, rfl⟩ := DbufRun.step_build hr
    rw [hpc] at h
    exact h
  | unwind =>
    obtain ⟨r, hr, rfl⟩ := hstep
    obtain ⟨rv, hpc, rfl⟩ := DbufRun.step_unwind hr
    rw [hpc] at h
    obtain ⟨hact, hn, hl⟩ := h
    exact ⟨fun ha => by simp [XdmaCdev.dbufFreeSgt, XdmaCdev.dbufFree, hact, after] at ha, .inl ⟨hn, hl⟩⟩
  | read count =>
    obtain ⟨r, hr, rfl⟩ := hstep
    obtain ⟨hpc, -, ⟨-, rfl⟩ | ⟨-, rfl⟩⟩ := DbufRun.step_read hr
    · exact h
    · rw [hpc] at h
      exact h
  | signal =>
    obtain ⟨r, hr, rfl⟩ := hstep
    obtain ⟨count, hpc, rfl⟩ := DbufRun.step_signal hr
    rw [hpc] at h
    exact h
  | stop =>
    obtain ⟨r, hr, rfl⟩ := hstep
    obtain ⟨-, rfl⟩ := DbufRun.step_stop hr
    simp only [after]
    exact stop_counted (r := { s.run with cdev := s.run.cdev.ioctlDoDbufStop }) h rfl rfl
  | close =>
    obtain ⟨r, hr, rfl⟩ := hstep
    obtain ⟨-, rfl⟩ := DbufRun.step_close hr
    simp only [after]
    exact stop_counted (r := { s.run with cdev := s.run.cdev.ioctlDoDbufStop }) h rfl rfl
  | dma data =>
    obtain ⟨r, hr, rfl⟩ := hstep
    obtain ⟨t, -, -, -, rfl⟩ := DbufRun.step_dma hr
    obtain ⟨hcdev, -, -, -, hpc⟩ := DbufRun.execDesc_frame s.run data t
    simp only [after]
    rw [hcdev, hpc]
    exact h
  | result i w =>
    obtain ⟨r, hr, rfl⟩ := hstep
    obtain rfl := Option.some.inj hr
    exact h
  | setOffline offline =>
    obtain ⟨r, hr, rfl⟩ := hstep
    obtain rfl := Option.some.inj hr
    exact h

/-- While no call is submitting a slot, a session with `n` successful reads has one request
for each of its slots and one more for each read; so they are at most one per slot exactly
as long as no read has succeeded, or has got the request for its slot. -/
theorem blocks_bounded_iff (h : Reachable (step p) Begins (fun _ _ => True) s) :
    (s.run.cdev.dbufActive = true → s.run.pc.Quiet → s.live.length = xdmaDbufNum + s.reads) ∧
      (s.live.length ≤ xdmaDbufNum ↔ s.reads = 0 ∧ ¬ s.run.pc.Resubmits) := by
  have hcount : Counted s.live s.reads s.run.cdev.dbufActive s.run.pc := by
    refine h.invariant (I := fun s => Counted s.live s.reads s.run.cdev.dbufActive s.run.pc) ?_
      fun _ _ _ h _ hs => step_counted h hs
    intro s hs
    rw [hs.run.pc, hs.run.active, hs.live, hs.reads]
    exact ⟨nofun, .inl ⟨rfl, Nat.zero_le _⟩⟩
  constructor
  · rintro hact (hpc | ⟨count, hpc⟩)
    · rw [hpc] at hcount
      exact hcount.1 hact
    · rw [hpc] at hcount
      exact hcount.1 hact
  · have hsubmit (c : DbufSubmit) (hc : c.caller = .start ∧ s.reads = 0 ∧ s.live.length = c.i.val + 1 ∨
        c.caller ≠ .start ∧ s.live.length = xdmaDbufNum + s.reads + 1) :
        s.live.length ≤ xdmaDbufNum ↔ s.reads = 0 ∧ ¬ c.caller ≠ .start := by
      have hi := c.i.isLt
      simp only [xdmaDbufNum] at hc ⊢
      rcases hc with ⟨hc, hn, hl⟩ | ⟨hc, hl⟩
      · simp only [hc, ne_eq, not_true_eq_false, not_false_eq_true, and_true]
        omega
      · simp only [hc, ne_eq, not_false_eq_true, not_true_eq_false, and_false, iff_false]
        omega
    cases hpc : s.run.pc with
    | idle =>
      rw [hpc] at hcount
      have hcount := hcount.2
      simp only [DbufPc.Resubmits, not_false_eq_true, and_true]
      omega
    | readWait count =>
      rw [hpc] at hcount
      have hcount := hcount.2
      simp only [DbufPc.Resubmits, not_false_eq_true, and_true]
      omega
    | submit caller i =>
      rw [hpc] at hcount
      simp only [DbufPc.Resubmits, not_false_eq_true, and_true]
      cases caller with
      | start =>
        obtain ⟨hn, hl⟩ := hcount
        have hi := i.isLt
        simp only [xdmaDbufNum]
        omega
      | read count =>
        have hl : s.live.length = xdmaDbufNum + s.reads := hcount
        omega
    | chain c =>
      rw [hpc] at hcount
      exact hsubmit c hcount.2
    | queue c =>
      rw [hpc] at hcount
      exact hsubmit c hcount.2
    | unwind rv =>
      rw [hpc] at hcount
      obtain ⟨-, hn, hl⟩ := hcount
      simp only [DbufPc.Resubmits, not_false_eq_true, and_true]
      omega

theorem begins_empty : Begins {} := ⟨⟨⟨rfl, rfl, rfl, rfl, fun _ => rfl⟩, fun _ => rfl⟩, rfl, rfl⟩

theorem blocks_bounded_iff_started : ∃ s, Reachable (step {}) Begins (fun _ _ => True) s ∧
    s.run.cdev.dbufActive = true ∧ s.live.length = xdmaDbufNum + 0 ∧ s.live.length ≤ xdmaDbufNum := by
  have hrun : (Transition.run (step {}) (fun _ _ => True) {} DbufRun.startedRun).map
      (fun s => (s.run.cdev.dbufActive, s.run.pc, s.reads)) = some (true, .idle, 0) := by decide
  obtain ⟨s, hs, heq⟩ := exists_reachable begins_empty hrun
  simp only [Prod.mk.injEq] at heq
  obtain ⟨hact, hpc, hreads⟩ := heq
  obtain ⟨hcount, hiff⟩ := blocks_bounded_iff hs
  refine ⟨s, hs, hact, hreads ▸ hcount hact (.inl hpc), hiff.mpr ⟨hreads, ?_⟩⟩
  simp [hpc, DbufPc.Resubmits]

/-- Two reads of a session: each leaves the request of the fill it has read behind, which
is not queued any more. -/
theorem blocks_exceeded : ∃ s, Reachable (step {}) Begins (fun _ _ => True) s ∧ s.run.cdev.dbufActive = true ∧
    s.run.pc = .idle ∧ s.run.cdev.drv.eng.transferList = [⟨2, 0⟩, ⟨3, 0⟩] ∧ s.reads = 2 ∧
    s.live = [0, 1, 2, 3] := by
  have hrun : (Transition.run (step {}) (fun _ _ => True) {} (DbufRun.startedRun ++
      [.service 0 ⟨0, 1, 1⟩, .read 2, .wake false, .submit false, .build, .queue 1, .submitted] ++
      [.service 0 ⟨0, 1, 1⟩, .read 2, .wake false, .submit false, .build, .queue 1, .submitted])).map
      (fun s => (s.run.cdev.dbufActive, s.run.pc, s.run.cdev.drv.eng.transferList, s.reads, s.live)) =
    some (true, .idle, [⟨2, 0⟩, ⟨3, 0⟩], 2, [0, 1, 2, 3]) := by decide
  obtain ⟨s, hs, heq⟩ := exists_reachable begins_empty hrun
  simp only [Prod.mk.injEq] at heq
  exact ⟨s, hs, heq⟩

end BlockRun

end XdmaDriver
