import XdmaDriver.DoubleBufferSteps

/-!
The buffers of the two slots against the transfers that are queued for them.
-/

namespace XdmaDriver

open Transition Drv Spans

namespace DbufRun

variable {p : Params} {s s' : DbufRun}

def InSlot (s : DbufRun) (i : Fin 2) (sds : List SwDesc) : Prop :=
  (s.cdev.dbuf i).virt = true ∧
    ∀ a ∈ sdescBytes sds, a ∈ span (s.cdev.dbuf i).bus (s.cdev.dbuf i).size.toNat

/-- Every transfer that is linked for a slot writes to its buffer. -/
def BuffersHeld (s : DbufRun) : Prop :=
  ∀ t ∈ s.cdev.drv.eng.transferList, ∀ i, (s.cdev.drv.tfer t).cb = some (.dbuf i) → s.InSlot i (s.target t)

def Drained (s : DbufRun) : Prop :=
  ∀ t ∈ s.cdev.drv.eng.transferList, ∀ i, (s.cdev.drv.tfer t).cb ≠ some (.dbuf i)

instance (s : DbufRun) : Decidable s.Drained :=
  inferInstanceAs (Decidable (∀ t ∈ s.cdev.drv.eng.transferList, ∀ i : Fin 2,
  (s.cdev.drv.tfer t).cb ≠ some (.dbuf i)))

/-- The mode is left, and a failed start unwound, only when nothing is linked for a
slot any more. -/
def FreesDrained (s : DbufRun) : DbufAct → Prop
  | .stop => s.cdev.dbufActive = true → s.Drained
  | .close => s.cdev.dbufActive = true → s.Drained
  | .unwind => s.Drained
  | _ => True

instance (s : DbufRun) (a : DbufAct) : Decidable (s.FreesDrained a) := by
  apply @DbufAct.casesOn _ a <;> intros <;> (dsimp only [FreesDrained]; infer_instance)

structure MemoryKept (s : DbufRun) : Prop where
  numbered : s.Numbered
  held : s.BuffersHeld
  owned : s.Drained ∨ s.cdev.dbufActive = true ∨ ∃ rv, s.pc = .unwind rv
  slots : s.cdev.dbufActive = true → ∀ i, (s.cdev.dbuf i).virt = true ∧
    (s.cdev.dbuf i).sgt = ⟨[⟨(s.cdev.dbuf i).bus, (s.cdev.dbuf i).size⟩], 1, 1⟩
  submit : ∀ caller i, s.pc = .submit caller i → s.cdev.dbufActive = true
  building : ∀ c, s.pc.At c → s.cdev.dbufActive = true ∧ s.InSlot c.i c.req.sdesc
  built : ∀ c, s.pc = .queue c → (s.cdev.drv.tfer c.ref).cb = some (.dbuf c.i) ∧
    s.InSlot c.i (s.target c.ref)
  unwind : ∀ rv, s.pc = .unwind rv → s.cdev.dbufActive = false

theorem memoryKept_of_fresh (h : s.Fresh) (hcur : ∀ i, s.cur i = []) : s.MemoryKept := by
  have hpc := h.pc
  refine ⟨⟨?_, ?_, ?_, ?_⟩, ?_, .inl ?_, ?_, ?_, ?_, ?_, ?_⟩
  all_goals simp [Used, BuffersHeld, Drained, DbufPc.At, h.list, h.active, hpc, hcur]

def SameBuffers (s s' : XdmaCdev) : Prop :=
  ∀ i, (s'.dbuf i).virt = (s.dbuf i).virt ∧ (s'.dbuf i).bus = (s.dbuf i).bus ∧
    (s'.dbuf i).size = (s.dbuf i).size ∧ (s'.dbuf i).sgt = (s.dbuf i).sgt

theorem InSlot.congr {i : Fin 2} {sds : List SwDesc} (h : SameBuffers s.cdev s'.cdev) (hs : s.InSlot i sds) :
    s'.InSlot i sds := by
  obtain ⟨hv, hb, hz, -⟩ := h i
  unfold InSlot
  rw [hv, hb, hz]
  exact hs

theorem MemoryKept.frame (h : s.MemoryKept) (hnum : s'.Numbered) (hbuf : SameBuffers s.cdev s'.cdev)
    (hact : s'.cdev.dbufActive = s.cdev.dbufActive) (htar : s'.target = s.target)
    (hlist : ∀ t ∈ s'.cdev.drv.eng.transferList, t ∈ s.cdev.drv.eng.transferList)
    (hcb : ∀ t, (s'.cdev.drv.tfer t).cb = (s.cdev.drv.tfer t).cb)
    (hpc : s'.pc = s.pc ∨ (∀ rv, s.pc ≠ .unwind rv) ∧
      (s'.pc.Quiet ∨ s.cdev.dbufActive = true ∧ ∃ caller i, s'.pc = .submit caller i)) : s'.MemoryKept := by
  have hat : s'.pc = s.pc ∨ (∀ c, ¬ s'.pc.At c) ∧ ∀ rv, s'.pc ≠ .unwind rv := by
    refine hpc.imp_right ?_
    rintro ⟨-, (hq | ⟨count, hq⟩) | ⟨-, caller, i, hq⟩⟩ <;> simp [hq, DbufPc.At]
  have hdrained : s.Drained → s'.Drained := fun hd t ht i => hcb t ▸ hd t (hlist t ht) i
  refine ⟨hnum, fun t ht i hi => ?_, ?_, fun ha i => ?_, ?_, ?_, ?_, ?_⟩
  · rw [htar]
    exact (h.held t (hlist t ht) i (hcb t ▸ hi)).congr hbuf
  · rcases h.owned with hd | ha | ⟨rv, hu⟩
    · exact .inl (hdrained hd)
    · exact .inr (.inl (hact ▸ ha))
    · rcases hpc with hpc | ⟨hn, -⟩
      · exact .inr (.inr ⟨rv, hpc ▸ hu⟩)
      · exact absurd hu (hn rv)
  · obtain ⟨hv, hb, hz, hs⟩ := hbuf i
    rw [hv, hb, hz, hs]
    exact h.slots (hact ▸ ha) i
  · intro caller i hc
    rw [hact]
    rcases hpc with hpc | ⟨-, (hq | ⟨count, hq⟩) | ⟨ha, -⟩⟩
    · exact h.submit caller i (hpc ▸ hc)
    · simp [hq] at hc
    · simp [hq] at hc
    · exact ha
  · intro c hc
    rcases hat with hpc | ⟨hn, -⟩
    · obtain ⟨ha, hin⟩ := h.building c (hpc ▸ hc)
      exact ⟨hact ▸ ha, hin.congr hbuf⟩
    · exact absurd hc (hn c)
  · intro c hc
    rcases hat with hpc | ⟨hn, -⟩
    · obtain ⟨hi, hin⟩ := h.built c (hpc ▸ hc)
      rw [hcb, htar]
      exact ⟨hi, hin.congr hbuf⟩
    · exact absurd (.inr hc) (hn c)
  · intro rv hc
    rcases hat with hpc | ⟨-, hn⟩
    · exact hact ▸ h.unwind rv (hpc ▸ hc)
    · exact absurd hc (hn rv)

theorem MemoryKept.of_drained (hnum : s'.Numbered) (hd : s'.Drained) (hact : s'.cdev.dbufActive = false)
    (hpc : s'.pc.Quiet) : s'.MemoryKept := by
  refine ⟨hnum, fun t ht i hi => absurd hi (hd t ht i), .inl hd, by simp [hact], ?_, ?_, ?_, fun _ _ => hact⟩
  all_goals rcases hpc with hq | ⟨count, hq⟩ <;> simp [hq, DbufPc.At]

theorem SameBuffers.refl (s : XdmaCdev) : SameBuffers s s := fun _ => ⟨rfl, rfl, rfl, rfl⟩

theorem submitFailed_memoryKept {caller : DbufCaller} {rv : ℤ} (h : s.MemoryKept)
    (hpc : ∀ rv, s.pc ≠ .unwind rv) : (s.submitFailed caller rv).MemoryKept := by
  have hnum := submitFailed_numbered caller rv h.numbered
  cases caller with
  | start =>
    refine ⟨hnum, h.held, .inr (.inr ⟨rv, rfl⟩), ?_, ?_, ?_, ?_, fun _ _ => rfl⟩
    all_goals simp [submitFailed, DbufPc.At]
  | read count =>
    exact h.frame hnum (.refl _) rfl rfl (fun _ => id) (fun _ => rfl) (.inr ⟨hpc, .inl (.inl rfl)⟩)

theorem clearSlot_sameBuffers (s : DbufRun) (i : Fin 2) : SameBuffers s.cdev (s.clearSlot i).cdev := by
  intro j
  by_cases hj : j = i
  · subst hj
    simp [clearSlot]
  · simp [clearSlot, XdmaCdev.setSlot_of_ne hj]

theorem slotRequest_inSlot {oom : Bool} {i : Fin 2} {req : XdmaRequestCb}
    (h : s.cdev.slotRequest p oom i = .ok req) (hv : (s.cdev.dbuf i).virt = true)
    (hsgt : (s.cdev.dbuf i).sgt = ⟨[⟨(s.cdev.dbuf i).bus, (s.cdev.dbuf i).size⟩], 1, 1⟩) :
    s.InSlot i req.sdesc := by
  refine ⟨hv, fun a ha => ?_⟩
  rw [(XdmaCdev.slotRequest_ok h hsgt).1] at ha
  exact sdescSplit_subset p.descBlenMax _ ha

theorem submitSlot_memoryKept {oom : Bool} {caller : DbufCaller} {i : Fin 2} (h : s.MemoryKept)
    (hpc : s.pc = .submit caller i) : (s.submitSlot p oom caller i).MemoryKept := by
  have hbuf := clearSlot_sameBuffers s i
  have h₁ : (s.clearSlot i).MemoryKept := h.frame (clearSlot_numbered h.numbered) hbuf rfl rfl (fun _ => id)
    (fun _ => rfl) (.inl rfl)
  have ha := h₁.submit caller i hpc
  rcases submitSlot_cases (p := p) s oom caller i with ⟨rv, -, heq⟩ | ⟨req, hreq, heq⟩
  · rw [heq]
    exact submitFailed_memoryKept h₁ (by simp [clearSlot, hpc])
  · rw [heq]
    obtain ⟨hv, hsgt⟩ := h₁.slots ha i
    refine ⟨allocated_numbered h₁.numbered _ rfl, h₁.held, .inr (.inl ha), h₁.slots, by simp,
      ?_, by simp, by simp⟩
    rintro c (hc | hc)
    · obtain rfl := DbufPc.chain.inj hc
      exact ⟨ha, slotRequest_inSlot hreq hv hsgt⟩
    · cases hc

theorem buildNext_memoryKept {c : DbufSubmit} (h : s.MemoryKept) (hpc : s.pc = .chain c) :
    (s.buildNext c).MemoryKept := by
  have hb := buildNext_built s c
  have hnum := buildNext_numbered h.numbered hpc
  obtain ⟨ha, hv, hin⟩ := h.building c (.inl hpc)
  have hfresh := h.numbered.not_used hpc
  have hact : (s.buildNext c).cdev.dbufActive = true := by rw [hb.cdev]; exact ha
  have hdbuf : (s.buildNext c).cdev.dbuf = s.cdev.dbuf := by rw [hb.cdev]
  have hslot : ∀ i sds, s.InSlot i sds → (s.buildNext c).InSlot i sds := fun i sds hs => by
    unfold InSlot
    rw [hdbuf]
    exact hs
  refine ⟨hnum, fun t ht i hi => ?_, .inr (.inl hact), fun _ i => ?_, by simp [hb.pc], ?_, fun c' hc => ?_,
    by simp [hb.pc]⟩
  · rw [hb.list] at ht
    have hne : t ≠ c.ref := fun he => hfresh (.inl (he ▸ ht))
    rw [hb.other t hne] at hi
    rw [hb.target, Function.update_of_ne hne]
    exact hslot i _ (h.held t ht i hi)
  · rw [hdbuf]
    exact h.slots ha i
  · rintro c' (hc | hc)
    · simp [hb.pc] at hc
    · rw [hb.pc] at hc
      obtain rfl := DbufPc.queue.inj hc
      exact ⟨hact, hslot c.i _ ⟨hv, hin⟩⟩
  · rw [hb.pc] at hc
    obtain rfl := DbufPc.queue.inj hc
    refine ⟨hb.cb, hslot c.i _ ⟨hv, fun a ha => hin a ?_⟩⟩
    change a ∈ sdescBytes ((s.buildNext c).target c.ref) at ha
    rw [hb.target, Function.update_self] at ha
    obtain ⟨d, hd, hda⟩ := mem_sdescBytes.mp ha
    exact mem_sdescBytes.mpr ⟨d, List.mem_of_mem_drop (List.mem_of_mem_take hd), hda⟩

theorem queueNext_memoryKept {w : U32} {c : DbufSubmit} (h : s.MemoryKept) (hpc : s.pc = .queue c) :
    (s.queueNext p w c).MemoryKept := by
  by_cases hacc : s.cdev.drv.Accepts c.ref
  swap
  · obtain ⟨rv, heq⟩ := queueNext_refused (p := p) (w := w) hacc
    rw [heq]
    exact submitFailed_memoryKept h (by simp [hpc])
  have hnum := queueNext_numbered (p := p) (w := w) h.numbered hpc hacc
  obtain ⟨hq, heq⟩ := queueNext_accepted (p := p) (w := w) hacc
  obtain ⟨ha, hin⟩ := h.building c (.inr hpc)
  obtain ⟨hcb, hbuilt⟩ := h.built c hpc
  generalize s.queueNext p w c = s₁ at hnum hq heq ⊢
  have hsame : ∀ u, (s₁.cdev.drv.tfer u).cb = (s.cdev.drv.tfer u).cb := fun u => (hq.same u).2.2.2.2.2.1
  have hdbuf : s₁.cdev.dbuf = s.cdev.dbuf := by rw [heq]; rfl
  have hact : s₁.cdev.dbufActive = true := by rw [heq]; exact ha
  have htar : s₁.target = s.target := by rw [heq]; rfl
  have hpc₁ : s₁.pc = .chain { c with tferIdx := c.tferIdx + 1 } := by rw [heq]
  have hslot : ∀ i sds, s.InSlot i sds → s₁.InSlot i sds := fun i sds hs => by
    unfold InSlot
    rw [hdbuf]
    exact hs
  refine ⟨hnum, fun t ht i hi => ?_, .inr (.inl hact), fun _ i => ?_, by simp [hpc₁], ?_, by simp [hpc₁],
    by simp [hpc₁]⟩
  · rw [hq.list, List.mem_append, List.mem_singleton] at ht
    rw [hsame] at hi
    rw [htar]
    rcases ht with ht | rfl
    · exact hslot i _ (h.held t ht i hi)
    · obtain rfl : c.i = i := by simpa [hcb] using hi
      exact hslot _ _ hbuilt
  · rw [hdbuf]
    exact h.slots ha i
  · rintro c' (hc | hc)
    · rw [hpc₁] at hc
      obtain rfl := DbufPc.chain.inj hc
      exact ⟨hact, hslot _ _ hin⟩
    · simp [hpc₁] at hc

theorem ioctlDoDbufStop_cases (c : XdmaCdev) : c.ioctlDoDbufStop = c ∧ c.dbufActive = false ∨
    c.dbufActive = true ∧ c.ioctlDoDbufStop.dbufActive = false := by
  unfold XdmaCdev.ioctlDoDbufStop
  by_cases ha : c.dbufActive = false
  · exact .inl ⟨by simp [ha], ha⟩
  · refine .inr ⟨by simpa using ha, ?_⟩
    rw [if_neg ha]
    rfl

theorem stop_memoryKept (h : s.MemoryKept) (hpc : s.pc.Quiet) (hok : s.cdev.dbufActive = true → s.Drained)
    (hnum : ({ s with cdev := s.cdev.ioctlDoDbufStop } : DbufRun).Numbered) :
    ({ s with cdev := s.cdev.ioctlDoDbufStop } : DbufRun).MemoryKept := by
  rcases ioctlDoDbufStop_cases s.cdev with ⟨heq, -⟩ | ⟨ha, hact⟩
  · rw [heq]
    exact h
  · refine .of_drained hnum (fun t ht i => ?_) hact hpc
    simp only [ioctlDoDbufStop_drv] at ht ⊢
    exact hok ha t ht i

theorem start_memoryKept {fault : Bool} {io : XdmaDbufIoctl} {alloc : Fin 2 → DbufAlloc} (h : s.MemoryKept)
    (hs : s.step p (.start fault io alloc) = some s') : s'.MemoryKept := by
  have hnum := step_numbered h.numbered hs
  have hdrained (hidle : s.cdev.dbufActive = false) (hpc : s.pc = .idle) : s.Drained :=
    h.owned.resolve_right (by simp [hidle, hpc])
  obtain ⟨hpc, ⟨rv, hrv, rfl⟩ | ⟨hrv, rfl⟩⟩ := step_start hs
  · obtain ⟨rv', -, hn⟩ | ⟨hnone, -⟩ := XdmaCdev.ioctlDoDbufStart_cases fault io alloc s.cdev
    swap
    · rw [hnone] at hrv
      cases hrv
    rcases hn.freed with heq | ⟨hidle, -⟩
    · rw [heq] at hnum ⊢
      exact h.frame hnum (.refl _) rfl rfl (fun _ => id) (fun _ => rfl) (.inl rfl)
    · refine .of_drained hnum (fun t ht i => ?_) (hn.active.trans hidle) (.inl hpc)
      rw [hn.drv] at ht ⊢
      exact hdrained hidle hpc t ht i
  · obtain ⟨rv', hsome, -⟩ | ⟨-, bus, -, hall⟩ := XdmaCdev.ioctlDoDbufStart_cases fault io alloc s.cdev
    · rw [hrv] at hsome
      cases hsome
    have hd := hdrained hall.idle hpc
    refine ⟨hnum, fun t ht i hi => ?_, .inr (.inl hall.active), fun _ i => ?_, fun _ _ _ => hall.active,
      by simp [DbufPc.At], by simp, by simp⟩
    · rw [hall.drv] at ht hi
      exact absurd hi (hd t ht i)
    · rw [hall.slot i]
      exact ⟨rfl, rfl⟩

theorem step_memoryKept {a : DbufAct} (h : s.MemoryKept) (hok : s.FreesDrained a)
    (hs : s.step p a = some s') : s'.MemoryKept := by
  have hnum := step_numbered h.numbered hs
  cases a with
  | start fault io alloc => exact start_memoryKept h hs
  | submit oom =>
    obtain ⟨caller, i, hpc, rfl⟩ := step_submit hs
    exact submitSlot_memoryKept h hpc
  | build =>
    obtain ⟨c, hpc, -, -, rfl⟩ := step_build hs
    exact buildNext_memoryKept h hpc
  | queue w =>
    obtain ⟨c, hpc, rfl⟩ := step_queue hs
    exact queueNext_memoryKept h hpc
  | submitted =>
    obtain ⟨c, hpc, -, rfl⟩ := step_submitted hs
    obtain ⟨hdrv, -, -, htar, hdbuf, hact⟩ := submitDone_frame s c.caller c.i
    refine h.frame hnum (fun i => by simp [hdbuf]) hact htar (fun t ht => hdrv ▸ ht)
      (fun t => by rw [hdrv]) (.inr ⟨by simp [hpc], ?_⟩)
    cases c.caller with
    | start =>
      by_cases hi : c.i = 0
      · exact .inr ⟨(h.building c (.inl hpc)).1, .start, 1, by simp [submitDone, hi]⟩
      · exact .inl (.inl (by simp [submitDone, hi]))
    | read count => exact .inl (.inl rfl)
  | unwind =>
    obtain ⟨rv, hpc, rfl⟩ := step_unwind hs
    exact .of_drained hnum hok (h.unwind rv hpc) (.inl rfl)
  | read count =>
    obtain ⟨hpc, -, ⟨-, rfl⟩ | ⟨-, rfl⟩⟩ := step_read hs
    · exact h.frame hnum (.refl _) rfl rfl (fun _ => id) (fun _ => rfl) (.inl rfl)
    · exact h.frame hnum (.refl _) rfl rfl (fun _ => id) (fun _ => rfl)
        (.inr ⟨by simp [hpc], .inl (.inr ⟨count, rfl⟩)⟩)
  | wake fault =>
    obtain ⟨count, hpc, -, rfl⟩ := step_wake hs
    obtain ⟨hcdev, -, -, htar, -⟩ := readWoken_frame s fault count
    refine h.frame hnum (by rw [hcdev]; exact .refl _) (by rw [hcdev]) htar (fun t ht => hcdev ▸ ht)
      (fun t => by rw [hcdev]) (.inr ⟨by simp [hpc], ?_⟩)
    unfold readWoken
    by_cases ha : s.cdev.dbufActive = false
    · exact .inl (.inl (by simp [ha]))
    by_cases hf : fault = true
    · exact .inl (.inl (by simp [ha, hf]))
    · exact .inr ⟨by simpa using ha, .read count, s.cdev.dbufReadIdx, by simp [ha, hf]⟩
  | signal =>
    obtain ⟨count, hpc, rfl⟩ := step_signal hs
    exact h.frame hnum (.refl _) rfl rfl (fun _ => id) (fun _ => rfl) (.inr ⟨by simp [hpc], .inl (.inl rfl)⟩)
  | stop =>
    obtain ⟨hpc, rfl⟩ := step_stop hs
    exact stop_memoryKept h hpc hok hnum
  | close =>
    obtain ⟨hpc, rfl⟩ := step_close hs
    exact stop_memoryKept h hpc hok hnum
  | service wb r =>
    obtain rfl := Option.some.inj hs
    obtain ⟨out, he⟩ := engineService_effect p wb r s.cdev.drv
    have hsv := XdmaCdev.service_spec he
    refine h.frame hnum (fun i => by rw [hsv.slot i]; simp) (by rw [hsv.frame]) rfl (fun t ht => ?_)
      (fun t => (hsv.effect.same t).2.2.2.2.2.1) (.inl rfl)
    rw [hsv.effect.list]
    exact List.mem_append_right _ ht
  | dma data =>
    obtain ⟨t, -, -, -, rfl⟩ := step_dma hs
    obtain ⟨hcdev, -, -, htar, hpc⟩ := execDesc_frame s data t
    exact h.frame hnum (by rw [hcdev]; exact .refl _) (by rw [hcdev]) htar (fun u hu => hcdev ▸ hu)
      (fun u => by rw [hcdev]) (.inl hpc)
  | result i r =>
    obtain rfl := Option.some.inj hs
    exact h.frame hnum (.refl _) rfl rfl (fun _ => id) (fun _ => rfl) (.inl rfl)
  | setOffline offline =>
    obtain rfl := Option.some.inj hs
    exact h.frame hnum (.refl _) rfl rfl (fun _ => id) (fun _ => rfl) (.inl rfl)

structure Begins (s : DbufRun) : Prop extends Fresh s where
  cur : ∀ i, s.cur i = []

/-- The buffers of queued transfers stay allocated in every run that frees them only
when nothing is linked for a slot. -/
theorem queued_buffers_held (h : Reachable (step p) Begins FreesDrained s) : s.BuffersHeld :=
  (h.invariant (fun _ h => memoryKept_of_fresh h.toFresh h.cur)
    fun _ _ _ hI hok hs => step_memoryKept hI hok hs).held

def twoPages : DbufAct := .start false { bufSize := 4096 } fun i =>
    ⟨some (if i = 0 then 0x10000 else 0x20000), true⟩

def startedRun : List DbufAct :=
  [twoPages, .submit false, .build, .queue 1, .submitted, .submit false, .build, .queue 1, .submitted]

theorem queued_buffers_held_started : ∃ s : DbufRun, s.cdev.drv.eng.transferList = [⟨0, 0⟩, ⟨1, 0⟩] ∧
    s.BuffersHeld := by
  have hbegins : Begins {} := ⟨⟨rfl, rfl, rfl, rfl, fun _ => rfl⟩, fun _ => rfl⟩
  have hrun : (run (step {}) FreesDrained {} startedRun).map (fun s => s.cdev.drv.eng.transferList) =
    some [⟨0, 0⟩, ⟨1, 0⟩] := by decide
  obtain ⟨s, hs, hl⟩ := exists_reachable hbegins hrun
  exact ⟨s, hl, queued_buffers_held hs⟩

/-- The mode is stopped while the engine still works on the first slot. -/
theorem queued_buffers_freed : ¬ ∀ (p : Params) (s : DbufRun), Reachable (step p) Begins (fun _ _ => True) s →
    s.BuffersHeld := by
  intro h
  have hbegins : Begins {} := ⟨⟨rfl, rfl, rfl, rfl, fun _ => rfl⟩, fun _ => rfl⟩
  have hrun : (run (step {}) (fun _ _ => True) {} (startedRun ++ [.stop])).map (fun s =>
      (s.cdev.drv.eng.transferList, (s.cdev.drv.tfer ⟨0, 0⟩).cb, (s.cdev.dbuf 0).virt)) =
    some ([⟨0, 0⟩, ⟨1, 0⟩], some (.dbuf 0), false) := by decide
  obtain ⟨s, hs, heq⟩ := exists_reachable hbegins hrun
  simp only [Prod.mk.injEq] at heq
  obtain ⟨hl, hcb, hv⟩ := heq
  have := (h {} s hs ⟨0, 0⟩ (by simp [hl]) 0 hcb).1
  simp [hv] at this

end DbufRun

end XdmaDriver
