import XdmaDriver.DoubleBuffer

/-!
What each step of a double-buffer run does, and that the requests of a run have
numbers of their own.
-/

namespace XdmaDriver

open Transition Drv

namespace XdmaCdev

structure Allocated (s : XdmaCdev) (io : XdmaDbufIoctl) (bus : Fin 2 → U64) (s' : XdmaCdev) : Prop where
  idle : s.dbufActive = false
  active : s'.dbufActive = true
  drv : s'.drv = s.drv
  dir : s.drv.eng.dir = .fromDevice
  aligned : io.bufSize ≠ 0 ∧ io.bufSize &&& BitVec.ofNat 32 (xdmaPageSize - 1) = 0
  dbufSize : s'.dbufSize = io.bufSize
  readIdx : s'.dbufReadIdx = 0
  slot : ∀ i, s'.dbuf i = ⟨true, bus i, io.bufSize, ⟨[⟨bus i, io.bufSize⟩], 1, 1⟩, (s.dbuf i).filled⟩

structure NotStarted (s s' : XdmaCdev) : Prop where
  drv : s'.drv = s.drv
  active : s'.dbufActive = s.dbufActive
  filled : ∀ i, (s'.dbuf i).filled = (s.dbuf i).filled
  freed : s' = s ∨ s.dbufActive = false ∧ ∀ i, (s'.dbuf i).virt = false

theorem dbufAllocSlot_cases (a : DbufAlloc) (i : Fin 2) (s : XdmaCdev) :
    (∃ bus, a.bus = some bus ∧ s.dbufAllocSlot a i =
      (s.setSlot i fun slot => ⟨true, bus, s.dbufSize, ⟨[⟨bus, s.dbufSize⟩], 1, 1⟩, slot.filled⟩, 0)) ∨
    ∃ f, s.dbufAllocSlot a i = (s.setSlot i f, err .noMem) ∧ ∀ slot, (f slot).filled = slot.filled := by
  have htwice (f g : DbufSlot → DbufSlot) : (s.setSlot i f).setSlot i g = s.setSlot i (g ∘ f) := by
    simp [setSlot]
  unfold dbufAllocSlot
  cases hb : a.bus with
  | none => exact .inr ⟨_, rfl, fun _ => rfl⟩
  | some bus =>
    by_cases hsg : a.sgTable = true
    · simp only [hsg, ↓reduceIte, htwice]
      exact .inl ⟨bus, rfl, rfl⟩
    · simp only [hsg, Bool.false_eq_true, ↓reduceIte, htwice]
      exact .inr ⟨_, rfl, fun _ => rfl⟩

theorem setSlot_filled {s : XdmaCdev} {i : Fin 2} {f : DbufSlot → DbufSlot}
    (h : ∀ slot, (f slot).filled = slot.filled)
    (j : Fin 2) : ((s.setSlot i f).dbuf j).filled = (s.dbuf j).filled := by
  by_cases hj : j = i
  · subst hj
    rw [setSlot_self, h]
  · rw [setSlot_of_ne hj]

theorem ioctlDoDbufStart_cases (fault : Bool) (io : XdmaDbufIoctl)
    (alloc : Fin 2 → DbufAlloc) (s : XdmaCdev) :
    (∃ rv, (s.ioctlDoDbufStart fault io alloc).2 = some rv ∧
      s.NotStarted (s.ioctlDoDbufStart fault io alloc).1) ∨
    (s.ioctlDoDbufStart fault io alloc).2 = none ∧ ∃ bus, (∀ i, (alloc i).bus = some (bus i)) ∧
      s.Allocated io bus (s.ioctlDoDbufStart fault io alloc).1 := by
  have herr (rv : ℤ) : (∃ rv', (s, some rv).2 = some rv' ∧ s.NotStarted (s, some rv).1) :=
    ⟨rv, rfl, rfl, rfl, fun _ => rfl, .inl rfl⟩
  unfold ioctlDoDbufStart
  by_cases hdir : s.drv.eng.dir = .fromDevice
  swap
  · simp only [hdir, ne_eq, not_false_eq_true, ↓reduceIte]
    exact .inl (herr _)
  by_cases ha : s.dbufActive = true
  · simp only [hdir, ha, ne_eq, not_true_eq_false, ↓reduceIte]
    exact .inl (herr _)
  by_cases hf : fault = true
  · simp only [hdir, ha, hf, ne_eq, not_true_eq_false, Bool.false_eq_true, ↓reduceIte]
    exact .inl (herr _)
  by_cases hv : io.version = xdmaDbufV1
  swap
  · simp only [hdir, ha, hf, hv, ne_eq, not_true_eq_false, not_false_eq_true, Bool.false_eq_true, ↓reduceIte]
    exact .inl (herr _)
  by_cases hs : io.bufSize = 0 ∨ io.bufSize &&& BitVec.ofNat 32 (xdmaPageSize - 1) ≠ 0
  · simp only [hdir, ha, hf, hv, hs, ne_eq, not_true_eq_false, Bool.false_eq_true, ↓reduceIte]
    exact .inl (herr _)
  simp only [hdir, ha, hf, hv, hs, ne_eq, not_true_eq_false, Bool.false_eq_true, ↓reduceIte]
  rw [not_or, not_not] at hs
  have ha : s.dbufActive = false := by simpa using ha
  generalize hs₁ : ({ drv := s.drv, dbuf := s.dbuf, dbufSize := io.bufSize, dbufEpAddr := io.epAddr } :
    XdmaCdev) = s₁
  rcases dbufAllocSlot_cases (alloc 0) 0 s₁ with ⟨bus₀, hb₀, h₀⟩ | ⟨f, h₀, hf⟩
  swap
  · simp only [h₀, err_neg, ↓reduceIte]
    refine .inl ⟨_, rfl, by rw [← hs₁]; rfl, by rw [← hs₁]; exact ha.symm, fun j => ?_,
      .inr ⟨ha, fun _ => rfl⟩⟩
    exact (setSlot_filled hf j).trans (by rw [← hs₁])
  simp only [h₀, lt_self_iff_false, ↓reduceIte]
  generalize hs₂ : s₁.setSlot 0 (fun slot => ⟨true, bus₀, s₁.dbufSize, ⟨[⟨bus₀, s₁.dbufSize⟩], 1, 1⟩,
    slot.filled⟩) = s₂
  rcases dbufAllocSlot_cases (alloc 1) 1 s₂ with ⟨bus₁, hb₁, h₁⟩ | ⟨f, h₁, hf⟩
  swap
  · simp only [h₁, err_neg, ↓reduceIte]
    refine .inl ⟨_, rfl, by rw [← hs₂, ← hs₁]; rfl, by rw [← hs₂, ← hs₁]; exact ha.symm, fun j => ?_,
      .inr ⟨ha, fun _ => rfl⟩⟩
    subst hs₂ hs₁
    refine (setSlot_filled hf j).trans ?_
    rw [setSlot_filled]
    exact fun _ => rfl
  simp only [h₁, lt_self_iff_false, ↓reduceIte]
  subst hs₂ hs₁
  refine .inr ⟨trivial, fun i => if i = 0 then bus₀ else bus₁, ?_, ha, rfl, rfl, hdir, hs, rfl, rfl, ?_⟩
  · exact Fin.forall_fin_two.mpr ⟨hb₀, hb₁⟩
  · exact Fin.forall_fin_two.mpr ⟨rfl, rfl⟩

theorem slotRequest_ok {p : Params} {oom : Bool} {i : Fin 2} {c : XdmaCdev} {req : XdmaRequestCb}
    (h : c.slotRequest p oom i = .ok req) (hsgt : (c.dbuf i).sgt =
      ⟨[⟨(c.dbuf i).bus, (c.dbuf i).size⟩], 1, 1⟩) :
    req.sdesc = entrySdesc p ⟨(c.dbuf i).bus, (c.dbuf i).size⟩ ∧ req.swDescCnt = req.sdesc.length ∧
      req.swDescIdx = 0 := by
  unfold slotRequest at h
  dsimp only at h
  split_ifs at h
  split at h
  · cases h
  · rename_i req' hreq
    obtain rfl := Except.ok.inj h
    have hinit := xdmaInitRequest_initialised hreq
    have hentry : requestSdesc p (c.dbuf i).sgt.entries = entrySdesc p ⟨(c.dbuf i).bus, (c.dbuf i).size⟩ := by
      rw [hsgt]
      simp [requestSdesc, SgTable.entries]
    refine ⟨hinit.sdesc.trans hentry, ?_, hinit.idx⟩
    rw [hinit.cnt, hinit.sdesc]

theorem slotRequest_idx {p : Params} {oom : Bool} {i : Fin 2} {c : XdmaCdev} {req : XdmaRequestCb}
    (h : c.slotRequest p oom i = .ok req) : req.swDescIdx = 0 := by
  unfold slotRequest at h
  dsimp only at h
  split_ifs at h
  split at h
  · cases h
  · rename_i req' hreq
    obtain rfl := Except.ok.inj h
    exact (xdmaInitRequest_initialised hreq).idx

end XdmaCdev

def DbufPc.Quiet (pc : DbufPc) : Prop := pc = .idle ∨ ∃ count, pc = .readWait count

def DbufPc.At (pc : DbufPc) (c : DbufSubmit) : Prop := pc = .chain c ∨ pc = .queue c

def DbufPc.Owes : DbufPc → Fin 2 → Prop
  | .submit .start i, j => i ≤ j
  | .submit (.read _) i, j => i = j
  | .chain c, j => c.caller = .start ∧ c.i < j
  | .queue c, j => c.caller = .start ∧ c.i < j
  | _, _ => False

def DbufPc.Busy : DbufPc → Fin 2 → Prop
  | .chain c, j => c.i = j ∧ c.nents ≠ 0
  | .queue c, j => c.i = j
  | _, _ => False

structure DbufPc.SameCall (pc pc' : DbufPc) : Prop where
  at_eq : ∀ c, pc'.At c → pc' = pc
  owes : ∀ i, pc'.Owes i ↔ pc.Owes i
  busy : ∀ i, pc'.Busy i ↔ pc.Busy i
  unwind : ∀ rv, pc' = .unwind rv → pc = .unwind rv
  read : ∀ count i, pc' = .submit (.read count) i → pc' = pc

theorem DbufPc.SameCall.refl (pc : DbufPc) : pc.SameCall pc :=
  ⟨fun _ _ => rfl, fun _ => .rfl, fun _ => .rfl, fun _ => id, fun _ _ _ => rfl⟩

theorem DbufPc.Quiet.not_owes {pc : DbufPc} (h : pc.Quiet) (i : Fin 2) : ¬ pc.Owes i := by
  rcases h with rfl | ⟨count, rfl⟩ <;> simp [DbufPc.Owes]

theorem DbufPc.Quiet.not_busy {pc : DbufPc} (h : pc.Quiet) (i : Fin 2) : ¬ pc.Busy i := by
  rcases h with rfl | ⟨count, rfl⟩ <;> simp [DbufPc.Busy]

theorem DbufPc.SameCall.of_quiet {pc pc' : DbufPc} (h : pc'.Quiet) (howes : ∀ i, ¬ pc.Owes i)
    (hbusy : ∀ i, ¬ pc.Busy i) : pc.SameCall pc' := by
  refine ⟨?_, fun i => iff_of_false (h.not_owes i) (howes i),
    fun i => iff_of_false (h.not_busy i) (hbusy i), ?_, ?_⟩
  all_goals rcases h with rfl | ⟨count, rfl⟩ <;> simp [DbufPc.At]

namespace DbufRun

variable {p : Params} {s s' : DbufRun}

theorem step_start {fault : Bool} {io : XdmaDbufIoctl} {alloc : Fin 2 → DbufAlloc}
    (h : s.step p (.start fault io alloc) = some s') : s.pc = .idle ∧
      ((∃ rv, (s.cdev.ioctlDoDbufStart fault io alloc).2 = some rv ∧
          s' = { s with cdev := (s.cdev.ioctlDoDbufStart fault io alloc).1, ret := rv }) ∨
        (s.cdev.ioctlDoDbufStart fault io alloc).2 = none ∧
          s' = { s with
            cdev := (s.cdev.ioctlDoDbufStart fault io alloc).1
            pc := .submit .start 0
            acc := []
            fills := []
            reads := [] }) := by
  simp only [step] at h
  obtain ⟨hpc, h⟩ := Option.ite_none_right_eq_some.mp h
  refine ⟨hpc, ?_⟩
  generalize s.cdev.ioctlDoDbufStart fault io alloc = r at h
  obtain ⟨cdev, _ | rv⟩ := r
  · exact .inr ⟨rfl, (Option.some.inj h).symm⟩
  · exact .inl ⟨rv, rfl, (Option.some.inj h).symm⟩

theorem step_submit {oom : Bool} (h : s.step p (.submit oom) = some s') :
    ∃ caller i, s.pc = .submit caller i ∧ s' = s.submitSlot p oom caller i := by
  simp only [step] at h
  split at h
  · rename_i caller i hpc
    exact ⟨caller, i, hpc, (Option.some.inj h).symm⟩
  · cases h

theorem step_build (h : s.step p .build = some s') :
    ∃ c, s.pc = .chain c ∧ c.nents ≠ 0 ∧ c.tferIdx < tferMax ∧ s' = s.buildNext c := by
  simp only [step] at h
  split at h
  · rename_i c hpc
    obtain ⟨hn, h⟩ := Option.ite_none_left_eq_some.mp h
    obtain ⟨hn, hk⟩ := not_or.mp hn
    exact ⟨c, hpc, hn, not_le.mp hk, (Option.some.inj h).symm⟩
  · cases h

theorem step_queue {w : U32} (h : s.step p (.queue w) = some s') :
    ∃ c, s.pc = .queue c ∧ s' = s.queueNext p w c := by
  simp only [step] at h
  split at h
  · rename_i c hpc
    exact ⟨c, hpc, (Option.some.inj h).symm⟩
  · cases h

theorem step_submitted (h : s.step p .submitted = some s') :
    ∃ c, s.pc = .chain c ∧ c.nents = 0 ∧ s' = s.submitDone c.caller c.i := by
  simp only [step] at h
  split at h
  · rename_i c hpc
    obtain ⟨hn, h⟩ := Option.ite_none_right_eq_some.mp h
    exact ⟨c, hpc, hn, (Option.some.inj h).symm⟩
  · cases h

theorem step_unwind (h : s.step p .unwind = some s') :
    ∃ rv, s.pc = .unwind rv ∧
      s' = { s with cdev := s.cdev.dbufFreeSgt.dbufFree, pc := .idle, ret := rv } := by
  simp only [step] at h
  split at h
  · rename_i rv hpc
    exact ⟨rv, hpc, (Option.some.inj h).symm⟩
  · cases h

theorem step_read {count : ℕ} (h : s.step p (.read count) = some s') :
    s.pc = .idle ∧ s.cdev.dbufActive = true ∧
      ((s.cdev.dbufSize.toNat < count ∧ s' = { s with ret := err .inval }) ∨
        (count ≤ s.cdev.dbufSize.toNat ∧ s' = { s with pc := .readWait count })) := by
  simp only [step] at h
  obtain ⟨⟨hpc, ha⟩, h⟩ := Option.ite_none_right_eq_some.mp h
  refine ⟨hpc, ha, ?_⟩
  by_cases hc : s.cdev.dbufSize.toNat < count
  · rw [if_pos hc] at h
    exact .inl ⟨hc, (Option.some.inj h).symm⟩
  · rw [if_neg hc] at h
    exact .inr ⟨not_lt.mp hc, (Option.some.inj h).symm⟩

theorem step_wake {fault : Bool} (h : s.step p (.wake fault) = some s') :
    ∃ count, s.pc = .readWait count ∧
      ((s.cdev.dbuf s.cdev.dbufReadIdx).filled = true ∨ s.cdev.dbufActive = false) ∧
      s' = s.readWoken fault count := by
  simp only [step] at h
  split at h
  · rename_i count hpc
    obtain ⟨hw, h⟩ := Option.ite_none_right_eq_some.mp h
    exact ⟨count, hpc, hw, (Option.some.inj h).symm⟩
  · cases h

theorem step_signal (h : s.step p .signal = some s') :
    ∃ count, s.pc = .readWait count ∧ s' = { s with pc := .idle, ret := err .restartSys } := by
  simp only [step] at h
  split at h
  · rename_i count hpc
    exact ⟨count, hpc, (Option.some.inj h).symm⟩
  · cases h

theorem step_stop (h : s.step p .stop = some s') :
    s.pc.Quiet ∧ s' = { s with cdev := s.cdev.ioctlDoDbufStop } := by
  simp only [step] at h
  split at h
  · rename_i hpc
    exact ⟨.inl hpc, (Option.some.inj h).symm⟩
  · rename_i count hpc
    exact ⟨.inr ⟨count, hpc⟩, (Option.some.inj h).symm⟩
  · cases h

theorem step_close (h : s.step p .close = some s') :
    s.pc.Quiet ∧ s' = { s with cdev := s.cdev.ioctlDoDbufStop } := by
  simp only [step] at h
  split at h
  · rename_i hpc
    refine ⟨.inl hpc, ?_⟩
    have hclose : s.cdev.charSgdmaClose = s.cdev.ioctlDoDbufStop := by
      unfold XdmaCdev.charSgdmaClose
      split
      · rfl
      · rename_i ha
        simp [XdmaCdev.ioctlDoDbufStop, ha]
    rw [← hclose]
    exact (Option.some.inj h).symm
  · cases h

theorem step_dma {data : ℕ → U8} (h : s.step p (.dma data) = some s') :
    ∃ t, s.cdev.drv.eng.started = some t ∧ s.cdev.drv.eng.running = true ∧
      s.executed < (s.cdev.drv.tfer t).descNum ∧ s' = s.execDesc data t := by
  simp only [step] at h
  split at h
  · rename_i t ht
    obtain ⟨⟨hr, hlt⟩, h⟩ := Option.ite_none_right_eq_some.mp h
    exact ⟨t, ht, hr, hlt, (Option.some.inj h).symm⟩
  · cases h

structure BuiltNext (s : DbufRun) (c : DbufSubmit) (s' : DbufRun) : Prop where
  list : s'.cdev.drv.eng.transferList = s.cdev.drv.eng.transferList
  other : ∀ u, u ≠ c.ref → s'.cdev.drv.tfer u = s.cdev.drv.tfer u
  descNum : (s'.cdev.drv.tfer c.ref).descNum = chainLen s.cdev.drv.eng c.req
  descIndex : (s'.cdev.drv.tfer c.ref).descIndex = s.cdev.drv.eng.descIdx
  cb : (s'.cdev.drv.tfer c.ref).cb = some (.dbuf c.i)
  last : (s'.cdev.drv.tfer c.ref).lastInRequest = decide (c.nents = chainLen s.cdev.drv.eng c.req)
  cyclic : (s'.cdev.drv.tfer c.ref).cyclic = false
  state : (s'.cdev.drv.tfer c.ref).state = .new
  pc : s'.pc = .queue { c with
    req := (s.cdev.drv.transferInit c.req c.ref).2, nents := c.nents - chainLen s.cdev.drv.eng c.req }
  cdev : s'.cdev = { s.cdev with drv := s'.cdev.drv }
  cur : s'.cur = Function.update s.cur c.i (s.cur c.i ++ [c.ref])
  target : s'.target = Function.update s.target c.ref (chainSdesc s.cdev.drv.eng c.req)
  nextReq : s'.nextReq = s.nextReq

theorem buildNext_built (s : DbufRun) (c : DbufSubmit) : s.BuiltNext c (s.buildNext c) := by
  refine ⟨?_, fun u hu => ?_, ?_, ?_, ?_, ?_, ?_, ?_, rfl, rfl, rfl, rfl, rfl⟩
  · exact transferInit_transferList s.cdev.drv c.req c.ref
  · exact buildChain_other s.cdev.drv c.req c.ref _ _ _ hu
  all_goals simp [buildNext, withDrv, buildChain, transferInit]

theorem queueNext_accepted {w : U32} {c : DbufSubmit} (h : s.cdev.drv.Accepts c.ref) :
    Queued s.cdev.drv (s.queueNext p w c).cdev.drv c.ref ∧
      s.queueNext p w c = { s.withDrv (s.queueNext p w c).cdev.drv with
        pc := .chain { c with tferIdx := c.tferIdx + 1 } } := by
  obtain ⟨hq, hrv⟩ := transferQueue_accepted (p := p) (w := w) h
  have hnext : s.queueNext p w c = { s.withDrv (s.cdev.drv.transferQueue p c.ref w).1 with
      pc := .chain { c with tferIdx := c.tferIdx + 1 } } := by
    simp only [queueNext, hrv, lt_self_iff_false, ↓reduceIte]
  rw [hnext]
  exact ⟨hq, rfl⟩

theorem queueNext_refused {w : U32} {c : DbufSubmit} (h : ¬ s.cdev.drv.Accepts c.ref) :
    ∃ rv, s.queueNext p w c = s.submitFailed c.caller rv := by
  obtain ⟨hq, hrv⟩ := transferQueue_refused (p := p) (w := w) h
  refine ⟨(s.cdev.drv.transferQueue p c.ref w).2, ?_⟩
  simp only [queueNext, hrv, ↓reduceIte, hq]
  rfl

def Used (s : DbufRun) (t : XferRef) : Prop :=
  t ∈ s.cdev.drv.eng.transferList ∨ ∃ i, t ∈ s.cur i

structure Numbered (s : DbufRun) : Prop where
  used : ∀ t, s.Used t → t.req < s.nextReq
  own : ∀ c, s.pc.At c → c.own < s.nextReq
  chain : ∀ c, s.pc = .chain c → ∀ t, s.Used t → t.req = c.own → t.idx < c.tferIdx
  queue : ∀ c, s.pc = .queue c →
    (∀ t, s.Used t → t.req = c.own → t.idx ≤ c.tferIdx) ∧ c.ref ∉ s.cdev.drv.eng.transferList

theorem Numbered.not_used {c : DbufSubmit} (h : s.Numbered) (hpc : s.pc = .chain c) : ¬ s.Used c.ref :=
  fun hu => lt_irrefl _ (h.chain c hpc _ hu rfl)

def Older (s : DbufRun) (t : XferRef) : Prop :=
  t.req < s.nextReq ∧ ∀ c, s.pc.At c → t.req = c.own → t.idx < c.tferIdx

theorem Numbered.older (h : s.Numbered) {t : XferRef} (ht : t ∈ s.cdev.drv.eng.transferList) : s.Older t := by
  refine ⟨h.used t (.inl ht), ?_⟩
  rintro c (hc | hc) hreq
  · exact h.chain c hc t (.inl ht) hreq
  · obtain ⟨hle, hnot⟩ := h.queue c hc
    refine lt_of_le_of_ne (hle t (.inl ht) hreq) fun hidx => hnot ?_
    have href : c.ref = t := by
      rw [DbufSubmit.ref, ← hreq, ← hidx]
    exact href ▸ ht

theorem Numbered.mono (h : s.Numbered) (hn : s'.nextReq = s.nextReq)
    (hl : ∀ t ∈ s'.cdev.drv.eng.transferList, t ∈ s.cdev.drv.eng.transferList)
    (hc : s'.cur = s.cur) (hpc : ∀ c, s'.pc.At c → s'.pc = s.pc) : s'.Numbered := by
  have hu : ∀ t, s'.Used t → s.Used t := fun t ht => ht.imp (hl t) fun ⟨i, hi⟩ => ⟨i, hc ▸ hi⟩
  refine ⟨fun t ht => hn ▸ h.used t (hu t ht), fun c hp => ?_, fun c hp t ht => ?_, fun c hp => ?_⟩
  · rw [hn]
    exact h.own c (hpc c hp ▸ hp)
  · exact h.chain c (hpc c (.inl hp) ▸ hp) t (hu t ht)
  · obtain ⟨hle, hnot⟩ := h.queue c (hpc c (.inr hp) ▸ hp)
    exact ⟨fun t ht => hle t (hu t ht), fun hm => hnot (hl _ hm)⟩

theorem submitSlot_cases (s : DbufRun) (oom : Bool) (caller : DbufCaller) (i : Fin 2) :
    (∃ rv, (s.clearSlot i).cdev.slotRequest p oom i = .error rv ∧
      s.submitSlot p oom caller i = (s.clearSlot i).submitFailed caller rv) ∨
    ∃ req, (s.clearSlot i).cdev.slotRequest p oom i = .ok req ∧ s.submitSlot p oom caller i =
      { s.clearSlot i with
        pc := .chain ⟨caller, i, s.nextReq, req, req.swDescCnt, 0⟩, nextReq := s.nextReq + 1 } := by
  unfold submitSlot
  dsimp only
  split
  · exact .inl ⟨_, by assumption, rfl⟩
  · exact .inr ⟨_, by assumption, rfl⟩

theorem submitFailed_pc (s : DbufRun) (caller : DbufCaller) (rv : ℤ) (c : DbufSubmit) :
    ¬ (s.submitFailed caller rv).pc.At c := by
  cases caller <;> simp [submitFailed, DbufPc.At]

theorem submitFailed_numbered (caller : DbufCaller) (rv : ℤ) (h : s.Numbered) :
    (s.submitFailed caller rv).Numbered := by
  refine h.mono ?_ ?_ ?_ fun c hc => absurd hc (submitFailed_pc s caller rv c)
  all_goals cases caller <;> simp [submitFailed]

@[simp] theorem ioctlDoDbufStop_drv (c : XdmaCdev) : c.ioctlDoDbufStop.drv = c.drv := by
  unfold XdmaCdev.ioctlDoDbufStop
  split <;> rfl

theorem ioctlDoDbufStop_filled (c : XdmaCdev) (i : Fin 2) :
    (c.ioctlDoDbufStop.dbuf i).filled = (c.dbuf i).filled := by
  unfold XdmaCdev.ioctlDoDbufStop
  split <;> rfl

theorem ioctlDoDbufStop_active (c : XdmaCdev) (h : c.ioctlDoDbufStop.dbufActive = true) :
    c.dbufActive = true := by
  unfold XdmaCdev.ioctlDoDbufStop at h
  split at h
  · exact h
  · simp_all

theorem ioctlDoDbufStop_dbuf (c : XdmaCdev) (h : c.ioctlDoDbufStop.dbufActive = true) :
    c.ioctlDoDbufStop.dbuf = c.dbuf := by
  have ha := ioctlDoDbufStop_active c h
  unfold XdmaCdev.ioctlDoDbufStop at h ⊢
  simp [ha, XdmaCdev.dbufFree, XdmaCdev.dbufFreeSgt] at h

theorem submitDone_frame (s : DbufRun) (caller : DbufCaller) (i : Fin 2) :
    (s.submitDone caller i).cdev.drv = s.cdev.drv ∧ (s.submitDone caller i).cur = s.cur ∧
      (s.submitDone caller i).nextReq = s.nextReq ∧ (s.submitDone caller i).target = s.target ∧
      (s.submitDone caller i).cdev.dbuf = s.cdev.dbuf ∧
      (s.submitDone caller i).cdev.dbufActive = s.cdev.dbufActive := by
  cases caller with
  | start => by_cases hi : i = 0 <;> simp [submitDone, hi]
  | read count => simp [submitDone]

theorem readWoken_frame (s : DbufRun) (fault : Bool) (count : ℕ) :
    (s.readWoken fault count).cdev = s.cdev ∧ (s.readWoken fault count).cur = s.cur ∧
      (s.readWoken fault count).nextReq = s.nextReq ∧ (s.readWoken fault count).target = s.target ∧
      ∀ c, ¬ (s.readWoken fault count).pc.At c := by
  unfold readWoken
  dsimp only
  split
  · simp [DbufPc.At]
  · split <;> simp [DbufPc.At]

theorem execDesc_frame (s : DbufRun) (data : ℕ → U8) (t : XferRef) :
    (s.execDesc data t).cdev = s.cdev ∧ (s.execDesc data t).cur = s.cur ∧
      (s.execDesc data t).nextReq = s.nextReq ∧ (s.execDesc data t).target = s.target ∧
      (s.execDesc data t).pc = s.pc := by
  unfold execDesc
  dsimp only
  split <;> simp

theorem clearSlot_used {i : Fin 2} {t : XferRef} (h : (s.clearSlot i).Used t) : s.Used t := by
  rcases h with ht | ⟨j, hj⟩
  · exact .inl ht
  · refine .inr ⟨j, ?_⟩
    by_cases hji : j = i
    · subst hji
      simp [clearSlot] at hj
    · simpa [clearSlot, hji] using hj

theorem clearSlot_numbered {i : Fin 2} (h : s.Numbered) : (s.clearSlot i).Numbered :=
  ⟨fun t ht => h.used t (clearSlot_used ht), h.own, fun c hc t ht => h.chain c hc t (clearSlot_used ht),
    fun c hc => ⟨fun t ht => (h.queue c hc).1 t (clearSlot_used ht), (h.queue c hc).2⟩⟩

theorem allocated_numbered (h : s.Numbered) (c : DbufSubmit) (hown : c.own = s.nextReq) :
    ({ s with pc := .chain c, nextReq := s.nextReq + 1 } : DbufRun).Numbered := by
  refine ⟨fun t ht => (h.used t ht).trans (Nat.lt_succ_self _), ?_, ?_, by simp⟩
  · rintro c' (hc | hc)
    · obtain rfl := DbufPc.chain.inj hc
      rw [hown]
      exact Nat.lt_succ_self _
    · cases hc
  · intro c' hc t ht hreq
    obtain rfl := DbufPc.chain.inj hc
    exact absurd (hown ▸ hreq ▸ h.used t ht) (lt_irrefl _)

theorem buildNext_numbered {c : DbufSubmit} (h : s.Numbered) (hpc : s.pc = .chain c) :
    (s.buildNext c).Numbered := by
  have hb := buildNext_built s c
  have hown := h.own c (.inl hpc)
  have hused : ∀ t, (s.buildNext c).Used t → s.Used t ∨ t = c.ref := by
    rintro t (ht | ⟨j, hj⟩)
    · exact .inl (.inl (hb.list ▸ ht))
    · rw [hb.cur] at hj
      by_cases hji : j = c.i
      · subst hji
        rw [Function.update_self, List.mem_append, List.mem_singleton] at hj
        exact hj.imp_left fun hj => .inr ⟨_, hj⟩
      · exact .inl (.inr ⟨j, by simpa [hji] using hj⟩)
  refine ⟨fun t ht => ?_, ?_, fun c' hc => ?_, fun c' hc => ⟨fun t ht hreq => ?_, fun hm => ?_⟩⟩
  · rw [hb.nextReq]
    rcases hused t ht with ht | rfl
    · exact h.used t ht
    · exact hown
  · rintro c' (hc | hc)
    · simp [hb.pc] at hc
    · rw [hb.pc] at hc
      obtain rfl := DbufPc.queue.inj hc
      exact hb.nextReq ▸ hown
  · simp [hb.pc] at hc
  · rw [hb.pc] at hc
    obtain rfl := DbufPc.queue.inj hc
    rcases hused t ht with ht | rfl
    · exact (h.chain c hpc t ht hreq).le
    · exact le_refl _
  · rw [hb.pc] at hc
    obtain rfl := DbufPc.queue.inj hc
    rw [hb.list] at hm
    exact h.not_used hpc (.inl hm)

theorem queueNext_numbered {w : U32} {c : DbufSubmit} (h : s.Numbered) (hpc : s.pc = .queue c)
    (ha : s.cdev.drv.Accepts c.ref) : (s.queueNext p w c).Numbered := by
  obtain ⟨hq, heq⟩ := queueNext_accepted (p := p) (w := w) ha
  have hown := h.own c (.inr hpc)
  have hcur : (s.queueNext p w c).cur = s.cur := by rw [heq]; rfl
  have hnext : (s.queueNext p w c).nextReq = s.nextReq := by rw [heq]; rfl
  have hpc' : (s.queueNext p w c).pc = .chain { c with tferIdx := c.tferIdx + 1 } := by rw [heq]
  have hused : ∀ t, (s.queueNext p w c).Used t → s.Used t ∨ t = c.ref := by
    rintro t (ht | ⟨j, hj⟩)
    · rw [hq.list, List.mem_append, List.mem_singleton] at ht
      exact ht.imp_left .inl
    · exact .inl (.inr ⟨j, hcur ▸ hj⟩)
  refine ⟨fun t ht => ?_, ?_, fun c' hc t ht hreq => ?_, fun c' hc => ?_⟩
  · rw [hnext]
    rcases hused t ht with ht | rfl
    · exact h.used t ht
    · exact hown
  · rintro c' (hc | hc)
    · rw [hpc'] at hc
      obtain rfl := DbufPc.chain.inj hc
      exact hnext ▸ hown
    · simp [hpc'] at hc
  · rw [hpc'] at hc
    obtain rfl := DbufPc.chain.inj hc
    rcases hused t ht with ht | rfl
    · exact Nat.lt_succ_of_le ((h.queue c hpc).1 t ht hreq)
    · exact Nat.lt_succ_self _
  · simp [hpc'] at hc

structure SameSlots (s s' : DbufRun) : Prop where
  eng : s'.cdev.drv.eng = { s.cdev.drv.eng with cyclicResult := s'.cdev.drv.eng.cyclicResult }
  tfer : s'.cdev.drv.tfer = s.cdev.drv.tfer
  filled : ∀ i, (s'.cdev.dbuf i).filled = (s.cdev.dbuf i).filled
  cur : s'.cur = s.cur
  nextReq : s'.nextReq = s.nextReq

theorem SameSlots.list (h : SameSlots s s') : s'.cdev.drv.eng.transferList = s.cdev.drv.eng.transferList := by
  rw [h.eng]

theorem SameSlots.of_drv (hdrv : s'.cdev.drv = s.cdev.drv)
    (hfilled : ∀ i, (s'.cdev.dbuf i).filled = (s.cdev.dbuf i).filled) (hcur : s'.cur = s.cur)
    (hnext : s'.nextReq = s.nextReq) : SameSlots s s' := by
  refine ⟨?_, ?_, hfilled, hcur, hnext⟩ <;> rw [hdrv]

theorem SameSlots.of_cdev (hcdev : s'.cdev = s.cdev) (hcur : s'.cur = s.cur)
    (hnext : s'.nextReq = s.nextReq) :
    SameSlots s s' := .of_drv (by rw [hcdev]) (by simp [hcdev]) hcur hnext

inductive SlotMove (p : Params) (s : DbufRun) (a : DbufAct) (s' : DbufRun) : Prop
  | kept (h : SameSlots s s') (hpc : s.pc.SameCall s'.pc)
      (hact : s'.cdev.dbufActive = true → s.cdev.dbufActive = true ∧ s'.cdev.dbuf = s.cdev.dbuf)
  | unwound (rv : ℤ) (h : SameSlots s s') (hact : s'.cdev.dbufActive = s.cdev.dbufActive)
      (hpc : s.pc = .unwind rv) (hpc' : s'.pc = .idle)
  | started (fault : Bool) (io : XdmaDbufIoctl) (alloc : Fin 2 → DbufAlloc) (bus : Fin 2 → U64)
      (ha : a = .start fault io alloc) (hret : (s.cdev.ioctlDoDbufStart fault io alloc).2 = none)
        (hpc : s.pc = .idle)
      (h : SameSlots s s') (hall : s.cdev.Allocated io bus s'.cdev) (hpc' : s'.pc = .submit .start 0)
  | woken (count : ℕ) (hpc : s.pc = .readWait count)
      (hfilled : (s.cdev.dbuf s.cdev.dbufReadIdx).filled = true)
      (hact : s.cdev.dbufActive = true) (h : SameSlots s s') (hcdev : s'.cdev = s.cdev)
      (hpc' : s'.pc = .submit (.read count) s.cdev.dbufReadIdx)
  | refused (oom : Bool) (caller : DbufCaller) (i : Fin 2) (rv : ℤ) (ha : a = .submit oom)
      (hpc : s.pc = .submit caller i) (hreq : (s.clearSlot i).cdev.slotRequest p oom i = .error rv)
      (hs : s' = (s.clearSlot i).submitFailed caller rv)
  | allocated (oom : Bool) (caller : DbufCaller) (i : Fin 2) (req : XdmaRequestCb) (ha : a = .submit oom)
      (hpc : s.pc = .submit caller i) (hreq : (s.clearSlot i).cdev.slotRequest p oom i = .ok req)
      (hs : s' = { s.clearSlot i with
        pc := .chain ⟨caller, i, s.nextReq, req, req.swDescCnt, 0⟩, nextReq := s.nextReq + 1 })
  | built (c : DbufSubmit) (ha : a = .build) (hpc : s.pc = .chain c) (hn : c.nents ≠ 0)
      (hs : s' = s.buildNext c)
  | dropped (w : U32) (c : DbufSubmit) (rv : ℤ) (ha : a = .queue w) (hpc : s.pc = .queue c)
      (hacc : ¬ s.cdev.drv.Accepts c.ref) (hs : s' = s.submitFailed c.caller rv)
  | queued (w : U32) (c : DbufSubmit) (ha : a = .queue w) (hpc : s.pc = .queue c)
      (hacc : s.cdev.drv.Accepts c.ref)
      (hs : s' = s.queueNext p w c)
  | serviced (wb : U32) (r : ServiceRegs) (ha : a = .service wb r)
      (hs : s' = { s with cdev := s.cdev.service p wb r })

theorem submitDone_sameCall {c : DbufSubmit} (hpc : s.pc = .chain c) (hn : c.nents = 0) :
    s.pc.SameCall (s.submitDone c.caller c.i).pc := by
  rw [hpc]
  have hbusy : ∀ i, ¬ DbufPc.Busy (.chain c) i := fun i hb => hb.2 hn
  cases hc : c.caller with
  | read count =>
    exact .of_quiet (.inl rfl) (by simp [DbufPc.Owes, hc]) hbusy
  | start =>
    by_cases hi : c.i = 0
    · have hnew : (s.submitDone .start c.i).pc = .submit .start 1 := by simp [submitDone, hi]
      rw [hnew]
      refine ⟨by simp [DbufPc.At], fun j => ?_,
        fun j => iff_of_false (by simp [DbufPc.Busy]) (hbusy j), by simp,
        by simp⟩
      simp only [DbufPc.Owes, hc, hi, true_and]
      omega
    · have hnew : (s.submitDone .start c.i).pc = .idle := by simp [submitDone, hi]
      rw [hnew]
      refine .of_quiet (.inl rfl) (fun j hj => ?_) hbusy
      have := hj.2
      omega

theorem step_slotMove {a : DbufAct} (h : s.step p a = some s') : SlotMove p s a s' := by
  cases a with
  | start fault io alloc =>
    obtain ⟨hpc, ⟨rv, hret, rfl⟩ | ⟨hret, rfl⟩⟩ := step_start h
    · rcases XdmaCdev.ioctlDoDbufStart_cases fault io alloc s.cdev with ⟨_, -, hn⟩ | ⟨hnone, -⟩
      · refine .kept (.of_drv hn.drv hn.filled rfl rfl) (.refl _) fun ha => ?_
        have ha' : s.cdev.dbufActive = true := hn.active ▸ ha
        refine ⟨ha', ?_⟩
        rcases hn.freed with heq | ⟨hf, -⟩
        · exact congrArg XdmaCdev.dbuf heq
        · simp [ha'] at hf
      · simp [hret] at hnone
    · rcases XdmaCdev.ioctlDoDbufStart_cases fault io alloc s.cdev with ⟨_, hsome, -⟩ | ⟨-, bus, -, hall⟩
      · simp [hret] at hsome
      · refine .started fault io alloc bus rfl hret hpc ?_ hall rfl
        exact .of_drv hall.drv (fun i => by rw [hall.slot i]) rfl rfl
  | submit oom =>
    obtain ⟨caller, i, hpc, rfl⟩ := step_submit h
    rcases submitSlot_cases (p := p) s oom caller i with ⟨rv, hreq, heq⟩ | ⟨req, hreq, heq⟩
    · exact .refused oom caller i rv rfl hpc hreq heq
    · exact .allocated oom caller i req rfl hpc hreq heq
  | build =>
    obtain ⟨c, hpc, hn, -, hs⟩ := step_build h
    exact .built c rfl hpc hn hs
  | queue w =>
    obtain ⟨c, hpc, rfl⟩ := step_queue h
    by_cases ha : s.cdev.drv.Accepts c.ref
    · exact .queued w c rfl hpc ha rfl
    · obtain ⟨rv, heq⟩ := queueNext_refused (p := p) (w := w) ha
      exact .dropped w c rv rfl hpc ha heq
  | submitted =>
    obtain ⟨c, hpc, hn, rfl⟩ := step_submitted h
    obtain ⟨hdrv, hcur, hnext, -, hdbuf, hact⟩ := submitDone_frame s c.caller c.i
    exact .kept (.of_drv hdrv (by simp [hdbuf]) hcur hnext) (submitDone_sameCall hpc hn) fun ha =>
      ⟨hact ▸ ha, hdbuf⟩
  | unwind =>
    obtain ⟨rv, hpc, rfl⟩ := step_unwind h
    exact .unwound rv (.of_drv rfl (fun _ => rfl) rfl rfl) rfl hpc rfl
  | read count =>
    obtain ⟨hpc, -, ⟨-, rfl⟩ | ⟨-, rfl⟩⟩ := step_read h
    · exact .kept (.of_cdev rfl rfl rfl) (.refl _) fun ha => ⟨ha, rfl⟩
    · refine .kept (.of_cdev rfl rfl rfl) (.of_quiet (.inr ⟨count, rfl⟩) ?_ ?_) fun ha => ⟨ha, rfl⟩
      · exact DbufPc.Quiet.not_owes (.inl hpc)
      · exact DbufPc.Quiet.not_busy (.inl hpc)
  | wake fault =>
    obtain ⟨count, hpc, hwait, rfl⟩ := step_wake h
    obtain ⟨hcdev, hcur, hnext, -, -⟩ := readWoken_frame s fault count
    by_cases hgo : s.cdev.dbufActive = true ∧ fault = false
    · refine .woken count hpc (hwait.resolve_right (by simp [hgo.1])) hgo.1
        (.of_cdev hcdev hcur hnext) hcdev ?_
      simp [readWoken, hgo]
    · have hidle : (s.readWoken fault count).pc = .idle := by
        unfold readWoken
        dsimp only
        split_ifs <;> simp_all
      refine .kept (.of_cdev hcdev hcur hnext) ?_ fun ha => ⟨hcdev ▸ ha, by rw [hcdev]⟩
      rw [hidle]
      exact .of_quiet (.inl rfl) (DbufPc.Quiet.not_owes (.inr ⟨count, hpc⟩))
        (DbufPc.Quiet.not_busy (.inr ⟨count, hpc⟩))
  | signal =>
    obtain ⟨count, hpc, rfl⟩ := step_signal h
    refine .kept (.of_cdev rfl rfl rfl) (.of_quiet (.inl rfl) ?_ ?_) fun ha => ⟨ha, rfl⟩
    · exact DbufPc.Quiet.not_owes (.inr ⟨count, hpc⟩)
    · exact DbufPc.Quiet.not_busy (.inr ⟨count, hpc⟩)
  | stop =>
    obtain ⟨-, rfl⟩ := step_stop h
    refine .kept (.of_drv (ioctlDoDbufStop_drv _) (ioctlDoDbufStop_filled _) rfl rfl) (.refl _) fun ha => ?_
    exact ⟨ioctlDoDbufStop_active _ ha, ioctlDoDbufStop_dbuf _ ha⟩
  | close =>
    obtain ⟨-, rfl⟩ := step_close h
    refine .kept (.of_drv (ioctlDoDbufStop_drv _) (ioctlDoDbufStop_filled _) rfl rfl) (.refl _) fun ha => ?_
    exact ⟨ioctlDoDbufStop_active _ ha, ioctlDoDbufStop_dbuf _ ha⟩
  | service wb r => exact .serviced wb r rfl (Option.some.inj h).symm
  | dma data =>
    obtain ⟨t, -, -, -, rfl⟩ := step_dma h
    obtain ⟨hcdev, hcur, hnext, -, hpc⟩ := execDesc_frame s data t
    refine .kept (.of_cdev hcdev hcur hnext) ?_ fun ha => ⟨hcdev ▸ ha, by rw [hcdev]⟩
    rw [hpc]
    exact .refl _
  | result i r =>
    obtain rfl := Option.some.inj h
    exact .kept ⟨rfl, rfl, fun _ => rfl, rfl, rfl⟩ (.refl _) fun ha => ⟨ha, rfl⟩
  | setOffline offline =>
    obtain rfl := Option.some.inj h
    exact .kept ⟨rfl, rfl, fun _ => rfl, rfl, rfl⟩ (.refl _) fun ha => ⟨ha, rfl⟩

theorem SameSlots.numbered (h : SameSlots s s') (hnum : s.Numbered) (hpc : ∀ c, s'.pc.At c → s'.pc = s.pc) :
    s'.Numbered :=
  hnum.mono h.nextReq (fun _ ht => h.list ▸ ht) h.cur hpc

theorem step_numbered {a : DbufAct} (h : s.Numbered) (hs : s.step p a = some s') : s'.Numbered := by
  cases step_slotMove hs with
  | kept hsame hpc => exact hsame.numbered h hpc.at_eq
  | unwound rv hsame _ _ hpc' => exact hsame.numbered h fun c hc => by simp [DbufPc.At, hpc'] at hc
  | started fault io alloc bus _ _ _ hsame _ hpc' =>
    exact hsame.numbered h fun c hc => by simp [DbufPc.At, hpc'] at hc
  | woken count _ _ _ hsame _ hpc' => exact hsame.numbered h fun c hc => by simp [DbufPc.At, hpc'] at hc
  | refused oom caller i rv _ _ _ hs' =>
    rw [hs']
    exact submitFailed_numbered caller rv (clearSlot_numbered h)
  | allocated oom caller i req _ _ _ hs' =>
    rw [hs']
    exact allocated_numbered (clearSlot_numbered h) _ rfl
  | built c _ hpc _ hs' =>
    rw [hs']
    exact buildNext_numbered h hpc
  | dropped w c rv _ _ _ hs' =>
    rw [hs']
    exact submitFailed_numbered _ _ h
  | queued w c _ hpc hacc hs' =>
    rw [hs']
    exact queueNext_numbered h hpc hacc
  | serviced wb r _ hs' =>
    rw [hs']
    obtain ⟨out, he⟩ := engineService_effect p wb r s.cdev.drv
    refine h.mono rfl (fun t ht => ?_) rfl fun _ _ => rfl
    rw [he.list, ← XdmaCdev.service_drv]
    exact List.mem_append_right _ ht

inductive EngineMove (p : Params) (s : DbufRun) (a : DbufAct) (s' : DbufRun) : Prop
  | still (heng : s'.cdev.drv.eng = { s.cdev.drv.eng with cyclicResult := s'.cdev.drv.eng.cyclicResult })
      (htfer : s'.cdev.drv.tfer = s.cdev.drv.tfer) (hnext : s'.nextReq = s.nextReq)
      (hpc : ∀ c, s'.pc.At c → s'.pc = s.pc)
  | allocated (c : DbufSubmit) (hpc : s'.pc = .chain c) (hdrv : s'.cdev.drv = s.cdev.drv)
      (hnext : s'.nextReq = s.nextReq + 1) (hown : c.own = s.nextReq) (hnents : c.nents = c.req.swDescCnt)
      (hidx : c.req.swDescIdx = 0)
  | built (c : DbufSubmit) (ha : a = .build) (hpc : s.pc = .chain c) (hn : c.nents ≠ 0)
      (hs : s' = s.buildNext c)
  | queued (c : DbufSubmit) (w : U32) (hpc : s.pc = .queue c) (hacc : s.cdev.drv.Accepts c.ref)
      (hdrv : s'.cdev.drv = (s.cdev.drv.transferQueue p c.ref w).1)
      (hpc' : s'.pc = .chain { c with tferIdx := c.tferIdx + 1 }) (hnext : s'.nextReq = s.nextReq)
  | serviced (wb : U32) (r : ServiceRegs) (ha : a = .service wb r)
      (hdrv : s'.cdev.drv = (s.cdev.drv.engineService p wb r).1)
      (hpc : s'.pc = s.pc) (hnext : s'.nextReq = s.nextReq)

theorem EngineMove.of_drv {a : DbufAct} (hdrv : s'.cdev.drv = s.cdev.drv) (hnext : s'.nextReq = s.nextReq)
    (hpc : ∀ c, s'.pc.At c → s'.pc = s.pc) : EngineMove p s a s' := by
  apply EngineMove.still _ _ hnext hpc
  · rw [hdrv]
  · rw [hdrv]

theorem submitFailed_move {a : DbufAct} (caller : DbufCaller) (rv : ℤ) (hdrv : s'.cdev.drv = s.cdev.drv)
    (hnext : s'.nextReq = s.nextReq) : EngineMove p s a (s'.submitFailed caller rv) := by
  apply EngineMove.of_drv
  · cases caller <;> exact hdrv
  · cases caller <;> exact hnext
  · exact fun c hc => absurd hc (submitFailed_pc s' caller rv c)

theorem SameSlots.move {a : DbufAct} (h : SameSlots s s') (hpc : ∀ c, s'.pc.At c → s'.pc = s.pc) :
    EngineMove p s a s' := .still h.eng h.tfer h.nextReq hpc

theorem step_move {a : DbufAct} (h : s.step p a = some s') : EngineMove p s a s' := by
  cases step_slotMove h with
  | kept hsame hpc => exact hsame.move hpc.at_eq
  | unwound rv hsame _ _ hpc' => exact hsame.move fun c hc => by simp [DbufPc.At, hpc'] at hc
  | started fault io alloc bus _ _ _ hsame _ hpc' =>
      exact hsame.move fun c hc => by simp [DbufPc.At, hpc'] at hc
  | woken count _ _ _ hsame _ hpc' => exact hsame.move fun c hc => by simp [DbufPc.At, hpc'] at hc
  | refused oom caller i rv _ _ _ hs' =>
    rw [hs']
    exact submitFailed_move caller rv rfl rfl
  | allocated oom caller i req _ _ hreq hs' =>
    rw [hs']
    exact .allocated _ rfl rfl rfl rfl rfl (XdmaCdev.slotRequest_idx hreq)
  | built c ha hpc hn hs' => exact .built c ha hpc hn hs'
  | dropped w c rv _ _ _ hs' =>
    rw [hs']
    exact submitFailed_move _ _ rfl rfl
  | queued w c _ hpc hacc hs' =>
    have hrv := (transferQueue_accepted (p := p) (w := w) hacc).2
    have heq := (queueNext_accepted (p := p) (w := w) hacc).2
    rw [hs']
    refine .queued c w hpc hacc ?_ ?_ ?_
    · simp [queueNext, hrv, withDrv]
    · rw [heq]
    · rw [heq]
      rfl
  | serviced wb r ha hs' =>
    rw [hs']
    exact .serviced wb r ha (XdmaCdev.service_drv p wb r _) rfl rfl

end DbufRun

end XdmaDriver
