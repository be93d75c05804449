import XdmaDriver.DoubleBufferSlots

/-!
Between the calls on the device file each slot of the active mode is either filled or
queued.
-/

namespace XdmaDriver

open Transition Drv

def DbufPc.readSubmits : DbufPc → Option (Fin 2)
  | .submit (.read _) i => some i
  | _ => none

def DbufPc.readQueues : DbufPc → Option DbufSubmit
  | .queue c => if c.caller = .start then none else some c
  | _ => none

theorem XdmaCdev.slotRequest_error {p : Params} {oom : Bool} {i : Fin 2} {c : XdmaCdev} {rv : ℤ}
    (h : c.slotRequest p oom i = .error rv) : c.drv.offline = true ∨ c.drv.eng.dir ≠ .fromDevice ∨
      (c.dbuf i).sgt.nents = 0 ∨ xdmaInitRequest p oom (c.dbuf i).sgt.entries c.dbufEpAddr = none := by
  unfold slotRequest at h
  dsimp only at h
  split_ifs at h with hoff hdir hn
  · exact .inl hoff
  · exact .inr (.inl hdir)
  · exact .inr (.inr (.inl hn))
  · split at h
    · exact .inr (.inr (.inr (by assumption)))
    · cases h

theorem entrySdesc_ne_nil {p : Params} {sg : SgEntry} (h : sg.dmaLen ≠ 0) : entrySdesc p sg ≠ [] := by
  obtain ⟨n, hn⟩ : ∃ n, sg.dmaLen.toNat = n + 1 := by
    apply Nat.exists_eq_succ_of_ne_zero
    exact fun h0 => h (BitVec.eq_of_toNat_eq h0)
  unfold entrySdesc
  rw [hn, sdescSplit]
  split_ifs <;> simp_all

namespace DbufRun

variable {p : Params} {s s' : DbufRun}

structure SlotQueued (s : DbufRun) (i : Fin 2) : Prop where
  owned : ∀ t ∈ s.cdev.drv.eng.transferList, (s.cdev.drv.tfer t).cb = some (.dbuf i) → t ∈ s.cur i
  once : ∀ t ∈ s.cur i, (t ∈ s.cdev.drv.eng.transferList ∧ s.cdev.drv.eng.transferList.count t = 1) ∨
    Ended (s.cdev.drv.tfer t).state
  last : ∃ t ∈ s.cur i, t ∈ s.cdev.drv.eng.transferList ∧ (s.cdev.drv.tfer t).lastInRequest = true

/-- Slot `i` waits for the reader with nothing linked for it, or it is queued. -/
def SlotExclusive (s : DbufRun) (i : Fin 2) : Prop :=
  ((s.cdev.dbuf i).filled = true ∧ ∀ t ∈ s.cdev.drv.eng.transferList,
    (s.cdev.drv.tfer t).cb ≠ some (.dbuf i)) ∨
    ((s.cdev.dbuf i).filled = false ∧ s.SlotQueued i)

def SlotsExclusive (s : DbufRun) : Prop :=
  s.cdev.dbufActive = true → ∀ i, ¬ s.pc.Owes i → ¬ s.pc.Busy i → s.SlotExclusive i

/-- The mode is started with no transfer of an earlier one linked. When a read
resubmits its slot, the device is online, the request gets its memory and each chain
is accepted. -/
def Resubmits (p : Params) (s : DbufRun) : DbufAct → Prop
  | .start fault io alloc => (s.cdev.ioctlDoDbufStart fault io alloc).2 = none → s.Drained
  | .submit oom => ∀ i ∈ s.pc.readSubmits, s.cdev.drv.offline = false ∧
      xdmaInitRequest p oom (s.cdev.dbuf i).sgt.entries s.cdev.dbufEpAddr ≠ none
  | .queue _ => ∀ c ∈ s.pc.readQueues, s.cdev.drv.Accepts c.ref
  | _ => True

instance (p : Params) (s : DbufRun) (a : DbufAct) : Decidable (s.Resubmits p a) := by
  apply @DbufAct.casesOn _ a <;> intros <;> (dsimp only [Resubmits]; infer_instance)

def Served (s : DbufRun) (i : Fin 2) : Prop :=
  ((s.cdev.dbuf i).filled = true ∨
    ∃ t ∈ s.cur i, t ∈ s.cdev.drv.eng.transferList ∧ (s.cdev.drv.tfer t).lastInRequest = true) ∧
  ∀ t ∈ s.cur i, (s.cdev.drv.tfer t).state ≠ .new

structure SlotsServed (s : DbufRun) : Prop where
  table : s.cdev.dbufActive = true → s.cdev.drv.eng.dir = .fromDevice ∧ ∀ i, (s.cdev.dbuf i).size ≠ 0 ∧
    (s.cdev.dbuf i).sgt = ⟨[⟨(s.cdev.dbuf i).bus, (s.cdev.dbuf i).size⟩], 1, 1⟩
  unwind : ∀ rv, s.pc = .unwind rv → s.cdev.dbufActive = false
  count : ∀ c, s.pc.At c → c.nents = c.req.swDescCnt - c.req.swDescIdx
  last : ∀ c, s.pc = .queue c → c.nents = 0 → (s.cdev.drv.tfer c.ref).lastInRequest = true
  served : s.cdev.dbufActive = true → ∀ i, ¬ s.pc.Owes i → ¬ s.pc.Busy i → s.Served i

theorem slotsServed_of_begins (h : s.Begins) : s.SlotsServed := by
  obtain ⟨⟨hpc, hact, -, -, -⟩, -⟩ := h
  constructor
  all_goals simp [DbufPc.At, hpc, hact]

theorem SameSlots.served {i : Fin 2} (h : SameSlots s s') (hs : s.Served i) : s'.Served i := by
  unfold Served
  rw [h.filled, h.cur, h.list, h.tfer]
  exact hs

theorem SameSlots.dir (h : SameSlots s s') : s'.cdev.drv.eng.dir = s.cdev.drv.eng.dir := by rw [h.eng]

theorem clearSlot_dbuf_of_ne {i j : Fin 2} (hj : j ≠ i) : (s.clearSlot i).cdev.dbuf j = s.cdev.dbuf j := by
  simp [clearSlot, XdmaCdev.setSlot_of_ne hj]

theorem clearSlot_table (i j : Fin 2) : ((s.clearSlot i).cdev.dbuf j).size = (s.cdev.dbuf j).size ∧
    ((s.clearSlot i).cdev.dbuf j).bus = (s.cdev.dbuf j).bus ∧
      ((s.clearSlot i).cdev.dbuf j).sgt = (s.cdev.dbuf j).sgt := by
  by_cases hj : j = i
  · subst hj
    simp [clearSlot]
  · rw [clearSlot_dbuf_of_ne hj]
    exact ⟨rfl, rfl, rfl⟩

theorem Served.cleared {i j : Fin 2} (hj : j ≠ i) (h : s.Served j) : (s.clearSlot i).Served j := by
  have hcur : (s.clearSlot i).cur j = s.cur j := by simp [clearSlot, hj]
  unfold Served
  rw [clearSlot_dbuf_of_ne hj, hcur]
  exact h

theorem submitFailed_slotsServed (rv : ℤ) : (s.submitFailed .start rv).SlotsServed := by
  constructor
  all_goals simp [submitFailed, DbufPc.At]

theorem kept_slotsServed (h : s.SlotsServed) (hsame : SameSlots s s') (hpc : s.pc.SameCall s'.pc)
    (hact : s'.cdev.dbufActive = true → s.cdev.dbufActive = true ∧ s'.cdev.dbuf = s.cdev.dbuf) :
      s'.SlotsServed := by
  constructor
  · intro ha
    obtain ⟨ha, hdbuf⟩ := hact ha
    rw [hsame.dir, hdbuf]
    exact h.table ha
  · intro rv hu
    have := h.unwind rv (hpc.unwind rv hu)
    rw [← Bool.not_eq_true] at this ⊢
    exact fun ha => this (hact ha).1
  · exact fun c hc => h.count c (hpc.at_eq c hc ▸ hc)
  · intro c hc hn
    rw [hsame.tfer]
    exact h.last c (hpc.at_eq c (.inr hc) ▸ hc) hn
  · intro ha i ho hb
    apply hsame.served
    exact h.served (hact ha).1 i (fun h' => ho ((hpc.owes i).mpr h')) fun h' => hb ((hpc.busy i).mpr h')

theorem started_slotsServed {io : XdmaDbufIoctl} {bus : Fin 2 → U64} (hall : s.cdev.Allocated io bus s'.cdev)
    (hpc : s'.pc = .submit .start 0) : s'.SlotsServed := by
  constructor
  · intro _
    rw [hall.drv]
    refine ⟨hall.dir, fun i => ?_⟩
    rw [hall.slot i]
    exact ⟨hall.aligned.1, rfl⟩
  · simp [hpc]
  · simp [hpc, DbufPc.At]
  · simp [hpc]
  · intro _ i ho
    rw [hpc] at ho
    exact absurd (Fin.zero_le i) ho

theorem woken_slotsServed {count : ℕ} {i : Fin 2} (h : s.SlotsServed) (hpc : s.pc = .readWait count)
    (hsame : SameSlots s s') (hcdev : s'.cdev = s.cdev) (hpc' : s'.pc = .submit (.read count) i) :
      s'.SlotsServed := by
  constructor
  · rw [hcdev]
    exact h.table
  · simp [hpc']
  · simp [hpc', DbufPc.At]
  · simp [hpc']
  · intro ha j _ _
    rw [hcdev] at ha
    apply hsame.served
    exact h.served ha j (by simp [hpc, DbufPc.Owes]) (by simp [hpc, DbufPc.Busy])

theorem allocated_slotsServed {oom : Bool} {caller : DbufCaller} {i : Fin 2} {req : XdmaRequestCb}
    (h : s.SlotsServed)
    (hpc : s.pc = .submit caller i) (hreq : (s.clearSlot i).cdev.slotRequest p oom i = .ok req) :
    DbufRun.SlotsServed { s.clearSlot i with
      pc := .chain ⟨caller, i, s.nextReq, req, req.swDescCnt, 0⟩, nextReq := s.nextReq + 1 } := by
  constructor
  · intro ha
    obtain ⟨hdir, htable⟩ := h.table ha
    refine ⟨hdir, fun j => ?_⟩
    obtain ⟨hsize, hbus, hsgt⟩ := clearSlot_table (s := s) i j
    dsimp only
    rw [hsize, hbus, hsgt]
    exact htable j
  · simp
  · rintro c (hc | hc)
    · obtain rfl := DbufPc.chain.inj hc
      simp [XdmaCdev.slotRequest_idx hreq]
    · cases hc
  · simp
  · intro ha j ho hb
    obtain ⟨hsize, hbus, hsgt⟩ := clearSlot_table (s := s) i i
    have htable := (h.table ha).2 i
    rw [← hsize, ← hbus, ← hsgt] at htable
    obtain ⟨hsdesc, hcnt, -⟩ := XdmaCdev.slotRequest_ok hreq htable.2
    have hn : req.swDescCnt ≠ 0 := by
      rw [hcnt, hsdesc]
      exact fun h0 => entrySdesc_ne_nil htable.1 (List.eq_nil_of_length_eq_zero h0)
    have hj : j ≠ i := by
      rintro rfl
      exact hb ⟨rfl, hn⟩
    apply Served.cleared hj
    refine h.served ha j (fun ho' => ho ?_) ?_
    · rw [hpc] at ho'
      cases caller with
      | start => exact ⟨rfl, lt_of_le_of_ne ho' (Ne.symm hj)⟩
      | read count => exact absurd ho'.symm hj
    · simp [hpc, DbufPc.Busy]

theorem built_slotsServed {c : DbufSubmit} (h : s.SlotsServed) (hnum : s.Numbered) (hpc : s.pc = .chain c) :
    (s.buildNext c).SlotsServed := by
  have hb := buildNext_built s c
  have hfresh := hnum.not_used hpc
  have hcount := h.count c (.inl hpc)
  have hle := chainLen_le s.cdev.drv.eng c.req
  have hactive : (s.buildNext c).cdev.dbufActive = s.cdev.dbufActive := by rw [hb.cdev]
  have hdbuf : (s.buildNext c).cdev.dbuf = s.cdev.dbuf := by rw [hb.cdev]
  constructor
  · intro ha
    have hdir : (s.cdev.drv.transferInit c.req c.ref).1.eng.dir =
      s.cdev.drv.eng.dir := by rw [transferInit_eng]
    have hdir : (s.buildNext c).cdev.drv.eng.dir = s.cdev.drv.eng.dir := hdir
    rw [hdir, hdbuf]
    exact h.table (hactive ▸ ha)
  · simp [hb.pc]
  · rintro c' (hc | hc)
    · simp [hb.pc] at hc
    · rw [hb.pc] at hc
      obtain rfl := DbufPc.queue.inj hc
      dsimp only
      rw [hcount, Nat.sub_sub]
      rfl
  · intro c' hc hn'
    rw [hb.pc] at hc
    obtain rfl := DbufPc.queue.inj hc
    refine hb.last.trans (decide_eq_true ?_)
    dsimp only at hn'
    omega
  · intro ha j ho hbusy
    have hj : j ≠ c.i := by
      rintro rfl
      exact hbusy (by rw [hb.pc]; rfl)
    obtain ⟨hfill, hnew⟩ := h.served (hactive ▸ ha) j (fun ho' =>
      ho (by simpa [hb.pc, hpc, DbufPc.Owes] using ho'))
      (by simp [hpc, DbufPc.Busy, hj.symm])
    have hcur : (s.buildNext c).cur j = s.cur j := by simp [hb.cur, hj]
    have hold : ∀ t ∈ s.cur j, (s.buildNext c).cdev.drv.tfer t = s.cdev.drv.tfer t :=
      fun t ht => hb.other t fun he => hfresh (.inr ⟨j, he ▸ ht⟩)
    unfold Served
    rw [hcur, hdbuf, hb.list]
    refine ⟨hfill.imp_right ?_, fun t ht => ?_⟩
    · rintro ⟨t, ht, hl, hlast⟩
      exact ⟨t, ht, hl, by rw [hold t ht]; exact hlast⟩
    · rw [hold t ht]
      exact hnew t ht

theorem queued_slotsServed {w : U32} {c : DbufSubmit} (h : s.SlotsServed) (ht : s.SlotsTracked Ended)
    (hpc : s.pc = .queue c) (hacc : s.cdev.drv.Accepts c.ref) : (s.queueNext p w c).SlotsServed := by
  obtain ⟨⟨-, hun⟩, hm, -⟩ := ht.queue c hpc
  have hlast := h.last c hpc
  have hcount := h.count c (.inr hpc)
  obtain ⟨hq, heq⟩ := queueNext_accepted (p := p) (w := w) hacc
  generalize s.queueNext p w c = s₁ at hq heq ⊢
  have hpc₁ : s₁.pc = .chain { c with tferIdx := c.tferIdx + 1 } := by rw [heq]
  have hcur : s₁.cur = s.cur := by rw [heq]; rfl
  have hdbuf : s₁.cdev.dbuf = s.cdev.dbuf := by rw [heq]; rfl
  have hactive : s₁.cdev.dbufActive = s.cdev.dbufActive := by rw [heq]; rfl
  have hsame : ∀ u, (s₁.cdev.drv.tfer u).lastInRequest = (s.cdev.drv.tfer u).lastInRequest :=
    fun u => (hq.same u).2.2.2.2.1
  have hstate : ∀ u, u ≠ c.ref → (s₁.cdev.drv.tfer u).state = (s.cdev.drv.tfer u).state :=
    fun u hu => by rw [hq.other hu]
  constructor
  · intro ha
    obtain ⟨hdir, -⟩ := hq.ring
    rw [hdir, hdbuf]
    exact h.table (hactive ▸ ha)
  · simp [hpc₁]
  · rintro c' (hc | hc)
    · rw [hpc₁] at hc
      obtain rfl := DbufPc.chain.inj hc
      exact hcount
    · simp [hpc₁] at hc
  · simp [hpc₁]
  · intro ha j ho hbusy
    unfold Served
    rw [hcur, hdbuf, hq.list]
    by_cases hj : j = c.i
    · subst hj
      have hn : c.nents = 0 := by
        by_contra hn
        exact hbusy (by rw [hpc₁]; exact ⟨rfl, hn⟩)
      refine ⟨.inr ⟨c.ref, hm, by simp, by rw [hsame]; exact hlast hn⟩, fun t ht => ?_⟩
      by_cases hne : t = c.ref
      · rw [hne, hq.state]
        simp
      · rw [hstate t hne]
        exact (hun t ht hne).1
    · obtain ⟨hfill, hnew⟩ := h.served (hactive ▸ ha) j (fun ho' =>
        ho (by simpa [hpc₁, hpc, DbufPc.Owes] using ho'))
        (by simp [hpc, DbufPc.Busy, Ne.symm hj])
      refine ⟨hfill.imp_right ?_, fun t ht => ?_⟩
      · rintro ⟨t, ht, hl, hlast⟩
        exact ⟨t, ht, List.mem_append_left _ hl, by rw [hsame]; exact hlast⟩
      · by_cases hne : t = c.ref
        · rw [hne, hq.state]
          simp
        · rw [hstate t hne]
          exact hnew t ht

theorem serviced_slotsServed {wb : U32} {r : ServiceRegs} (h : s.SlotsServed) (ht : s.SlotsTracked Ended) :
    ({ s with cdev := s.cdev.service p wb r } : DbufRun).SlotsServed := by
  obtain ⟨out, he⟩ := engineService_effect p wb r s.cdev.drv
  have hsv := XdmaCdev.service_spec he
  rw [← XdmaCdev.service_drv] at he
  generalize s.cdev.service p wb r = cdev at hsv he ⊢
  have hactive : cdev.dbufActive = s.cdev.dbufActive := by rw [hsv.frame]
  have hlast : ∀ u, (cdev.drv.tfer u).lastInRequest = (s.cdev.drv.tfer u).lastInRequest :=
    fun u => (he.same u).2.2.2.2.1
  constructor
  · intro ha
    obtain ⟨hdir, htable⟩ := h.table (hactive ▸ ha)
    refine ⟨he.ring.1.trans hdir, fun i => ?_⟩
    dsimp only
    rw [hsv.slot i]
    exact htable i
  · dsimp only
    rw [hactive]
    exact h.unwind
  · exact h.count
  · intro c hc hn
    exact (hlast _).trans (h.last c hc hn)
  · intro ha i ho hb
    obtain ⟨hfill, hnew⟩ := h.served (hactive ▸ ha) i ho hb
    refine ⟨?_, fun t htc => ?_⟩
    · rcases hfill with hf | ⟨t, htc, hl, hlt⟩
      · exact .inl ((hsv.filled i).mpr (.inl hf))
      · by_cases hto : t ∈ out
        -- the last transfer leaves the queue, and its callback is called
        · exact .inl ((hsv.filled i).mpr (.inr ⟨hactive ▸ ha, t, hto, ht.cb i t htc, hlt⟩))
        · rw [he.list, List.mem_append] at hl
          exact .inr ⟨t, htc, hl.resolve_left hto, (hlast t).trans hlt⟩
    · dsimp only
      by_cases hto : t ∈ out
      · rcases he.left t hto with hst | hst <;> simp [hst]
      · rw [he.kept t hto]
        exact hnew t htc

theorem Resubmits.startsDrained {a : DbufAct} (h : s.Resubmits p a) : s.StartsDrained a := by
  cases a with
  | start fault io alloc => exact h
  | _ => trivial

theorem Resubmits.not_refused {oom : Bool} {count : ℕ} {i : Fin 2} {rv : ℤ}
    (hok : s.Resubmits p (.submit oom))
    (h : s.SlotsServed) (ha : s.cdev.dbufActive = true) (hpc : s.pc = .submit (.read count) i) :
    (s.clearSlot i).cdev.slotRequest p oom i ≠ .error rv := by
  intro hreq
  obtain ⟨hoff, hinit⟩ := hok i (by simp [hpc, DbufPc.readSubmits])
  obtain ⟨hdir, htable⟩ := h.table ha
  obtain ⟨-, -, hsgt⟩ := clearSlot_table (s := s) i i
  rcases XdmaCdev.slotRequest_error hreq with he | he | he | he
  · exact absurd he (by simpa [clearSlot, XdmaCdev.setSlot] using hoff)
  · exact he hdir
  · rw [hsgt, (htable i).2] at he
    simp at he
  · rw [hsgt] at he
    exact hinit he

theorem step_slotsServed {a : DbufAct} (h : s.SlotsServed) (ht : s.SlotsTracked Ended) (hok : s.Resubmits p a)
    (hs : s.step p a = some s') : s'.SlotsServed := by
  cases step_slotMove hs with
  | kept hsame hpc hact => exact kept_slotsServed h hsame hpc hact
  | unwound rv hsame hact hpc hpc' =>
    have := h.unwind rv hpc
    constructor
    all_goals simp [hact, this, hpc', DbufPc.At]
  | started fault io alloc bus ha hret hpc hsame hall hpc' => exact started_slotsServed hall hpc'
  | woken count hpc hfilled hact hsame hcdev hpc' => exact woken_slotsServed h hpc hsame hcdev hpc'
  | refused oom caller i rv ha hpc hreq heq =>
    subst ha heq
    cases caller with
    | start => exact submitFailed_slotsServed rv
    | read count =>
      have hidle : s.cdev.dbufActive = false := by
        rw [← Bool.not_eq_true]
        exact fun ha => hok.not_refused h ha hpc hreq
      constructor
      all_goals simp [submitFailed, clearSlot, XdmaCdev.setSlot, hidle, DbufPc.At]
  | allocated oom caller i req ha hpc hreq heq => exact heq ▸ allocated_slotsServed h hpc hreq
  | built c ha hpc hn heq => exact heq ▸ built_slotsServed h ht.numbered hpc
  | dropped w c rv ha hpc hacc heq =>
    subst ha heq
    cases hc : c.caller with
    | start => exact submitFailed_slotsServed rv
    | read count => exact absurd (hok c (by simp [hpc, DbufPc.readQueues, hc])) hacc
  | queued w c ha hpc hacc heq => exact heq ▸ queued_slotsServed h ht hpc hacc
  | serviced wb r ha heq => exact heq ▸ serviced_slotsServed h ht

theorem slots_served (h : Reachable (step p) Begins (Resubmits p) s) : s.SlotsTracked Ended ∧
    s.SlotsServed := by
  refine h.invariant (I := fun s => s.SlotsTracked Ended ∧ s.SlotsServed) ?_ ?_
  · exact fun _ h => ⟨slotsTracked_of_begins h, slotsServed_of_begins h⟩
  · rintro s a s' ⟨ht, hv⟩ ha hs
    exact ⟨ht.step ha.startsDrained hs, step_slotsServed hv ht ha hs⟩

theorem SlotsTracked.exclusive {i : Fin 2} (h : s.SlotsTracked Ended) (ha : s.cdev.dbufActive = true)
    (ho : ¬ s.pc.Owes i) (hs : s.Served i) : s.SlotExclusive i := by
  obtain ⟨howned, -, -, hleft, -⟩ := h.slots ha
  cases hf : (s.cdev.dbuf i).filled with
  | true =>
    refine .inl ⟨hf, fun t ht hi => ?_⟩
    have hend := h.filled i hf t (howned t ht i hi)
    rw [(h.linked t ht).1] at hend
    simp [Ended] at hend
  | false =>
    apply Or.inr
    refine ⟨hf, fun t ht hi => howned t ht i hi, fun t ht => ?_, hs.1.resolve_left (by simp [hf])⟩
    rcases hleft i ho t ht with hl | hend | hnew
    · exact .inl ⟨hl, List.count_eq_one_of_mem h.nodup hl⟩
    · exact .inr hend
    · exact absurd hnew (hs.2 t ht)

/-- With every resubmission accepted, and the mode started anew only behind the
transfers of the last one, a slot is always either filled or queued. -/
theorem slots_exclusive (h : Reachable (step p) Begins (Resubmits p) s) : s.SlotsExclusive := by
  obtain ⟨ht, hs⟩ := slots_served h
  exact fun ha i ho hb => ht.exclusive ha ho (hs.served ha i ho hb)

def rereadRun : List DbufAct :=
  startedRun ++ [.service 0 ⟨xdmaStatDescCompleted, 1, 1⟩, .read 4096, .wake false,
  .submit false, .build, .queue 1,
    .submitted]

theorem slots_exclusive_reread : ∃ s : DbufRun, (s.cdev.drv.eng.transferList, s.ret) =
    ([⟨1, 0⟩, ⟨2, 0⟩], 4096) ∧
    s.SlotsExclusive := by
  have hbegins : Begins {} := ⟨⟨rfl, rfl, rfl, rfl, fun _ => rfl⟩, fun _ => rfl⟩
  have hrun : (run (step {}) (Resubmits {}) {} rereadRun).map (fun s =>
    (s.cdev.drv.eng.transferList, s.ret)) =
    some ([⟨1, 0⟩, ⟨2, 0⟩], 4096) := by decide
  obtain ⟨s, hs, hl⟩ := exists_reachable hbegins hrun
  exact ⟨s, hl, slots_exclusive hs⟩

/-- The resubmission of a read gets no memory: the slot is empty and nothing is queued for it. -/
theorem slot_abandoned : ¬ ∀ (p : Params) (s : DbufRun), Reachable (step p) Begins (fun _ _ => True) s →
    s.SlotsExclusive := by
  intro h
  have hbegins : Begins {} := ⟨⟨rfl, rfl, rfl, rfl, fun _ => rfl⟩, fun _ => rfl⟩
  have hrun : (run (step {}) (fun _ _ => True) {} (startedRun ++
    [.service 0 ⟨xdmaStatDescCompleted, 1, 1⟩, .read 4096,
      .wake false, .submit true])).map
        (fun s => (s.pc, s.cdev.dbufActive, (s.cdev.dbuf 0).filled, s.cur 0)) =
    some (.idle, true, false, []) := by decide
  obtain ⟨s, hs, heq⟩ := exists_reachable hbegins hrun
  simp only [Prod.mk.injEq] at heq
  obtain ⟨hpc, hact, hf, hcur⟩ := heq
  have hquiet : s.pc.Quiet := .inl hpc
  rcases h {} s hs hact 0 (hquiet.not_owes 0) (hquiet.not_busy 0) with ⟨hf', -⟩ | ⟨-, hq⟩
  · simp [hf] at hf'
  · obtain ⟨t, ht, -⟩ := hq.last
    simp [hcur] at ht

end DbufRun

end XdmaDriver
