import XdmaDriver.DoubleBufferMemory
import XdmaDriver.HeadService

/-!
The two slots against the transfers of their current requests, as long as the mode is
started only when nothing of an earlier one is linked.
-/

namespace XdmaDriver

open Transition Drv

namespace DbufRun

variable {p : Params} {s s' : DbufRun} {done : TransferState → Prop}

/-- The mode is started with no transfer of an earlier one linked. -/
def StartsDrained (s : DbufRun) : DbufAct → Prop
  | .start fault io alloc => (s.cdev.ioctlDoDbufStart fault io alloc).2 = none → s.Drained
  | _ => True

instance (s : DbufRun) (a : DbufAct) : Decidable (s.StartsDrained a) := by
  apply @DbufAct.casesOn _ a <;> intros <;> (dsimp only [StartsDrained]; infer_instance)

def LeavesDone (p : Params) (done : TransferState → Prop) (s : DbufRun) : DbufAct → Prop
  | .service wb r => s.cdev.dbufActive = true → ∀ t ∈ s.cdev.drv.eng.transferList,
      ((s.cdev.drv.engineService p wb r).1.tfer t).state ≠ .submitted →
        done ((s.cdev.drv.engineService p wb r).1.tfer t).state
  | _ => True

structure SlotsLinked (done : TransferState → Prop) (s : DbufRun) : Prop where
  owned : ∀ t ∈ s.cdev.drv.eng.transferList, ∀ i, (s.cdev.drv.tfer t).cb = some (.dbuf i) → t ∈ s.cur i
  order : s.cdev.drv.eng.transferList.Pairwise fun t u => ∀ i, (s.cdev.drv.tfer t).cb = some (.dbuf i) →
    (s.cdev.drv.tfer u).cb = some (.dbuf i) → (s.cdev.drv.tfer t).lastInRequest = false
  owes : ∀ i, s.pc.Owes i → ∀ t ∈ s.cdev.drv.eng.transferList, (s.cdev.drv.tfer t).cb ≠ some (.dbuf i)
  left : ∀ i, ¬ s.pc.Owes i → ∀ t ∈ s.cur i, t ∈ s.cdev.drv.eng.transferList ∨
    done (s.cdev.drv.tfer t).state ∨ (s.cdev.drv.tfer t).state = .new
  last : ∀ i, ∀ t ∈ s.cur i, (s.cdev.drv.tfer t).state = .new →
    ∀ u ∈ s.cdev.drv.eng.transferList, (s.cdev.drv.tfer u).cb = some (.dbuf i) →
      (s.cdev.drv.tfer u).lastInRequest = false

def Unfinished (s : DbufRun) (i : Fin 2) (ok : XferRef → Prop) : Prop :=
  (s.cdev.dbuf i).filled = false ∧ ∀ t ∈ s.cur i, ok t →
    (s.cdev.drv.tfer t).state ≠ .new ∧ (s.cdev.drv.tfer t).lastInRequest = false
structure SlotsTracked (done : TransferState → Prop) (s : DbufRun) : Prop where
  numbered : s.Numbered
  nodup : s.cdev.drv.eng.transferList.Nodup
  linked : ∀ t ∈ s.cdev.drv.eng.transferList,
    (s.cdev.drv.tfer t).state = .submitted ∧ (s.cdev.drv.tfer t).cyclic = false
  cb : ∀ i, ∀ t ∈ s.cur i, (s.cdev.drv.tfer t).cb = some (.dbuf i)
  filled : ∀ i, (s.cdev.dbuf i).filled = true → ∀ t ∈ s.cur i, done (s.cdev.drv.tfer t).state
  chain : ∀ c, s.pc = .chain c → c.nents ≠ 0 → s.Unfinished c.i fun _ => True
  queue : ∀ c, s.pc = .queue c → s.Unfinished c.i (· ≠ c.ref) ∧ c.ref ∈ s.cur c.i ∧
    (s.cdev.drv.tfer c.ref).cyclic = false ∧
    (c.nents ≠ 0 → (s.cdev.drv.tfer c.ref).lastInRequest = false)
  slots : s.cdev.dbufActive = true → s.SlotsLinked done

theorem slotsTracked_of_begins (h : s.Begins) : s.SlotsTracked done := by
  obtain ⟨⟨hpc, hact, hl, -, -⟩, hcur⟩ := h
  refine ⟨⟨?_, ?_, ?_, ?_⟩, ?_, ?_, ?_, ?_, ?_, ?_, ?_⟩
  all_goals simp [Used, DbufPc.At, hl, hact, hpc, hcur]

theorem SlotsTracked.frame (h : s.SlotsTracked done) (hnum : s'.Numbered)
    (hlist : s'.cdev.drv.eng.transferList = s.cdev.drv.eng.transferList)
    (htfer : s'.cdev.drv.tfer = s.cdev.drv.tfer) (hcur : s'.cur = s.cur)
    (hfilled : ∀ i, (s'.cdev.dbuf i).filled = (s.cdev.dbuf i).filled)
    (hact : s'.cdev.dbufActive = true → s.cdev.dbufActive = true)
    (hat : ∀ c, s'.pc.At c → s'.pc = s.pc ∨ s'.pc = .chain c ∧ s'.cur c.i = [] ∧
      (s'.cdev.dbuf c.i).filled = false)
    (howes : s'.cdev.dbufActive = true → ∀ i, (s'.pc.Owes i → s.pc.Owes i) ∧
      (s.pc.Owes i → s'.pc.Owes i ∨ s'.cur i = [])) : s'.SlotsTracked done := by
  have hun : ∀ i ok, s.Unfinished i ok → s'.Unfinished i ok := fun i ok hu => by
    unfold Unfinished
    rw [hfilled, hcur, htfer]
    exact hu
  refine ⟨hnum, ?_, ?_, ?_, ?_, fun c hc hn => ?_, fun c hc => ?_, fun ha => ?_⟩
  · rw [hlist]
    exact h.nodup
  · rw [hlist, htfer]
    exact h.linked
  · rw [hcur, htfer]
    exact h.cb
  · intro i hi
    rw [hcur, htfer]
    exact h.filled i (hfilled i ▸ hi)
  · rcases hat c (.inl hc) with hpc | ⟨-, hnil, hf⟩
    · exact hun _ _ (h.chain c (hpc ▸ hc) hn)
    · exact ⟨hf, by simp [hnil]⟩
  · rcases hat c (.inr hc) with hpc | ⟨hpc, -⟩
    · obtain ⟨hu, hm, hcyc, hlast⟩ := h.queue c (hpc ▸ hc)
      rw [hcur, htfer]
      exact ⟨hun _ _ hu, hm, hcyc, hlast⟩
    · simp [hpc] at hc
  · obtain ⟨howned, horder, hno, hleft, hlast⟩ := h.slots (hact ha)
    refine ⟨?_, ?_, fun i hi => ?_, fun i hi t ht => ?_, ?_⟩
    · rw [hlist, htfer, hcur]
      exact howned
    · rw [hlist, htfer]
      exact horder
    · rw [hlist, htfer]
      exact hno i ((howes ha i).1 hi)
    · rw [hlist, htfer]
      by_cases hold : s.pc.Owes i
      · rcases (howes ha i).2 hold with hnew | hnil
        · exact absurd hnew hi
        · simp [hnil] at ht
      · exact hleft i hold t (hcur ▸ ht)
    · rw [hlist, htfer, hcur]
      exact hlast

theorem submitFailed_tracked {caller : DbufCaller} {rv : ℤ} (h : s.SlotsTracked done)
    (hpc : caller ≠ .start → ∀ i, s.pc.Owes i → s.cur i = []) :
      (s.submitFailed caller rv).SlotsTracked done := by
  have hnum := submitFailed_numbered caller rv h.numbered
  have hat := submitFailed_pc s caller rv
  cases caller with
  | start =>
    exact h.frame hnum rfl rfl rfl (fun _ => rfl) (by simp [submitFailed]) (fun c hc => absurd hc (hat c))
      (by simp [submitFailed])
  | read count =>
    exact h.frame hnum rfl rfl rfl (fun _ => rfl) id (fun c hc => absurd hc (hat c))
      fun _ i => ⟨False.elim, fun hi => .inr (hpc (by simp) i hi)⟩

theorem clearSlot_tracked {caller : DbufCaller} {i : Fin 2} (h : s.SlotsTracked done)
    (hpc : s.pc = .submit caller i) :
    (s.clearSlot i).SlotsTracked done := by
  have howes : s.pc.Owes i := by
    cases caller <;> simp [hpc, DbufPc.Owes]
  have hne : ∀ {j : Fin 2}, j ≠ i → (s.clearSlot i).cur j = s.cur j := fun hj => by simp [clearSlot, hj]
  have hnil : (s.clearSlot i).cur i = [] := by simp [clearSlot]
  have hsub : ∀ {j : Fin 2} {t}, t ∈ (s.clearSlot i).cur j → t ∈ s.cur j := fun {j t} ht => by
    by_cases hj : j = i
    · subst hj
      simp [hnil] at ht
    · exact hne hj ▸ ht
  refine ⟨clearSlot_numbered h.numbered, h.nodup, h.linked, fun j t ht => h.cb j t (hsub ht),
    fun j hj t ht => ?_,
    ?_, ?_, fun ha => ?_⟩
  · by_cases hji : j = i
    · subst hji
      simp [hnil] at ht
    · refine h.filled j ?_ t (hsub ht)
      simpa [clearSlot, XdmaCdev.setSlot_of_ne hji] using hj
  · simp [clearSlot, hpc]
  · simp [clearSlot, hpc]
  · obtain ⟨howned, horder, hno, hleft, hlast⟩ := h.slots ha
    refine ⟨fun t ht j hj => ?_, horder, hno, fun j hj t ht => hleft j hj t (hsub ht),
      fun j t ht => hlast j t (hsub ht)⟩
    have hji : j ≠ i := fun he => hno i howes t ht (he ▸ hj)
    rw [hne hji]
    exact howned t ht j hj

theorem clearSlot_owes {caller : DbufCaller} {i : Fin 2} (hpc : s.pc = .submit caller i)
    (hc : caller ≠ .start)
    (j : Fin 2) (hj : (s.clearSlot i).pc.Owes j) : (s.clearSlot i).cur j = [] := by
  cases caller with
  | start => exact absurd rfl hc
  | read count =>
    have hij : i = j := by simpa [clearSlot, hpc, DbufPc.Owes] using hj
    simp [clearSlot, hij]

theorem allocated_tracked {caller : DbufCaller} {i : Fin 2} {req : XdmaRequestCb} (h : s.SlotsTracked done)
    (hpc : s.pc = .submit caller i) :
    ({ s.clearSlot i with
      pc := .chain ⟨caller, i, s.nextReq, req, req.swDescCnt, 0⟩
      nextReq := s.nextReq + 1 } : DbufRun).SlotsTracked done := by
  have h₁ := clearSlot_tracked h hpc
  have hnil : (s.clearSlot i).cur i = [] := by simp [clearSlot]
  refine h₁.frame (allocated_numbered h₁.numbered _ rfl) rfl rfl rfl (fun _ => rfl) id
    (fun c hc => ?_) fun _ j => ?_
  · rcases hc with hc | hc
    · obtain rfl := DbufPc.chain.inj hc
      exact .inr ⟨rfl, hnil, by simp [clearSlot]⟩
    · cases hc
  · cases caller with
    | start =>
      have hold : (s.clearSlot i).pc.Owes j ↔ i ≤ j := by simp [clearSlot, hpc, DbufPc.Owes]
      rw [hold]
      refine ⟨fun hj => hj.2.le, fun hj => ?_⟩
      rcases hj.lt_or_eq with hlt | rfl
      · exact .inl ⟨rfl, hlt⟩
      · exact .inr hnil
    | read count => exact ⟨fun hj => absurd hj.1 (by simp),
        fun hj => .inr (clearSlot_owes hpc (by simp) j hj)⟩

theorem buildNext_tracked {c : DbufSubmit} (h : s.SlotsTracked done) (hpc : s.pc = .chain c)
    (hn : c.nents ≠ 0) :
    (s.buildNext c).SlotsTracked done := by
  have hb := buildNext_built s c
  have hnum := buildNext_numbered h.numbered hpc
  have hfresh := h.numbered.not_used hpc
  obtain ⟨hf, hun⟩ := h.chain c hpc hn
  have hdbuf : (s.buildNext c).cdev.dbuf = s.cdev.dbuf := by rw [hb.cdev]
  have hact : (s.buildNext c).cdev.dbufActive = s.cdev.dbufActive := by rw [hb.cdev]
  have hlist : ∀ {t}, t ∈ s.cdev.drv.eng.transferList → (s.buildNext c).cdev.drv.tfer t = s.cdev.drv.tfer t :=
    fun {t} ht => hb.other t fun he => hfresh (.inl (he ▸ ht))
  have hold : ∀ {i t}, t ∈ s.cur i → (s.buildNext c).cdev.drv.tfer t = s.cdev.drv.tfer t :=
    fun {i t} ht => hb.other t fun he => hfresh (.inr ⟨i, he ▸ ht⟩)
  have hcur : ∀ {i t}, t ∈ (s.buildNext c).cur i → t ∈ s.cur i ∨ i = c.i ∧ t = c.ref := fun {i t} ht => by
    rw [hb.cur] at ht
    by_cases hi : i = c.i
    · subst hi
      rw [Function.update_self, List.mem_append, List.mem_singleton] at ht
      exact ht.imp_right fun h => ⟨rfl, h⟩
    · exact .inl (by simpa [hi] using ht)
  have hkept : ∀ {i t}, t ∈ s.cur i → t ∈ (s.buildNext c).cur i := fun {i t} ht => by
    rw [hb.cur]
    by_cases hi : i = c.i
    · subst hi
      simp [ht]
    · simpa [hi] using ht
  refine ⟨hnum, ?_, fun t ht => ?_, fun i t ht => ?_, fun i hi t ht => ?_, by simp [hb.pc], fun c' hc => ?_,
    fun ha => ?_⟩
  · rw [hb.list]
    exact h.nodup
  · rw [hb.list] at ht
    rw [hlist ht]
    exact h.linked t ht
  · rcases hcur ht with ht | ⟨rfl, rfl⟩
    · rw [hold ht]
      exact h.cb i t ht
    · exact hb.cb
  · rw [hdbuf] at hi
    rcases hcur ht with ht | ⟨rfl, rfl⟩
    · rw [hold ht]
      exact h.filled i hi t ht
    · simp [hf] at hi
  · rw [hb.pc] at hc
    obtain rfl := DbufPc.queue.inj hc
    refine ⟨⟨hdbuf ▸ hf, fun t ht hne => ?_⟩, ?_, hb.cyclic, fun hn' => ?_⟩
    · have ht := (hcur ht).resolve_right fun he => hne he.2
      rw [hold ht]
      exact hun t ht trivial
    · rw [hb.cur]
      simp [DbufSubmit.ref]
    · refine hb.last.trans (decide_eq_false fun he => hn' ?_)
      simp [he]
  · rw [hact] at ha
    obtain ⟨howned, horder, hno, hleft, hlast⟩ := h.slots ha
    refine ⟨fun t ht i hi => ?_, ?_, fun i hi t ht => ?_, fun i hi t ht => ?_, fun i t ht hst u hu hi => ?_⟩
    · rw [hb.list] at ht
      rw [hlist ht] at hi
      exact hkept (howned t ht i hi)
    · rw [hb.list]
      refine horder.imp_of_mem fun {t u} ht hu htu => ?_
      rw [hlist ht, hlist hu]
      exact htu
    · rw [hb.list] at ht
      rw [hlist ht]
      refine hno i ?_ t ht
      simpa [hb.pc, hpc, DbufPc.Owes] using hi
    · rcases hcur ht with ht | ⟨rfl, rfl⟩
      · rw [hb.list, hold ht]
        refine hleft i (fun hi' => hi ?_) t ht
        simpa [hb.pc, hpc, DbufPc.Owes] using hi'
      · exact .inr (.inr hb.state)
    · rw [hb.list] at hu
      rw [hlist hu] at hi ⊢
      rcases hcur ht with ht | ⟨rfl, rfl⟩
      · exact hlast i t ht (hold ht ▸ hst) u hu hi
      · exact (hun u (howned u hu _ hi) trivial).2

theorem dropped_tracked {rv : ℤ} {c : DbufSubmit} (h : s.SlotsTracked done) (hpc : s.pc = .queue c) :
    (s.submitFailed c.caller rv).SlotsTracked done := by
  refine submitFailed_tracked h fun hc i hi => absurd ?_ hc
  have howes : c.caller = .start ∧ c.i < i := by simpa [hpc, DbufPc.Owes] using hi
  exact howes.1

theorem queueNext_tracked {w : U32} {c : DbufSubmit} (h : s.SlotsTracked done) (hpc : s.pc = .queue c)
    (hacc : s.cdev.drv.Accepts c.ref) : (s.queueNext p w c).SlotsTracked done := by
  obtain ⟨⟨hf, hun⟩, hm, hcyc, hreflast⟩ := h.queue c hpc
  have hnum := queueNext_numbered (p := p) (w := w) h.numbered hpc hacc
  obtain ⟨hq, heq⟩ := queueNext_accepted (p := p) (w := w) hacc
  have hnew := (h.numbered.queue c hpc).2
  generalize s.queueNext p w c = s₁ at hnum hq heq ⊢
  have hpc₁ : s₁.pc = .chain { c with tferIdx := c.tferIdx + 1 } := by rw [heq]
  have hcur : s₁.cur = s.cur := by rw [heq]; rfl
  have hdbuf : s₁.cdev.dbuf = s.cdev.dbuf := by rw [heq]; rfl
  have hact : s₁.cdev.dbufActive = s.cdev.dbufActive := by rw [heq]; rfl
  have hsame := fun u => hq.same u
  have hcb : ∀ u, (s₁.cdev.drv.tfer u).cb = (s.cdev.drv.tfer u).cb := fun u => (hsame u).2.2.2.2.2.1
  have hlast : ∀ u, (s₁.cdev.drv.tfer u).lastInRequest = (s.cdev.drv.tfer u).lastInRequest :=
    fun u => (hsame u).2.2.2.2.1
  have hcyclic : ∀ u, (s₁.cdev.drv.tfer u).cyclic = (s.cdev.drv.tfer u).cyclic := fun u => (hsame u).2.2.2.1
  have hi : ∀ {i}, (s.cdev.drv.tfer c.ref).cb = some (.dbuf i) → c.i = i := fun hi => by
    simpa [h.cb _ _ hm] using hi
  have howes : ∀ i, s₁.pc.Owes i ↔ s.pc.Owes i := by simp [hpc₁, hpc, DbufPc.Owes]
  refine ⟨hnum, hq.nodup hnew h.nodup, fun t ht => ?_, fun i t ht => ?_, fun i hfi t ht => ?_,
    fun c' hc hn => ?_,
    by simp [hpc₁], fun ha => ?_⟩
  · rw [hcyclic]
    rw [hq.list, List.mem_append, List.mem_singleton] at ht
    rcases ht with ht | rfl
    · have hne : t ≠ c.ref := fun he => hnew (he ▸ ht)
      rw [hq.other hne]
      exact h.linked t ht
    · exact ⟨hq.state, hcyc⟩
  · rw [hcb]
    exact h.cb i t (hcur ▸ ht)
  · rw [hcur] at ht
    rw [hdbuf] at hfi
    have hne : t ≠ c.ref := by
      rintro rfl
      rw [hi (h.cb i _ ht), hfi] at hf
      cases hf
    rw [hq.other hne]
    exact h.filled i hfi t ht
  · rw [hpc₁] at hc
    obtain rfl := DbufPc.chain.inj hc
    refine ⟨hdbuf ▸ hf, fun t ht _ => ?_⟩
    rw [hcur] at ht
    by_cases hne : t = c.ref
    · subst hne
      rw [hlast, hq.state]
      exact ⟨by simp, hreflast hn⟩
    · rw [hq.other hne]
      exact hun t ht hne
  · rw [hact] at ha
    obtain ⟨howned, horder, hno, hleft, hlast'⟩ := h.slots ha
    refine ⟨fun t ht i hti => ?_, ?_, fun i hti t ht => ?_, fun i hti t ht => ?_,
      fun i t ht hst u hu hui => ?_⟩
    · rw [hq.list, List.mem_append, List.mem_singleton] at ht
      rw [hcb] at hti
      rw [hcur]
      rcases ht with ht | rfl
      · exact howned t ht i hti
      · exact hi hti ▸ hm
    · simp only [hcb, hlast]
      rw [hq.list, List.pairwise_append]
      refine ⟨horder, List.pairwise_singleton _ _, fun t ht u hu i hti hui => ?_⟩
      obtain rfl := List.mem_singleton.mp hu
      have hne : t ≠ c.ref := fun he => hnew (he ▸ ht)
      exact (hun t (hi hui ▸ howned t ht i hti) hne).2
    · rw [hcb]
      rw [howes] at hti
      rw [hq.list, List.mem_append, List.mem_singleton] at ht
      rcases ht with ht | rfl
      · exact hno i hti t ht
      · intro he
        obtain rfl := hi he
        simp [hpc, DbufPc.Owes] at hti
    · rw [hcur] at ht
      rw [howes] at hti
      by_cases hne : t = c.ref
      · exact .inl (by simp [hq.list, hne])
      · rw [hq.other hne]
        exact (hleft i hti t ht).imp_left fun hl => by simp [hq.list, hl]
    · rw [hcur] at ht
      rw [hcb] at hui
      rw [hlast]
      have hne : t ≠ c.ref := by
        rintro rfl
        simp [hq.state] at hst
      rw [hq.other hne] at hst
      rw [hq.list, List.mem_append, List.mem_singleton] at hu
      rcases hu with hu | rfl
      · exact hlast' i t ht hst u hu hui
      · exact absurd hst (hun t (hi hui ▸ ht) hne).1

theorem service_tracked {wb : U32} {r : ServiceRegs} (h : s.SlotsTracked done) (hdone : ¬ done .submitted)
    (hok : s.LeavesDone p done (.service wb r))
      (hnum : ({ s with cdev := s.cdev.service p wb r } : DbufRun).Numbered) :
    ({ s with cdev := s.cdev.service p wb r } : DbufRun).SlotsTracked done := by
  obtain ⟨out, he⟩ := engineService_effect p wb r s.cdev.drv
  have hsv := XdmaCdev.service_spec he
  have hdrv := XdmaCdev.service_drv p wb r s.cdev
  rw [← hdrv] at he
  have hleaves : s.cdev.dbufActive = true → ∀ u ∈ out, done ((s.cdev.service p wb r).drv.tfer u).state := by
    intro ha u hu
    rw [hdrv]
    refine hok ha u ?_ fun hst => ?_
    · rw [he.list]
      exact List.mem_append_left _ hu
    · have := he.left u hu
      rw [hdrv, hst] at this
      simp at this
  generalize hs₁ : s.cdev.service p wb r = cdev at hsv he hleaves hnum ⊢
  have hact : cdev.dbufActive = s.cdev.dbufActive := by rw [hsv.frame]
  have hcb : ∀ u, (cdev.drv.tfer u).cb = (s.cdev.drv.tfer u).cb := fun u => (he.same u).2.2.2.2.2.1
  have hlast : ∀ u, (cdev.drv.tfer u).lastInRequest = (s.cdev.drv.tfer u).lastInRequest :=
    fun u => (he.same u).2.2.2.2.1
  have hout : ∀ {t}, t ∈ out → t ∈ s.cdev.drv.eng.transferList := fun {t} ht => by
    rw [he.list]
    exact List.mem_append_left _ ht
  have hrest : ∀ {t}, t ∈ cdev.drv.eng.transferList → t ∈ s.cdev.drv.eng.transferList := fun {t} ht => by
    rw [he.list]
    exact List.mem_append_right _ ht
  have hnew : ∀ {t}, (cdev.drv.tfer t).state = .new → (s.cdev.drv.tfer t).state = .new := fun {t} ht => by
    by_cases hto : t ∈ out
    · rcases he.left t hto with h' | h' <;> simp [h'] at ht
    · rwa [he.kept t hto] at ht
  have hun : ∀ i ok, (cdev.dbuf i).filled = (s.cdev.dbuf i).filled → s.Unfinished i ok →
      ({ s with cdev := cdev } : DbufRun).Unfinished i ok := fun i ok hfi hu => by
    refine ⟨hfi.trans hu.1, fun t ht hok => ?_⟩
    obtain ⟨hst, hl⟩ := hu.2 t ht hok
    exact ⟨fun hn => hst (hnew hn), (hlast t).trans hl⟩
  -- a call for slot `i` belongs to the last transfer of its current request
  have hcall : ∀ {i}, s.cdev.dbufActive = true → XdmaCdev.FillsSlot s.cdev.drv out i →
    ∃ u ∈ s.cur i, u ∈ out ∧
      (s.cdev.drv.tfer u).cb = some (.dbuf i) ∧ (s.cdev.drv.tfer u).lastInRequest = true :=
    fun {i} ha hfi => by
      obtain ⟨u, hu, hui, hul⟩ := hfi
      exact ⟨u, (h.slots ha).owned u (hout hu) i hui, hu, hui, hul⟩
  have hsame : ∀ i ok, s.Unfinished i ok → (∀ t ∈ s.cdev.drv.eng.transferList, ok t) →
      (cdev.dbuf i).filled = (s.cdev.dbuf i).filled := fun i ok hu hall => by
    rw [hu.1, ← Bool.not_eq_true, hsv.filled i, hu.1]
    rintro (hf | ⟨ha, hf⟩)
    · cases hf
    · obtain ⟨u, hu', huo, -, hul⟩ := hcall ha hf
      simp [(hu.2 u hu' (hall u (hout huo))).2] at hul
  refine ⟨hnum, ?_, fun t ht => ?_, fun i t ht => (hcb t).trans (h.cb i t ht), fun i hi t ht => ?_,
    fun c hc hn => ?_, fun c hc => ?_, fun ha => ?_⟩
  · exact (List.nodup_append.mp (he.list ▸ h.nodup)).2.1
  · have hto : t ∉ out := fun hto => (List.nodup_append.mp (he.list ▸ h.nodup)).2.2 t hto t ht rfl
    have := h.linked t (hrest ht)
    exact ⟨(he.kept t hto).trans this.1, (he.same t).2.2.2.1.trans this.2⟩
  · have hkept : done (s.cdev.drv.tfer t).state → done (cdev.drv.tfer t).state := fun hst => by
      have hto : t ∉ out := fun hto => hdone ((h.linked t (hout hto)).1 ▸ hst)
      rwa [he.kept t hto]
    rcases (hsv.filled i).mp hi with hf | ⟨ha, hf⟩
    · exact hkept (h.filled i hf t ht)
    · obtain ⟨u, -, huo, hui, hul⟩ := hcall ha hf
      obtain ⟨-, horder, hno, hleft, hlast'⟩ := h.slots ha
      have howes : ¬ s.pc.Owes i := fun ho => hno i ho u (hout huo) hui
      rcases hleft i howes t ht with hl | hst | hst
      · rw [he.list, List.mem_append] at hl
        rcases hl with hto | htr
        · exact hleaves ha t hto
        · rw [he.list, List.pairwise_append] at horder
          simp [horder.2.2 u huo t htr i hui (h.cb i t ht)] at hul
      · exact hkept hst
      · simp [hlast' i t ht hst u (hout huo) hui] at hul
  · have hu := h.chain c hc hn
    exact hun _ _ (hsame _ _ hu fun _ _ => trivial) hu
  · obtain ⟨hu, hm, hcyc, hl⟩ := h.queue c hc
    have hne : ∀ t ∈ s.cdev.drv.eng.transferList, t ≠ c.ref := fun t ht he =>
      (h.numbered.queue c hc).2 (he ▸ ht)
    exact ⟨hun _ _ (hsame _ _ hu hne) hu, hm, (he.same _).2.2.2.1.trans hcyc,
      fun hn => (hlast _).trans (hl hn)⟩
  · obtain ⟨howned, horder, hno, hleft, hlast'⟩ := h.slots (hact ▸ ha)
    refine ⟨fun t ht i hi => howned t (hrest ht) i (hcb t ▸ hi), ?_,
      fun i hi t ht => hcb t ▸ hno i hi t (hrest ht), fun i hi t ht => ?_,
      fun i t ht hst u hu hi => (hlast u).trans (hlast' i t ht (hnew hst) u (hrest hu) (hcb u ▸ hi))⟩
    · simp only [hcb, hlast]
      exact (List.pairwise_append.mp (he.list ▸ horder)).2.1
    · by_cases hto : t ∈ out
      · exact .inr (.inl (hleaves (hact ▸ ha) t hto))
      · rw [he.kept t hto]
        refine (hleft i hi t ht).imp_left fun hl => ?_
        rw [he.list, List.mem_append] at hl
        exact hl.resolve_left hto

theorem started_tracked {io : XdmaDbufIoctl} {bus : Fin 2 → U64} (h : s.SlotsTracked done)
    (hnum : s'.Numbered)
    (hsame : SameSlots s s') (hall : s.cdev.Allocated io bus s'.cdev)
    (hpc : s'.pc = .submit .start 0) (hd : s.Drained) :
    s'.SlotsTracked done := by
  have hd' : ∀ t ∈ s'.cdev.drv.eng.transferList, ∀ i, (s'.cdev.drv.tfer t).cb ≠ some (.dbuf i) := by
    rw [hall.drv]
    exact hd
  refine ⟨hnum, ?_, ?_, ?_, fun i hi => ?_, by simp [hpc], by simp [hpc], fun _ => ?_⟩
  · rw [hall.drv]
    exact h.nodup
  · rw [hall.drv]
    exact h.linked
  · rw [hall.drv, hsame.cur]
    exact h.cb
  · rw [hall.drv, hsame.cur]
    exact h.filled i (hsame.filled i ▸ hi)
  · refine ⟨fun t ht i hi => absurd hi (hd' t ht i), ?_, fun i _ t ht => hd' t ht i, fun i hi => ?_,
      fun i t _ _ u hu hi => absurd hi (hd' u hu i)⟩
    · refine List.Pairwise.imp_of_mem (fun {t _} ht _ _ i hi _ => absurd hi (hd' t ht i))
        (List.pairwise_of_forall fun _ _ => trivial)
    · rw [hpc] at hi
      exact absurd (Fin.zero_le i) hi

theorem woken_tracked {count : ℕ} (h : s.SlotsTracked done) (hdone : ¬ done .submitted) (hnum : s'.Numbered)
    (hpc : s.pc = .readWait count) (hfilled : (s.cdev.dbuf s.cdev.dbufReadIdx).filled = true)
      (hsame : SameSlots s s')
    (hcdev : s'.cdev = s.cdev) (hpc' : s'.pc = .submit (.read count) s.cdev.dbufReadIdx) :
      s'.SlotsTracked done := by
  refine ⟨hnum, ?_, ?_, ?_, ?_, by simp [hpc'], by simp [hpc'], fun ha => ?_⟩
  · rw [hcdev]
    exact h.nodup
  · rw [hcdev]
    exact h.linked
  · rw [hcdev, hsame.cur]
    exact h.cb
  · rw [hcdev, hsame.cur]
    exact h.filled
  · rw [hcdev] at ha
    obtain ⟨howned, horder, -, hleft, hlast⟩ := h.slots ha
    refine ⟨?_, ?_, fun j hj => ?_, ?_, ?_⟩
    · rw [hcdev, hsame.cur]
      exact howned
    · rw [hcdev]
      exact horder
    · obtain rfl : s.cdev.dbufReadIdx = j := by simpa [hpc', DbufPc.Owes] using hj
      rw [hcdev]
      intro t ht hti
      exact hdone ((h.linked t ht).1 ▸ h.filled _ hfilled t (howned t ht _ hti))
    · rw [hcdev, hsame.cur]
      exact fun j _ => hleft j (by simp [hpc, DbufPc.Owes])
    · rw [hcdev, hsame.cur]
      exact hlast

theorem step_tracked {a : DbufAct} (h : s.SlotsTracked done) (hdone : ¬ done .submitted)
    (hstart : s.StartsDrained a)
    (hleaves : s.LeavesDone p done a) (hs : s.step p a = some s') : s'.SlotsTracked done := by
  have hnum := step_numbered h.numbered hs
  cases step_slotMove hs with
  | kept hsame hpc hact =>
    exact h.frame hnum hsame.list hsame.tfer hsame.cur hsame.filled (fun ha => (hact ha).1)
      (fun c hc => .inl (hpc.at_eq c hc)) fun _ i => ⟨(hpc.owes i).mp, fun hi => .inl ((hpc.owes i).mpr hi)⟩
  | unwound rv hsame hact hpc hpc' =>
    refine h.frame hnum hsame.list hsame.tfer hsame.cur hsame.filled (fun ha => hact ▸ ha) ?_ fun _ i => ?_
    · simp [hpc', DbufPc.At]
    · simp [hpc, hpc', DbufPc.Owes]
  | started fault io alloc bus ha hret hpc hsame hall hpc' =>
    subst ha
    exact started_tracked h hnum hsame hall hpc' (hstart hret)
  | woken count hpc hfilled hact hsame hcdev hpc' =>
      exact woken_tracked h hdone hnum hpc hfilled hsame hcdev hpc'
  | refused oom caller i rv ha hpc hreq heq =>
    rw [heq]
    exact submitFailed_tracked (clearSlot_tracked h hpc) (clearSlot_owes hpc)
  | allocated oom caller i req ha hpc hreq heq =>
    rw [heq]
    exact allocated_tracked h hpc
  | built c ha hpc hn heq => exact heq ▸ buildNext_tracked h hpc hn
  | dropped w c rv ha hpc hacc heq =>
    rw [heq]
    exact dropped_tracked h hpc
  | queued w c ha hpc hacc heq => exact heq ▸ queueNext_tracked h hpc hacc
  | serviced wb r ha heq =>
    subst ha heq
    exact service_tracked h hdone hleaves hnum

def Ended (st : TransferState) : Prop := st = .completed ∨ st = .failed

theorem leavesEnded (hl : ∀ t ∈ s.cdev.drv.eng.transferList,
    (s.cdev.drv.tfer t).state = .submitted) (a : DbufAct) :
    s.LeavesDone p Ended a := by
  cases a with
  | service wb r =>
    intro _ t ht hst
    obtain ⟨out, he⟩ := engineService_effect p wb r s.cdev.drv
    apply he.left t
    by_contra hto
    exact hst ((he.kept t hto).trans (hl t ht))
  | _ => trivial

theorem SlotsTracked.step (h : s.SlotsTracked Ended) {a : DbufAct} (ha : s.StartsDrained a)
    (hs : s.step p a = some s') : s'.SlotsTracked Ended :=
  step_tracked h (by simp [Ended]) ha (leavesEnded (fun t ht => (h.linked t ht).1) a) hs

end DbufRun

end XdmaDriver
