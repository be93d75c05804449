import XdmaDriver.Service

/-!
What one service call does to the queue: it drops a prefix of the list, marks
what it drops, and sends the notifications of the dropped transfers in order.
-/

namespace XdmaDriver

def XdmaTransfer.SameRequest (x y : XdmaTransfer) : Prop :=
  y.descNum = x.descNum ∧ y.descIndex = x.descIndex ∧ y.descCmplTh = x.descCmplTh ∧
    y.cyclic = x.cyclic ∧ y.lastInRequest = x.lastInRequest ∧ y.cb = x.cb ∧
    y.needUnmap = x.needUnmap ∧ y.len = x.len ∧ y.dir = x.dir

theorem XdmaTransfer.SameRequest.refl (x : XdmaTransfer) : x.SameRequest x := by
  simp [SameRequest]

theorem XdmaTransfer.SameRequest.trans {x y z : XdmaTransfer} (h : x.SameRequest y)
    (h' : y.SameRequest z) : x.SameRequest z := by
  simp only [SameRequest] at *
  grind

theorem XdmaTransfer.SameRequest.completionEvents {x y : XdmaTransfer} (h : x.SameRequest y)
    (t : XferRef) : y.completionEvents t = x.completionEvents t := by
  obtain ⟨-, -, -, -, hl, hc, -⟩ := h
  simp [XdmaTransfer.completionEvents, hl, hc]

namespace Drv

variable {p : Params}

def outEvents (s : Drv) (out : List XferRef) : List Event :=
  out.flatMap fun t => (s.tfer t).completionEvents t

def descSum (s : Drv) (out : List XferRef) : ℕ := (out.map fun t => (s.tfer t).descNum).sum

structure ListServiced (s : Drv) (c : ℕ) (s' : Drv) (c' : ℕ) (pre : List XferRef) : Prop where
  list : s.eng.transferList = pre ++ s'.eng.transferList
  count : c = c' + s.descSum pre
  pos : pre ≠ [] → 0 < c'
  cyclic : ∀ t ∈ pre, (s.tfer t).cyclic = false
  stop : ∀ t ∈ s'.eng.transferList.head?, (s.tfer t).cyclic = true ∨ c' ≤ (s.tfer t).descNum
  eng : s'.eng = { s.eng with
    transferList := s'.eng.transferList
    descDequeued := s.eng.descDequeued + s.descSum pre }
  tfer : ∀ u, s'.tfer u = if u ∈ pre then { s.tfer u with state := .completed } else s.tfer u
  log : s'.log = s.log ++ s.outEvents pre
  offline : s'.offline = s.offline

theorem ListServiced.nothing {s : Drv} {c : ℕ} (hstop : ∀ t ∈ s.eng.transferList.head?,
    (s.tfer t).cyclic = true ∨ c ≤ (s.tfer t).descNum) : ListServiced s c s c [] :=
  ⟨rfl, by simp [descSum], by simp, by simp, hstop, by simp [descSum], by simp,
    by simp [outEvents], rfl⟩

theorem engineServiceTransferList_spec (l : List XferRef) :
    ∀ (s : Drv) (c : ℕ), s.eng.transferList = l →
      ∃ s' c' pre, engineServiceTransferList l.length s l.head? c =
        (s', s'.eng.transferList.head?, c') ∧ ListServiced s c s' c' pre := by
  induction l with
  | nil =>
    intro s c hl
    refine ⟨s, c, [], ?_, ?_⟩
    · simp [engineServiceTransferList, hl]
    · exact .nothing (by simp [hl])
  | cons t ts ih =>
    intro s c hl
    by_cases hpop : (s.tfer t).cyclic = false ∧ (s.tfer t).descNum < c
    · let s₁ := ((s.listDelHead.addDequeued (s.tfer t).descNum).modify t
        fun x => { x with state := .completed }).engineTransferCompletion t
      have hl₁ : s₁.eng.transferList = ts := by
        simp [s₁, engineTransferCompletion, addDequeued, listDelHead, hl]
      have ht₁ : ∀ u, s₁.tfer u = if u = t then { s.tfer u with state := .completed } else s.tfer u := by
        intro u
        simp only [s₁, engineTransferCompletion, modify_tfer]
        rfl
      have hsame : ∀ u, (s.tfer u).SameRequest (s₁.tfer u) := by
        intro u
        rw [ht₁ u]
        split <;> simp [XdmaTransfer.SameRequest]
      have hnum : ∀ us, s₁.descSum us = s.descSum us := fun us => by
        simp only [descSum, fun u => (hsame u).1]
      have hev : ∀ us, s₁.outEvents us = s.outEvents us := fun us => by
        simp only [outEvents, fun u => (hsame u).completionEvents u]
      obtain ⟨s', c', pre, hrun, hs⟩ := ih s₁ (c - (s.tfer t).descNum) hl₁
      refine ⟨s', c', t :: pre, ?_, ?_⟩
      · rw [← hrun]
        simp only [List.length_cons, List.head?_cons, engineServiceTransferList, hpop, and_self,
          ↓reduceIte]
        change engineServiceTransferList ts.length s₁ s₁.eng.transferList.head? _ = _
        rw [hl₁]
      · have hlist := hs.list
        have hcount := hs.count
        rw [hnum] at hcount
        refine ⟨?_, ?_, ?_, ?_, ?_, ?_, ?_, ?_, hs.offline⟩
        · rw [hl, List.cons_append, ← hlist, hl₁]
        · simp only [descSum, List.map_cons, List.sum_cons] at hcount ⊢
          omega
        · intro _
          by_cases hp : pre = []
          · subst hp
            simp only [descSum, List.map_nil, List.sum_nil] at hcount
            omega
          · exact hs.pos hp
        · intro u hu
          rcases List.mem_cons.mp hu with rfl | hu
          · exact hpop.1
          · rw [← (hsame u).2.2.2.1]
            exact hs.cyclic u hu
        · intro u hu
          have := hs.stop u hu
          rwa [(hsame u).2.2.2.1, (hsame u).1] at this
        · rw [hs.eng]
          simp only [s₁, engineTransferCompletion, addDequeued, listDelHead, modify_eng, descSum,
            List.map_cons, List.sum_cons, ← Nat.add_assoc]
          congr 2
          exact hnum pre
        · intro u
          rw [hs.tfer u, ht₁ u]
          by_cases hut : u = t
          · subst hut
            simp
          · simp [hut]
        · rw [hs.log, hev]
          simp [s₁, engineTransferCompletion, addDequeued, outEvents, XdmaTransfer.completionEvents]
    · refine ⟨s, c, [], ?_, ?_⟩
      · simp [engineServiceTransferList, hpop, hl]
      · refine .nothing fun u hu => ?_
        simp only [hl, List.head?_cons, Option.mem_def, Option.some.injEq] at hu
        subst hu
        by_cases hc : (s.tfer t).cyclic = false
        · exact .inr (not_lt.mp fun h => hpop ⟨hc, h⟩)
        · exact .inl (by simpa using hc)

structure SameQueue (s s' : Drv) : Prop where
  list : s'.eng.transferList = s.eng.transferList
  tfer : s'.tfer = s.tfer
  log : s'.log = s.log
  offline : s'.offline = s.offline
  ring : s.eng.SameRing s'.eng

theorem SameQueue.refl (s : Drv) : SameQueue s s := ⟨rfl, rfl, rfl, rfl, .refl _⟩

theorem SameQueue.trans {s t u : Drv} (h : SameQueue s t) (h' : SameQueue t u) : SameQueue s u :=
  ⟨h'.list.trans h.list, h'.tfer.trans h.tfer, h'.log.trans h.log, h'.offline.trans h.offline,
    h.ring.trans h'.ring⟩

theorem xdmaEngineStop_sameQueue (p : Params) (s : Drv) : SameQueue s (s.xdmaEngineStop p) :=
  ⟨rfl, rfl, rfl, rfl, xdmaEngineStop_sameRing p s⟩

theorem engineStatusRead_sameQueue (s : Drv) (w : U32) : SameQueue s (s.engineStatusRead w) :=
  ⟨rfl, rfl, rfl, rfl, by simp [engineStatusRead, XdmaEngine.SameRing]⟩

theorem engineServiceEntry_sameQueue (p : Params) (wb : U32) (r : ServiceRegs) (s : Drv) :
    SameQueue s (s.engineServiceEntry p wb r) := by
  unfold engineServiceEntry engineServiceShutdown
  have hread : SameQueue s (if wbCount wb = 0 ∨ wbErr wb then s.engineStatusRead r.statusRc else s) := by
    split
    · exact engineStatusRead_sameQueue s _
    · exact .refl s
  generalize (if wbCount wb = 0 ∨ wbErr wb then s.engineStatusRead r.statusRc else s) = s₁ at hread
  dsimp only
  split
  · exact hread.trans (xdmaEngineStop_sameQueue p _)
  · exact hread

structure PerfOnly (s s' : Drv) : Prop where
  eng : s'.eng = { s.eng with xdmaPerf := s'.eng.xdmaPerf }
  tfer : s'.tfer = s.tfer
  log : s'.log = s.log
  offline : s'.offline = s.offline

theorem engineServicePerf_perfOnly (s : Drv) (n : ℕ) : PerfOnly s (s.engineServicePerf n) := by
  unfold engineServicePerf
  split
  · exact ⟨rfl, rfl, rfl, rfl⟩
  · exact ⟨rfl, rfl, rfl, rfl⟩

theorem PerfOnly.sameQueue {s s' : Drv} (h : PerfOnly s s') : SameQueue s s' := by
  refine ⟨?_, h.tfer, h.log, h.offline, ?_⟩
  · rw [h.eng]
  · rw [h.eng]
    simp [XdmaEngine.SameRing]

theorem engineStart_sameQueue (p : Params) (w : U32) (s : Drv) :
    SameQueue s (s.engineStart p w).1 := by
  by_cases hr : s.eng.running = true
  · rw [engineStart_of_running p s w hr]
    exact .refl s
  · cases hl : s.eng.transferList with
    | nil =>
      rw [engineStart_of_nil p s w hl]
      exact .refl s
    | cons t ts =>
      obtain ⟨-, h⟩ := engineStart_cons (p := p) (w := w) (by simpa using hr) hl
      exact ⟨h.transferList, h.tfer, h.log, h.offline, h.ring⟩

theorem engineServiceResume_sameQueue (p : Params) (w : U32) (s : Drv) :
    SameQueue s (s.engineServiceResume p w) := by
  unfold engineServiceResume engineServiceShutdown
  split_ifs
  · exact engineStart_sameQueue p w s
  · exact ⟨rfl, rfl, rfl, rfl, by simp [XdmaEngine.SameRing]⟩
  · exact .refl s
  · exact xdmaEngineStop_sameQueue p s
  · exact .refl s

theorem engineServiceResume_running (p : Params) (w : U32) (s : Drv)
    (h : s.eng.transferList ≠ []) : (s.engineServiceResume p w).eng.running = true := by
  unfold engineServiceResume
  by_cases hr : s.eng.running = false
  · obtain ⟨t, ts, hl⟩ := List.exists_cons_of_ne_nil h
    simp only [hr, h, ne_eq, not_false_eq_true, ↓reduceIte]
    exact (engineStart_cons hr hl).2.running
  · simp [hr, h]

structure ServiceEffect (s s' : Drv) (out : List XferRef) : Prop where
  list : s.eng.transferList = out ++ s'.eng.transferList
  left : ∀ t ∈ out, (s'.tfer t).state = .completed ∨ (s'.tfer t).state = .failed
  kept : ∀ t ∉ out, (s'.tfer t).state = (s.tfer t).state
  same : ∀ t, (s.tfer t).SameRequest (s'.tfer t)
  frame : ∀ t ∉ s.eng.transferList, s'.tfer t = s.tfer t
  log : s'.log = s.log ++ s.outEvents out
  offline : s'.offline = s.offline
  ring : s.eng.SameRing s'.eng

theorem SameQueue.serviceEffect {s s' : Drv} (h : SameQueue s s') : ServiceEffect s s' [] :=
  ⟨by simp [h.list], by simp, fun t _ => by rw [h.tfer], fun t => by rw [h.tfer]; exact .refl _,
    fun t _ => by rw [h.tfer], by simp [h.log, outEvents], h.offline, h.ring⟩

theorem ServiceEffect.outEvents_eq {s s' : Drv} {out : List XferRef} (h : ServiceEffect s s' out)
    (ts : List XferRef) : s'.outEvents ts = s.outEvents ts := by
  simp only [outEvents, fun u => (h.same u).completionEvents u]

theorem ServiceEffect.trans {s t u : Drv} {out out' : List XferRef} (h : ServiceEffect s t out)
    (h' : ServiceEffect t u out') : ServiceEffect s u (out ++ out') := by
  refine ⟨?_, ?_, ?_, fun v => (h.same v).trans (h'.same v), ?_, ?_, h'.offline.trans h.offline,
    h.ring.trans h'.ring⟩
  · rw [h.list, h'.list, List.append_assoc]
  · intro v hv
    by_cases hv' : v ∈ out'
    · exact h'.left v hv'
    · rw [h'.kept v hv']
      exact h.left v ((List.mem_append.mp hv).resolve_right hv')
  · intro v hv
    simp only [List.mem_append, not_or] at hv
    rw [h'.kept v hv.2, h.kept v hv.1]
  · intro v hv
    rw [h'.frame v (fun hm => hv (by rw [h.list]; exact List.mem_append_right _ hm)), h.frame v hv]
  · rw [h'.log, h.log, h.outEvents_eq, List.append_assoc]
    simp [outEvents]

theorem ListServiced.serviceEffect {s s' : Drv} {c c' : ℕ} {pre : List XferRef}
    (h : ListServiced s c s' c' pre) : ServiceEffect s s' pre := by
  refine ⟨h.list, ?_, ?_, ?_, ?_, h.log, h.offline, ?_⟩
  · intro t ht
    simp [h.tfer t, ht]
  · intro t ht
    simp [h.tfer t, ht]
  · intro t
    rw [h.tfer t]
    split <;> simp [XdmaTransfer.SameRequest]
  · intro t ht
    have : t ∉ pre := fun hm => ht (by rw [h.list]; exact List.mem_append_left _ hm)
    simp [h.tfer t, this]
  · rw [h.eng]
    simp [XdmaEngine.SameRing]

structure FinalState (s s' : Drv) (t : XferRef) (del : Bool) : Prop where
  list : s'.eng.transferList = s.eng.transferList
  left : del = true → (s'.tfer t).state = .completed ∨ (s'.tfer t).state = .failed
  kept : del = false → (s'.tfer t).state = (s.tfer t).state
  other : ∀ u, u ≠ t → s'.tfer u = s.tfer u
  same : (s.tfer t).SameRequest (s'.tfer t)
  log : s'.log = s.log
  offline : s'.offline = s.offline
  ring : s.eng.SameRing s'.eng

theorem finalTransferState_spec (p : Params) (s : Drv) (t : XferRef) (c : ℕ) :
    FinalState s (s.finalTransferState p t c).1 t (s.finalTransferState p t c).2 := by
  unfold finalTransferState
  by_cases herr : statusError s.eng.dir s.eng.status
  · simp only [herr, ↓reduceIte]
    refine ⟨rfl, fun _ => by simp [engineErrHandle], by simp, fun u hu => ?_,
      by simp [engineErrHandle, XdmaTransfer.SameRequest], rfl, rfl, ?_⟩
    · simp [engineErrHandle, modify_of_ne _ _ _ _ hu]
    · exact xdmaEngineStop_sameRing p _
  by_cases hlt : c < (s.tfer t).descNum
  · by_cases heop : s.eng.eopFlush = true
    · simp only [herr, hlt, heop, ↓reduceIte]
      cases (s.tfer t).eopRcved || eopSeen s.eng (s.tfer t) c with
      | true =>
        refine ⟨rfl, fun _ => by simp, by simp, fun u hu => ?_,
          by simp [engineServiceShutdown, XdmaTransfer.SameRequest], rfl, rfl, ?_⟩
        · simp [engineServiceShutdown, modify_of_ne _ _ _ _ hu]
        · exact xdmaEngineStop_sameRing p _
      | false =>
        exact ⟨rfl, by simp, by simp, fun u hu => by simp [modify_of_ne _ _ _ _ hu],
          by simp [XdmaTransfer.SameRequest], rfl, rfl, .refl _⟩
    · simp only [herr, hlt, heop, ↓reduceIte]
      exact ⟨rfl, fun _ => by simp, by simp, fun u hu => by simp [modify_of_ne _ _ _ _ hu],
        by simp [XdmaTransfer.SameRequest], rfl, rfl, .refl _⟩
  · simp only [herr, hlt, ↓reduceIte]
    exact ⟨rfl, fun _ => by simp, by simp, fun u hu => by simp [modify_of_ne _ _ _ _ hu],
      by simp [XdmaTransfer.SameRequest], rfl, rfl, .refl _⟩

theorem engineServiceFinalTransfer_effect (p : Params) (s : Drv) (c : ℕ) :
    ∃ out, ServiceEffect s (s.engineServiceFinalTransfer p s.eng.transferList.head? c) out := by
  cases hl : s.eng.transferList with
  | nil => exact ⟨[], (SameQueue.refl s).serviceEffect⟩
  | cons t ts =>
    have hf := finalTransferState_spec p s t c
    simp only [List.head?_cons, engineServiceFinalTransfer]
    generalize s.finalTransferState p t c = r at hf
    obtain ⟨s', del⟩ := r
    dsimp only at hf
    have htfer : ∀ u ∉ s.eng.transferList, s'.tfer u = s.tfer u := fun u hu =>
      hf.other u fun h => hu (by simp [hl, h])
    have hsame : ∀ u, (s.tfer u).SameRequest (s'.tfer u) := by
      intro u
      by_cases hu : u = t
      · subst hu
        exact hf.same
      · rw [hf.other u hu]
        exact .refl _
    cases del with
    | false =>
      refine ⟨[], by simp [hf.list], by simp, fun u _ => ?_, hsame, htfer,
        by simp [hf.log, outEvents], hf.offline, hf.ring⟩
      by_cases hu : u = t
      · subst hu
        exact hf.kept rfl
      · simp [hf.other u hu]
    | true =>
      refine ⟨[t], ?_, ?_, ?_, hsame, htfer, ?_, hf.offline, ?_⟩
      · have := hf.list
        simp_all [listDelHead, engineTransferCompletion]
      · intro u hu
        obtain rfl := List.mem_singleton.mp hu
        exact hf.left rfl
      · intro u hu
        have hu : u ≠ t := by simpa using hu
        simp [engineTransferCompletion, hf.other u hu]
      · simp [engineTransferCompletion, outEvents, hf.log, hf.same.completionEvents]
      · have := hf.ring
        simpa [engineTransferCompletion, listDelHead, XdmaEngine.SameRing] using this

theorem engineServiceQueue_run (p : Params) (w : U32) (n : ℕ) (s : Drv) :
    ∃ s₁ s₂ c pre, PerfOnly s s₁ ∧ ListServiced s₁ (u32Sub n s.eng.descDequeued) s₂ c pre ∧
      s.engineServiceQueue p w n =
        engineServiceResume p w (s₂.engineServiceFinalTransfer p s₂.eng.transferList.head? c) := by
  have hperf : PerfOnly s (if s.eng.transferList ≠ [] then s.engineServicePerf n else s) := by
    split
    · exact engineServicePerf_perfOnly s n
    · exact ⟨rfl, rfl, rfl, rfl⟩
  unfold engineServiceQueue
  dsimp only
  generalize (if s.eng.transferList ≠ [] then s.engineServicePerf n else s) = s₁ at hperf
  have hlist := hperf.sameQueue.list
  have hdeq : s₁.eng.descDequeued = s.eng.descDequeued := by rw [hperf.eng]
  obtain ⟨s₂, c, pre, hloop, hs⟩ :=
    engineServiceTransferList_spec s.eng.transferList s₁ (u32Sub n s.eng.descDequeued) hlist
  refine ⟨s₁, s₂, c, pre, hperf, hs, ?_⟩
  rw [hlist, hdeq, hloop]

theorem engineServiceQueue_effect (p : Params) (w : U32) (n : ℕ) (s : Drv) :
    ∃ out, ServiceEffect s (s.engineServiceQueue p w n) out := by
  obtain ⟨s₁, s₂, c, pre, hperf, hs, hrun⟩ := engineServiceQueue_run p w n s
  obtain ⟨out, hfin⟩ := engineServiceFinalTransfer_effect p s₂ c
  rw [hrun]
  exact ⟨_, ((hperf.sameQueue.serviceEffect.trans hs.serviceEffect).trans hfin).trans
    (engineServiceResume_sameQueue p w _).serviceEffect⟩

theorem engineService_effect (p : Params) (wb : U32) (r : ServiceRegs) (s : Drv) :
    ∃ out, ServiceEffect s (s.engineService p wb r).1 out := by
  unfold engineService
  by_cases hr : s.eng.running = false
  · simp only [hr, ↓reduceIte]
    exact ⟨[], (engineStatusRead_sameQueue s _).serviceEffect⟩
  have hentry := (engineServiceEntry_sameQueue p wb r s).serviceEffect
  by_cases hc : serviceCount wb r = 0
  · simp only [hr, hc, ↓reduceIte]
    exact ⟨_, hentry⟩
  · simp only [hr, hc, ↓reduceIte]
    obtain ⟨out, hq⟩ := engineServiceQueue_effect p r.status (serviceCount wb r)
      (s.engineServiceEntry p wb r)
    exact ⟨_, hentry.trans hq⟩

end Drv

end XdmaDriver
