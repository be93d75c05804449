import XdmaDriver.Queue

/-!
What the other contexts of the driver do to an engine while a call on it waits:
service calls, submissions and completions of other requests, the device going
offline and coming back, and the results the hardware writes.
-/

namespace XdmaDriver

inductive EngineStep
  | service (wb : U32) (r : ServiceRegs)
  | build (req : XdmaRequestCb) (t : XferRef) (last : Bool) (cb : Option IoCb)
  | queue (t : XferRef) (w : U32)
  | destroy (t : XferRef)
  | result (i : ℕ) (r : XdmaResult)
  | setOffline (offline : Bool)
  | shutdownRequest
  | shutdownClear

def EngineStep.isBuild : EngineStep → Bool
  | .build _ _ _ _ => true
  | _ => false

namespace Drv

variable (p : Params)

/-- `transfer_init` and the assignments of the submit loops that follow it. -/
def buildChain (s : Drv) (req : XdmaRequestCb) (t : XferRef) (needUnmap : Bool) (last : Bool)
    (cb : Option IoCb) : Drv × XdmaRequestCb :=
  let (s, req) := s.transferInit req t
  (s.modify t fun x => { x with cb := cb, needUnmap := needUnmap, lastInRequest := last }, req)

/-- One step of another context. The transfers of the request `own`, and those
linked in the list, are not its to build, queue or destroy. -/
def engineStep (own : ℕ) (s : Drv) : EngineStep → Drv
  | .service wb r => (s.engineService p wb r).1
  | .build req t last cb =>
    if t.req = own ∨ t ∈ s.eng.transferList ∨ ¬ req.swDescIdx < req.swDescCnt then s
    else (s.buildChain req t false last cb).1
  | .queue t w =>
    if t.req = own ∨ t ∈ s.eng.transferList then s else (s.transferQueue p t w).1
  | .destroy t => if t.req = own ∨ t ∈ s.eng.transferList then s else s.transferDestroy t
  | .result i r =>
    { s with eng := { s.eng with cyclicResult := Function.update s.eng.cyclicResult i r } }
  | .setOffline offline => { s with offline := offline }
  | .shutdownRequest =>
    ({ s with eng := { s.eng with shutdown := { s.eng.shutdown with request := true } } }
      : Drv).xdmaEngineStop p
  | .shutdownClear =>
    { s with eng := { s.eng with shutdown := { s.eng.shutdown with request := false } } }

def engineSteps (own : ℕ) (s : Drv) (steps : List EngineStep) : Drv :=
  steps.foldl (engineStep p own) s

structure OthersEffect (own : ℕ) (s s' : Drv) : Prop where
  config : s.eng.SameConfig s'.eng
  descIdx : s.eng.descIdx < s.eng.descMax → s'.eng.descIdx < s'.eng.descMax
  nodup : s.eng.transferList.Nodup → s'.eng.transferList.Nodup
  same : ∀ t, t.req = own → (s.tfer t).SameRequest (s'.tfer t)
  linked : ∀ t, t.req = own → t ∈ s'.eng.transferList → t ∈ s.eng.transferList ∧
    (s'.tfer t).state = (s.tfer t).state
  left : ∀ t, t.req = own → t ∈ s.eng.transferList → t ∉ s'.eng.transferList →
    (s'.tfer t).state = .completed ∨ (s'.tfer t).state = .failed
  frame : ∀ t, t.req = own → t ∉ s.eng.transferList → s'.tfer t = s.tfer t

theorem OthersEffect.refl (own : ℕ) (s : Drv) : OthersEffect own s s :=
  ⟨.refl _, id, id, fun _ _ => .refl _, fun _ _ h => ⟨h, rfl⟩, fun _ _ h h' => absurd h h',
    fun _ _ _ => rfl⟩

theorem OthersEffect.trans {own : ℕ} {s t u : Drv} (h : OthersEffect own s t)
    (h' : OthersEffect own t u) : OthersEffect own s u := by
  refine ⟨h.config.trans h'.config, h'.descIdx ∘ h.descIdx, h'.nodup ∘ h.nodup,
    fun x hx => (h.same x hx).trans (h'.same x hx), ?_, ?_, ?_⟩
  · intro x hx hm
    obtain ⟨hm, he⟩ := h'.linked x hx hm
    obtain ⟨hm, he'⟩ := h.linked x hx hm
    exact ⟨hm, he.trans he'⟩
  · intro x hx hm hm'
    by_cases ht : x ∈ t.eng.transferList
    · exact h'.left x hx ht hm'
    · rw [h'.frame x hx ht]
      exact h.left x hx hm ht
  · intro x hx hm
    rw [h'.frame x hx (fun ht => hm (h.linked x hx ht).1), h.frame x hx hm]

theorem ServiceEffect.others {s s' : Drv} {out : List XferRef} (own : ℕ)
    (h : ServiceEffect s s' out) (hnd : s.eng.transferList.Nodup) : OthersEffect own s s' := by
  rw [h.list] at hnd
  obtain ⟨-, hnd', hdisj⟩ := List.nodup_append.mp hnd
  refine ⟨h.ring.config, by rw [h.ring.descIdx, h.ring.config.descMax]; exact id, fun _ => hnd',
    fun t _ => h.same t, fun t _ ht => ⟨?_, h.kept t fun ho => hdisj t ho t ht rfl⟩,
    fun t _ ht ht' => ?_, fun t _ => h.frame t⟩
  · rw [h.list]
    exact List.mem_append_right _ ht
  · rw [h.list] at ht
    exact h.left t ((List.mem_append.mp ht).resolve_right ht')

theorem OthersEffect.of_frame {own : ℕ} {s s' : Drv} (hconfig : s.eng.SameConfig s'.eng)
    (hidx : s.eng.descIdx < s.eng.descMax → s'.eng.descIdx < s'.eng.descMax)
    (hlist : s'.eng.transferList = s.eng.transferList) (htfer : ∀ t, t.req = own → s'.tfer t = s.tfer t) :
    OthersEffect own s s' :=
  ⟨hconfig, hidx, by rw [hlist]; exact id,
    fun t ht => by rw [htfer t ht]; exact .refl _,
    fun t ht hm => ⟨hlist ▸ hm, by rw [htfer t ht]⟩, fun t _ hm hm' => absurd (hlist ▸ hm) hm',
    fun t ht _ => htfer t ht⟩

theorem buildChain_eng (s : Drv) (req : XdmaRequestCb) (t : XferRef) (u last : Bool) (cb : Option IoCb) :
    (s.buildChain req t u last cb).1.eng = (s.transferInit req t).1.eng := rfl

theorem buildChain_other (s : Drv) (req : XdmaRequestCb) (t : XferRef) (u last : Bool)
    (cb : Option IoCb) {v : XferRef} (hv : v ≠ t) :
    (s.buildChain req t u last cb).1.tfer v = s.tfer v := by
  simp only [buildChain, modify_of_ne _ _ _ _ hv, transferInit_other s req t hv]

structure ChainBuilt (s : Drv) (req : XdmaRequestCb) (t : XferRef) (u last : Bool)
    (cb : Option IoCb) (s' : Drv)
    (req' : XdmaRequestCb) : Prop where
  eng : s'.eng = (s.transferInit req t).1.eng
  rest : req' = (s.transferInit req t).2
  xfer : s'.tfer t = { (s.transferInit req t).1.tfer t with cb := cb, needUnmap := u, lastInRequest := last }
  other : ∀ v, v ≠ t → s'.tfer v = s.tfer v
  offline : s'.offline = s.offline

theorem buildChain_built (s : Drv) (req : XdmaRequestCb) (t : XferRef) (u last : Bool) (cb : Option IoCb) :
    ChainBuilt s req t u last cb (s.buildChain req t u last cb).1 (s.buildChain req t u last cb).2 :=
  ⟨rfl, rfl, by simp [buildChain], fun _ hv => buildChain_other s req t u last cb hv, rfl⟩

namespace ChainBuilt

variable {s s' : Drv} {req req' : XdmaRequestCb} {t : XferRef} {u last : Bool} {cb : Option IoCb}
  (h : ChainBuilt s req t u last cb s' req')

include h

theorem list : s'.eng.transferList = s.eng.transferList := by
  rw [h.eng, transferInit_transferList]

theorem config : s.eng.SameConfig s'.eng := by
  rw [h.eng]
  exact transferInit_sameConfig s req t

theorem descIdx_lt : s.eng.descIdx < s.eng.descMax → s'.eng.descIdx < s'.eng.descMax := by
  rw [h.eng]
  exact transferInit_descIdx_lt req t

theorem num : (s'.tfer t).descNum = chainLen s.eng req := by
  rw [h.xfer]
  simp [transferInit]

theorem descIdx : s'.eng.descIdx = (s.eng.descIdx + chainLen s.eng req) % s.eng.descMax := by
  rw [h.eng, transferInit_eng]

theorem used : s'.eng.descUsed = s.eng.descUsed + chainLen s.eng req := by rw [h.eng, transferInit_eng]

theorem index : (s'.tfer t).descIndex = s.eng.descIdx := by
  rw [h.xfer]
  simp [transferInit]

theorem unserved : (s'.tfer t).descCmpl = 0 ∧ (s'.tfer t).eopRcved = false := by
  rw [h.xfer]
  simp [transferInit]

theorem lastInRequest : (s'.tfer t).lastInRequest = last := by rw [h.xfer]

theorem callback : (s'.tfer t).cb = cb := by rw [h.xfer]

theorem running : s'.eng.running = s.eng.running := by rw [h.eng, transferInit_eng]

theorem shutdown : s'.eng.shutdown = s.eng.shutdown := by rw [h.eng, transferInit_eng]

end ChainBuilt

theorem buildChain_others {own : ℕ} {s : Drv} {req : XdmaRequestCb} {t : XferRef} {u last : Bool}
    {cb : Option IoCb} (ht : t.req ≠ own) : OthersEffect own s (s.buildChain req t u last cb).1 := by
  have hb := buildChain_built s req t u last cb
  exact .of_frame hb.config hb.descIdx_lt hb.list fun v hv => hb.other v fun he => ht (he ▸ hv)

theorem Queued.others {own : ℕ} {s s' : Drv} {t : XferRef} (h : Queued s s' t) (hown : t.req ≠ own)
    (ht : t ∉ s.eng.transferList) : OthersEffect own s s' := by
  have hother : ∀ u, u.req = own → u ≠ t := fun u hu he => hown (he ▸ hu)
  refine ⟨h.ring.config, by rw [h.ring.descIdx, h.ring.config.descMax]; exact id, h.nodup ht,
    fun u _ => h.same u, ?_, ?_, fun u hu _ => h.other (hother u hu)⟩
  · intro u hu hm
    rw [h.list] at hm
    exact ⟨by simpa [hother u hu] using hm, by rw [h.other (hother u hu)]⟩
  · intro u _ hm hm'
    rw [h.list] at hm'
    exact absurd (List.mem_append_left _ hm) hm'

variable {p}

inductive ContextMove (p : Params) (own : ℕ) (s : Drv) (st : EngineStep) (s' : Drv) : Prop
  | kept (hconfig : s.eng.SameConfig s'.eng) (hidx : s'.eng.descIdx = s.eng.descIdx)
      (hlist : s'.eng.transferList = s.eng.transferList) (htfer : s'.tfer = s.tfer)
  | serviced (wb : U32) (r : ServiceRegs) (hs : s' = (s.engineService p wb r).1)
  | built (req : XdmaRequestCb) (t : XferRef) (last : Bool) (cb : Option IoCb)
      (hst : st = .build req t last cb)
      (ht : t.req ≠ own) (hs : s' = (s.buildChain req t false last cb).1)
  | queued (t : XferRef) (ht : t.req ≠ own) (hnew : t ∉ s.eng.transferList) (hq : Queued s s' t)

theorem engineStep_move (p : Params) (own : ℕ) (s : Drv) (st : EngineStep) :
    ContextMove p own s st (s.engineStep p own st) := by
  have hstill : ContextMove p own s st s := .kept (.refl _) rfl rfl rfl
  cases st with
  | service wb r => exact .serviced wb r rfl
  | build req t last cb =>
    simp only [engineStep]
    split_ifs with h
    · exact hstill
    · exact .built req t last cb rfl (not_or.mp h).1 rfl
  | queue t w =>
    simp only [engineStep]
    split_ifs with h
    · exact hstill
    · rw [not_or] at h
      by_cases hacc : s.Accepts t
      · exact .queued t h.1 h.2 (transferQueue_accepted hacc).1
      · rw [(transferQueue_refused hacc).1]
        exact hstill
  | destroy t =>
    simp only [engineStep]
    split_ifs
    · exact hstill
    · exact .kept ⟨rfl, rfl, rfl, rfl, rfl⟩ rfl rfl rfl
  | result i r => exact .kept ⟨rfl, rfl, rfl, rfl, rfl⟩ rfl rfl rfl
  | setOffline offline => exact .kept ⟨rfl, rfl, rfl, rfl, rfl⟩ rfl rfl rfl
  | shutdownRequest => exact .kept ⟨rfl, rfl, rfl, rfl, rfl⟩ rfl rfl rfl
  | shutdownClear => exact .kept ⟨rfl, rfl, rfl, rfl, rfl⟩ rfl rfl rfl

theorem ContextMove.config {own : ℕ} {s s' : Drv} {st : EngineStep} (h : ContextMove p own s st s') :
    s.eng.SameConfig s'.eng ∧ (s.eng.descIdx < s.eng.descMax → s'.eng.descIdx < s'.eng.descMax) := by
  cases h with
  | kept hconfig hidx => exact ⟨hconfig, by rw [hidx, hconfig.descMax]; exact id⟩
  | serviced wb r hs =>
    obtain ⟨out, he⟩ := engineService_effect p wb r s
    rw [← hs] at he
    exact ⟨he.ring.config, by rw [he.ring.descIdx, he.ring.config.descMax]; exact id⟩
  | built req t last cb _ _ hs =>
    rw [hs]
    have hb := buildChain_built s req t false last cb
    exact ⟨hb.config, hb.descIdx_lt⟩
  | queued t _ _ hq => exact ⟨hq.ring.config, by rw [hq.ring.descIdx, hq.ring.config.descMax]; exact id⟩

theorem engineStep_others (p : Params) (own : ℕ) {s : Drv} (hnd : s.eng.transferList.Nodup)
    (st : EngineStep) :
    OthersEffect own s (s.engineStep p own st) := by
  have hmove := engineStep_move p own s st
  generalize s.engineStep p own st = s' at hmove
  obtain ⟨hconfig, hidx⟩ := hmove.config
  cases hmove with
  | kept _ _ hlist htfer => exact .of_frame hconfig hidx hlist fun t _ => by rw [htfer]
  | serviced wb r hs =>
    obtain ⟨out, h⟩ := engineService_effect p wb r s
    exact hs ▸ h.others own hnd
  | built req t last cb _ ht hs => exact hs ▸ buildChain_others ht
  | queued t ht hnew hq => exact hq.others ht hnew

theorem engineSteps_others (p : Params) (own : ℕ) (steps : List EngineStep) : ∀ {s : Drv},
    s.eng.transferList.Nodup → OthersEffect own s (s.engineSteps p own steps) := by
  induction steps with
  | nil => exact fun {s} _ => .refl own s
  | cons st steps ih =>
    intro s hnd
    have h := engineStep_others p own hnd st
    exact h.trans (ih (h.nodup hnd))

theorem engineSteps_descIdx {own : ℕ} (steps : List EngineStep) : ∀ {s : Drv},
    (∀ st ∈ steps, st.isBuild = false) → (s.engineSteps p own steps).eng.descIdx = s.eng.descIdx := by
  induction steps with
  | nil => exact fun {s} _ => rfl
  | cons st steps ih =>
    intro s h
    refine (ih fun st hst => h st (List.mem_cons_of_mem _ hst)).trans ?_
    cases engineStep_move p own s st with
    | kept _ hidx => exact hidx
    | serviced wb r hs =>
      obtain ⟨out, he⟩ := engineService_effect p wb r s
      rw [hs]
      exact he.ring.descIdx
    | built req t last cb hst =>
      have hno := h st List.mem_cons_self
      rw [hst] at hno
      cases hno
    | queued t _ _ hq => exact hq.ring.descIdx

end Drv

end XdmaDriver
