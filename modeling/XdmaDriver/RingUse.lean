import XdmaDriver.Nowait
import XdmaDriver.Lib.Circular
import XdmaDriver.Lib.Transition

/-!
Runs of one engine under the chains of `xdma_xfer_submit` and
`xdma_xfer_submit_nowait`, and which slots of the descriptor ring they share.
-/

namespace XdmaDriver

open Transition Circular Drv

/-- The state of a run. `top` counts the descriptors handed out so far, `pos t` is
what it was when the chain of `t` was built, and `pending` are the chains that are
built and not yet passed to `transfer_queue`. -/
structure RingRun where
  drv : Drv := {}
  top : ℕ := 0
  pos : XferRef → ℕ := fun _ => 0
  pending : List XferRef := []

inductive RingAct
  | build (req : XdmaRequestCb) (t : XferRef) (needUnmap last : Bool) (cb : Option IoCb)
  | queue (t : XferRef) (w : U32)
  | service (wb : U32) (r : ServiceRegs)
  | wait (t : XferRef) (r : DumpRegs)
  | complete (t : XferRef) (r : DumpRegs)
  | setOffline (offline : Bool)

namespace RingRun

variable (p : Params)

def outstanding (s : RingRun) : List XferRef := s.drv.eng.transferList ++ s.pending

def step (s : RingRun) : RingAct → Option RingRun
  | .build req t u last cb =>
    if t ∉ s.outstanding ∧ req.swDescCnt = req.sdesc.length ∧ req.swDescIdx < req.swDescCnt then
      some
        { drv := (s.drv.buildChain req t u last cb).1
          top := s.top + chainLen s.drv.eng req
          pos := Function.update s.pos t s.top
          pending := t :: s.pending }
    else none
  | .queue t w =>
    if t ∈ s.pending then
      some { s with drv := (s.drv.transferQueue p t w).1, pending := s.pending.filter (· ≠ t) }
    else none
  | .service wb r => some { s with drv := (s.drv.engineService p wb r).1 }
  | .wait t r =>
    if t ∈ s.pending then none
    else some { s with drv := (s.drv.waitEnd p t r).1.transferDestroy t }
  | .complete t r =>
    if t ∈ s.pending then none
    else some { s with drv := (Completion.chain p t r { drv := s.drv, nents := 0 }).1.drv }
  | .setOffline offline => some { s with drv := { s.drv with offline := offline } }

def Fresh (s : RingRun) : Prop :=
  s.outstanding = [] ∧ s.top = s.drv.eng.descIdx ∧ s.drv.eng.descIdx < s.drv.eng.descMax

/-- A chain is built only when the ring has room for it behind every chain that is
queued or about to be: the descriptors handed out from the first one of that chain
on, the new ones included, are no more than `desc_max`. -/
def RoomInRing (s : RingRun) : RingAct → Prop
  | .build req _ _ _ _ => ∀ t ∈ s.outstanding,
      s.top + chainLen s.drv.eng req ≤ s.pos t + s.drv.eng.descMax
  | _ => True

instance (s : RingRun) (a : RingAct) : Decidable (s.RoomInRing a) := by
  apply @RingAct.casesOn _ a <;> intros <;> (dsimp only [RoomInRing]; infer_instance)

def ApartInRing (s : Drv) (t u : XferRef) : Prop :=
  Circular.Disjoint (s.tfer t).descIndex (s.tfer t).descNum (s.tfer u).descIndex (s.tfer u).descNum

variable {p}

structure RingKept (s : RingRun) : Prop where
  descMax : 0 < s.drv.eng.descMax
  descIdx : s.drv.eng.descIdx = s.top % s.drv.eng.descMax
  placed : Placed s.drv.eng.descMax s.top s.pos (fun t => (s.drv.tfer t).descNum) {t | t ∈ s.outstanding}
  index : ∀ t ∈ s.outstanding, (s.drv.tfer t).descIndex = s.pos t % s.drv.eng.descMax

theorem ringKept_of_fresh {s : RingRun} (h : s.Fresh) : s.RingKept := by
  obtain ⟨ho, htop, hlt⟩ := h
  refine ⟨by omega, by rw [htop, Nat.mod_eq_of_lt hlt], ?_, by simp [ho]⟩
  constructor <;> simp [ho]

theorem RingKept.apart {s : RingRun} (h : s.RingKept) {t u : XferRef} (ht : t ∈ s.outstanding)
    (hu : u ∈ s.outstanding) (htu : t ≠ u) : ApartInRing s.drv t u := by
  have := h.placed.disjoint ht hu htu
  rwa [← h.index t ht, ← h.index u hu] at this

structure SameChains (s s' : Drv) : Prop where
  list : ∀ t ∈ s'.eng.transferList, t ∈ s.eng.transferList
  tfer : ∀ t, (s'.tfer t).descNum = (s.tfer t).descNum ∧ (s'.tfer t).descIndex = (s.tfer t).descIndex
  descIdx : s'.eng.descIdx = s.eng.descIdx
  descMax : s'.eng.descMax = s.eng.descMax

theorem SameChains.refl (s : Drv) : SameChains s s := ⟨fun _ => id, fun _ => ⟨rfl, rfl⟩, rfl, rfl⟩

theorem SameChains.trans {s t u : Drv} (h : SameChains s t) (h' : SameChains t u) : SameChains s u :=
  ⟨fun x hx => h.list x (h'.list x hx),
    fun x => ⟨(h'.tfer x).1.trans (h.tfer x).1, (h'.tfer x).2.trans (h.tfer x).2⟩,
    h'.descIdx.trans h.descIdx, h'.descMax.trans h.descMax⟩

theorem sameChains_of_sameQueue {s s' : Drv} (h : SameQueue s s') : SameChains s s' :=
  ⟨fun t ht => h.list ▸ ht, fun t => by simp [h.tfer], h.ring.descIdx, h.ring.config.descMax⟩

theorem engineService_sameChains (wb : U32) (r : ServiceRegs) (s : Drv) :
    SameChains s (s.engineService p wb r).1 := by
  obtain ⟨out, h⟩ := engineService_effect p wb r s
  exact ⟨fun t ht => h.list ▸ List.mem_append_right _ ht, fun t => ⟨(h.same t).1, (h.same t).2.1⟩,
    h.ring.descIdx, h.ring.config.descMax⟩

theorem transferAbort_sameChains (s : Drv) (t : XferRef) : SameChains s (s.transferAbort t).1 := by
  obtain ⟨hcfg, hidx⟩ := transferAbort_sameConfig s t
  by_cases hn : (s.tfer t).descNum = 0
  · simp only [transferAbort, hn, ↓reduceIte]
    exact .refl s
  · obtain ⟨ha, -⟩ := transferAbort_aborted hn
    refine ⟨fun u hu => ?_, fun u => ?_, hidx, hcfg.descMax⟩
    · rw [ha.list] at hu
      dsimp only at hu
      split at hu
      · exact List.mem_of_mem_tail hu
      · exact hu
    · rw [ha.tfer]
      by_cases hu : u = t <;> simp [hu]

theorem transferDestroy_sameChains (s : Drv) (t : XferRef) : SameChains s (s.transferDestroy t) :=
  ⟨fun _ => id, fun _ => ⟨rfl, rfl⟩, rfl, rfl⟩

theorem engineStatusReadDump_sameChains (s : Drv) (r : DumpRegs) :
    SameChains s (s.engineStatusReadDump r.identifier r.status).1 := by
  by_cases hr : r.Ok
  · rw [engineStatusReadDump_ok hr]
    exact sameChains_of_sameQueue (engineStatusRead_sameQueue s _)
  · rw [engineStatusReadDump_not_ok hr]
    exact .refl s

theorem abortStop_sameChains (s : Drv) (t : XferRef) :
    SameChains s ((s.transferAbort t).1.xdmaEngineStop p) :=
  (transferAbort_sameChains s t).trans (sameChains_of_sameQueue (xdmaEngineStop_sameQueue p _))

theorem waitEnd_sameChains (s : Drv) (t : XferRef) (r : DumpRegs) :
    SameChains s (s.waitEnd p t r).1 := by
  by_cases hu : s.Unfinished t
  swap
  · rw [waitEnd_finished hu]
    exact .refl s
  by_cases hr : r.Ok
  swap
  · rw [waitEnd_dumpFailed hu hr]
    exact .refl s
  have hread := sameChains_of_sameQueue (engineStatusRead_sameQueue s r.status)
  rw [waitEnd_dumpOk hu hr]
  split
  · exact hread.trans (abortStop_sameChains _ t)
  · exact hread.trans (transferAbort_sameChains _ t)

theorem completionChain_sameChains (s : Drv) (t : XferRef) (r : DumpRegs) (nents : ℤ) :
    SameChains s (Completion.chain p t r { drv := s, nents := nents }).1.drv := by
  have hdump := ((engineStatusReadDump_sameChains s r).trans (abortStop_sameChains (p := p) _ t)).trans
    (transferDestroy_sameChains _ t)
  unfold Completion.chain
  dsimp only
  cases (s.tfer t).state
  · exact hdump
  · exact hdump
  · exact transferDestroy_sameChains s t
  · exact transferDestroy_sameChains s t
  · exact hdump

theorem RingKept.of_sameChains {s : RingRun} {drv : Drv} (hs : s.RingKept) (h : SameChains s.drv drv) :
    RingKept { s with drv := drv } := by
  have hsub : ∀ t ∈ ({ s with drv := drv } : RingRun).outstanding, t ∈ s.outstanding := fun t ht => by
    rcases List.mem_append.mp ht with ht | ht
    · exact List.mem_append_left _ (h.list t ht)
    · exact List.mem_append_right _ ht
  refine ⟨?_, ?_, ?_, fun t ht => ?_⟩
  · rw [h.descMax]
    exact hs.descMax
  · rw [h.descIdx, h.descMax]
    exact hs.descIdx
  · rw [h.descMax]
    exact (hs.placed.mono hsub).congr fun t _ => ⟨rfl, (h.tfer t).1⟩
  · rw [(h.tfer t).2, h.descMax]
    exact hs.index t (hsub t ht)

theorem queue_ringKept {s : RingRun} {t : XferRef} {w : U32} (hs : s.RingKept) (ht : t ∈ s.pending) :
    RingKept { s with drv := (s.drv.transferQueue p t w).1, pending := s.pending.filter (· ≠ t) } := by
  by_cases ha : s.drv.Accepts t
  · obtain ⟨hq, -⟩ := transferQueue_accepted (p := p) (w := w) ha
    have hsub : ∀ u ∈ ({ s with drv := (s.drv.transferQueue p t w).1, pending := s.pending.filter (· ≠ t) } :
        RingRun).outstanding, u ∈ s.outstanding := fun u hu => by
      simp only [outstanding, hq.list, List.mem_append, List.mem_singleton, List.mem_filter] at hu ⊢
      rcases hu with (hu | rfl) | hu
      · exact .inl hu
      · exact .inr ht
      · exact .inr hu.1
    refine ⟨?_, ?_, ?_, fun u hu => ?_⟩
    · rw [hq.ring.config.descMax]
      exact hs.descMax
    · rw [hq.ring.descIdx, hq.ring.config.descMax]
      exact hs.descIdx
    · rw [hq.ring.config.descMax]
      exact (hs.placed.mono hsub).congr fun u _ => ⟨rfl, (hq.same u).1⟩
    · rw [(hq.same u).2.1, hq.ring.config.descMax]
      exact hs.index u (hsub u hu)
  · rw [(transferQueue_refused (p := p) (w := w) ha).1]
    have hsub : ∀ u ∈ ({ s with pending := s.pending.filter (· ≠ t) } : RingRun).outstanding,
        u ∈ s.outstanding := fun u hu => by
      simp only [outstanding, List.mem_append, List.mem_filter] at hu ⊢
      exact hu.imp_right fun hu => hu.1
    exact ⟨hs.descMax, hs.descIdx, hs.placed.mono hsub, fun u hu => hs.index u (hsub u hu)⟩

structure BuildStep (s : RingRun) (req : XdmaRequestCb) (t : XferRef) (s' : RingRun) : Prop where
  fresh : t ∉ s.outstanding
  positive : s.drv.eng.descIdx < s.drv.eng.descMax → 0 < chainLen s.drv.eng req
  list : s'.drv.eng.transferList = s.drv.eng.transferList
  pending : s'.pending = t :: s.pending
  top : s'.top = s.top + chainLen s.drv.eng req
  pos : s'.pos = Function.update s.pos t s.top
  index : (s'.drv.tfer t).descIndex = s.drv.eng.descIdx
  num : (s'.drv.tfer t).descNum = chainLen s.drv.eng req
  other : ∀ u, u ≠ t → s'.drv.tfer u = s.drv.tfer u
  descIdx : s'.drv.eng.descIdx = (s.drv.eng.descIdx + chainLen s.drv.eng req) % s.drv.eng.descMax
  descMax : s'.drv.eng.descMax = s.drv.eng.descMax
  offline : s'.drv.offline = s.drv.offline
  shutdown : s'.drv.eng.shutdown = s.drv.eng.shutdown
  frame : s.drv.eng.descIdx < s.drv.eng.descMax →
    ∀ j, ¬ Within s.drv.eng.descIdx (chainLen s.drv.eng req) j →
      s'.drv.eng.desc j = s.drv.eng.desc j ∧ s'.drv.eng.cyclicResult j = s.drv.eng.cyclicResult j

theorem build_step {s s' : RingRun} {req : XdmaRequestCb} {t : XferRef} {u last : Bool} {cb : Option IoCb}
    (h : s.step p (.build req t u last cb) = some s') : s.BuildStep req t s' := by
  simp only [step, Option.ite_none_right_eq_some, Option.some.injEq] at h
  obtain ⟨⟨ht, hcnt, hidx⟩, rfl⟩ := h
  have hb (hlt : s.drv.eng.descIdx < s.drv.eng.descMax) :=
    transferInit_built t (s := s.drv) ⟨hcnt, hidx.le⟩ (chainLen_pos hlt hidx)
  have hc := buildChain_built s.drv req t u last cb
  refine ⟨ht, fun hlt => chainLen_pos hlt hidx, hc.list, rfl, rfl, rfl, hc.index, hc.num,
    hc.other, hc.descIdx,
    hc.config.descMax, hc.offline, hc.shutdown, ?_⟩
  dsimp only
  rw [hc.eng]
  exact fun hlt => (hb hlt).frame

theorem RingKept.descIdx_lt {s : RingRun} (h : s.RingKept) : s.drv.eng.descIdx < s.drv.eng.descMax := by
  rw [h.descIdx]
  exact Nat.mod_lt _ h.descMax

theorem RingKept.inside {s : RingRun} (h : s.RingKept) (req : XdmaRequestCb) :
    s.top % s.drv.eng.descMax + chainLen s.drv.eng req ≤ s.drv.eng.descMax := by
  rw [← h.descIdx]
  exact chainLen_inside req h.descIdx_lt

theorem build_ringKept {s s' : RingRun} {req : XdmaRequestCb} {t : XferRef} {u last : Bool}
    {cb : Option IoCb} (hs : s.RingKept) (hok : s.RoomInRing (.build req t u last cb))
    (h : s.step p (.build req t u last cb) = some s') : s'.RingKept := by
  have hb := build_step h
  have hout : ∀ v ∈ s'.outstanding, v = t ∨ v ∈ s.outstanding := fun v hv => by
    simp only [outstanding, hb.list, hb.pending, List.mem_append, List.mem_cons] at hv ⊢
    tauto
  have hother : ∀ v ∈ s.outstanding, v ≠ t := fun v hv he => hb.fresh (he ▸ hv)
  have hpos : ∀ v ∈ s.outstanding, s'.pos v = s.pos v := fun v hv => by simp [hb.pos, hother v hv]
  have hold : Placed s.drv.eng.descMax s.top s'.pos (fun v => (s'.drv.tfer v).descNum)
      {v | v ∈ s.outstanding} :=
    hs.placed.congr fun v hv => ⟨hpos v hv, by rw [hb.other v (hother v hv)]⟩
  refine ⟨hb.descMax ▸ hs.descMax, ?_, ?_, fun v hv => ?_⟩
  · rw [hb.descIdx, hb.descMax, hb.top, hs.descIdx, Nat.mod_add_mod]
  · rw [hb.descMax, hb.top]
    refine (hold.insert (t := t) (by simp [hb.pos]) hb.num (hb.positive hs.descIdx_lt) (hs.inside req)
      fun v hv => ?_).mono hout
    rw [hpos v hv]
    exact hok v hv
  · rw [hb.descMax]
    rcases hout v hv with rfl | hv
    · rw [hb.index, hb.pos, Function.update_self]
      exact hs.descIdx
    · rw [hpos v hv, hb.other v (hother v hv)]
      exact hs.index v hv

theorem step_ringKept {s s' : RingRun} {a : RingAct} (hs : s.RingKept) (hok : s.RoomInRing a)
    (h : s.step p a = some s') : s'.RingKept := by
  cases a with
  | build req t u last cb => exact build_ringKept hs hok h
  | queue t w =>
    obtain ⟨ht, h⟩ := Option.ite_none_right_eq_some.mp h
    obtain rfl := Option.some.inj h
    exact queue_ringKept hs ht
  | service wb r =>
    obtain rfl := Option.some.inj h
    exact hs.of_sameChains (engineService_sameChains wb r s.drv)
  | wait t r =>
    obtain ⟨-, h⟩ := Option.ite_none_left_eq_some.mp h
    obtain rfl := Option.some.inj h
    exact hs.of_sameChains ((waitEnd_sameChains s.drv t r).trans (transferDestroy_sameChains _ t))
  | complete t r =>
    obtain ⟨-, h⟩ := Option.ite_none_left_eq_some.mp h
    obtain rfl := Option.some.inj h
    exact hs.of_sameChains (completionChain_sameChains s.drv t r 0)
  | setOffline offline =>
    obtain rfl := Option.some.inj h
    exact hs.of_sameChains ⟨fun _ => id, fun _ => ⟨rfl, rfl⟩, rfl, rfl⟩

theorem build_apart_iff {s s' : RingRun} {req : XdmaRequestCb} {t : XferRef} {u last : Bool}
    {cb : Option IoCb} (hs : s.RingKept) (h : s.step p (.build req t u last cb) = some s') :
    (∀ v ∈ s.outstanding, ApartInRing s'.drv v t) ↔ s.RoomInRing (.build req t u last cb) := by
  have hb := build_step h
  have hother : ∀ v ∈ s.outstanding, v ≠ t := fun v hv he => hb.fresh (he ▸ hv)
  refine ⟨fun hapart v hv => ?_, fun hok v hv => ?_⟩
  · by_contra hover
    refine hs.placed.not_disjoint hv (hs.inside req) (not_le.mp hover) ?_
    have := hapart v hv
    rwa [ApartInRing, hb.index, hb.num, hb.other v (hother v hv), hs.index v hv, hs.descIdx] at this
  · refine (build_ringKept hs hok h).apart ?_ ?_ (hother v hv)
    · simp only [outstanding, hb.list, hb.pending, List.mem_append, List.mem_cons] at hv ⊢
      tauto
    · simp [outstanding, hb.pending]

/-- Queued transfers share no ring slots, and a build that has room leaves their
descriptors and results alone. -/
structure NoSharing (p : Params) (s : RingRun) : Prop where
  apart : ∀ t ∈ s.drv.eng.transferList, ∀ u ∈ s.drv.eng.transferList, t ≠ u → ApartInRing s.drv t u
  frame : ∀ req t u last cb s', s.RoomInRing (.build req t u last cb) →
    s.step p (.build req t u last cb) = some s' → ∀ v ∈ s.drv.eng.transferList,
      ∀ j, Within (s.drv.tfer v).descIndex (s.drv.tfer v).descNum j →
        s'.drv.eng.desc j = s.drv.eng.desc j ∧ s'.drv.eng.cyclicResult j = s.drv.eng.cyclicResult j

theorem RingKept.noSharing {s : RingRun} (hs : s.RingKept) : s.NoSharing p := by
  refine ⟨fun t ht u hu htu => hs.apart (List.mem_append_left _ ht) (List.mem_append_left _ hu) htu, ?_⟩
  intro req t u last cb s' hok h v hv j hj
  have hb := build_step h
  have hv : v ∈ s.outstanding := List.mem_append_left _ hv
  have hapart := (build_apart_iff hs h).mpr hok v hv
  rw [ApartInRing, hb.index, hb.num, hb.other v fun he => hb.fresh (he ▸ hv)] at hapart
  exact hb.frame hs.descIdx_lt j (hapart.not_within hj)

/-- No sharing in any run whose builds all have room in the ring. -/
theorem queued_chains_disjoint {s : RingRun} (h : Reachable (step p) Fresh RoomInRing s) :
    s.NoSharing p :=
  (h.invariant (fun _ => ringKept_of_fresh) fun _ _ _ hI hok hs => step_ringKept hI hok hs).noSharing

def bufferRequest (n : ℕ) : XdmaRequestCb := { swDescCnt := n, sdesc := List.replicate n ⟨0x1000, 64⟩ }

theorem bufferRequest_cnt (n : ℕ) : (bufferRequest n).swDescCnt = (bufferRequest n).sdesc.length :=
  List.length_replicate.symm

def twoChains : List RingAct :=
  [.build (bufferRequest 2) ⟨0, 0⟩ false true none, .queue ⟨0, 0⟩ 1,
    .build (bufferRequest 3) ⟨1, 0⟩ false true none, .queue ⟨1, 0⟩ 1]

theorem queued_chains_disjoint_twoChains : ∃ s : RingRun, s.drv.eng.transferList = [⟨0, 0⟩, ⟨1, 0⟩] ∧
    s.NoSharing {} := by
  have hfresh : Fresh {} := ⟨rfl, rfl, by decide⟩
  have hrun : (run (step {}) RoomInRing {} twoChains).map (fun s => s.drv.eng.transferList) =
    some [⟨0, 0⟩, ⟨1, 0⟩] := by decide
  obtain ⟨s, hs, hl⟩ := exists_reachable hfresh hrun
  exact ⟨s, hl, queued_chains_disjoint hs⟩

theorem build_queue {s : RingRun} {ok : RingRun → RingAct → Prop} {req : XdmaRequestCb} {t : XferRef}
    (hok : ∀ s a, ok s a) (hs : Reachable (step p) Fresh ok s) (ht : t ∉ s.outstanding)
    (hcnt : req.swDescCnt = req.sdesc.length) (hidx : req.swDescIdx < req.swDescCnt)
    (hlt : s.drv.eng.descIdx < s.drv.eng.descMax) (ho : s.drv.offline = false)
    (hsh : s.drv.eng.shutdown.request = false) : ∃ s₁ s₂ : RingRun, s.BuildStep req t s₁ ∧
      Reachable (step p) Fresh ok s₂ ∧ Queued s₁.drv s₂.drv t ∧ s₂.pending = s₁.pending.filter (· ≠ t) := by
  obtain ⟨s₁, h₁⟩ : ∃ s₁, s.step p (.build req t false true none) = some s₁ := by
    simp only [step, ht, hcnt, not_false_eq_true, true_and]
    rw [if_pos (by rwa [← hcnt])]
    exact ⟨_, rfl⟩
  have hb := build_step h₁
  have hq : s₁.step p (.queue t 1) =
      some { s₁ with drv := (s₁.drv.transferQueue p t 1).1, pending := s₁.pending.filter (· ≠ t) } :=
    if_pos (by simp [hb.pending])
  have hacc : s₁.drv.Accepts t := by
    refine ⟨?_, hb.offline.trans ho, by rw [hb.shutdown, hsh]⟩
    rw [hb.num]
    exact (hb.positive hlt).ne'
  exact ⟨s₁, _, hb, .step (.step hs (hok _ _) h₁) (hok _ _) hq, (transferQueue_accepted hacc).1, rfl⟩

theorem chainLen_bufferRequest {e : XdmaEngine} {n : ℕ} (h : e.descIdx < e.descMax) :
    chainLen e (bufferRequest n) = min n (e.descMax - e.descIdx) := chainLen_eq _ h

/-- A chain that takes the whole ring is queued, and another one behind it. -/
theorem queued_chains_share : ¬ ∀ (p : Params) (s : RingRun), Reachable (step p) Fresh (fun _ _ => True) s →
    ∀ t ∈ s.drv.eng.transferList, ∀ u ∈ s.drv.eng.transferList, t ≠ u → ApartInRing s.drv t u := by
  intro h
  have hlt : ({} : XdmaEngine).descIdx < ({} : XdmaEngine).descMax := by decide
  obtain ⟨s₁, s₂, hb₁, hr₂, hq₂, hp₂⟩ := build_queue (p := {}) (s := {}) (t := ⟨0, 0⟩) (fun _ _ => trivial)
    (.init ⟨rfl, rfl, hlt⟩) List.not_mem_nil (bufferRequest_cnt 2048) (Nat.zero_lt_succ 2047) hlt rfl rfl
  have hlen₁ : chainLen ({} : XdmaEngine) (bufferRequest 2048) = 2048 := chainLen_bufferRequest hlt
  have hmax : s₂.drv.eng.descMax = 2048 := hq₂.ring.config.descMax.trans hb₁.descMax
  have hidx : s₂.drv.eng.descIdx = 0 := by
    rw [hq₂.ring.descIdx, hb₁.descIdx, hlen₁]
    rfl
  have hlist : s₂.drv.eng.transferList = [⟨0, 0⟩] := by rw [hq₂.list, hb₁.list]; rfl
  have hpend : s₂.pending = [] := by simp [hp₂, hb₁.pending]
  obtain ⟨s₃, s₄, hb₃, hr₄, hq₄, -⟩ := build_queue (p := {}) (t := ⟨1, 0⟩) (fun _ _ => trivial) hr₂
    (by simp [outstanding, hlist, hpend]) (bufferRequest_cnt 1) Nat.zero_lt_one (by omega)
    (by rw [hq₂.offline, hb₁.offline]) (hq₂.request (by rw [hb₁.shutdown]))
  have hlen₃ : chainLen s₂.drv.eng (bufferRequest 1) = 1 := by
    rw [chainLen_bufferRequest (by omega), hmax, hidx]
    rfl
  have hapart := h {} s₄ hr₄ ⟨0, 0⟩ (by simp [hq₄.list, hb₃.list, hlist]) ⟨1,
    0⟩ (by simp [hq₄.list]) (by simp)
  have hfirst : (s₄.drv.tfer ⟨0, 0⟩).descIndex = 0 ∧ (s₄.drv.tfer ⟨0, 0⟩).descNum = 2048 := by
    rw [hq₄.other (by simp), hb₃.other _ (by simp), (hq₂.same _).2.1, (hq₂.same _).1,
      hb₁.index, hb₁.num, hlen₁]
    exact ⟨rfl, rfl⟩
  have hsecond : (s₄.drv.tfer ⟨1, 0⟩).descIndex = 0 ∧ (s₄.drv.tfer ⟨1, 0⟩).descNum = 1 := by
    rw [(hq₄.same _).2.1, (hq₄.same _).1, hb₃.index, hb₃.num, hlen₃]
    exact ⟨hidx, rfl⟩
  rw [ApartInRing, hfirst.1, hfirst.2, hsecond.1, hsecond.2] at hapart
  revert hapart
  decide

end RingRun

end XdmaDriver
