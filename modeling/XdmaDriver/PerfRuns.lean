import XdmaDriver.Perf
import Mathlib.Data.List.Count

/-!
Runs of one engine under the performance ioctls and everything else that is done to it.
The transfers of the measurements are those of the allocations `own`.
-/

namespace XdmaDriver

open Transition Drv

/-- `starting` are the transfers of starts that are set up and not yet queued, `stopping`
what a stop took and has not yet freed, and `freed` what the stops have freed. -/
structure PerfRun where
  dev : PerfDev := {}
  starting : List PerfXfer := []
  stopping : List XferRef := []
  freed : List XferRef := []

inductive PerfAct
  | start (e : PerfStartEnv)
  | startQueue (e : PerfStartEnv) (x : PerfXfer)
  | halt
  | release (e : PerfStopEnv) (t : XferRef)
  | other (a : ShutdownAct)

/-- What is done to an engine for transfers embedded in requests. -/
def ShutdownAct.OnRequests (own : ℕ) (d : PerfDev) : ShutdownAct → Prop
  | .build req t _ _ _ =>
    t.req ≠ own ∧ t ∉ d.drv.eng.transferList ∧ req.swDescIdx < req.swDescCnt ∧ d.ring ≠ none
  | .queue t _ => t.req ≠ own ∧ t ∉ d.drv.eng.transferList
  | .wait t _ => t.req ≠ own
  | .abort t => t.req ≠ own
  | .destroy t => t.req ≠ own
  | .perf _ _ _ => False
  | .cyclicStop => False
  | _ => True

instance (own : ℕ) (d : PerfDev) (a : ShutdownAct) : Decidable (a.OnRequests own d) := by
  apply @ShutdownAct.casesOn _ a <;> intros <;> (dsimp only [ShutdownAct.OnRequests]; infer_instance)

namespace PerfRun

variable (p : Params) (own : ℕ)

def step (s : PerfRun) : PerfAct → Option PerfRun
  | .start e =>
    match s.dev.ioctlDoPerfPrepare own e with
    | (dev, .error _) => some { s with dev := dev }
    | (dev, .ok x) => some { s with dev := dev, starting := x :: s.starting }
  | .startQueue e x =>
    if x ∈ s.starting then
      some { s with dev := (s.dev.xdmaPerformanceQueue p e x).1, starting := s.starting.erase x }
    else none
  | .halt =>
    let (dev, t) := s.dev.ioctlDoPerfHalt p
    some { s with dev := dev, stopping := t.toList ++ s.stopping }
  | .release e t =>
    if t ∈ s.stopping then
      match s.dev.ioctlDoPerfRelease e t with
      | (dev, none) => some { s with dev := dev, stopping := s.stopping.erase t }
      | (dev, some _) =>
        some { s with dev := dev, stopping := s.stopping.erase t, freed := s.freed ++ [t] }
    else none
  | .other a =>
    if a.OnRequests own s.dev then some { s with dev := { s.dev with drv := s.dev.drv.act p a } } else none

structure Fresh (s : PerfRun) : Prop where
  list : s.dev.drv.eng.transferList = []
  starting : s.starting = []
  stopping : s.stopping = []
  cyclic : ∀ t, (s.dev.drv.tfer t).cyclic = false

/-- A start finds no queued transfer in the slots it writes, and a stop frees nothing but
a cyclic transfer. -/
def Safe (s : PerfRun) : PerfAct → Prop
  | .start e => e.Overwrites s.dev → ∀ t ∈ s.dev.drv.eng.transferList,
      (s.dev.drv.tfer t).descNum = 0 ∨ perfNumDesc e.args.transferSize ≤ (s.dev.drv.tfer t).descIndex
  | .release e t => e.notCopied = 0 → (s.dev.drv.tfer t).cyclic = true
  | _ => True

instance (s : PerfRun) (a : PerfAct) : Decidable (s.Safe a) := by
  apply @PerfAct.casesOn _ a <;> intros <;> (dsimp only [Safe]; infer_instance)

/-- A transfer that is freed was allocated for a measurement, and is out of the queue. -/
def FreesMeasurement (s s' : PerfRun) : Prop :=
  ∀ t, s'.freed = s.freed ++ [t] →
    t.req = own ∧ .transfer t ∈ s.dev.live ∧ t ∉ s'.dev.drv.eng.transferList

/-- The descriptors of the queued transfers in the ring are as they were. -/
def KeepsQueued (s s' : PerfRun) : Prop :=
  s.dev.ring ≠ none → ∀ t ∈ s.dev.drv.eng.transferList, ∀ j, (s.dev.drv.tfer t).descIndex ≤ j →
    j < (s.dev.drv.tfer t).descIndex + (s.dev.drv.tfer t).descNum → s'.dev.drv.eng.desc j =
    s.dev.drv.eng.desc j

def held (s : PerfRun) (t : XferRef) : ℕ :=
  s.dev.drv.eng.transferList.count t + (s.starting.map PerfXfer.ref).count t + s.stopping.count t

structure Kept (s : PerfRun) : Prop where
  requests : ∀ t, t.req ≠ own → (s.dev.drv.tfer t).cyclic = false
  once : ∀ t, t.req = own → s.held t ≤ 1
  measurement : ∀ t, t.req = own → 0 < s.held t →
    (s.dev.drv.tfer t).cyclic = true ∧ t.idx < s.dev.next ∧ .transfer t ∈ s.dev.live

variable {p own}

theorem kept_of_fresh {s : PerfRun} (h : s.Fresh) : s.Kept own := by
  have hheld : ∀ t, s.held t = 0 := by
    intro t
    simp [held, h.list, h.starting, h.stopping]
  constructor
  · exact fun t _ => h.cyclic t
  · intro t _
    rw [hheld]
    exact Nat.zero_le 1
  · intro t _ hpos
    rw [hheld] at hpos
    exact absurd hpos (Nat.lt_irrefl 0)

theorem Kept.move {s s' : PerfRun} (h : s.Kept own)
    (hcyclic : ∀ t, (s'.dev.drv.tfer t).cyclic = (s.dev.drv.tfer t).cyclic) (hnext : s'.dev.next = s.dev.next)
    (hheld : ∀ t, t.req = own → s'.held t ≤ s.held t)
    (hlive : ∀ t, t.req = own → 0 < s'.held t → .transfer t ∈ s.dev.live → .transfer t ∈ s'.dev.live) :
    s'.Kept own := by
  constructor
  · intro t ht
    rw [hcyclic]
    exact h.requests t ht
  · exact fun t ht => (hheld t ht).trans (h.once t ht)
  · intro t ht hpos
    obtain ⟨hcyc, hidx, hl⟩ := h.measurement t ht (hpos.trans_le (hheld t ht))
    rw [hcyclic, hnext]
    exact ⟨hcyc, hidx, hlive t ht hpos hl⟩

end PerfRun

namespace Drv

structure Dequeues (s s' : Drv) : Prop where
  list : s'.eng.transferList.Sublist s.eng.transferList
  cyclic : ∀ t, (s'.tfer t).cyclic = (s.tfer t).cyclic

variable {p : Params} {s : Drv}

theorem Dequeues.refl (s : Drv) : Dequeues s s := ⟨.refl _, fun _ => rfl⟩

theorem Dequeues.trans {s t u : Drv} (h : Dequeues s t) (h' : Dequeues t u) : Dequeues s u :=
  ⟨h'.list.trans h.list, fun x => (h'.cyclic x).trans (h.cyclic x)⟩

theorem SameQueue.dequeues {s s' : Drv} (h : SameQueue s s') : Dequeues s s' :=
  ⟨h.list ▸ .refl _, fun t => by rw [h.tfer]⟩

theorem engineService_dequeues (wb : U32) (r : ServiceRegs) : Dequeues s (s.engineService p wb r).1 := by
  obtain ⟨out, h⟩ := engineService_effect p wb r s
  exact ⟨h.list ▸ List.sublist_append_right out _, fun t => (h.same t).2.2.2.1⟩

theorem transferAbort_dequeues (t : XferRef) : Dequeues s (s.transferAbort t).1 := by
  by_cases hn : (s.tfer t).descNum = 0
  · rw [transferAbort, if_pos hn]
    exact .refl s
  obtain ⟨ha, -⟩ := transferAbort_aborted hn
  constructor
  · rw [ha.list]
    dsimp only
    split_ifs
    · exact List.tail_sublist _
    · exact .refl _
  · intro u
    rw [ha.tfer]
    by_cases hu : u = t
    · rw [hu, Function.update_self]
    · rw [Function.update_of_ne hu]

theorem engineStatusReadDump_dequeues (r : DumpRegs) :
    Dequeues s (s.engineStatusReadDump r.identifier r.status).1 := by
  by_cases hr : r.Ok
  · rw [engineStatusReadDump_ok hr]
    exact (engineStatusRead_sameQueue s _).dequeues
  · rw [engineStatusReadDump_not_ok hr]
    exact .refl s

theorem waitEnd_dequeues (t : XferRef) (r : DumpRegs) : Dequeues s (s.waitEnd p t r).1 := by
  by_cases hu : s.Unfinished t
  swap
  · rw [waitEnd_finished hu]
    exact .refl s
  by_cases hr : r.Ok
  swap
  · rw [waitEnd_dumpFailed hu hr]
    exact .refl s
  have habort := (engineStatusRead_sameQueue s r.status).dequeues.trans (transferAbort_dequeues t)
  rw [waitEnd_dumpOk hu hr]
  split_ifs
  · exact habort.trans (xdmaEngineStop_sameQueue p _).dequeues
  · exact habort

theorem transferQueue_cyclic (t : XferRef) (w : U32) (u : XferRef) :
    ((s.transferQueue p t w).1.tfer u).cyclic = (s.tfer u).cyclic := by
  by_cases ha : s.Accepts t
  · exact ((transferQueue_accepted (p := p) (w := w) ha).1.same u).2.2.2.1
  · rw [(transferQueue_refused (p := p) (w := w) ha).1]

theorem transferQueue_list (t : XferRef) (w : U32) (u : XferRef) :
    (s.transferQueue p t w).1.eng.transferList.count u =
      s.eng.transferList.count u + if s.Accepts t ∧ u = t then 1 else 0 := by
  by_cases ha : s.Accepts t
  · rw [(transferQueue_accepted (p := p) (w := w) ha).1.list, List.count_append, List.count_singleton]
    by_cases hu : u = t
    · simp [ha, hu]
    · simp [ha, hu, Ne.symm hu]
  · rw [(transferQueue_refused (p := p) (w := w) ha).1, if_neg fun h => ha h.1, Nat.add_zero]

structure LeavesOthers (own : ℕ) (s s' : Drv) : Prop where
  count : ∀ t, t.req = own → s'.eng.transferList.count t ≤ s.eng.transferList.count t
  cyclic : ∀ t, t.req = own → (s'.tfer t).cyclic = (s.tfer t).cyclic
  requests : (∀ t, t.req ≠ own → (s.tfer t).cyclic = false) → ∀ t, t.req ≠ own → (s'.tfer t).cyclic = false

theorem Dequeues.leavesOthers {own : ℕ} {s s' : Drv} (h : Dequeues s s') : LeavesOthers own s s' := by
  constructor
  · exact fun t _ => h.list.count_le t
  · exact fun t _ => h.cyclic t
  · intro hreq t ht
    rw [h.cyclic]
    exact hreq t ht

theorem buildChain_leavesOthers {own : ℕ} {t : XferRef} (ht : t.req ≠ own)
    (req : XdmaRequestCb) (u last : Bool)
    (cb : Option IoCb) : LeavesOthers own s (s.buildChain req t u last cb).1 := by
  have hb := buildChain_built s req t u last cb
  constructor
  · intro v _
    rw [hb.list]
  · intro v hv
    rw [hb.other v fun he => ht (he ▸ hv)]
  · intro hreq v hv
    by_cases he : v = t
    · rw [he, hb.xfer]
      simp [transferInit]
    · rw [hb.other v he]
      exact hreq v hv

theorem transferQueue_leavesOthers {own : ℕ} {t : XferRef} (ht : t.req ≠ own) (w : U32) :
    LeavesOthers own s (s.transferQueue p t w).1 := by
  constructor
  · intro u hu
    have hne : u ≠ t := fun he => ht (he ▸ hu)
    simp [transferQueue_list, hne]
  · exact fun u _ => transferQueue_cyclic t w u
  · intro hreq u hu
    rw [transferQueue_cyclic]
    exact hreq u hu

theorem act_leavesOthers {own : ℕ} {d : PerfDev} {a : ShutdownAct} (ha : a.OnRequests own d) :
    LeavesOthers own d.drv (d.drv.act p a) := by
  have hsame {s' : Drv} (hlist : s'.eng.transferList = d.drv.eng.transferList)
    (htfer : s'.tfer = d.drv.tfer) :
      LeavesOthers own d.drv s' :=
    Dequeues.leavesOthers ⟨hlist ▸ .refl _, fun t => by rw [htfer]⟩
  cases a with
  | setOffline offline => exact hsame rfl rfl
  | offline => exact hsame rfl rfl
  | initRegs => exact hsame rfl rfl
  | online => exact hsame rfl rfl
  | build req t u last cb => exact buildChain_leavesOthers ha.1 req u last cb
  | perf perf t x => exact ha.elim
  | queue t w => exact transferQueue_leavesOthers ha.1 w
  | service wb r => exact (engineService_dequeues wb r).leavesOthers
  | wait t r => exact (waitEnd_dequeues t r).leavesOthers
  | cyclicStop => exact ha.elim
  | statusRead r => exact (engineStatusReadDump_dequeues r).leavesOthers
  | abort t => exact (transferAbort_dequeues t).leavesOthers
  | stop => exact hsame rfl rfl
  | destroy t => exact hsame rfl rfl

end Drv

theorem Drv.engineCyclicStop_cons {p : Params} {s : Drv} {t : XferRef} {ts : List XferRef}
    (hlist : s.eng.transferList = t :: ts) :
    (∀ u, ((s.engineCyclicStop p).tfer u).cyclic = (s.tfer u).cyclic) ∧
      ∀ u, (s.engineCyclicStop p).eng.transferList.count u + (if (s.tfer t).cyclic ∧ u = t then 1 else 0) =
        s.eng.transferList.count u := by
  unfold engineCyclicStop
  rw [hlist]
  dsimp only
  split_ifs with hcyc
  · refine ⟨fun u => rfl, fun u => ?_⟩
    simp only [listDelHead, xdmaEngineStop_transferList, hlist, List.tail_cons, hcyc, true_and]
    by_cases hu : u = t
    · rw [if_pos hu, hu, List.count_cons_self]
    · rw [if_neg hu, List.count_cons_of_ne (Ne.symm hu), Nat.add_zero]
  · refine ⟨fun u => rfl, fun u => ?_⟩
    simp only [xdmaEngineStop_transferList, hlist, hcyc, Bool.false_eq_true, false_and,
      ↓reduceIte, Nat.add_zero]

theorem count_map_erase {α β : Type*} [DecidableEq α] [DecidableEq β] (f : α → β) {l : List α}
    {a : α} (h : a ∈ l)
    (b : β) : (l.map f).count b = ((l.erase a).map f).count b + if f a = b then 1 else 0 := by
  rw [((List.perm_cons_erase h).map f).count_eq, List.map_cons, List.count_cons]
  simp

namespace PerfRun

variable {p : Params} {own : ℕ} {s s' : PerfRun}

theorem Kept.fresh (h : s.Kept own) : s.held ⟨own, s.dev.next⟩ = 0 := by
  by_contra hpos
  have hlt := (h.measurement ⟨own, s.dev.next⟩ rfl (Nat.pos_of_ne_zero hpos)).2.1
  exact absurd hlt (Nat.lt_irrefl _)

theorem Kept.start (h : s.Kept own) {e : PerfStartEnv} (hs : s.step p own (.start e) = some s') :
    s'.Kept own := by
  have hp := PerfDev.ioctlDoPerfPrepare_prepared own e s.dev
  have hfresh := h.fresh
  unfold step at hs
  dsimp only at hs
  generalize s.dev.ioctlDoPerfPrepare own e = r at hp hs
  obtain ⟨dev, r⟩ := r
  have hlist := hp.list
  have hold : ∀ t, t.req = own → t ≠ ⟨own, s.dev.next⟩ → 0 < s.held t →
      (dev.drv.tfer t).cyclic = true ∧ t.idx < dev.next ∧ .transfer t ∈ dev.live := by
    intro t ht hne hpos
    obtain ⟨hcyc, hidx, hl⟩ := h.measurement t ht hpos
    rw [hp.tfer t hne]
    exact ⟨hcyc, hidx.trans_le hp.next, (hp.live t hl).resolve_right hne⟩
  have hreq : ∀ t, t.req ≠ own → (dev.drv.tfer t).cyclic = false := by
    intro t ht
    rw [hp.tfer t fun he => ht (he ▸ rfl)]
    exact h.requests t ht
  cases r with
  | error stop =>
    obtain rfl := Option.some.inj hs
    have hheld : ∀ t, held { s with dev := dev } t = s.held t := by
      intro t
      unfold held
      rw [hlist]
    constructor
    · exact hreq
    · intro t ht
      rw [hheld]
      exact h.once t ht
    · intro t ht hpos
      rw [hheld] at hpos
      exact hold t ht (fun he => by rw [he, hfresh] at hpos; exact Nat.lt_irrefl 0 hpos) hpos
  | ok x =>
    obtain rfl := Option.some.inj hs
    have hx := hp.transfer x rfl
    have hheld : ∀ t, held { s with dev := dev, starting := x :: s.starting } t =
        s.held t + if x.ref = t then 1 else 0 := by
      intro t
      unfold held
      rw [hlist, List.map_cons, List.count_cons]
      simp only [beq_iff_eq]
      omega
    constructor
    · exact hreq
    · intro t ht
      rw [hheld]
      split_ifs with he
      · rw [← he, hx.ref, hfresh]
      · exact h.once t ht
    · intro t ht hpos
      by_cases he : x.ref = t
      · rw [← he]
        refine ⟨hx.cyclic, ?_, hx.live⟩
        rw [hx.next, hx.ref]
        exact Nat.lt_succ_self _
      · rw [hheld, if_neg he] at hpos
        exact hold t ht (fun ht' => he (hx.ref.trans ht'.symm)) hpos

theorem Kept.startQueue (h : s.Kept own) {e : PerfStartEnv} {x : PerfXfer}
    (hs : s.step p own (.startQueue e x) = some s') : s'.Kept own := by
  obtain ⟨hx, hs⟩ := Option.ite_none_right_eq_some.mp hs
  obtain rfl := Option.some.inj hs
  obtain ⟨hdrv, hnext, hlive, haccepted, -⟩ := PerfDev.xdmaPerformanceQueue_spec (p := p)
    (e := e) (d := s.dev) x
  have hheld : ∀ t, held { s with
      dev := (s.dev.xdmaPerformanceQueue p e x).1
      starting := s.starting.erase x } t + (if s.dev.drv.Accepts x.ref then 0
        else if x.ref = t then 1 else 0) =
        s.held t := by
    intro t
    unfold held
    rw [hdrv, transferQueue_list, count_map_erase PerfXfer.ref hx]
    by_cases ha : s.dev.drv.Accepts x.ref
    · simp only [ha, true_and, ↓reduceIte, eq_comm]
      omega
    · simp only [ha, false_and, ↓reduceIte]
      omega
  apply h.move
  · intro t
    rw [hdrv]
    exact transferQueue_cyclic x.ref e.startStatus t
  · exact hnext
  · exact fun t _ => (hheld t).symm ▸ Nat.le_add_right _ _
  · intro t ht hpos hl
    by_cases ha : s.dev.drv.Accepts x.ref
    · rw [haccepted ha]
      exact hl
    · refine (hlive t hl).resolve_right fun he => ?_
      have hone := h.once t ht
      have hsum := hheld t
      rw [if_neg ha, if_pos he.symm] at hsum
      omega

theorem Kept.halt (h : s.Kept own) (hs : s.step p own .halt = some s') : s'.Kept own := by
  unfold step at hs
  dsimp only at hs
  obtain rfl := Option.some.inj hs
  unfold PerfDev.ioctlDoPerfHalt
  by_cases hidle : s.dev.drv.eng.xdmaPerf = none
  · rw [if_pos hidle]
    exact h
  rw [if_neg hidle]
  cases hlist : s.dev.drv.eng.transferList with
  | nil =>
    have hstop : s.dev.drv.engineCyclicStop p = s.dev.drv := by
      unfold engineCyclicStop
      rw [hlist]
    rw [hstop]
    exact h
  | cons t ts =>
    dsimp only
    obtain ⟨hcyc, hcount⟩ := engineCyclicStop_cons (p := p) hlist
    have hlast : ∀ u, u.req = own → u = t → (s.dev.drv.tfer t).cyclic = true := by
      intro u hu hut
      subst hut
      have hpos : 0 < s.held u := by
        unfold held
        rw [hlist, List.count_cons_self]
        omega
      exact (h.measurement u hu hpos).1
    have hheld : ∀ u, u.req = own →
        (s.dev.drv.engineCyclicStop p).eng.transferList.count u + (s.starting.map PerfXfer.ref).count u +
          (t :: s.stopping).count u ≤ s.held u := by
      intro u hu
      have hsum := hcount u
      unfold held
      rw [List.count_cons]
      simp only [beq_iff_eq]
      by_cases hut : u = t
      · rw [if_pos ⟨hlast u hu hut, hut⟩] at hsum
        rw [if_pos hut.symm]
        omega
      · rw [if_neg (Ne.symm hut)]
        omega
    split_ifs
    · apply h.move
      · exact hcyc
      · rfl
      · exact hheld
      · exact fun u _ _ hl => PerfDev.freePerfBuf_live.mpr hl
    · apply h.move
      · exact hcyc
      · rfl
      · exact hheld
      · exact fun u _ _ hl => hl

theorem Kept.release (h : s.Kept own) {e : PerfStopEnv} {t : XferRef}
    (hs : s.step p own (.release e t) = some s') : s'.Kept own := by
  obtain ⟨ht, hs⟩ := Option.ite_none_right_eq_some.mp hs
  have herase : ∀ u, s.stopping.count u = (s.stopping.erase t).count u + if t = u then 1 else 0 := by
    intro u
    simpa using count_map_erase id ht u
  obtain ⟨htfer, hlist, hnext, hlive, -⟩ := PerfDev.ioctlDoPerfRelease_spec e t s.dev
  generalize s.dev.ioctlDoPerfRelease e t = r at hs htfer hlist hnext hlive
  obtain ⟨dev, out⟩ := r
  have hheld : ∀ u, dev.drv.eng.transferList.count u + (s.starting.map PerfXfer.ref).count u +
      (s.stopping.erase t).count u + (if t = u then 1 else 0) = s.held u := by
    intro u
    unfold held
    rw [hlist, herase u]
    omega
  have hkept (freed : List XferRef) :
      Kept own { dev := dev, starting := s.starting, stopping := s.stopping.erase t, freed := freed } := by
    apply h.move
    · intro u
      rw [htfer]
    · exact hnext
    · exact fun u _ => (hheld u).symm ▸ Nat.le_add_right _ _
    · intro u hu hpos hl
      refine (hlive u hl).resolve_right fun hut => ?_
      have hone := h.once u hu
      have hsum := hheld u
      rw [if_pos hut.symm] at hsum
      unfold held at hpos
      dsimp only at hpos
      omega
  cases out with
  | none =>
    obtain rfl := Option.some.inj hs
    exact hkept s.freed
  | some _ =>
    obtain rfl := Option.some.inj hs
    exact hkept (s.freed ++ [t])

theorem Kept.other (h : s.Kept own) {a : ShutdownAct} (hs : s.step p own (.other a) = some s') :
    s'.Kept own := by
  obtain ⟨ha, hs⟩ := Option.ite_none_right_eq_some.mp hs
  obtain rfl := Option.some.inj hs
  have hact := act_leavesOthers (p := p) ha
  have hheld : ∀ t, t.req = own → held { s with dev := { s.dev with drv := s.dev.drv.act p a } }
    t ≤ s.held t := by
    intro t ht
    have := hact.count t ht
    unfold held
    dsimp only
    omega
  constructor
  · exact hact.requests h.requests
  · exact fun t ht => (hheld t ht).trans (h.once t ht)
  · intro t ht hpos
    obtain ⟨hcyc, hidx, hl⟩ := h.measurement t ht (hpos.trans_le (hheld t ht))
    exact ⟨(hact.cyclic t ht).trans hcyc, hidx, hl⟩

theorem step_kept (h : s.Kept own) {a : PerfAct} (hs : s.step p own a = some s') : s'.Kept own := by
  cases a with
  | start e => exact h.start hs
  | startQueue e x => exact h.startQueue hs
  | halt => exact h.halt hs
  | release e t => exact h.release hs
  | other a => exact h.other hs

theorem reachable_kept {ok : PerfRun → PerfAct → Prop} (h : Reachable (step p own) Fresh ok s) : s.Kept own :=
  h.invariant (fun _ => kept_of_fresh) fun _ _ _ hs _ hstep => step_kept hs hstep

/-- Only a release frees, and it frees what a stop took. -/
theorem step_freed {a : PerfAct} {t : XferRef} (hs : s.step p own a = some s')
    (hf : s'.freed = s.freed ++ [t]) :
    ∃ e, a = .release e t ∧ t ∈ s.stopping ∧ e.notCopied = 0 ∧
      s'.dev.drv.eng.transferList = s.dev.drv.eng.transferList := by
  have hsame : ∀ {u : PerfRun}, u.freed = s.freed → u.freed ≠ s.freed ++ [t] := by
    intro u hu he
    rw [hu] at he
    simp at he
  cases a with
  | start e =>
    unfold step at hs
    dsimp only at hs
    split at hs
    · obtain rfl := Option.some.inj hs
      exact absurd hf (hsame rfl)
    · obtain rfl := Option.some.inj hs
      exact absurd hf (hsame rfl)
  | startQueue e x =>
    obtain ⟨-, hs⟩ := Option.ite_none_right_eq_some.mp hs
    obtain rfl := Option.some.inj hs
    exact absurd hf (hsame rfl)
  | halt =>
    obtain rfl := Option.some.inj hs
    exact absurd hf (hsame rfl)
  | release e u =>
    obtain ⟨hu, hs⟩ := Option.ite_none_right_eq_some.mp hs
    obtain ⟨-, hlist, -, -, hout⟩ := PerfDev.ioctlDoPerfRelease_spec e u s.dev
    generalize s.dev.ioctlDoPerfRelease e u = r at hs hlist hout
    obtain ⟨dev, out⟩ := r
    cases out with
    | none =>
      obtain rfl := Option.some.inj hs
      exact absurd hf (hsame rfl)
    | some _ =>
      obtain rfl := Option.some.inj hs
      have hut : u = t := by simpa using hf
      subst hut
      exact ⟨e, rfl, hu, by simpa using hout, hlist⟩
  | other a =>
    obtain ⟨-, hs⟩ := Option.ite_none_right_eq_some.mp hs
    obtain rfl := Option.some.inj hs
    exact absurd hf (hsame rfl)

theorem Kept.freesMeasurement (h : s.Kept own) {a : PerfAct} (ha : s.Safe a) (hs : s.step p own a = some s') :
    FreesMeasurement own s s' := by
  intro t hf
  obtain ⟨e, rfl, ht, hcopy, hlist⟩ := step_freed hs hf
  have hcyc : (s.dev.drv.tfer t).cyclic = true := ha hcopy
  have hown : t.req = own := by
    by_contra hne
    rw [h.requests t hne] at hcyc
    cases hcyc
  have hpos : 0 < s.stopping.count t := List.count_pos_iff.mpr ht
  have hone := h.once t hown
  unfold held at hone
  refine ⟨hown, (h.measurement t hown (by unfold held; omega)).2.2, ?_⟩
  rw [hlist, ← List.count_eq_zero]
  omega

theorem keepsQueued_start {e : PerfStartEnv} (ha : s.Safe (.start e))
    (hs : s.step p own (.start e) = some s') :
    KeepsQueued s s' := by
  intro hring t ht j hj hj'
  have hdesc : s'.dev.drv.eng.desc = (s.dev.ioctlDoPerfPrepare own e).1.drv.eng.desc := by
    unfold step at hs
    dsimp only at hs
    split at hs
    · next heq =>
      obtain rfl := Option.some.inj hs
      rw [heq]
    · next heq =>
      obtain rfl := Option.some.inj hs
      rw [heq]
  rw [hdesc]
  apply (PerfDev.ioctlDoPerfPrepare_prepared own e s.dev).desc hring
  intro hover
  have := ha hover t ht
  omega

theorem release_frees (p : Params) (own : ℕ) {e : PerfStopEnv} {t : XferRef} (ht : t ∈ s.stopping)
    (hcopy : e.notCopied = 0) :
    ∃ s', s.step p own (.release e t) = some s' ∧ s'.freed = s.freed ++ [t] := by
  have hout := (PerfDev.ioctlDoPerfRelease_spec e t s.dev).2.2.2.2
  unfold step
  dsimp only
  rw [if_pos ht]
  generalize s.dev.ioctlDoPerfRelease e t = r at hout
  obtain ⟨dev, out⟩ := r
  cases out with
  | none => exact absurd hcopy (hout.mp rfl)
  | some _ => exact ⟨_, rfl, rfl⟩

theorem Kept.freesMeasurement_iff (h : s.Kept own) {e : PerfStopEnv} {t : XferRef}
    (hs : s.step p own (.release e t) = some s') : FreesMeasurement own s s' ↔ s.Safe (.release e t) := by
  constructor
  · intro hfrees hcopy
    obtain ⟨ht, -⟩ := Option.ite_none_right_eq_some.mp hs
    obtain ⟨s'', hs'', hf⟩ := release_frees p own ht hcopy
    obtain rfl := Option.some.inj (hs''.symm.trans hs)
    have hown := (hfrees t hf).1
    have hpos : 0 < s.stopping.count t := List.count_pos_iff.mpr ht
    exact (h.measurement t hown (by unfold held; omega)).1
  · exact fun ha => h.freesMeasurement ha hs

/-- In every run whose starts find no queued transfer in the slots they write and whose
stops free nothing but cyclic transfers. -/
theorem perf_lifecycle (h : Reachable (step p own) Fresh Safe s) {a : PerfAct} (ha : s.Safe a)
    (hs : s.step p own a = some s') : FreesMeasurement own s s' ∧ ∀ e, a = .start e → KeepsQueued s s' := by
  constructor
  · exact (reachable_kept h).freesMeasurement ha hs
  · rintro e rfl
    exact keepsQueued_start ha hs

def measurementActs : List PerfAct :=
  [.start {}, .startQueue {} ⟨⟨1, 0⟩, false⟩,
    .other (.build { sdesc := [⟨0x1000, 64⟩], swDescCnt := 1 } ⟨2, 0⟩ true true none),
    .other (.queue ⟨2, 0⟩ 1), .halt]

theorem perf_lifecycle_measurement : ∃ s s' : PerfRun, s.stopping = [⟨1, 0⟩] ∧
    s'.freed = s.freed ++ [⟨1, 0⟩] ∧
    ⟨1, 0⟩ ∉ s'.dev.drv.eng.transferList := by
  have hrun : (run (step {} 1) Safe {} measurementActs).map
      (fun s => (s.stopping, (s.dev.drv.tfer ⟨1, 0⟩).cyclic)) = some ([⟨1, 0⟩], true) := by decide
  have hfresh : Fresh {} := ⟨rfl, rfl, rfl, fun _ => rfl⟩
  obtain ⟨s, hs, heq⟩ := exists_reachable hfresh hrun
  obtain ⟨hstop, hcyc⟩ := Prod.mk.inj heq
  obtain ⟨s', hs', hf⟩ := release_frees {} 1 (s := s) (e := {}) (t := ⟨1, 0⟩) (by simp [hstop]) rfl
  have hsafe : s.Safe (.release {} ⟨1, 0⟩) := fun _ => hcyc
  exact ⟨s, s', hstop, hf, ((perf_lifecycle hs hsafe hs').1 _ hf).2.2⟩

def requestActs : List PerfAct :=
  [.other (.build { sdesc := [⟨0x1000, 64⟩], swDescCnt := 1 } ⟨2, 0⟩ true true none),
    .other (.queue ⟨2, 0⟩ 1),
    .start {}, .startQueue {} ⟨⟨1, 0⟩, false⟩, .halt]

/-- A stop finds the transfer of a read at the head of the queue. -/
theorem perf_frees_request : ¬ ∀ (p : Params) (own : ℕ) (s s' : PerfRun) (a : PerfAct),
    Reachable (step p own) Fresh (fun _ _ => True) s → s.step p own a = some s' →
      FreesMeasurement own s s' ∧ ∀ e, a = .start e → KeepsQueued s s' := by
  intro h
  have hrun : (run (step {} 1) (fun _ _ => True) {} requestActs).map PerfRun.stopping =
    some [⟨2, 0⟩] := by decide
  have hfresh : Fresh {} := ⟨rfl, rfl, rfl, fun _ => rfl⟩
  obtain ⟨s, hs, hstop⟩ := exists_reachable hfresh hrun
  obtain ⟨s', hs', hf⟩ := release_frees {} 1 (s := s) (e := {}) (t := ⟨2, 0⟩) (by simp [hstop]) rfl
  have hown := ((h {} 1 s s' _ hs hs').1 ⟨2, 0⟩ hf).1
  exact absurd hown (by decide)

end PerfRun

end XdmaDriver
