import XdmaDriver.QueueRuns

/-!
The order in which service calls take transfers off the queue, and the
notifications each of them gets.
-/

namespace XdmaDriver

open Transition Drv

structure Departure where
  xfer : XferRef
  final : XdmaTransfer

def Departure.events (d : Departure) : List Event :=
  .wake d.xfer :: if d.final.lastInRequest then d.final.cb.toList.map (.ioDone · 0) else []

structure OrderRun where
  drv : Drv := {}
  submitted : List XferRef := []
  departed : List Departure := []

inductive OrderAct
  | init (t : XferRef) (x : XdmaTransfer)
  | queue (t : XferRef) (w : U32)
  | service (wb : U32) (r : ServiceRegs)
  | result (i : ℕ) (r : XdmaResult)
  | setOffline (offline : Bool)
  | setShutdown (shutdown : ShutdownState)

namespace OrderRun

variable (p : Params)

def departures (s drv : Drv) : List Departure :=
  (s.eng.transferList.filter (· ∉ drv.eng.transferList)).map fun t => ⟨t, drv.tfer t⟩

def step (s : OrderRun) : OrderAct → Option OrderRun
  | .init t x =>
    if t ∈ s.drv.eng.transferList then none else some { s with drv := s.drv.modify t fun _ => x }
  | .queue t w =>
    if t ∈ s.drv.eng.transferList then none
    else
      let (drv, rv) := s.drv.transferQueue p t w
      some { s with drv := drv, submitted := if rv < 0 then s.submitted else s.submitted ++ [t] }
  | .service wb r =>
    let drv := (s.drv.engineService p wb r).1
    some { s with drv := drv, departed := s.departed ++ departures s.drv drv }
  | .result i r =>
    some { s with drv := { s.drv with eng := { s.drv.eng with
      cyclicResult := Function.update s.drv.eng.cyclicResult i r } } }
  | .setOffline offline => some { s with drv := { s.drv with offline := offline } }
  | .setShutdown shutdown =>
    some { s with drv := { s.drv with eng := { s.drv.eng with shutdown := shutdown } } }

def Begins (s : OrderRun) : Prop :=
  s.drv.eng.transferList = [] ∧ s.drv.log = [] ∧ s.submitted = [] ∧ s.departed = []

/-- Each submission leaves the queue at most once and in order, completed or
failed, and the notifications are those of the departures. -/
structure InOrder (s : OrderRun) : Prop where
  nodup : s.drv.eng.transferList.Nodup
  order : s.submitted = s.departed.map Departure.xfer ++ s.drv.eng.transferList
  ended : ∀ d ∈ s.departed, d.final.state = .completed ∨ d.final.state = .failed
  notified : s.drv.log = s.departed.flatMap Departure.events

variable {p} {s s' : OrderRun}

theorem completionEvents_eq (x : XdmaTransfer) (t : XferRef) :
    x.completionEvents t = Departure.events ⟨t, x⟩ := by
  unfold XdmaTransfer.completionEvents Departure.events
  cases x.cb with
  | none => simp
  | some cb => cases x.lastInRequest <;> rfl

theorem departures_eq {s s' : Drv} {out : List XferRef} (h : ServiceEffect s s' out)
    (hnd : s.eng.transferList.Nodup) : departures s s' = out.map fun t => ⟨t, s'.tfer t⟩ := by
  unfold departures
  congr 1
  rw [h.list] at hnd ⊢
  obtain ⟨-, -, hdisj⟩ := List.nodup_append.mp hnd
  rw [List.filter_append]
  have hout : out.filter (fun t => decide (t ∉ s'.eng.transferList)) = out := by
    apply List.filter_eq_self.mpr
    intro t ht
    apply decide_eq_true
    exact fun hm => hdisj t ht t hm rfl
  have hrest : s'.eng.transferList.filter (fun t => decide (t ∉ s'.eng.transferList)) = [] := by
    apply List.filter_eq_nil_iff.mpr
    intro t ht
    simpa using ht
  rw [hout, hrest, List.append_nil]

theorem inOrder_of_begins (h : s.Begins) : s.InOrder := by
  obtain ⟨hl, hlog, hs, hd⟩ := h
  constructor <;> simp [hl, hlog, hs, hd]

theorem InOrder.congr {drv : Drv} (h : s.InOrder) (hl : drv.eng.transferList = s.drv.eng.transferList)
    (hlog : drv.log = s.drv.log) : InOrder { s with drv := drv } := by
  refine ⟨?_, ?_, h.ended, ?_⟩
  · rw [hl]
    exact h.nodup
  · rw [hl]
    exact h.order
  · rw [hlog]
    exact h.notified

theorem queue_inOrder {t : XferRef} {w : U32} (h : s.InOrder) (ht : t ∉ s.drv.eng.transferList)
    (hs : s.step p (.queue t w) = some s') : s'.InOrder := by
  simp only [step, ht, ↓reduceIte, Option.some.injEq] at hs
  subst hs
  by_cases hacc : s.drv.Accepts t
  · obtain ⟨hq, hrv⟩ := transferQueue_accepted (p := p) (w := w) hacc
    rw [hrv, if_neg (lt_irrefl 0)]
    constructor
    · exact hq.nodup ht h.nodup
    · rw [hq.list, h.order, List.append_assoc]
    · exact h.ended
    · rw [hq.log]
      exact h.notified
  · obtain ⟨hq, hrv⟩ := transferQueue_refused (p := p) (w := w) hacc
    rw [if_pos hrv]
    apply h.congr <;> rw [hq]

theorem service_inOrder {wb : U32} {r : ServiceRegs} (h : s.InOrder)
    (hs : s.step p (.service wb r) = some s') : s'.InOrder := by
  obtain rfl := Option.some.inj hs
  obtain ⟨out, heff⟩ := engineService_effect p wb r s.drv
  generalize (s.drv.engineService p wb r).1 = drv at heff
  rw [departures_eq heff h.nodup]
  have hnd := h.nodup
  rw [heff.list] at hnd
  constructor
  · exact (List.nodup_append.mp hnd).2.1
  · rw [h.order, heff.list, List.map_append, List.map_map, List.append_assoc]
    simp [Function.comp_def]
  · intro d hd
    rcases List.mem_append.mp hd with hd | hd
    · exact h.ended d hd
    · obtain ⟨t, ht, rfl⟩ := List.mem_map.mp hd
      exact heff.left t ht
  · rw [heff.log, h.notified, List.flatMap_append, List.flatMap_map]
    unfold outEvents
    congr 2
    funext t
    rw [← (heff.same t).completionEvents t, completionEvents_eq]

theorem step_inOrder {a : OrderAct} (h : s.InOrder) (hs : s.step p a = some s') : s'.InOrder := by
  cases a with
  | init t x =>
    obtain ⟨-, hs⟩ := Option.ite_none_left_eq_some.mp hs
    obtain rfl := Option.some.inj hs
    exact h.congr rfl rfl
  | queue t w => exact queue_inOrder h (Option.ite_none_left_eq_some.mp hs).1 hs
  | service wb r => exact service_inOrder h hs
  | result i r =>
    obtain rfl := Option.some.inj hs
    exact h.congr rfl rfl
  | setOffline offline =>
    obtain rfl := Option.some.inj hs
    exact h.congr rfl rfl
  | setShutdown shutdown =>
    obtain rfl := Option.some.inj hs
    exact h.congr rfl rfl

/-- Over every run the departures are a prefix of the submissions, and each of them
is woken once and called back once. -/
theorem departures_in_order (h : Reachable (step p) Begins (fun _ _ => True) s) : s.InOrder :=
  h.invariant (fun _ => inOrder_of_begins) fun _ _ _ hI _ hs => step_inOrder hI hs

theorem departures_in_order_twoQueued : ∃ s : OrderRun, s.departed.map Departure.xfer = [⟨0, 0⟩] ∧
    s.InOrder := by
  have hbegins : Begins {} := ⟨rfl, rfl, rfl, rfl⟩
  have hrun : (run (step {}) (fun _ _ => True) {}
      [.init ⟨0, 0⟩ { descNum := 1, lastInRequest := true, cb := some (.dbuf 0) },
        .queue ⟨0, 0⟩ 1, .init ⟨1, 0⟩ { descNum := 2 }, .queue ⟨1, 0⟩ 1, .service 0 ⟨4, 1, 1⟩]).map
        (fun s => s.departed.map Departure.xfer) = some [⟨0, 0⟩] := by decide
  obtain ⟨s, hs, hd⟩ := exists_reachable hbegins hrun
  exact ⟨s, hd, departures_in_order hs⟩

end OrderRun

end XdmaDriver
