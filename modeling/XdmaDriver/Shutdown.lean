import XdmaDriver.EngineControl
import XdmaDriver.Lib.Transition

/-!
The request that `xdma_device_offline` leaves in the shutdown word of an engine, under all
that touches the engine until `xdma_device_online` takes it back.
-/

namespace XdmaDriver

open Transition Drv

def interruptEnableMaskValue (p : Params) : U32 :=
  let w := xdmaCtrlIeDescAlignMismatch ||| xdmaCtrlIeMagicStopped ||| xdmaCtrlIeReadError |||
    xdmaCtrlIeDescError
  if p.pollMode then w else w ||| xdmaCtrlIeDescStopped ||| xdmaCtrlIeDescCompleted

namespace Drv

variable (p : Params)

/-- `engine_init_regs`, which writes `control_w1c` and `interrupt_enable_mask`. -/
def engineInitRegs (s : Drv) : Drv :=
  { s with eng := { s.eng with regs := { s.eng.regs with
      control := s.eng.regs.control &&& ~~~xdmaCtrlNonIncrAddr
      interruptEnableMask := interruptEnableMaskValue p } } }

def shutdownRequest (s : Drv) : Drv :=
  xdmaEngineStop p { s with eng := { s.eng with shutdown := { s.eng.shutdown with request := true } } }

def shutdownClear (s : Drv) : Drv :=
  { s with eng := { s.eng with shutdown := { s.eng.shutdown with request := false } } }

def engineCyclicStop (s : Drv) : Drv :=
  match s.eng.transferList with
  | [] => s
  | t :: _ => if (s.tfer t).cyclic then (s.xdmaEngineStop p).listDelHead else s.xdmaEngineStop p

end Drv

/-- What is done to an engine. Each but the last four is one section under its lock or a
write outside it; `perf` is what a performance run sets up before its `transfer_queue`, and
`statusRead`, `abort`, `stop` and `destroy` are the steps of `xdma_xfer_completion`, which
does not take the lock. -/
inductive ShutdownAct
  | setOffline (offline : Bool)
  | offline
  | initRegs
  | online
  | build (req : XdmaRequestCb) (t : XferRef) (needUnmap last : Bool) (cb : Option IoCb)
  | perf (perf : Option XdmaPerf) (t : XferRef) (x : XdmaTransfer)
  | queue (t : XferRef) (w : U32)
  | service (wb : U32) (r : ServiceRegs)
  | wait (t : XferRef) (r : DumpRegs)
  | cyclicStop
  | statusRead (r : DumpRegs)
  | abort (t : XferRef)
  | stop
  | destroy (t : XferRef)
  deriving DecidableEq

namespace Drv

variable (p : Params)

def act (s : Drv) : ShutdownAct → Drv
  | .setOffline offline => { s with offline := offline }
  | .offline => s.shutdownRequest p
  | .initRegs => s.engineInitRegs p
  | .online => s.shutdownClear
  | .build req t u last cb => (s.buildChain req t u last cb).1
  | .perf perf t x => Drv.modify { s with eng := { s.eng with xdmaPerf := perf } } t fun _ => x
  | .queue t w => (s.transferQueue p t w).1
  | .service wb r => (s.engineService p wb r).1
  | .wait t r => (s.waitEnd p t r).1
  | .cyclicStop => s.engineCyclicStop p
  | .statusRead r => (s.engineStatusReadDump r.identifier r.status).1
  | .abort t => (s.transferAbort t).1
  | .stop => s.xdmaEngineStop p
  | .destroy t => s.transferDestroy t

def Unrequested (s : Drv) : Prop := s.eng.shutdown.request = false

def RequestHeld (s : Drv) : Prop :=
  s.eng.shutdown.request = true → s.eng.running = false ∧ s.eng.regs.control &&& xdmaCtrlRunStop = 0

/-- A request that is there is still there, and nothing has started the engine. -/
def RequestKept (s s' : Drv) : Prop :=
  s.eng.shutdown.request = true → s'.eng.shutdown.request = true ∧ s'.eng.starts = s.eng.starts

variable {p}

theorem RequestKept.refl (s : Drv) : RequestKept s s := fun h => ⟨h, rfl⟩

theorem RequestKept.trans {s t u : Drv} (h : RequestKept s t) (h' : RequestKept t u) : RequestKept s u := by
  intro hr
  obtain ⟨hr', hs⟩ := h hr
  obtain ⟨hr'', hs'⟩ := h' hr'
  exact ⟨hr'', hs'.trans hs⟩

theorem Unrequested.kept {s : Drv} (h : s.Unrequested) (s' : Drv) : RequestKept s s' :=
  fun hr => absurd (h.symm.trans hr) Bool.false_ne_true

theorem Unrequested.held {s : Drv} (h : s.Unrequested) : s.RequestHeld :=
  fun hr => absurd (h.symm.trans hr) Bool.false_ne_true

theorem SameControl.held {s s' : Drv} (h : SameControl s s') (hs : s.RequestHeld) :
    s'.RequestHeld ∧ RequestKept s s' := by
  constructor
  · intro hr
    rw [h.shutdown] at hr
    rw [h.running, h.regs]
    exact hs hr
  · intro hr
    rw [h.shutdown]
    exact ⟨hr, h.starts⟩

theorem stop_control (p : Params) (s : Drv) :
    (s.xdmaEngineStop p).eng.regs.control &&& xdmaCtrlRunStop = 0 := by
  simp only [xdmaEngineStop]
  cases p.pollMode <;> decide

theorem stop_held (p : Params) (s : Drv) : (s.xdmaEngineStop p).RequestHeld ∧
    RequestKept s (s.xdmaEngineStop p) :=
  ⟨fun _ => ⟨rfl, stop_control p s⟩, fun h => ⟨h, rfl⟩⟩

theorem unrequested_kept (p : Params) : ControlKept p Unrequested where
  same h hs := by
    rw [Unrequested, h.shutdown]
    exact hs
  stop hs := hs
  start {s} w hs := by
    by_cases hr : s.eng.running = true
    · rw [engineStart_of_running p s w hr]
      exact hs
    cases hl : s.eng.transferList with
    | nil =>
      rw [engineStart_of_nil p s w hl]
      exact hs
    | cons t ts =>
      have hstart := (engineStart_cons (p := p) (w := w) (by simpa using hr) hl).2
      rw [Unrequested, hstart.shutdown]
  idle hs := hs

theorem service_held {s : Drv} (hs : s.RequestHeld) (wb : U32) (r : ServiceRegs) :
    (s.engineService p wb r).1.RequestHeld ∧ RequestKept s (s.engineService p wb r).1 := by
  cases hrun : s.eng.running with
  | false =>
    rw [engineService_stopped hrun]
    exact (engineStatusRead_sameControl s _).held hs
  | true =>
    have hnone : s.Unrequested := by
      by_contra h
      have := (hs (by simpa [Unrequested] using h)).1
      simp [hrun] at this
    have hnone' := engineService_keeps (unrequested_kept p) wb r hnone
    exact ⟨hnone'.held, hnone.kept _⟩

theorem queue_held {s : Drv} (hs : s.RequestHeld) (t : XferRef) (w : U32) :
    (s.transferQueue p t w).1.RequestHeld ∧ RequestKept s (s.transferQueue p t w).1 := by
  by_cases hacc : s.Accepts t
  · have hnone : s.Unrequested := hacc.2.2
    have hnone' : (s.transferQueue p t w).1.Unrequested := (transferQueue_accepted hacc).1.request hnone
    exact ⟨hnone'.held, hnone.kept _⟩
  · rw [(transferQueue_refused hacc).1]
    exact ⟨hs, .refl s⟩

theorem held_kept (p : Params) (s₀ : Drv) : StopKept p fun s => s.RequestHeld ∧ RequestKept s₀ s where
  same h hs := ⟨(h.held hs.1).1, hs.2.trans (h.held hs.1).2⟩
  stop hs := ⟨(stop_held p _).1, hs.2.trans (stop_held p _).2⟩

theorem initRegs_held {s : Drv} (hs : s.RequestHeld) :
    (s.engineInitRegs p).RequestHeld ∧ RequestKept s (s.engineInitRegs p) := by
  refine ⟨fun hr => ⟨(hs hr).1, ?_⟩, fun hr => ⟨hr, rfl⟩⟩
  change s.eng.regs.control &&& ~~~xdmaCtrlNonIncrAddr &&& xdmaCtrlRunStop = 0
  rw [BitVec.and_assoc, BitVec.and_comm (~~~xdmaCtrlNonIncrAddr), ← BitVec.and_assoc, (hs hr).2]
  exact BitVec.zero_and

theorem cyclicStop_held {s : Drv} (hs : s.RequestHeld ∧ RequestKept s s) :
    (s.engineCyclicStop p).RequestHeld ∧ RequestKept s (s.engineCyclicStop p) := by
  have hstop := (held_kept p s).stop hs
  unfold engineCyclicStop
  cases s.eng.transferList with
  | nil => exact hs
  | cons t ts =>
    dsimp only
    split_ifs
    · exact (held_kept p s).same ⟨rfl, rfl, rfl, rfl⟩ hstop
    · exact hstop

theorem act_held {s : Drv} (hs : s.RequestHeld) (a : ShutdownAct) :
    (s.act p a).RequestHeld ∧ (a ≠ .online → RequestKept s (s.act p a)) := by
  have hself : s.RequestHeld ∧ RequestKept s s := ⟨hs, .refl s⟩
  suffices a ≠ .online → (s.act p a).RequestHeld ∧ RequestKept s (s.act p a) by
    by_cases ha : a = .online
    · subst ha
      exact ⟨fun hr => absurd hr Bool.false_ne_true, fun hne => absurd rfl hne⟩
    · exact ⟨(this ha).1, fun _ => (this ha).2⟩
  intro ha
  cases a with
  | setOffline offline => exact (held_kept p s).same ⟨rfl, rfl, rfl, rfl⟩ hself
  | offline => exact ⟨fun _ => ⟨rfl, stop_control p _⟩, fun _ => ⟨rfl, rfl⟩⟩
  | initRegs => exact initRegs_held hs
  | online => exact absurd rfl ha
  | build req t u last cb => exact (held_kept p s).same (buildChain_sameControl s req t u last cb) hself
  | perf perf t x => exact (held_kept p s).same ⟨rfl, rfl, rfl, rfl⟩ hself
  | queue t w => exact queue_held hs t w
  | service wb r => exact service_held hs wb r
  | wait t r => exact waitEnd_keeps (held_kept p s) t r hself
  | cyclicStop => exact cyclicStop_held hself
  | statusRead r => exact (held_kept p s).same (engineStatusReadDump_sameControl s r) hself
  | abort t => exact (held_kept p s).same (transferAbort_sameControl s t) hself
  | stop => exact (held_kept p s).stop hself
  | destroy t => exact (held_kept p s).same ⟨rfl, rfl, rfl, rfl⟩ hself

theorem acts_kept {as : List ShutdownAct} {s : Drv} (hs : s.RequestHeld)
    (has : ShutdownAct.online ∉ as) : RequestKept s (as.foldl (act p) s) := by
  induction as generalizing s with
  | nil => exact .refl s
  | cons a as ih =>
    obtain ⟨hne, has⟩ := not_or.mp (mt List.mem_cons.mpr has)
    obtain ⟨hs', hkept⟩ := act_held hs a
    exact (hkept (Ne.symm hne)).trans (ih hs' has)

/-- In every state a requested engine is stopped, and whatever follows before
`xdma_device_online`, the request is there and the RUN bit has not been written. -/
theorem shutdown_request_kept {s : Drv}
    (h : Reachable (fun s a => some (act p s a)) Unrequested (fun _ _ => True) s)
    (hr : s.eng.shutdown.request = true) :
    s.eng.running = false ∧ s.eng.regs.control &&& xdmaCtrlRunStop = 0 ∧
      ∀ as : List ShutdownAct, .online ∉ as → (as.foldl (act p) s).eng.shutdown.request = true ∧
        (as.foldl (act p) s).eng.starts = s.eng.starts := by
  have hs : s.RequestHeld := by
    apply h.invariant (fun _ h => h.held)
    intro s a s' hs _ hstep
    obtain rfl := Option.some.inj hstep
    exact (act_held hs a).1
  obtain ⟨hrun, hcontrol⟩ := hs hr
  exact ⟨hrun, hcontrol, fun as has => acts_kept hs has hr⟩

def offlineActs : List ShutdownAct :=
  [.build { sdesc := [⟨0, 8⟩], swDescCnt := 1 } ⟨0, 0⟩ true true none, .queue ⟨0, 0⟩ 1, .setOffline true,
    .offline]

theorem shutdown_request_kept_late : ∃ s : Drv, s.eng.transferList = [⟨0, 0⟩] ∧ s.eng.running = false ∧
    (([.service 0 ⟨2, 1, 0⟩, .wait ⟨0, 0⟩ ⟨0x1FC00000, 0⟩, .queue ⟨0, 0⟩ 1].foldl (act {}) s).eng.starts =
      s.eng.starts) := by
  have hrun : (run (fun s a => some (act {} s a)) (fun _ _ => True) {} offlineActs).map
      (fun s => (s.eng.transferList, s.eng.shutdown.request)) = some ([⟨0, 0⟩], true) := by decide
  have hfresh : Unrequested {} := rfl
  obtain ⟨s, hs, heq⟩ := exists_reachable hfresh hrun
  obtain ⟨hl, hr⟩ := Prod.mk.inj heq
  obtain ⟨hstopped, -, hkept⟩ := shutdown_request_kept hs hr
  exact ⟨s, hl, hstopped, (hkept _ (by simp)).2⟩

end Drv

end XdmaDriver
