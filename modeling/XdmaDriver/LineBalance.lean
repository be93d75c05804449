import XdmaDriver.MsixRouting

/-!
The interrupt lines of an open device over the calls that take it offline and bring it back
online, up to its close.
-/

namespace XdmaDriver

open Ledger

inductive PciChannelState
  | ioNormal | ioFrozen | ioPermFailure
  deriving DecidableEq

/-- What takes an open device offline or brings it back. -/
inductive DeviceEvent
  | ioctlOffline
  | ioctlOnline
  | errorDetected (state : PciChannelState)
  | slotReset (enabled : Bool)
  | resetPrepare
  | resetDone

def DeviceEvent.call : DeviceEvent → Option Bool
  | .ioctlOffline | .errorDetected .ioFrozen | .resetPrepare => some false
  | .ioctlOnline | .slotReset true | .resetDone => some true
  | .errorDetected .ioNormal | .errorDetected .ioPermFailure | .slotReset false => none
namespace XdmaDev

variable (p : Params) (pdev : PciDev)

def call (d : XdmaDev) : Bool → XdmaDev
  | true => d.xdmaDeviceOnline p pdev
  | false => d.xdmaDeviceOffline pdev

def handle (d : XdmaDev) (e : DeviceEvent) : XdmaDev :=
  match e.call with
  | some up => d.call p pdev up
  | none => d

def Balanced (d : XdmaDev) : Prop := replay Irq.line [] d.log = some []

variable {p pdev}

def callBlocks (p : Params) (up : Bool) : List Bool := if p.pollMode ∧ up then [] else [up]
theorem call_spec {d : XdmaDev} (ho : Open pdev d) (up : Bool) : Open pdev (d.call p pdev up) ∧
    Logged d (d.call p pdev up) ((callBlocks p up).flatMap (block (d.lines pdev))) := by
  cases up with
  | false =>
    have hblocks : callBlocks p false = [false] := by simp [callBlocks]
    rw [hblocks, List.flatMap_singleton]
    exact offline_spec ho
  | true =>
    cases hp : p.pollMode with
    | true =>
      simp only [call, xdmaDeviceOnline, callBlocks, hp, ↓reduceIte, and_self, List.flatMap_nil]
      exact ⟨ho, .refl d⟩
    | false =>
      have hblocks : callBlocks p true = [true] := by simp [callBlocks, hp]
      obtain ⟨_, hk, hlog⟩ := irqSetup_spec ho.valid.answered ho.pin
      rw [hblocks, List.flatMap_singleton, call, xdmaDeviceOnline, hp]
      exact ⟨hlog.open ho hk, hlog⟩

theorem handle_spec {d : XdmaDev} (ho : Open pdev d) (e : DeviceEvent) : Open pdev (d.handle p pdev e) ∧
    Logged d (d.handle p pdev e)
      ((e.call.toList.flatMap (callBlocks p)).flatMap (block (d.lines pdev))) := by
  unfold handle
  cases e.call with
  | none => exact ⟨ho, .refl d⟩
  | some up =>
    rw [Option.toList_some, List.flatMap_singleton]
    exact call_spec ho up

theorem events_spec {d : XdmaDev} (ho : Open pdev d) (events : List DeviceEvent) :
    Open pdev (events.foldl (fun d e => d.handle p pdev e) d) ∧
      Logged d (events.foldl (fun d e => d.handle p pdev e) d)
        (((events.filterMap DeviceEvent.call).flatMap (callBlocks p)).flatMap (block (d.lines pdev))) := by
  induction events generalizing d with
  | nil => exact ⟨ho, .refl d⟩
  | cons e events ih =>
    obtain ⟨ho', hlog'⟩ := handle_spec (p := p) ho e
    obtain ⟨ho'', hlog''⟩ := ih ho'
    refine ⟨ho'', ?_⟩
    rw [hlog'.lines] at hlog''
    have hall := hlog'.trans hlog''
    rw [← List.flatMap_append, ← List.flatMap_append] at hall
    have hcalls : (e :: events).filterMap DeviceEvent.call =
        e.call.toList ++ events.filterMap DeviceEvent.call := by
      rw [List.filterMap_cons]
      cases e.call <;> rfl
    rw [List.foldl_cons, hcalls]
    exact hall
end XdmaDev

def InPairs : List Bool → Prop
  | [] => True
  | [_] => False
  | a :: b :: cs => a = false ∧ b = true ∧ InPairs cs

instance InPairs.decidable : ∀ cs, Decidable (InPairs cs)
  | [] => inferInstanceAs (Decidable True)
  | [_] => inferInstanceAs (Decidable False)
  | _ :: _ :: cs => @instDecidableAnd _ _ _ (@instDecidableAnd _ _ _ (InPairs.decidable cs))

theorem alternates_iff_inPairs (cs : List Bool) : Alternates true (cs ++ [false]) ↔ InPairs cs := by
  induction cs using InPairs.induct with
  | case1 => simp [Alternates, InPairs]
  | case2 c => cases c <;> simp [Alternates, InPairs]
  | case3 a b cs ih =>
    rw [List.cons_append, List.cons_append, Alternates, Alternates, InPairs]
    cases a <;> cases b <;> simp [ih]

/-- In interrupt mode every offline is answered by an online before the next one and before
the close; in poll mode, where online requests no line, the device never goes offline. -/
def LinesReturned (p : Params) (calls : List Bool) : Prop :=
  if p.pollMode then false ∉ calls else InPairs calls

instance (p : Params) (calls : List Bool) : Decidable (LinesReturned p calls) :=
  inferInstanceAs (Decidable (if p.pollMode then _ else _))

namespace XdmaDev

variable {p : Params} {pdev : PciDev}

theorem alternates_callBlocks_iff (calls : List Bool) :
    Alternates true (calls.flatMap (callBlocks p) ++ [false]) ↔ LinesReturned p calls := by
  unfold LinesReturned
  cases hp : p.pollMode with
  | false =>
    have hblocks : calls.flatMap (callBlocks p) = calls := by
      have hsingle : callBlocks p = fun up => [up] := by
        funext up
        simp [callBlocks, hp]
      rw [hsingle, List.flatMap_singleton']
    rw [hblocks, alternates_iff_inPairs]
    rfl
  | true =>
    rw [if_pos rfl]
    induction calls with
    | nil => simp [Alternates]
    | cons c cs ih =>
      cases c with
      | true =>
        rw [List.flatMap_cons, callBlocks, if_pos ⟨hp, rfl⟩, List.nil_append, ih]
        simp
      | false =>
        -- what follows the free is another free
        have hstuck : ∀ cs, ¬ Alternates false (List.flatMap (callBlocks p) cs ++ [false]) := by
          intro cs
          induction cs with
          | nil => simp [Alternates]
          | cons c cs ih' => cases c <;> simp [callBlocks, hp, Alternates] at ih' ⊢; exact ih'
        simp [callBlocks, Alternates, hstuck]
end XdmaDev

namespace OpenDev

variable {p : Params}

def lifecycle (p : Params) (env : OpenEnv) (d : OpenDev) (events : List DeviceEvent) : OpenDev :=
  xdmaDeviceClose p env { d with irq := events.foldl (fun irq e => irq.handle p env.pdev e) d.irq }

theorem freeBuf_irq (d : OpenDev) (dir : DmaDir) (ch : ℕ) (buf : EngineBuf) :
    (d.freeBuf dir ch buf).irq = d.irq := by
  unfold freeBuf
  split <;> rfl

theorem engineDestroy_irq (d : OpenDev) (dir : DmaDir) (ch : ℕ) : (d.engineDestroy p dir ch).irq = d.irq := by
  have hwork : (d.removeWork dir ch).irq = d.irq := by
    unfold removeWork
    split <;> rfl
  have hfree (d : OpenDev) : (d.engineFreeResource dir ch).irq = d.irq := by
    rw [engineFreeResource, freeBuf_irq, freeBuf_irq, freeBuf_irq]
  change (engineFreeResource (if p.pollMode then d.removeWork dir ch else d) dir ch).irq = d.irq
  rw [hfree]
  split
  · exact hwork
  · rfl

theorem removeChannels_irq (dir : DmaDir) (chs : List ℕ) (d : OpenDev) :
    (removeChannels p dir chs d).irq = d.irq := by
  induction chs generalizing d with
  | nil => rfl
  | cons ch chs ih =>
    rw [removeChannels, ih]
    split
    · exact engineDestroy_irq d dir ch
    · rfl

theorem xdmaDeviceClose_irq (env : OpenEnv) (d : OpenDev) :
    (d.xdmaDeviceClose p env).irq = d.irq.xdmaDeviceClose env.pdev := by
  rw [xdmaDeviceClose, errMsix, errEngines, (errMask_bars _).2, removeEngines, removeChannels_irq,
    removeChannels_irq]
  rfl

end OpenDev

namespace OpenEnv

variable {p : Params} {env : OpenEnv} {d : OpenDev}

theorem opened_lines (hopen : env.xdmaDeviceOpen p = (d, none)) (hv : XdmaDev.LinesValid env.pdev d.irq) :
    XdmaDev.Open env.pdev d.irq ∧ d.irq.log = block (d.irq.lines env.pdev) true ∧ 0 < d.irq.userMax := by
  obtain ⟨irq, hs⟩ := exists_setUp hopen
  have hgrants : ∀ line, env.pdev.requestIrq line ≤ 0 := fun line => (hv.answered line).le
  obtain ⟨-, hpin⟩ := XdmaDev.irqSetup_succeeds hgrants hs.succeeds
  obtain ⟨hknown, hlogged, -⟩ := XdmaDev.irqSetup_holds hgrants hs.log hs.succeeds
  rw [← hs.irq] at hknown hlogged
  refine ⟨⟨hknown, hv, ?_⟩, ?_, ?_⟩
  · rw [hlogged.msixEnabled, hlogged.msiEnabled]
    exact hpin
  · rw [hlogged.log, hlogged.lines, hs.log, List.nil_append]
  · rw [hlogged.userMax]
    exact hs.userMax_pos

/-- The lines of an opened device balance exactly over the runs in which every line freed by an
offline is requested again before the next free. -/
theorem irq_balance_iff (hopen : env.xdmaDeviceOpen p = (d, none)) (hv : XdmaDev.LinesValid env.pdev d.irq)
    (events : List DeviceEvent) :
    (d.lifecycle p env events).irq.Balanced ↔ LinesReturned p (events.filterMap DeviceEvent.call) := by
  obtain ⟨ho, hlog, huser⟩ := opened_lines hopen hv
  obtain ⟨ho', hevents⟩ := XdmaDev.events_spec (p := p) ho events
  have hclose : (d.lifecycle p env events).irq.log =
      (true :: ((events.filterMap DeviceEvent.call).flatMap (XdmaDev.callBlocks p) ++ [false])).flatMap
        (block (d.irq.lines env.pdev)) := by
    rw [OpenDev.lifecycle, OpenDev.xdmaDeviceClose_irq, XdmaDev.xdmaDeviceClose, XdmaDev.disableMsiMsix_log,
      XdmaDev.irqTeardown_eq ho'.known ho'.valid, hevents.lines]
    rw [XdmaDev.logged, hevents.log, hlog, List.flatMap_cons, List.flatMap_append, List.flatMap_singleton,
      List.append_assoc]
  rw [XdmaDev.Balanced, hclose, ← XdmaDev.alternates_callBlocks_iff]
  refine (replay_blocks_iff (XdmaDev.lines_ne_nil huser) (XdmaDev.lines_nodup hv) _ false).trans ?_
  exact and_iff_right (by decide)

def grantedLines : OpenEnv := { busyLine with pdev := XdmaDev.msixDevice }

def grantedLinesOpened : OpenDev := (grantedLines.xdmaDeviceOpen {}).1

theorem grantedLines_open : grantedLines.xdmaDeviceOpen {} = (grantedLinesOpened, none) :=
    Prod.ext rfl (by decide)

theorem irq_balance_iff_reset :
    (grantedLinesOpened.lifecycle {} grantedLines [.resetPrepare, .resetDone]).irq.Balanced :=
  (irq_balance_iff grantedLines_open (XdmaDev.msixDevice_valid (by decide)) _).mpr (by decide)

/-- A frozen device that is removed: its lines are freed by `xdma_error_detected` and again
by `xdma_device_close`. -/
theorem lines_freed_twice :
    ¬ ∀ (p : Params) (env : OpenEnv) (d : OpenDev) (events : List DeviceEvent),
        env.xdmaDeviceOpen p = (d, none) → XdmaDev.LinesValid env.pdev d.irq →
          (d.lifecycle p env events).irq.Balanced := by
  intro h
  have hbalanced : replay Irq.line [] _ = some [] :=
    h {} grantedLines grantedLinesOpened [.errorDetected .ioFrozen] grantedLines_open
      (XdmaDev.msixDevice_valid (by decide))
  exact absurd hbalanced (by decide)

end OpenEnv

end XdmaDriver
