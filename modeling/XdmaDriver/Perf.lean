import XdmaDriver.Shutdown

/-!
The performance ioctls: `ioctl_do_perf_start` with `xdma_performance_submit`, and
`ioctl_do_perf_stop`.
-/

namespace XdmaDriver

open Drv

def xdmaPerfRun : U32 := 1 <<< 0
def xdmaPerfAuto : U32 := 1 <<< 2
def xdmaPerfNumDesc : ℕ := 128
def ioctlXdmaPerfV1 : U32 := 1

/-- The fields of `struct xdma_performance_ioctl` that the service path leaves alone. -/
structure XdmaPerfArgs where
  version : U32 := ioctlXdmaPerfV1
  transferSize : U32 := 4096
  clockCycleCount : U64 := 0
  dataCycleCount : U64 := 0
  pendingCount : U64 := 0
  deriving DecidableEq, Repr

inductive PerfAlloc
  | ioctl
  | buf
  | ring
  | transfer (t : XferRef)
  deriving DecidableEq, Repr

inductive DescRing
  | preallocated
  | perf
  deriving DecidableEq, Repr

/-- An engine with what the performance calls use of it. `ring` is `engine->desc`, and
`args` the rest of `engine->xdma_perf` when there is one. The last two fields are ghosts:
the memory allocated and not yet freed, and the number of transfers allocated so far. -/
structure PerfDev where
  drv : Drv := {}
  args : XdmaPerfArgs := {}
  ring : Option DescRing := some .preallocated
  perfBufVirt : Option U64 := none
  perfCtrl : U32 := 0
  live : List PerfAlloc := []
  next : ℕ := 0

/-- The results of the kernel calls of a start: the allocations, with their bus addresses,
the bytes `copy_from_user` did not copy, and the structure it leaves. `listChecked` is
whether the kernel checks the entry given to `list_del`. -/
structure PerfStartEnv where
  ioctlAlloc : Bool := true
  notCopied : ℕ := 0
  args : XdmaPerfArgs := {}
  perf : XdmaPerf := {}
  bufAlloc : Option U64 := some 0x100000
  transferAlloc : Bool := true
  ringAlloc : Option U64 := some 0x200000
  listChecked : Bool := false
  startStatus : U32 := 1

inductive PerfEnd
  | returned (rv : ℤ)
  | fault
  deriving DecidableEq, Repr

structure PerfXfer where
  ref : XferRef
  freeDesc : Bool
  deriving DecidableEq, Repr

def perfMaxSize : ℕ := xdmaPerfNumDesc * 32 * 1024

/-- `num_desc_in_a_loop`; the product is an `int`, compared as unsigned. -/
def perfNumDesc (transferSize : U32) : ℕ :=
  if perfMaxSize < (transferSize * BitVec.ofNat 32 xdmaPerfNumDesc).toNat then perfMaxSize /
  transferSize.toNat
  else xdmaPerfNumDesc

def xdmaDescLink (d : XdmaDesc) (second : Option U64) : XdmaDesc :=
  { d with
    nextLo := (second.map pciDmaL).getD 0
    nextHi := (second.map pciDmaH).getD 0
    control := (d.control &&& 0x00FFC0ff) ||| descMagic }

def perfLoop (e : XdmaEngine) (n : ℕ) (buf : U64) (transferSize : U32) : ℕ → XdmaDesc :=
  let desc := transferDescInit e 0 n
  let desc := updateSlots desc 0 n fun _ d => xdmaDescSet d buf 0 transferSize e.dir
  let desc := updateSlots desc 0 1 fun _ d => xdmaDescControlSet d 0
  updateSlots desc (n - 1) 1 fun _ d => xdmaDescLink d (some e.descBus)

namespace PerfDev

def enablePerf (d : PerfDev) : PerfDev := { d with perfCtrl := xdmaPerfAuto ||| xdmaPerfRun }

def freePerfBuf (d : PerfDev) : PerfDev :=
  { d with
    perfBufVirt := none
    live := if d.perfBufVirt.isSome then d.live.erase .buf else d.live }

/-- The label `err_engine_desc`. The entry of the transfer is as `kzalloc` left it, and a
`list_del` that does not check it writes through a null pointer. -/
def errEngineDesc (e : PerfStartEnv) (t : XferRef) (rv : ℤ) (d : PerfDev) : PerfDev × PerfEnd :=
  if e.listChecked then (freePerfBuf { d with live := d.live.erase (.transfer t) }, .returned rv)
  else (d, .fault)

def errDmaDesc (e : PerfStartEnv) (x : PerfXfer) (rv : ℤ) (d : PerfDev) : PerfDev × PerfEnd :=
  errEngineDesc e x.ref rv { d with ring := none, live := if x.freeDesc then d.live.erase .ring else d.live }

def setUp (t : XferRef) (buf : U64) (d : PerfDev) : PerfDev :=
  let n := perfNumDesc d.args.transferSize
  let drv := { d.drv with eng := { d.drv.eng with desc := perfLoop d.drv.eng n buf d.args.transferSize } }
  { d with drv := drv.modify t fun _ => { dir := d.drv.eng.dir, descNum := n, cyclic := true } }

/-- `xdma_performance_submit` from its descriptors up to its `transfer_queue`. -/
def performanceRing (own : ℕ) (e : PerfStartEnv) (buf : U64) (d : PerfDev) :
    PerfDev × Except PerfEnd PerfXfer :=
  let t := ⟨own, d.next⟩
  let d := { d with next := d.next + 1, live := .transfer t :: d.live }
  match d.ring, e.ringAlloc with
  | some _, _ => (d.setUp t buf, .ok ⟨t, false⟩)
  | none, some bus =>
    let eng := { d.drv.eng with desc := fun _ => ⟨0, 0, 0, 0, 0, 0, 0, 0⟩, descBus := bus }
    let d := { d with drv := { d.drv with eng := eng }, ring := some .perf, live := .ring :: d.live }
    (d.setUp t buf, .ok ⟨t, true⟩)
  | none, none =>
    let (d, stop) := d.errEngineDesc e t (err .noMem)
    (d, .error stop)

/-- `xdma_performance_submit` up to its `transfer_queue`; the transfer is the next one of
the allocations `own`. -/
def xdmaPerformancePrepare (own : ℕ) (e : PerfStartEnv) (d : PerfDev) : PerfDev × Except PerfEnd PerfXfer :=
  if perfMaxSize < d.args.transferSize.toNat then (d, .error (.returned (err .inval)))
  else
    match e.bufAlloc with
    | none => ({ d with perfBufVirt := none }, .error (.returned (err .noMem)))
    | some buf =>
      let d := { d with perfBufVirt := some buf, live := .buf :: d.live }
      if !e.transferAlloc then (d.freePerfBuf, .error (.returned (err .noMem)))
      else d.performanceRing own e buf

/-- The rest of `xdma_performance_submit`. -/
def xdmaPerformanceQueue (p : Params) (e : PerfStartEnv) (x : PerfXfer) (d : PerfDev) : PerfDev × PerfEnd :=
  let (drv, rv) := d.drv.transferQueue p x.ref e.startStatus
  let d := { d with drv := drv }
  if rv < 0 then d.errDmaDesc e x rv else (d, .returned 0)

def allocIoctl (e : PerfStartEnv) (d : PerfDev) : PerfDev :=
  { d with
    drv := { d.drv with eng := { d.drv.eng with xdmaPerf := some e.perf } }
    args := e.args
    live := .ioctl :: d.live }

/-- `ioctl_do_perf_start` up to its `transfer_queue`. -/
def ioctlDoPerfPrepare (own : ℕ) (e : PerfStartEnv) (d : PerfDev) : PerfDev × Except PerfEnd PerfXfer :=
  if d.drv.eng.xdmaPerf.isSome then (d, .error (.returned (err .busy)))
  else if !e.ioctlAlloc then (d, .error (.returned (err .noMem)))
  else
    let d := d.allocIoctl e
    if (e.notCopied : ℤ) < 0 then (d, .error (.returned (err .inval)))
    else if e.args.version ≠ ioctlXdmaPerfV1 then (d, .error (.returned (err .inval)))
    else d.enablePerf.xdmaPerformancePrepare own e

def ioctlDoPerfStart (p : Params) (own : ℕ) (e : PerfStartEnv) (d : PerfDev) : PerfDev × PerfEnd :=
  match d.ioctlDoPerfPrepare own e with
  | (d, .error stop) => (d, stop)
  | (d, .ok x) => d.xdmaPerformanceQueue p e x

end PerfDev

structure PerfStopEnv where
  completedDescCount : U32 := 0
  perfCyc : U64 := 0
  perfDat : U64 := 0
  perfPnd : U64 := 0
  notCopied : ℕ := 0

namespace PerfDev

def getPerfStats (e : PerfStopEnv) (d : PerfDev) : PerfDev :=
  match d.drv.eng.xdmaPerf with
  | none => d
  | some perf =>
    { d with
      drv := { d.drv with
        eng := { d.drv.eng with xdmaPerf := some { perf with iterations := e.completedDescCount } } }
      args := { d.args with
        clockCycleCount := e.perfCyc
        dataCycleCount := e.perfDat
        pendingCount := e.perfPnd } }

/-- `ioctl_do_perf_stop` up to its `engine_cyclic_stop`, with the transfer that returns. -/
def ioctlDoPerfHalt (p : Params) (d : PerfDev) : PerfDev × Option XferRef :=
  if d.drv.eng.xdmaPerf = none then (d, none)
  else
    let halted := { d with drv := d.drv.engineCyclicStop p }
    match d.drv.eng.transferList with
    | [] => (halted, none)
    | t :: _ => (if (d.drv.tfer t).cyclic then halted.freePerfBuf else halted, some t)

/-- The rest of `ioctl_do_perf_stop`, with what it frees and what the user gets. -/
def ioctlDoPerfRelease (e : PerfStopEnv) (t : XferRef) (d : PerfDev) :
    PerfDev × Option (XferRef × XdmaPerfArgs × Option XdmaPerf) :=
  let d := d.getPerfStats e
  if e.notCopied ≠ 0 then (d, none)
  else
    ({ d with
        drv := { d.drv with eng := { d.drv.eng with xdmaPerf := none } }
        live := (d.live.erase (.transfer t)).erase .ioctl },
      some (t, d.args, d.drv.eng.xdmaPerf))

end PerfDev

theorem perfNumDesc_pos {transferSize : U32} (h : transferSize.toNat ≤ perfMaxSize) :
    1 ≤ perfNumDesc transferSize := by
  unfold perfNumDesc
  split_ifs with hmax
  · have hpos : 0 < transferSize.toNat := by
      by_contra hzero
      rw [BitVec.toNat_mul, Nat.eq_zero_of_not_pos hzero, Nat.zero_mul] at hmax
      exact absurd hmax (Nat.not_lt_zero _)
    exact (Nat.one_le_div_iff hpos).mpr h
  · decide

theorem perfLoop_frame {e : XdmaEngine} {n j : ℕ} {buf : U64} {transferSize : U32} (hn : 1 ≤ n) (hj : n ≤ j) :
    perfLoop e n buf transferSize j = e.desc j := by
  unfold perfLoop transferDescInit
  dsimp only
  rw [updateSlots_of_not_mem (by omega), updateSlots_of_not_mem (by omega), updateSlots_of_not_mem (by omega),
    updateSlots_of_not_mem (by omega)]

/-- The start gets as far as the descriptors of the ring that is there. -/
structure PerfStartEnv.Overwrites (e : PerfStartEnv) (d : PerfDev) : Prop where
  idle : d.drv.eng.xdmaPerf = none
  ioctl : e.ioctlAlloc = true
  version : e.args.version = ioctlXdmaPerfV1
  size : e.args.transferSize.toNat ≤ perfMaxSize
  buf : e.bufAlloc ≠ none
  transfer : e.transferAlloc = true
  ring : d.ring ≠ none

instance (e : PerfStartEnv) (d : PerfDev) : Decidable (e.Overwrites d) :=
  decidable_of_iff (d.drv.eng.xdmaPerf = none ∧ e.ioctlAlloc = true ∧ e.args.version = ioctlXdmaPerfV1 ∧
      e.args.transferSize.toNat ≤ perfMaxSize ∧ e.bufAlloc ≠ none ∧ e.transferAlloc = true ∧ d.ring ≠ none)
    ⟨fun ⟨hi, ha, hv, hs, hb, ht, hr⟩ => ⟨hi, ha, hv, hs, hb, ht, hr⟩,
      fun ⟨hi, ha, hv, hs, hb, ht, hr⟩ => ⟨hi, ha, hv, hs, hb, ht, hr⟩⟩

structure PerfTransfer (own : ℕ) (d : PerfDev) (x : PerfXfer) (r : PerfDev) : Prop where
  ref : x.ref = ⟨own, d.next⟩
  next : r.next = d.next + 1
  live : .transfer x.ref ∈ r.live
  cyclic : (r.drv.tfer x.ref).cyclic = true

structure Prepared (own : ℕ) (e : PerfStartEnv) (d : PerfDev)
    (r : PerfDev × Except PerfEnd PerfXfer) : Prop where
  list : r.1.drv.eng.transferList = d.drv.eng.transferList
  tfer : ∀ t, t ≠ ⟨own, d.next⟩ → r.1.drv.tfer t = d.drv.tfer t
  next : d.next ≤ r.1.next
  live : ∀ t, .transfer t ∈ d.live → .transfer t ∈ r.1.live ∨ t = ⟨own, d.next⟩
  desc : d.ring ≠ none → ∀ j, (e.Overwrites d → perfNumDesc e.args.transferSize ≤ j) →
    r.1.drv.eng.desc j = d.drv.eng.desc j
  perf : d.drv.eng.xdmaPerf = none → e.ioctlAlloc = true → r.1.drv.eng.xdmaPerf = some e.perf
  failed : ∀ stop, r.2 = .error stop → stop ≠ .returned 0
  transfer : ∀ x, r.2 = .ok x → PerfTransfer own d x r.1

namespace PerfDev

variable {own : ℕ} {e : PerfStartEnv} {d : PerfDev}

theorem freePerfBuf_live {t : XferRef} : .transfer t ∈ d.freePerfBuf.live ↔ .transfer t ∈ d.live := by
  unfold freePerfBuf
  dsimp only
  split_ifs
  · exact List.mem_erase_of_ne (by simp)
  · rfl

theorem Prepared.error {r : PerfDev} {stop : PerfEnd}
    (hdrv : r.drv.eng = { d.drv.eng with xdmaPerf := r.drv.eng.xdmaPerf })
    (htfer : r.drv.tfer = d.drv.tfer) (hnext : d.next ≤ r.next)
    (hlive : ∀ t, .transfer t ∈ d.live → .transfer t ∈ r.live ∨ t = ⟨own, d.next⟩)
    (hperf : d.drv.eng.xdmaPerf = none → e.ioctlAlloc = true → r.drv.eng.xdmaPerf = some e.perf)
    (hstop : stop ≠ .returned 0) : Prepared own e d (r, .error stop) where
  list := by rw [hdrv]
  tfer t _ := by rw [htfer]
  next := hnext
  live := hlive
  desc _ j _ := by rw [hdrv]
  perf := hperf
  failed := by simpa using hstop
  transfer := nofun

theorem errEngineDesc_spec (t : XferRef) {rv : ℤ} (hrv : rv < 0) :
    (d.errEngineDesc e t rv).1.drv = d.drv ∧ (d.errEngineDesc e t rv).1.next = d.next ∧
      (d.errEngineDesc e t rv).2 ≠ .returned 0 ∧
      ∀ u, .transfer u ∈ d.live → .transfer u ∈ (d.errEngineDesc e t rv).1.live ∨ u = t := by
  unfold errEngineDesc
  split_ifs
  · refine ⟨rfl, rfl, fun h => ?_, fun u hu => ?_⟩
    · exact hrv.ne (PerfEnd.returned.inj h)
    · by_cases hut : u = t
      · exact .inr hut
      · apply Or.inl
        rw [freePerfBuf_live]
        exact (List.mem_erase_of_ne (by simpa using hut)).mpr hu
  · exact ⟨rfl, rfl, PerfEnd.noConfusion, fun u hu => .inl hu⟩

structure Begun (e : PerfStartEnv) (d d₁ : PerfDev) : Prop where
  eng : d₁.drv.eng = { d.drv.eng with xdmaPerf := some e.perf }
  tfer : d₁.drv.tfer = d.drv.tfer
  next : d₁.next = d.next
  ring : d₁.ring = d.ring
  args : d₁.args = e.args
  live : ∀ t, .transfer t ∈ d.live → .transfer t ∈ d₁.live

theorem setUp_prepared {d₁ d₂ : PerfDev} {buf : U64} {freeDesc : Bool} (h : Begun e d d₁)
    (hsize : e.args.transferSize.toNat ≤ perfMaxSize)
      (hlist : d₂.drv.eng.transferList = d₁.drv.eng.transferList)
    (htfer : d₂.drv.tfer = d₁.drv.tfer) (hnext : d₂.next = d₁.next + 1) (hargs : d₂.args = d₁.args)
    (hlive : .transfer ⟨own, d.next⟩ ∈ d₂.live ∧ ∀ t, .transfer t ∈ d₁.live → .transfer t ∈ d₂.live)
    (hperf : d₂.drv.eng.xdmaPerf = d₁.drv.eng.xdmaPerf)
    (hdesc : d.ring ≠ none → e.Overwrites d ∧ d₂.drv.eng.desc = d₁.drv.eng.desc) :
    Prepared own e d (d₂.setUp ⟨own, d.next⟩ buf, .ok ⟨⟨own, d.next⟩, freeDesc⟩) where
  list := by
    change d₂.drv.eng.transferList = _
    rw [hlist, h.eng]
  tfer t ht := by
    change Function.update d₂.drv.tfer _ _ t = _
    rw [Function.update_of_ne ht, htfer, h.tfer]
  next := by
    change _ ≤ d₂.next
    rw [hnext, h.next]
    exact Nat.le_succ _
  live t ht := .inl (hlive.2 t (h.live t ht))
  desc hring j hj := by
    obtain ⟨hover, hsame⟩ := hdesc hring
    change perfLoop d₂.drv.eng (perfNumDesc d₂.args.transferSize) buf d₂.args.transferSize j = _
    rw [hargs, h.args, perfLoop_frame (perfNumDesc_pos hsize) (hj hover), hsame, h.eng]
  perf _ _ := by
    change d₂.drv.eng.xdmaPerf = _
    rw [hperf, h.eng]
  failed := nofun
  transfer x hx := by
    obtain rfl := Except.ok.inj hx
    constructor
    · rfl
    · exact hnext.trans (congrArg (· + 1) h.next)
    · exact hlive.1
    · change (Function.update d₂.drv.tfer _ _ _).cyclic = true
      rw [Function.update_self]

theorem errEngineDesc_prepared {d₁ d₂ : PerfDev} (h : Begun e d d₁) (hdrv : d₂.drv = d₁.drv)
    (hnext : d₁.next ≤ d₂.next)
    (hlive : ∀ t, .transfer t ∈ d₁.live → .transfer t ∈ d₂.live) :
    Prepared own e d ((d₂.errEngineDesc e ⟨own, d.next⟩ (err .noMem)).1,
      .error (d₂.errEngineDesc e ⟨own, d.next⟩ (err .noMem)).2) := by
  have hspec := errEngineDesc_spec (e := e) (d := d₂) ⟨own, d.next⟩ (err_neg .noMem)
  generalize d₂.errEngineDesc e ⟨own, d.next⟩ (err .noMem) = r at hspec ⊢
  obtain ⟨hdrv', hnext', hstop, hlive'⟩ := hspec
  apply Prepared.error
  · rw [hdrv', hdrv, h.eng]
  · rw [hdrv', hdrv, h.tfer]
  · rw [hnext', ← h.next]
    exact hnext
  · exact fun t ht => hlive' t (hlive t (h.live t ht))
  · intro _ _
    rw [hdrv', hdrv, h.eng]
  · exact hstop

theorem performanceRing_prepared {d₁ : PerfDev} (buf : U64) (h : Begun e d d₁)
    (hsize : e.args.transferSize.toNat ≤ perfMaxSize) (hover : d.ring ≠ none → e.Overwrites d) :
    Prepared own e d (d₁.performanceRing own e buf) := by
  unfold performanceRing
  rw [h.next, h.ring]
  cases hring : d.ring with
  | some ring =>
    have hne : d.ring ≠ none := by simp [hring]
    dsimp only
    apply setUp_prepared h hsize
    · rfl
    · rfl
    · exact congrArg (· + 1) h.next.symm
    · rfl
    · exact ⟨List.mem_cons_self, fun t ht => List.mem_cons_of_mem _ ht⟩
    · rfl
    · exact fun _ => ⟨hover hne, rfl⟩
  | none =>
    cases hbus : e.ringAlloc with
    | some bus =>
      dsimp only
      apply setUp_prepared h hsize
      · rfl
      · rfl
      · exact congrArg (· + 1) h.next.symm
      · rfl
      · exact ⟨List.mem_cons_of_mem _ List.mem_cons_self,
          fun t ht => List.mem_cons_of_mem _ (List.mem_cons_of_mem _ ht)⟩
      · rfl
      · exact fun hne => absurd hring hne
    | none =>
      apply errEngineDesc_prepared h
      · rfl
      · exact h.next ▸ Nat.le_succ _
      · exact fun t ht => List.mem_cons_of_mem _ ht

theorem xdmaPerformancePrepare_prepared {d₁ : PerfDev} (h : Begun e d d₁)
    (hover : e.args.transferSize.toNat ≤ perfMaxSize → e.bufAlloc ≠ none →
      e.transferAlloc = true → d.ring ≠ none →
      e.Overwrites d) : Prepared own e d (d₁.xdmaPerformancePrepare own e) := by
  have herror {r : PerfDev} {rv : Errno} (hdrv : r.drv = d₁.drv) (hnext : r.next = d₁.next)
      (hlive : ∀ t, .transfer t ∈ d₁.live → .transfer t ∈ r.live) :
      Prepared own e d (r, .error (.returned (err rv))) := by
    apply Prepared.error
    · rw [hdrv, h.eng]
    · rw [hdrv, h.tfer]
    · rw [hnext, h.next]
    · exact fun t ht => .inl (hlive t (h.live t ht))
    · intro _ _
      rw [hdrv, h.eng]
    · exact fun he => (err_neg rv).ne (PerfEnd.returned.inj he)
  unfold xdmaPerformancePrepare
  rw [h.args]
  by_cases hmax : perfMaxSize < e.args.transferSize.toNat
  · rw [if_pos hmax]
    exact herror rfl rfl fun _ ht => ht
  rw [if_neg hmax]
  cases hbuf : e.bufAlloc with
  | none => exact herror rfl rfl fun _ ht => ht
  | some buf =>
    have hlive : ∀ t, .transfer t ∈ d₁.live → PerfAlloc.transfer t ∈ PerfAlloc.buf :: d₁.live :=
      fun t ht => List.mem_cons_of_mem _ ht
    dsimp only
    cases ht : e.transferAlloc with
    | false => exact herror rfl rfl fun t ht => freePerfBuf_live.mpr (hlive t ht)
    | true =>
      apply performanceRing_prepared buf
      · exact ⟨h.eng, h.tfer, h.next, h.ring, rfl, fun t ht => hlive t (h.live t ht)⟩
      · exact not_lt.mp hmax
      · exact hover (not_lt.mp hmax) (by simp [hbuf]) ht

theorem ioctlDoPerfPrepare_prepared (own : ℕ) (e : PerfStartEnv) (d : PerfDev) :
    Prepared own e d (d.ioctlDoPerfPrepare own e) := by
  have herror {r : PerfDev} {rv : Errno} (hdrv : r.drv.eng =
    { d.drv.eng with xdmaPerf := r.drv.eng.xdmaPerf })
      (htfer : r.drv.tfer = d.drv.tfer) (hnext : r.next = d.next)
      (hlive : ∀ t, .transfer t ∈ d.live → .transfer t ∈ r.live)
      (hperf : d.drv.eng.xdmaPerf = none → e.ioctlAlloc = true → r.drv.eng.xdmaPerf = some e.perf) :
      Prepared own e d (r, .error (.returned (err rv))) := by
    apply Prepared.error hdrv htfer hnext.ge (fun t ht => .inl (hlive t ht)) hperf
    exact fun he => (err_neg rv).ne (PerfEnd.returned.inj he)
  unfold ioctlDoPerfPrepare
  by_cases hbusy : d.drv.eng.xdmaPerf.isSome = true
  · rw [if_pos hbusy]
    exact herror rfl rfl rfl (fun _ ht => ht) fun hidle => by simp [hidle] at hbusy
  rw [if_neg hbusy]
  cases halloc : e.ioctlAlloc with
  | false => exact herror rfl rfl rfl (fun _ ht => ht) fun _ h => by simp [halloc] at h
  | true =>
    have hlive : ∀ t, .transfer t ∈ d.live → PerfAlloc.transfer t ∈ (d.allocIoctl e).live :=
      fun t ht => List.mem_cons_of_mem _ ht
    simp only [Bool.not_true, Bool.false_eq_true, ↓reduceIte]
    split_ifs with hcopied hversion
    · exact herror rfl rfl rfl hlive fun _ _ => rfl
    · exact herror rfl rfl rfl hlive fun _ _ => rfl
    · apply xdmaPerformancePrepare_prepared
      · exact ⟨rfl, rfl, rfl, rfl, rfl, hlive⟩
      · intro hsize hbuf ht hring
        exact ⟨by simpa using hbusy, halloc, not_not.mp hversion, hsize, hbuf, ht, hring⟩

end PerfDev

theorem engineStart_xdmaPerf (p : Params) (s : Drv) (w : U32) :
    (s.engineStart p w).1.eng.xdmaPerf = s.eng.xdmaPerf := by
  by_cases hr : s.eng.running = true
  · rw [engineStart_of_running p s w hr]
  unfold engineStart
  rw [if_neg hr]
  cases s.eng.transferList <;> rfl

theorem transferQueue_xdmaPerf (p : Params) (s : Drv) (t : XferRef) (w : U32) :
    (s.transferQueue p t w).1.eng.xdmaPerf = s.eng.xdmaPerf := by
  unfold transferQueue
  split_ifs
  · rfl
  · rfl
  · rfl
  · dsimp only
    split_ifs
    · exact engineStart_xdmaPerf p (s.enqueue t) w
    · rfl

namespace PerfDev

variable {p : Params} {own : ℕ} {e : PerfStartEnv} {d : PerfDev}

theorem xdmaPerformanceQueue_spec (x : PerfXfer) :
    (d.xdmaPerformanceQueue p e x).1.drv = (d.drv.transferQueue p x.ref e.startStatus).1 ∧
      (d.xdmaPerformanceQueue p e x).1.next = d.next ∧
      (∀ u, .transfer u ∈ d.live → .transfer u ∈ (d.xdmaPerformanceQueue p e x).1.live ∨ u = x.ref) ∧
      (d.drv.Accepts x.ref → d.xdmaPerformanceQueue p e x =
        ({ d with drv := (d.drv.transferQueue p x.ref e.startStatus).1 }, .returned 0)) ∧
      (¬ d.drv.Accepts x.ref → (d.xdmaPerformanceQueue p e x).1.ring = none ∧
        (d.xdmaPerformanceQueue p e x).2 ≠ .returned 0) := by
  unfold xdmaPerformanceQueue
  dsimp only
  by_cases ha : d.drv.Accepts x.ref
  · obtain ⟨-, hrv⟩ := transferQueue_accepted (p := p) (w := e.startStatus) ha
    rw [hrv, if_neg (lt_irrefl 0)]
    exact ⟨rfl, rfl, fun u hu => .inl hu, fun _ => rfl, fun h => absurd ha h⟩
  · obtain ⟨-, hrv⟩ := transferQueue_refused (p := p) (w := e.startStatus) ha
    rw [if_pos hrv]
    unfold errDmaDesc
    generalize hd : ({ d with
      drv := (d.drv.transferQueue p x.ref e.startStatus).1
      ring := none
      live := if x.freeDesc = true then d.live.erase .ring else d.live } : PerfDev) = d'
    obtain ⟨hdrv, hnext, hstop, hlive⟩ := errEngineDesc_spec (e := e) (d := d') x.ref hrv
    refine ⟨?_, ?_, ?_, fun h => absurd h ha, fun _ => ⟨?_, hstop⟩⟩
    · rw [hdrv, ← hd]
    · rw [hnext, ← hd]
    · intro u hu
      apply hlive
      rw [← hd]
      dsimp only
      split_ifs
      · exact (List.mem_erase_of_ne (by simp)).mpr hu
      · exact hu
    · unfold errEngineDesc
      rw [← hd]
      split_ifs <;> rfl

theorem getPerfStats_spec (e : PerfStopEnv) (d : PerfDev) :
    (d.getPerfStats e).drv.tfer = d.drv.tfer ∧
      (d.getPerfStats e).drv.eng.transferList = d.drv.eng.transferList ∧
      (d.getPerfStats e).next = d.next ∧ (d.getPerfStats e).live = d.live := by
  unfold getPerfStats
  split
  · exact ⟨rfl, rfl, rfl, rfl⟩
  · exact ⟨rfl, rfl, rfl, rfl⟩

theorem ioctlDoPerfRelease_spec (e : PerfStopEnv) (t : XferRef) (d : PerfDev) :
    (d.ioctlDoPerfRelease e t).1.drv.tfer = d.drv.tfer ∧
      (d.ioctlDoPerfRelease e t).1.drv.eng.transferList = d.drv.eng.transferList ∧
      (d.ioctlDoPerfRelease e t).1.next = d.next ∧
      (∀ u, .transfer u ∈ d.live → .transfer u ∈ (d.ioctlDoPerfRelease e t).1.live ∨ u = t) ∧
      ((d.ioctlDoPerfRelease e t).2 = none ↔ e.notCopied ≠ 0) := by
  obtain ⟨htfer, hlist, hnext, hlive⟩ := getPerfStats_spec e d
  unfold ioctlDoPerfRelease
  dsimp only
  split_ifs with hcopy
  · exact ⟨htfer, hlist, hnext, fun u hu => .inl (hlive ▸ hu), iff_of_true rfl hcopy⟩
  · refine ⟨htfer, hlist, hnext, fun u hu => ?_, iff_of_false (by simp) hcopy⟩
    by_cases hut : u = t
    · exact .inr hut
    · apply Or.inl
      rw [hlive, List.mem_erase_of_ne (by simp), List.mem_erase_of_ne (by simpa using hut)]
      exact hu

/-- What a failed start should leave of the engine. -/
structure LeftAsItWas (d : PerfDev) (r : PerfDev × PerfEnd) : Prop where
  returned : ∃ rv < 0, r.2 = .returned rv
  perf : r.1.drv.eng.xdmaPerf = none
  ring : r.1.ring = d.ring
  live : r.1.live = d.live
  list : r.1.drv.eng.transferList = d.drv.eng.transferList

theorem ioctlDoPerfStart_xdmaPerf (p : Params) (own : ℕ) (hidle : d.drv.eng.xdmaPerf = none)
    (halloc : e.ioctlAlloc = true) : (d.ioctlDoPerfStart p own e).1.drv.eng.xdmaPerf = some e.perf := by
  have hperf := (ioctlDoPerfPrepare_prepared own e d).perf hidle halloc
  unfold ioctlDoPerfStart
  generalize d.ioctlDoPerfPrepare own e = r at hperf
  obtain ⟨d', stop | x⟩ := r
  · exact hperf
  · change (d'.xdmaPerformanceQueue p e x).1.drv.eng.xdmaPerf = _
    rw [(xdmaPerformanceQueue_spec x).1, transferQueue_xdmaPerf]
    exact hperf

/-- A start of an engine without a measurement fails and leaves it as it was just when it
could not allocate the first structure. -/
theorem ioctlDoPerfStart_leftAsItWas_iff (p : Params) (own : ℕ) (hidle : d.drv.eng.xdmaPerf = none) :
    LeftAsItWas d (d.ioctlDoPerfStart p own e) ↔ e.ioctlAlloc = false := by
  constructor
  · intro h
    by_contra halloc
    have hperf := ioctlDoPerfStart_xdmaPerf p own hidle ((Bool.not_eq_false _).mp halloc)
    rw [h.perf] at hperf
    cases hperf
  · intro halloc
    have hstart : d.ioctlDoPerfStart p own e = (d, .returned (err .noMem)) := by
      simp [ioctlDoPerfStart, ioctlDoPerfPrepare, hidle, halloc]
    rw [hstart]
    exact ⟨⟨_, err_neg _, rfl⟩, hidle, rfl, rfl, rfl⟩

theorem ioctlDoPerfStart_leftAsItWas_noMem :
    LeftAsItWas {} (ioctlDoPerfStart {} 1 { ioctlAlloc := false } {}) :=
  (ioctlDoPerfStart_leftAsItWas_iff {} 1 rfl).mpr rfl

def offlineDev : PerfDev := { drv := { offline := true } }

/-- The device is offline. -/
theorem ioctlDoPerfStart_not_left : ¬ ∀ (p : Params) (own : ℕ) (e : PerfStartEnv) (d : PerfDev),
    d.drv.eng.xdmaPerf = none → (d.ioctlDoPerfStart p own e).2 ≠ .returned 0 →
      LeftAsItWas d (d.ioctlDoPerfStart p own e) := by
  intro h
  have hleft := h {} 1 { listChecked := true } offlineDev rfl (by decide)
  exact absurd hleft.perf (by decide)

end PerfDev

end XdmaDriver
