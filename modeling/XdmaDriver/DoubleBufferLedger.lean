import XdmaDriver.DoubleBufferMemory
import XdmaDriver.Lib.Ledger

/-!
What the double-buffer mode allocates and frees: a coherent buffer for each slot, longer
than the slot by a padding, and the scatter table of the slot.
-/

namespace XdmaDriver

open Transition Drv

inductive DbufResource
  | buffer (n size : ℕ)
  | table (n : ℕ)
  deriving DecidableEq, Repr

def DbufResource.number : DbufResource → ℕ
  | buffer n _ => n
  | table n => n

structure DbufLedger where
  ops : List (Ledger.Op DbufResource) := []
  next : ℕ := 0
  virt : Fin 2 → ℕ := fun _ => 0
  sgl : Fin 2 → ℕ := fun _ => 0

namespace DbufLedger

def allocBuffer (size : ℕ) (i : Fin 2) (l : DbufLedger) : DbufLedger :=
  { l with
    ops := l.ops ++ [.acquire (.buffer l.next size)]
    next := l.next + 1
    virt := Function.update l.virt i l.next }

def allocTable (i : Fin 2) (l : DbufLedger) : DbufLedger :=
  { l with
    ops := l.ops ++ [.acquire (.table l.next)]
    next := l.next + 1
    sgl := Function.update l.sgl i l.next }

def freeBuffer (size : ℕ) (i : Fin 2) (l : DbufLedger) : DbufLedger :=
  { l with ops := l.ops ++ [.release (.buffer (l.virt i) size)] }

def freeTable (i : Fin 2) (l : DbufLedger) : DbufLedger :=
  { l with ops := l.ops ++ [.release (.table (l.sgl i))] }

def Leaves (l : DbufLedger) (held : List DbufResource) : Prop :=
  Ledger.replay DbufResource.number [] l.ops = some held

instance (l : DbufLedger) (held : List DbufResource) : Decidable (l.Leaves held) :=
  inferInstanceAs (Decidable (_ = _))

end DbufLedger

def dbufPadding : ℕ := 64

/-- The device with its ledger: the calls as in `XdmaCdev`, with what they allocate and
free. -/
structure DbufMem where
  cdev : XdmaCdev := {}
  ledger : DbufLedger := {}

namespace DbufMem

def withLedger (m : DbufMem) (f : DbufLedger → DbufLedger) : DbufMem := { m with ledger := f m.ledger }

/-- The allocations for slot `i`: the buffer is `io.buf_size + 64` bytes long, in 32 bits,
and freed again as one of `io.buf_size` when there is no memory for the table. -/
def dbufAllocSlot (io : XdmaDbufIoctl) (a : DbufAlloc) (i : Fin 2) (m : DbufMem) : DbufMem × ℤ :=
  let (cdev, rv) := m.cdev.dbufAllocSlot a i
  let m := { m with cdev := cdev }
  if a.bus = none then (m, rv)
  else
    let m := m.withLedger (.allocBuffer (io.bufSize + 64).toNat i)
    if a.sgTable then (m.withLedger (.allocTable i), rv)
    else (m.withLedger (.freeBuffer io.bufSize.toNat i), rv)

def dmaFreeSlot (i : Fin 2) (m : DbufMem) : DbufMem :=
  if (m.cdev.dbuf i).virt then m.withLedger (.freeBuffer ((m.cdev.dbuf i).size.toNat + dbufPadding) i) else m

def sgFreeTable (i : Fin 2) (m : DbufMem) : DbufMem :=
  if (m.cdev.dbuf i).sgt.sgl = [] then m else m.withLedger (.freeTable i)

def dbufFree (m : DbufMem) : DbufMem :=
  let m := (m.dmaFreeSlot 0).dmaFreeSlot 1
  { m with cdev := m.cdev.dbufFree }

def dbufFreeSgt (m : DbufMem) : DbufMem :=
  let m := (m.sgFreeTable 0).sgFreeTable 1
  { m with cdev := m.cdev.dbufFreeSgt }

def Starts (fault : Bool) (io : XdmaDbufIoctl) (s : XdmaCdev) : Prop :=
  s.drv.eng.dir = .fromDevice ∧ s.dbufActive = false ∧ fault = false ∧ io.version = xdmaDbufV1 ∧
    io.bufSize ≠ 0 ∧ io.bufSize &&& BitVec.ofNat 32 (xdmaPageSize - 1) = 0

instance (fault : Bool) (io : XdmaDbufIoctl) (s : XdmaCdev) : Decidable (Starts fault io s) :=
  inferInstanceAs (Decidable (_ ∧ _))

def dbufAllocSlots (io : XdmaDbufIoctl) (alloc : Fin 2 → DbufAlloc) (m : DbufMem) : DbufMem × Option ℤ :=
  let (m, rv) := m.dbufAllocSlot io (alloc 0) 0
  if rv < 0 then (m.dbufFree, some rv)
  else
    let (m, rv) := m.dbufAllocSlot io (alloc 1) 1
    if rv < 0 then (m.dbufFree, some rv) else ({ m with cdev := { m.cdev with dbufActive := true } }, none)

def ioctlDoDbufStart (fault : Bool) (io : XdmaDbufIoctl) (alloc : Fin 2 → DbufAlloc) (m : DbufMem) :
    DbufMem × Option ℤ :=
  if m.cdev.drv.eng.dir ≠ .fromDevice then (m, some (err .inval))
  else if m.cdev.dbufActive then (m, some (err .busy))
  else if fault then (m, some (err .fault))
  else if io.version ≠ xdmaDbufV1 then (m, some (err .inval))
  else if io.bufSize = 0 ∨ io.bufSize &&& BitVec.ofNat 32 (xdmaPageSize - 1) ≠ 0 then (m, some (err .inval))
  else
    { m with cdev := { m.cdev with dbufSize := io.bufSize, dbufEpAddr := io.epAddr, dbufReadIdx := 0 } }.dbufAllocSlots
      io alloc

def ioctlDoDbufStop (m : DbufMem) : DbufMem :=
  if m.cdev.dbufActive = false then m
  else
    let m := (((m.sgFreeTable 0).dmaFreeSlot 0).sgFreeTable 1).dmaFreeSlot 1
    { m with cdev := { m.cdev with dbufActive := false }.dbufFreeSgt.dbufFree }

variable {m : DbufMem}

@[simp] theorem withLedger_cdev (f : DbufLedger → DbufLedger) : (m.withLedger f).cdev = m.cdev := rfl

@[simp] theorem dmaFreeSlot_cdev (i : Fin 2) : (m.dmaFreeSlot i).cdev = m.cdev := by
  unfold dmaFreeSlot
  split_ifs <;> rfl

@[simp] theorem sgFreeTable_cdev (i : Fin 2) : (m.sgFreeTable i).cdev = m.cdev := by
  unfold sgFreeTable
  split_ifs <;> rfl

@[simp] theorem dbufFree_cdev : m.dbufFree.cdev = m.cdev.dbufFree := by simp [dbufFree]

@[simp] theorem dbufFreeSgt_cdev : m.dbufFreeSgt.cdev = m.cdev.dbufFreeSgt := by simp [dbufFreeSgt]

@[simp] theorem dbufAllocSlot_cdev (io : XdmaDbufIoctl) (a : DbufAlloc) (i : Fin 2) (m : DbufMem) :
    (m.dbufAllocSlot io a i).1.cdev = (m.cdev.dbufAllocSlot a i).1 := by
  unfold dbufAllocSlot
  dsimp only
  split_ifs <;> rfl

@[simp] theorem dbufAllocSlot_ret (io : XdmaDbufIoctl) (a : DbufAlloc) (i : Fin 2) (m : DbufMem) :
    (m.dbufAllocSlot io a i).2 = (m.cdev.dbufAllocSlot a i).2 := by
  unfold dbufAllocSlot
  dsimp only
  split_ifs <;> rfl

theorem ioctlDoDbufStart_cdev (fault : Bool) (io : XdmaDbufIoctl) (alloc : Fin 2 → DbufAlloc) (m : DbufMem) :
    ((m.ioctlDoDbufStart fault io alloc).1.cdev, (m.ioctlDoDbufStart fault io alloc).2) =
      m.cdev.ioctlDoDbufStart fault io alloc := by
  unfold ioctlDoDbufStart XdmaCdev.ioctlDoDbufStart
  split_ifs
  · rfl
  · rfl
  · rfl
  · rfl
  · rfl
  simp only [dbufAllocSlots, dbufAllocSlot_cdev, dbufAllocSlot_ret]
  split_ifs
  · simp
  · simp
  · simp

theorem ioctlDoDbufStop_cdev (m : DbufMem) : m.ioctlDoDbufStop.cdev = m.cdev.ioctlDoDbufStop := by
  unfold ioctlDoDbufStop XdmaCdev.ioctlDoDbufStop
  split_ifs
  · rfl
  · simp

def slotResources (m : DbufMem) (i : Fin 2) : List DbufResource :=
  [.buffer (m.ledger.virt i) ((m.cdev.dbuf i).size.toNat + dbufPadding), .table (m.ledger.sgl i)]

structure Full (m : DbufMem) : Prop where
  virt : ∀ i, (m.cdev.dbuf i).virt = true
  sgl : ∀ i, (m.cdev.dbuf i).sgt.sgl ≠ []
  held : ∃ held, m.ledger.Leaves held ∧ held.Perm (m.slotResources 0 ++ m.slotResources 1)

structure Empty (m : DbufMem) : Prop where
  virt : ∀ i, (m.cdev.dbuf i).virt = false
  sgl : ∀ i, (m.cdev.dbuf i).sgt.sgl = []
  held : m.ledger.Leaves []

theorem Full.freed {l : DbufLedger} (h : m.Full) (xs : List DbufResource)
    (hops : l.ops = m.ledger.ops ++ xs.map .release)
      (hxs : (m.slotResources 0 ++ m.slotResources 1).Perm xs) :
    l.Leaves [] := by
  obtain ⟨held, hleaves, hperm⟩ := h.held
  unfold DbufLedger.Leaves at hleaves ⊢
  rw [hops, Ledger.replay_append, hleaves, Option.bind_some]
  exact Ledger.replay_releases_perm (hperm.trans hxs)

theorem Full.unwind (h : m.Full) : m.dbufFreeSgt.dbufFree.Empty := by
  refine ⟨fun i => by simp [XdmaCdev.dbufFree],
    fun i => by simp [XdmaCdev.dbufFree, XdmaCdev.dbufFreeSgt], ?_⟩
  apply h.freed [.table (m.ledger.sgl 0), .table (m.ledger.sgl 1),
    .buffer (m.ledger.virt 0) ((m.cdev.dbuf 0).size.toNat + dbufPadding),
    .buffer (m.ledger.virt 1) ((m.cdev.dbuf 1).size.toNat + dbufPadding)]
  · simp [dbufFreeSgt, dbufFree, sgFreeTable, dmaFreeSlot, h.virt, h.sgl, withLedger, DbufLedger.freeBuffer,
      DbufLedger.freeTable, XdmaCdev.dbufFreeSgt]
  · rw [List.perm_iff_count]
    intro x
    simp only [slotResources, List.cons_append, List.nil_append, List.count_cons, List.count_nil]
    omega

theorem Full.stop (h : m.Full) (hact : m.cdev.dbufActive = true) : m.ioctlDoDbufStop.Empty := by
  unfold ioctlDoDbufStop
  rw [if_neg (by simp [hact])]
  refine ⟨fun i => rfl, fun i => rfl, ?_⟩
  apply h.freed [.table (m.ledger.sgl 0),
    .buffer (m.ledger.virt 0) ((m.cdev.dbuf 0).size.toNat + dbufPadding), .table (m.ledger.sgl 1),
    .buffer (m.ledger.virt 1) ((m.cdev.dbuf 1).size.toNat + dbufPadding)]
  · simp [sgFreeTable, dmaFreeSlot, h.virt, h.sgl, withLedger, DbufLedger.freeBuffer, DbufLedger.freeTable]
  · rw [List.perm_iff_count]
    intro x
    simp only [slotResources, List.cons_append, List.nil_append, List.count_cons, List.count_nil]
    omega

structure GotSlot (io : XdmaDbufIoctl) (i : Fin 2) (m : DbufMem) (r : DbufMem × ℤ) : Prop where
  ret : r.2 = 0
  ledger : r.1.ledger = (m.ledger.allocBuffer (io.bufSize + 64).toNat i).allocTable i
  virt : (r.1.cdev.dbuf i).virt = true
  size : (r.1.cdev.dbuf i).size = m.cdev.dbufSize
  sgl : (r.1.cdev.dbuf i).sgt.sgl ≠ []
  other : ∀ j ≠ i, r.1.cdev.dbuf j = m.cdev.dbuf j
  dbufSize : r.1.cdev.dbufSize = m.cdev.dbufSize

theorem dbufAllocSlot_ok (io : XdmaDbufIoctl) {a : DbufAlloc} (i : Fin 2) (m : DbufMem) (hbus : a.bus ≠ none)
    (hsg : a.sgTable = true) : GotSlot io i m (m.dbufAllocSlot io a i) := by
  obtain ⟨bus, hbus⟩ := Option.ne_none_iff_exists'.mp hbus
  have heq : m.dbufAllocSlot io a i =
      ({ cdev := (m.cdev.dbufAllocSlot a i).1
         ledger := (m.ledger.allocBuffer (io.bufSize + 64).toNat i).allocTable i }, 0) := by
    simp [dbufAllocSlot, XdmaCdev.dbufAllocSlot, hbus, hsg, withLedger]
  rw [heq]
  have hcdev : (m.cdev.dbufAllocSlot a i).1 = ((m.cdev.setSlot i fun slot =>
      { slot with size := m.cdev.dbufSize, virt := true, bus := bus }).setSlot i XdmaCdev.dbufSlotInitSgt) := by
    simp [XdmaCdev.dbufAllocSlot, hbus, hsg]
  refine ⟨rfl, rfl, ?_, ?_, ?_, fun j hj => ?_, ?_⟩
  all_goals
    dsimp only
    rw [hcdev]
  · simp [XdmaCdev.dbufSlotInitSgt]
  · simp [XdmaCdev.dbufSlotInitSgt]
  · simp [XdmaCdev.dbufSlotInitSgt]
  · rw [XdmaCdev.setSlot_of_ne hj, XdmaCdev.setSlot_of_ne hj]
  · rfl

theorem padded_size {size : U32} (h : size &&& BitVec.ofNat 32 (xdmaPageSize - 1) = 0) :
    (size + 64).toNat = size.toNat + dbufPadding := by
  have hmod : size.toNat % 2 ^ 12 = 0 := by
    rw [← Nat.and_two_pow_sub_one_eq_mod]
    exact congrArg BitVec.toNat h
  have hlt := size.isLt
  rw [BitVec.toNat_add, show (64 : U32).toNat = dbufPadding from rfl, dbufPadding]
  omega

/-- A START fails in no allocation but the first one. -/
def AllocsSpared (alloc : Fin 2 → DbufAlloc) : Prop :=
  (alloc 0).bus ≠ none → (alloc 0).sgTable = true ∧ (alloc 1).bus ≠ none ∧ (alloc 1).sgTable = true

instance (alloc : Fin 2 → DbufAlloc) : Decidable (AllocsSpared alloc) :=
  inferInstanceAs (Decidable (_ → _))

theorem start_of_not_starts {fault : Bool} {io : XdmaDbufIoctl} (alloc : Fin 2 → DbufAlloc) {m : DbufMem}
    (h : ¬ Starts fault io m.cdev) : ∃ rv, m.ioctlDoDbufStart fault io alloc = (m, some rv) := by
  unfold ioctlDoDbufStart
  split_ifs with hdir hact hfault hver hsize
  · exact ⟨_, rfl⟩
  · exact ⟨_, rfl⟩
  · exact ⟨_, rfl⟩
  · exact ⟨_, rfl⟩
  · exact ⟨_, rfl⟩
  · rw [not_or, not_not] at hsize
    exact absurd ⟨not_not.mp hdir, by simpa using hact, by simpa using hfault, not_not.mp hver, hsize⟩ h

theorem leaves_allocs {l : DbufLedger} (h : l.Leaves []) (size : ℕ) :
    ((((l.allocBuffer size 0).allocTable 0).allocBuffer size 1).allocTable 1).Leaves
      [.buffer l.next size, .table (l.next + 1), .buffer (l.next + 2) size, .table (l.next + 3)] := by
  have hops : ((((l.allocBuffer size 0).allocTable 0).allocBuffer size 1).allocTable 1).ops =
      l.ops ++ ([.buffer l.next size, .table (l.next + 1), .buffer (l.next + 2) size, .table (l.next + 3)] :
        List DbufResource).map .acquire := by
    simp [DbufLedger.allocBuffer, DbufLedger.allocTable]
  unfold DbufLedger.Leaves at h ⊢
  rw [hops, Ledger.replay_append, h, Option.bind_some, Ledger.replay_acquires, List.nil_append]
  simp [DbufResource.number]

theorem Empty.allocSlots {io : XdmaDbufIoctl} {alloc : Fin 2 → DbufAlloc} {m : DbufMem} (h : m.Empty)
    (hpad : (io.bufSize + 64).toNat = m.cdev.dbufSize.toNat + dbufPadding) (hok : AllocsSpared alloc) :
    (m.dbufAllocSlots io alloc).2 = none ∧ (m.dbufAllocSlots io alloc).1.Full ∨
      (m.dbufAllocSlots io alloc).2 ≠ none ∧ (m.dbufAllocSlots io alloc).1.Empty := by
  unfold dbufAllocSlots
  dsimp only
  by_cases hbus : (alloc 0).bus = none
  · have hnone : m.dbufAllocSlot io (alloc 0) 0 =
        ({ m with cdev := m.cdev.setSlot 0 fun slot => { slot with size := m.cdev.dbufSize, virt := false } },
          err .noMem) := by
      simp [dbufAllocSlot, XdmaCdev.dbufAllocSlot, hbus]
    have hkept (j : Fin 2) (m' : DbufMem) (hv : (m'.cdev.dbuf j).virt = false) : m'.dmaFreeSlot j = m' := by
      simp [dmaFreeSlot, hv]
    rw [hnone]
    simp only [err_neg, ↓reduceIte]
    refine .inr ⟨by simp, fun i => by simp [XdmaCdev.dbufFree], fun i => ?_, ?_⟩
    · rw [dbufFree_cdev]
      by_cases hi : i = 0
      · subst hi
        simp [XdmaCdev.dbufFree, h.sgl]
      · simp [XdmaCdev.dbufFree, XdmaCdev.setSlot_of_ne hi, h.sgl]
    · unfold dbufFree
      rw [hkept 0 _ (by simp), hkept 1 _ (by simp [XdmaCdev.setSlot, h.virt])]
      exact h.held
  · obtain ⟨hsg₀, hbus₁, hsg₁⟩ := hok hbus
    have h₀ := dbufAllocSlot_ok io 0 m hbus hsg₀
    generalize m.dbufAllocSlot io (alloc 0) 0 = r₀ at h₀
    have h₁ := dbufAllocSlot_ok io 1 r₀.1 hbus₁ hsg₁
    generalize r₀.1.dbufAllocSlot io (alloc 1) 1 = r₁ at h₁
    refine .inl ?_
    simp only [h₀.ret, h₁.ret, lt_self_iff_false, ↓reduceIte, true_and]
    have hslot₀ : r₁.1.cdev.dbuf 0 = r₀.1.cdev.dbuf 0 := h₁.other 0 (by decide)
    have hvirt : ∀ i, (r₁.1.cdev.dbuf i).virt = true := Fin.forall_fin_two.mpr ⟨hslot₀ ▸ h₀.virt, h₁.virt⟩
    refine ⟨hvirt, Fin.forall_fin_two.mpr ⟨hslot₀ ▸ h₀.sgl, h₁.sgl⟩, ?_⟩
    have hleaves := leaves_allocs h.held (io.bufSize + 64).toNat
    refine ⟨_, by rw [h₁.ledger, h₀.ledger]; exact hleaves, ?_⟩
    simp only [slotResources, hslot₀, h₀.size, h₁.size, h₀.dbufSize, hpad, h₁.ledger, h₀.ledger]
    simp [DbufLedger.allocBuffer, DbufLedger.allocTable]

theorem Empty.start {fault : Bool} {io : XdmaDbufIoctl} {alloc : Fin 2 → DbufAlloc}
    {m : DbufMem} (h : m.Empty)
    (hstarts : Starts fault io m.cdev) (hok : AllocsSpared alloc) :
    (m.ioctlDoDbufStart fault io alloc).2 = none ∧ (m.ioctlDoDbufStart fault io alloc).1.Full ∨
      (m.ioctlDoDbufStart fault io alloc).2 ≠ none ∧ (m.ioctlDoDbufStart fault io alloc).1.Empty := by
  obtain ⟨hdir, hact, hfault, hver, hsize⟩ := hstarts
  have hempty : Empty
      { m with cdev := { m.cdev with dbufSize := io.bufSize, dbufEpAddr := io.epAddr, dbufReadIdx := 0 } } :=
    ⟨h.virt, h.sgl, h.held⟩
  unfold ioctlDoDbufStart
  rw [if_neg (not_not.mpr hdir), if_neg (by simp [hact]), if_neg (by simp [hfault]),
    if_neg (not_not.mpr hver),
    if_neg (by simpa using hsize)]
  exact hempty.allocSlots (padded_size hsize.2) hok

end DbufMem

structure LedgerRun where
  run : DbufRun := {}
  ledger : DbufLedger := {}

/-- A call or what goes on besides it, or a call of `dbuf_io_done` with any error. -/
inductive LedgerAct
  | call (a : DbufAct)
  | callback (i : Fin 2) (err : ℤ)

def DbufPc.Starting : DbufPc → Prop
  | .submit caller _ => caller = .start
  | .chain c | .queue c => c.caller = .start
  | .unwind _ => True
  | _ => False

instance : DecidablePred DbufPc.Starting
  | .submit caller _ => inferInstanceAs (Decidable (caller = .start))
  | .chain c | .queue c => inferInstanceAs (Decidable (c.caller = .start))
  | .unwind _ => inferInstanceAs (Decidable True)
  | .idle | .readWait _ => inferInstanceAs (Decidable False)

namespace LedgerRun

def mem (s : LedgerRun) : DbufMem := ⟨s.run.cdev, s.ledger⟩

def ledgerAfter (s : LedgerRun) : DbufAct → DbufLedger
  | .start fault io alloc => (s.mem.ioctlDoDbufStart fault io alloc).1.ledger
  | .unwind => s.mem.dbufFreeSgt.dbufFree.ledger
  | .stop | .close => s.mem.ioctlDoDbufStop.ledger
  | _ => s.ledger

def step (p : Params) (s : LedgerRun) : LedgerAct → Option LedgerRun
  | .call a => (s.run.step p a).map fun run => ⟨run, s.ledgerAfter a⟩
  | .callback i err => some { s with run := { s.run with cdev := s.run.cdev.dbufIoDone i err } }

structure Begins (s : LedgerRun) : Prop where
  run : s.run.Fresh
  sgl : ∀ i, (s.run.cdev.dbuf i).sgt.sgl = []
  ops : s.ledger.ops = []

/-- A START that allocates fails at its first allocation, if at any; and no callback has an
error while the mode is on, unless a START is not through yet, which then fails. -/
def Spared (s : LedgerRun) : LedgerAct → Prop
  | .call (.start fault io alloc) => DbufMem.Starts fault io s.run.cdev → DbufMem.AllocsSpared alloc
  | .call .submitted =>
    match s.run.pc with
    | .chain c => c.caller = .start → c.i ≠ 0 → s.run.cdev.dbufActive = true
    | _ => True
  | .callback _ err => err ≠ 0 → s.run.cdev.dbufActive = true → s.run.pc.Starting
  | _ => True

instance (s : LedgerRun) : DecidablePred (Spared s) := fun a => by
  unfold Spared
  split
  · infer_instance
  · split <;> infer_instance
  · infer_instance
  · infer_instance

def Holds (s : LedgerRun) : Prop := s.run.cdev.dbufActive = true ∨ s.run.pc.Starting

structure Accounted (s : LedgerRun) : Prop where
  holds : ¬ s.run.pc.Quiet → s.Holds
  unwind : ∀ rv, s.run.pc = .unwind rv → s.run.cdev.dbufActive = false
  full : s.Holds → s.mem.Full
  empty : ¬ s.Holds → s.mem.Empty

variable {p : Params} {s s' : LedgerRun}

theorem Begins.accounted (h : s.Begins) : s.Accounted := by
  have hpc := h.run.pc
  have hact := h.run.active
  refine ⟨fun hq => absurd (.inl hpc) hq, fun rv hrv => hact, ?_, fun _ => ⟨h.run.virt, h.sgl, ?_⟩⟩
  · rintro (ha | hs)
    · simp [hact] at ha
    · simp [hpc, DbufPc.Starting] at hs
  · unfold DbufLedger.Leaves
    rw [show s.mem.ledger.ops = [] from h.ops, Ledger.replay_nil]

theorem Accounted.frame (h : s.Accounted) (hbuf : DbufRun.SameBuffers s.run.cdev s'.run.cdev)
    (hledger : s'.ledger = s.ledger) (hsame : s'.Holds ↔ s.Holds) (hpc : ¬ s'.run.pc.Quiet → s'.Holds)
    (hunwind : ∀ rv, s'.run.pc = .unwind rv → s'.run.cdev.dbufActive = false) : s'.Accounted := by
  have hres : ∀ i, s'.mem.slotResources i = s.mem.slotResources i := fun i => by
    simp only [DbufMem.slotResources, mem, hledger, (hbuf i).2.2.1]
  refine ⟨hpc, hunwind, fun hh => ?_, fun hh => ?_⟩
  · obtain ⟨hvirt, hsgl, hheld⟩ := h.full (hsame.mp hh)
    refine ⟨fun i => (hbuf i).1.trans (hvirt i), fun i => ?_, ?_⟩
    · rw [show (s'.mem.cdev.dbuf i).sgt = (s.run.cdev.dbuf i).sgt from (hbuf i).2.2.2]
      exact hsgl i
    · rw [hres, hres, show s'.mem.ledger = s.mem.ledger from hledger]
      exact hheld
  · obtain ⟨hvirt, hsgl, hheld⟩ := h.empty fun hs => hh (hsame.mpr hs)
    refine ⟨fun i => (hbuf i).1.trans (hvirt i), fun i => ?_, ?_⟩
    · rw [show (s'.mem.cdev.dbuf i).sgt = (s.run.cdev.dbuf i).sgt from (hbuf i).2.2.2]
      exact hsgl i
    · rw [show s'.mem.ledger = s.mem.ledger from hledger]
      exact hheld

theorem callback_accounted {i : Fin 2} {e : ℤ} (h : s.Accounted) (hok : s.Spared (.callback i e))
    (hs : s.step p (.callback i e) = some s') : s'.Accounted := by
  obtain rfl := Option.some.inj hs
  by_cases hact : s.run.cdev.dbufActive = true
  swap
  · have hsame : s.run.cdev.dbufIoDone i e = s.run.cdev := by
      unfold XdmaCdev.dbufIoDone
      rw [if_pos (by simpa using hact)]
    simp only [hsame]
    exact h
  by_cases he : e = 0
  · have hdone : s.run.cdev.dbufIoDone i e = s.run.cdev.setSlot i fun slot =>
      { slot with filled := true } := by
      simp [XdmaCdev.dbufIoDone, hact, he]
    rw [hdone]
    refine h.frame (fun j => ?_) rfl Iff.rfl h.holds h.unwind
    by_cases hj : j = i
    · subst hj
      simp
    · simp [XdmaCdev.setSlot_of_ne hj]
  · have hstart := hok he hact
    have hdone : s.run.cdev.dbufIoDone i e = { s.run.cdev with dbufActive := false } := by
      simp [XdmaCdev.dbufIoDone, hact, he]
    rw [hdone]
    exact h.frame (fun j => ⟨rfl, rfl, rfl, rfl⟩) rfl (iff_of_true (.inr hstart) (.inr hstart))
      (fun _ => .inr hstart)
      fun _ _ => rfl

theorem start_accounted {fault : Bool} {io : XdmaDbufIoctl} {alloc : Fin 2 → DbufAlloc} (h : s.Accounted)
    (hok : s.Spared (.call (.start fault io alloc))) (hs : s.step p (.call (.start fault io alloc)) = some s') :
    s'.Accounted := by
  obtain ⟨run, hrun, rfl⟩ := Option.map_eq_some_iff.mp hs
  have hcdev := DbufMem.ioctlDoDbufStart_cdev fault io alloc s.mem
  have hfst : (s.mem.ioctlDoDbufStart fault io alloc).1.cdev =
    (s.run.cdev.ioctlDoDbufStart fault io alloc).1 :=
    congrArg Prod.fst hcdev
  have hsnd : (s.mem.ioctlDoDbufStart fault io alloc).2 = (s.run.cdev.ioctlDoDbufStart fault io alloc).2 :=
    congrArg Prod.snd hcdev
  obtain ⟨hidle, hcase⟩ := DbufRun.step_start hrun
  have hnew : run.cdev = (s.run.cdev.ioctlDoDbufStart fault io alloc).1 := by
    rcases hcase with ⟨rv, -, rfl⟩ | ⟨-, rfl⟩ <;> rfl
  have hmem : mem ⟨run, s.ledgerAfter (.start fault io alloc)⟩ =
    (s.mem.ioctlDoDbufStart fault io alloc).1 := by
    simp only [mem, ledgerAfter, hnew, ← hfst]
  by_cases hstarts : DbufMem.Starts fault io s.run.cdev
  swap
  · obtain ⟨rv, hno⟩ := DbufMem.start_of_not_starts (m := s.mem) alloc hstarts
    have hsame : run.cdev = s.run.cdev := by
      rw [hnew, ← hfst, hno]
      rfl
    have hpc : run.pc = s.run.pc := by
      rcases hcase with ⟨rv, -, rfl⟩ | ⟨hnone, -⟩
      · rfl
      · simp [← hsnd, hno] at hnone
    refine h.frame (fun j => ?_) ?_ ?_ ?_ ?_
    · simp [hsame]
    · simp only [ledgerAfter, hno]
      rfl
    · simp only [Holds, hsame, hpc]
    · simpa only [Holds, hsame, hpc] using h.holds
    · simpa only [hsame, hpc] using h.unwind
  have hempty : s.mem.Empty := h.empty fun hh => by
    rcases hh with ha | hst
    · simp [hstarts.2.1] at ha
    · simp [hidle, DbufPc.Starting] at hst
  rcases hempty.start hstarts (hok hstarts) with ⟨hret, hfull⟩ | ⟨hret, hempty⟩
  · obtain ⟨-, rfl⟩ := hcase.resolve_left fun ⟨rv, hrv, _⟩ => by simp [← hsnd, hret] at hrv
    have hholds : Holds ⟨{ s.run with cdev := (s.run.cdev.ioctlDoDbufStart fault io alloc).1, pc := .submit .start 0 },
        s.ledgerAfter (.start fault io alloc)⟩ := .inr rfl
    exact ⟨fun _ => hholds, nofun, fun _ => hmem ▸ hfull, fun hno => absurd hholds hno⟩
  · obtain ⟨rv, hrv, rfl⟩ := hcase.resolve_right fun ⟨hnone, _⟩ => hret (hsnd.trans hnone)
    have hact : (s.run.cdev.ioctlDoDbufStart fault io alloc).1.dbufActive = false := by
      rcases XdmaCdev.ioctlDoDbufStart_cases fault io alloc s.run.cdev with ⟨_, -, hns⟩ | ⟨hnone, -⟩
      · rw [hns.active, hstarts.2.1]
      · simp [hnone] at hrv
    have hno : ¬ Holds ⟨{ s.run with cdev := (s.run.cdev.ioctlDoDbufStart fault io alloc).1, ret := rv },
        s.ledgerAfter (.start fault io alloc)⟩ := by
      rintro (ha | hst)
      · simp [hact] at ha
      · simp [hidle, DbufPc.Starting] at hst
    exact ⟨fun hq => absurd (.inl hidle) hq, fun rv hrv => by simp [hidle] at hrv, fun hh => absurd hh hno,
      fun _ => hmem ▸ hempty⟩

theorem Accounted.of_empty (hpc : s'.run.pc.Quiet) (hact : s'.run.cdev.dbufActive = false)
    (hempty : s'.mem.Empty) :
    s'.Accounted := by
  have hstart : ¬ s'.run.pc.Starting := by
    rcases hpc with hpc | ⟨count, hpc⟩ <;> simp [hpc, DbufPc.Starting]
  refine ⟨fun hq => absurd hpc hq, fun _ _ => hact, fun hh => ?_, fun _ => hempty⟩
  rcases hh with ha | hs
  · simp [hact] at ha
  · exact absurd hs hstart

theorem unwind_accounted (h : s.Accounted) (hs : s.step p (.call .unwind) = some s') : s'.Accounted := by
  obtain ⟨run, hrun, rfl⟩ := Option.map_eq_some_iff.mp hs
  obtain ⟨rv, hpc, rfl⟩ := DbufRun.step_unwind hrun
  have hfull := h.full (.inr (by simp [hpc, DbufPc.Starting]))
  refine .of_empty (.inl rfl) (h.unwind rv hpc) ?_
  have hmem : mem ⟨{ s.run with cdev := s.run.cdev.dbufFreeSgt.dbufFree, pc := .idle, ret := rv },
      s.ledgerAfter .unwind⟩ = s.mem.dbufFreeSgt.dbufFree := by
    have hcdev : s.mem.dbufFreeSgt.dbufFree.cdev = s.run.cdev.dbufFreeSgt.dbufFree := by simp [mem]
    simp only [mem, ledgerAfter, ← hcdev]
  rw [hmem]
  exact hfull.unwind

theorem stop_accounted (h : s.Accounted) (hpc : s.run.pc.Quiet) :
    Accounted ⟨{ s.run with cdev := s.run.cdev.ioctlDoDbufStop }, s.mem.ioctlDoDbufStop.ledger⟩ := by
  by_cases hact : s.run.cdev.dbufActive = true
  swap
  · have hoff : s.run.cdev.dbufActive = false := by simpa using hact
    have hcdev : s.run.cdev.ioctlDoDbufStop = s.run.cdev := by simp [XdmaCdev.ioctlDoDbufStop, hoff]
    have hmem : s.mem.ioctlDoDbufStop = s.mem := by
      unfold DbufMem.ioctlDoDbufStop
      exact if_pos hoff
    rw [hcdev, hmem]
    exact h
  · have hfull := h.full (.inl hact)
    refine .of_empty hpc ?_ ?_
    · rcases DbufRun.ioctlDoDbufStop_cases s.run.cdev with ⟨-, hoff⟩ | ⟨-, hoff⟩
      · simp [hact] at hoff
      · exact hoff
    · have hmem : mem ⟨{ s.run with cdev := s.run.cdev.ioctlDoDbufStop }, s.mem.ioctlDoDbufStop.ledger⟩ =
          s.mem.ioctlDoDbufStop := by
        change (⟨s.mem.cdev.ioctlDoDbufStop, s.mem.ioctlDoDbufStop.ledger⟩ : DbufMem) = _
        rw [← DbufMem.ioctlDoDbufStop_cdev]
      rw [hmem]
      exact hfull.stop hact

theorem failed_accounted {r : DbufRun} {caller : DbufCaller} {rv : ℤ} (h : s.Accounted)
    (hbuf : DbufRun.SameBuffers s.run.cdev r.cdev) (hact : r.cdev.dbufActive = s.run.cdev.dbufActive)
    (hcaller : s.run.pc.Starting ↔ caller = .start) (hq : ¬ s.run.pc.Quiet) :
    Accounted ⟨r.submitFailed caller rv, s.ledger⟩ := by
  have hholds := h.holds hq
  cases caller with
  | start =>
    have hnew : Holds ⟨r.submitFailed .start rv, s.ledger⟩ := .inr trivial
    exact h.frame hbuf rfl (iff_of_true hnew hholds) (fun _ => hnew) fun _ _ => rfl
  | read count =>
    have hon := hholds.resolve_right fun hst => by simp [hcaller] at hst
    have hnew : Holds ⟨r.submitFailed (.read count) rv, s.ledger⟩ := .inl (hact.trans hon)
    exact h.frame hbuf rfl (iff_of_true hnew hholds) (fun _ => hnew) nofun

theorem going_accounted {r : DbufRun} (h : s.Accounted) (hbuf : DbufRun.SameBuffers s.run.cdev r.cdev)
    (hact : r.cdev.dbufActive = s.run.cdev.dbufActive) (hstart : r.pc.Starting ↔ s.run.pc.Starting)
    (hq : ¬ s.run.pc.Quiet) (hunwind : ∀ rv, r.pc ≠ .unwind rv) : Accounted ⟨r, s.ledger⟩ := by
  have hsame : Holds ⟨r, s.ledger⟩ ↔ s.Holds := by simp only [Holds, hact, hstart]
  exact h.frame hbuf rfl hsame (fun _ => hsame.mpr (h.holds hq)) fun rv hrv => absurd hrv (hunwind rv)

theorem submit_accounted {oom : Bool} (h : s.Accounted) (hs : s.step p (.call (.submit oom)) = some s') :
    s'.Accounted := by
  obtain ⟨run, hrun, rfl⟩ := Option.map_eq_some_iff.mp hs
  obtain ⟨caller, i, hpc, rfl⟩ := DbufRun.step_submit hrun
  have hbuf := DbufRun.clearSlot_sameBuffers s.run i
  have hq : ¬ s.run.pc.Quiet := by simp [DbufPc.Quiet, hpc]
  simp only [ledgerAfter, DbufRun.submitSlot]
  cases (s.run.clearSlot i).cdev.slotRequest p oom i with
  | error rv => exact failed_accounted h hbuf rfl (by simp [hpc, DbufPc.Starting]) hq
  | ok req => exact going_accounted h hbuf rfl (by simp [hpc, DbufPc.Starting]) hq nofun

theorem queue_accounted {w : U32} (h : s.Accounted) (hs : s.step p (.call (.queue w)) = some s') :
    s'.Accounted := by
  obtain ⟨run, hrun, rfl⟩ := Option.map_eq_some_iff.mp hs
  obtain ⟨c, hpc, rfl⟩ := DbufRun.step_queue hrun
  have hq : ¬ s.run.pc.Quiet := by simp [DbufPc.Quiet, hpc]
  simp only [ledgerAfter]
  by_cases hacc : s.run.cdev.drv.Accepts c.ref
  · rw [(DbufRun.queueNext_accepted (p := p) (w := w) hacc).2]
    exact going_accounted h (fun _ => ⟨rfl, rfl, rfl, rfl⟩) rfl (by simp [hpc, DbufPc.Starting]) hq nofun
  · obtain ⟨rv, hnext⟩ := DbufRun.queueNext_refused (p := p) (w := w) hacc
    rw [hnext]
    exact failed_accounted h (.refl _) rfl (by simp [hpc, DbufPc.Starting]) hq

theorem submitted_accounted (h : s.Accounted) (hok : s.Spared (.call .submitted))
    (hs : s.step p (.call .submitted) = some s') : s'.Accounted := by
  obtain ⟨run, hrun, rfl⟩ := Option.map_eq_some_iff.mp hs
  obtain ⟨c, hpc, -, rfl⟩ := DbufRun.step_submitted hrun
  have hholds : s.Holds := h.holds (by simp [DbufPc.Quiet, hpc])
  simp only [Spared, hpc] at hok
  simp only [ledgerAfter]
  cases hc : c.caller with
  | read count =>
    have hon := hholds.resolve_right fun hst => by simp [hpc, DbufPc.Starting, hc] at hst
    exact h.frame (fun _ => ⟨rfl, rfl, rfl, rfl⟩) rfl (iff_of_true (.inl hon) hholds) (fun _ => .inl hon)
      (by simp [DbufRun.submitDone])
  | start =>
    by_cases hi : c.i = 0
    · simp only [DbufRun.submitDone, hi, ↓reduceIte]
      exact going_accounted h (fun _ => ⟨rfl, rfl, rfl, rfl⟩) rfl (by simp [hpc, DbufPc.Starting, hc])
        (by simp [DbufPc.Quiet, hpc]) (by simp)
    · simp only [DbufRun.submitDone, hi, ↓reduceIte]
      have hon := hok hc hi
      exact h.frame (fun _ => ⟨rfl, rfl, rfl, rfl⟩) rfl (iff_of_true (.inl hon) hholds)
        (fun _ => .inl hon) (by simp)

theorem read_accounted {r : DbufRun} (h : s.Accounted) (hcdev : r.cdev = s.run.cdev)
    (hold : ¬ s.run.pc.Starting)
    (hnew : ¬ r.pc.Starting) (hq : r.pc.Quiet ∨ s.run.cdev.dbufActive = true)
      (hunwind : ∀ rv, r.pc ≠ .unwind rv) :
    Accounted ⟨r, s.ledger⟩ := by
  have hsame : Holds ⟨r, s.ledger⟩ ↔ s.Holds := by simp only [Holds, hcdev, hold, hnew]
  refine h.frame (by rw [hcdev]; exact .refl _) rfl hsame (fun hn => .inl ?_) fun rv hrv =>
    absurd hrv (hunwind rv)
  rw [hcdev]
  exact hq.resolve_left hn

theorem wake_accounted {fault : Bool} (h : s.Accounted) (hs : s.step p (.call (.wake fault)) = some s') :
    s'.Accounted := by
  obtain ⟨run, hrun, rfl⟩ := Option.map_eq_some_iff.mp hs
  obtain ⟨count, hpc, -, rfl⟩ := DbufRun.step_wake hrun
  have hold : ¬ s.run.pc.Starting := by simp [hpc, DbufPc.Starting]
  simp only [ledgerAfter, DbufRun.readWoken]
  split_ifs with hact hfault
  · exact read_accounted h rfl hold (by simp [DbufPc.Starting]) (.inl (.inl rfl)) (by simp)
  · exact read_accounted h rfl hold (by simp [DbufPc.Starting]) (.inl (.inl rfl)) (by simp)
  · exact read_accounted h rfl hold (by simp [DbufPc.Starting]) (.inr (by simpa using hact)) (by simp)

theorem beside_accounted {r : DbufRun} (h : s.Accounted) (hbuf : DbufRun.SameBuffers s.run.cdev r.cdev)
    (hact : r.cdev.dbufActive = s.run.cdev.dbufActive) (hpc : r.pc = s.run.pc) : Accounted ⟨r, s.ledger⟩ := by
  have hsame : Holds ⟨r, s.ledger⟩ ↔ s.Holds := by simp only [Holds, hact, hpc]
  refine h.frame hbuf rfl hsame (fun hq => hsame.mpr (h.holds ?_)) fun rv hrv => hact.trans (h.unwind rv ?_)
  · rwa [← hpc]
  · rw [← hpc]
    exact hrv

theorem step_accounted {a : LedgerAct} (h : s.Accounted) (hok : s.Spared a) (hs : s.step p a = some s') :
    s'.Accounted := by
  cases a with
  | callback i e => exact callback_accounted h hok hs
  | call a =>
    have hstep := Option.map_eq_some_iff.mp hs
    cases a with
    | start fault io alloc => exact start_accounted h hok hs
    | submit oom => exact submit_accounted h hs
    | queue w => exact queue_accounted h hs
    | submitted => exact submitted_accounted h hok hs
    | unwind => exact unwind_accounted h hs
    | wake fault => exact wake_accounted h hs
    | build =>
      obtain ⟨run, hrun, rfl⟩ := hstep
      obtain ⟨c, hpc, -, -, rfl⟩ := DbufRun.step_build hrun
      exact going_accounted h (fun _ => ⟨rfl, rfl, rfl, rfl⟩) rfl
        (by simp [hpc, DbufPc.Starting, (DbufRun.buildNext_built s.run c).pc])
          (by simp [DbufPc.Quiet, hpc]) nofun
    | read count =>
      obtain ⟨run, hrun, rfl⟩ := hstep
      obtain ⟨hpc, hact, ⟨-, rfl⟩ | ⟨-, rfl⟩⟩ := DbufRun.step_read hrun
      · exact beside_accounted h (.refl _) rfl rfl
      · exact read_accounted h rfl (by simp [hpc, DbufPc.Starting])
          (by simp [DbufPc.Starting]) (.inr hact) nofun
    | signal =>
      obtain ⟨run, hrun, rfl⟩ := hstep
      obtain ⟨count, hpc, rfl⟩ := DbufRun.step_signal hrun
      exact read_accounted h rfl (by simp [hpc, DbufPc.Starting]) (by simp [DbufPc.Starting])
        (.inl (.inl rfl)) nofun
    | stop =>
      obtain ⟨run, hrun, rfl⟩ := hstep
      obtain ⟨hpc, rfl⟩ := DbufRun.step_stop hrun
      exact stop_accounted h hpc
    | close =>
      obtain ⟨run, hrun, rfl⟩ := hstep
      obtain ⟨hpc, rfl⟩ := DbufRun.step_close hrun
      exact stop_accounted h hpc
    | service wb r =>
      obtain ⟨run, hrun, rfl⟩ := hstep
      obtain rfl := Option.some.inj hrun
      obtain ⟨out, he⟩ := engineService_effect p wb r s.run.cdev.drv
      have hsv := XdmaCdev.service_spec he
      refine beside_accounted h (fun i => ?_) (by rw [hsv.frame]) rfl
      rw [hsv.slot i]
      exact ⟨rfl, rfl, rfl, rfl⟩
    | dma data =>
      obtain ⟨run, hrun, rfl⟩ := hstep
      obtain ⟨t, -, -, -, rfl⟩ := DbufRun.step_dma hrun
      obtain ⟨hcdev, -, -, -, hpc⟩ := DbufRun.execDesc_frame s.run data t
      exact beside_accounted h (by rw [hcdev]; exact .refl _) (by rw [hcdev]) hpc
    | result i w =>
      obtain ⟨run, hrun, rfl⟩ := hstep
      obtain rfl := Option.some.inj hrun
      exact beside_accounted h (fun _ => ⟨rfl, rfl, rfl, rfl⟩) rfl rfl
    | setOffline offline =>
      obtain ⟨run, hrun, rfl⟩ := hstep
      obtain rfl := Option.some.inj hrun
      exact beside_accounted h (fun _ => ⟨rfl, rfl, rfl, rfl⟩) rfl rfl

/-- Every free is of a buffer or a table that is allocated, and of its size; and while no
call is in progress and the mode is off, so behind a failed START and behind a close,
nothing is allocated. -/
theorem resources_balanced (h : Reachable (step p) Begins Spared s) :
    (∃ held, s.ledger.Leaves held) ∧
      (s.run.pc.Quiet → s.run.cdev.dbufActive = false → s.ledger.Leaves []) := by
  have hacc : s.Accounted := h.invariant (fun _ h => h.accounted) fun _ _ _ h hok hs =>
    step_accounted h hok hs
  have hempty (hno : ¬ s.Holds) : s.ledger.Leaves [] := (hacc.empty hno).held
  constructor
  · by_cases hh : s.Holds
    · obtain ⟨held, hleaves, -⟩ := (hacc.full hh).held
      exact ⟨held, hleaves⟩
    · exact ⟨[], hempty hh⟩
  · rintro hpc hact
    refine hempty fun hh => ?_
    rcases hh with ha | hst
    · simp [hact] at ha
    · rcases hpc with hpc | ⟨count, hpc⟩ <;> simp [hpc, DbufPc.Starting] at hst

theorem begins_empty : Begins {} := ⟨⟨rfl, rfl, rfl, rfl, fun _ => rfl⟩, fun _ => rfl, rfl⟩

theorem resources_balanced_closed : ∃ s, Reachable (step {}) Begins Spared s ∧ s.ledger.ops.length = 8 ∧
    s.ledger.Leaves [] := by
  have hrun : (Transition.run (step {}) Spared {} (DbufRun.startedRun.map .call ++ [.callback 0 0, .call .close])).map
      (fun s => (s.run.pc, s.run.cdev.dbufActive, s.ledger.ops.length)) = some (.idle, false, 8) := by decide
  obtain ⟨s, hs, heq⟩ := exists_reachable begins_empty hrun
  simp only [Prod.mk.injEq] at heq
  obtain ⟨hpc, hact, hlen⟩ := heq
  exact ⟨s, hs, hlen, (resources_balanced hs).2 (.inl hpc) hact⟩

def startOnePage (a b : DbufAlloc) : LedgerAct :=
  .call (.start false { bufSize := 4096 } fun i => if i = 0 then a else b)

/-- An error of a completion turns the mode off, so that neither STOP nor close frees
anything. Without memory for a scatter table, its buffer is freed with another size; and
without a second buffer, the first table stays behind. -/
theorem resources_leaked :
    (∃ s, Reachable (step {}) Begins (fun _ _ => True) s ∧ s.run.pc = .idle ∧ s.run.cdev.dbufActive = false ∧
      s.ledger.Leaves [.buffer 0 4160, .table 1, .buffer 2 4160, .table 3]) ∧
    (∃ s, Reachable (step {}) Begins (fun _ _ => True) s ∧ s.run.pc = .idle ∧ s.run.ret = err .noMem ∧
      s.ledger.ops = [.acquire (.buffer 0 4160), .release (.buffer 0 4096)] ∧ ∀ held, ¬ s.ledger.Leaves held) ∧
    ∃ s, Reachable (step {}) Begins (fun _ _ => True) s ∧ s.run.pc = .idle ∧ s.run.ret = err .noMem ∧
      s.ledger.Leaves [.table 1] := by
  refine ⟨?_, ?_, ?_⟩
  · have hrun : (Transition.run (step {}) (fun _ _ => True) {}
        (DbufRun.startedRun.map .call ++ [.callback 0 (err .io), .call .stop, .call .close])).map
        (fun s => (s.run.pc, s.run.cdev.dbufActive, Ledger.replay DbufResource.number [] s.ledger.ops)) =
      some (.idle, false, some [.buffer 0 4160, .table 1, .buffer 2 4160, .table 3]) := by decide
    obtain ⟨s, hs, heq⟩ := exists_reachable begins_empty hrun
    simp only [Prod.mk.injEq] at heq
    exact ⟨s, hs, heq⟩
  · have hrun : (Transition.run (step {}) (fun _ _ => True) {} [startOnePage ⟨some 0x10000, false⟩ ⟨none, false⟩]).map
        (fun s => (s.run.pc, s.run.ret, s.ledger.ops)) =
      some (.idle, err .noMem, [.acquire (.buffer 0 4160), .release (.buffer 0 4096)]) := by decide
    obtain ⟨s, hs, heq⟩ := exists_reachable begins_empty hrun
    simp only [Prod.mk.injEq] at heq
    obtain ⟨hpc, hret, hops⟩ := heq
    refine ⟨s, hs, hpc, hret, hops, fun held hleaves => ?_⟩
    rw [DbufLedger.Leaves, hops] at hleaves
    simp [Ledger.replay, Ledger.Op.apply] at hleaves
  · have hrun : (Transition.run (step {}) (fun _ _ => True) {} [startOnePage ⟨some 0x10000, true⟩ ⟨none, true⟩]).map
        (fun s => (s.run.pc, s.run.ret, Ledger.replay DbufResource.number [] s.ledger.ops)) =
      some (.idle, err .noMem, some [.table 1]) := by decide
    obtain ⟨s, hs, heq⟩ := exists_reachable begins_empty hrun
    simp only [Prod.mk.injEq] at heq
    exact ⟨s, hs, heq⟩

end LedgerRun

end XdmaDriver
