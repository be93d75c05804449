import XdmaDriver.Types
import XdmaDriver.Lib.Ledger

/-!
The interrupt lines that a device requests and frees while it is opened, taken offline,
brought online and closed.
-/

namespace XdmaDriver

open Ledger

def maxUserIrq : ℕ := 16
def xdmaChannelNumMax : ℕ := 4

inductive DevId
  | engine (dir : DmaDir) (channel : ℕ)
  | userIrq (i : ℕ)
  | xdev
  deriving DecidableEq

structure Irq where
  line : U32
  devId : DevId
  deriving DecidableEq

/-- The PCI device as the driver sees it: its config space, and what the kernel answers. -/
structure PciDev where
  irq : U32
  interruptPin : U8 := 1
  msixCapable : Bool := false
  msiCapable : Bool := false
  pciAllocIrqVectors : ℤ := 0
  pciEnableMsi : ℤ := 0
  pciIrqVector : ℕ → U32
  requestIrq : U32 → ℤ := fun _ => 0

/-- The interrupt fields of `struct xdma_dev` and of its engines, and the lines requested
and freed so far. -/
structure XdmaDev where
  userMax : ℕ
  h2cChannelMax : ℕ
  c2hChannelMax : ℕ
  irqLine : U32 := -1
  msiEnabled : Bool := false
  msixEnabled : Bool := false
  msixIrqLine : DmaDir → ℕ → U32 := fun _ _ => 0
  log : List (Op Irq) := []

namespace XdmaDev

/-- `request_irq`; what it refuses is not held. -/
def requestIrq (pdev : PciDev) (d : XdmaDev) (irq : Irq) : XdmaDev × ℤ :=
  if pdev.requestIrq irq.line = 0 then ({ d with log := d.log ++ [.acquire irq] }, 0)
  else (d, pdev.requestIrq irq.line)

def freeIrq (d : XdmaDev) (irq : Irq) : XdmaDev := { d with log := d.log ++ [.release irq] }

def setMsixIrqLine (d : XdmaDev) (dir : DmaDir) (i : ℕ) (vector : U32) : XdmaDev :=
  { d with msixIrqLine := Function.update d.msixIrqLine dir (Function.update (d.msixIrqLine dir) i vector) }

def freeChannels (dir : DmaDir) : List ℕ → XdmaDev → XdmaDev
  | [], d => d
  | i :: is, d =>
    if d.msixIrqLine dir i = 0 then d
    else freeChannels dir is (d.freeIrq ⟨d.msixIrqLine dir i, .engine dir i⟩)

def irqMsixChannelTeardown (d : XdmaDev) : XdmaDev :=
  if !d.msixEnabled then d
  else
    let d := freeChannels .toDevice (List.range d.h2cChannelMax) d
    freeChannels .fromDevice (List.range d.c2hChannelMax) d

def requestChannels (pdev : PciDev) (dir : DmaDir) (j : ℕ) : List ℕ → XdmaDev → XdmaDev × ℤ
  | [], d => (d, 0)
  | i :: is, d =>
    let vector := pdev.pciIrqVector (j + i)
    let (d, rv) := d.requestIrq pdev ⟨vector, .engine dir i⟩
    if rv ≠ 0 then (d, rv) else requestChannels pdev dir j is (d.setMsixIrqLine dir i vector)

def irqMsixChannelSetup (pdev : PciDev) (d : XdmaDev) : XdmaDev × ℤ :=
  if !d.msixEnabled then (d, 0)
  else
    let (d, rv) := requestChannels pdev .toDevice 0 (List.range d.h2cChannelMax) d
    if rv ≠ 0 then (d, rv)
    else requestChannels pdev .fromDevice d.h2cChannelMax (List.range d.c2hChannelMax) d

def userIrq (pdev : PciDev) (d : XdmaDev) (i : ℕ) : Irq :=
  ⟨pdev.pciIrqVector (d.h2cChannelMax + d.c2hChannelMax + i), .userIrq i⟩

def freeUsers (pdev : PciDev) : List ℕ → XdmaDev → XdmaDev
  | [], d => d
  | i :: is, d => freeUsers pdev is (d.freeIrq (d.userIrq pdev i))

def irqMsixUserTeardown (pdev : PciDev) (d : XdmaDev) : XdmaDev :=
  if !d.msixEnabled then d else freeUsers pdev (List.range d.userMax) d

/-- The loop of `irq_msix_user_setup`. When a line is refused, those requested before it,
`done`, are freed again, the last one first. -/
def requestUsers (pdev : PciDev) (done : List ℕ) : List ℕ → XdmaDev → XdmaDev × ℤ
  | [], d => (d, 0)
  | i :: is, d =>
    let (d, rv) := d.requestIrq pdev (d.userIrq pdev i)
    if rv ≠ 0 then (freeUsers pdev done d, rv) else requestUsers pdev (i :: done) is d

def irqMsixUserSetup (pdev : PciDev) (d : XdmaDev) : XdmaDev × ℤ :=
  requestUsers pdev [] (List.range d.userMax) d

def irqMsiSetup (pdev : PciDev) (d : XdmaDev) : XdmaDev × ℤ :=
  requestIrq pdev { d with irqLine := pdev.irq } ⟨pdev.irq, .xdev⟩

def irqLegacySetup (pdev : PciDev) (d : XdmaDev) : XdmaDev × ℤ :=
  if pdev.interruptPin = 0 then (d, err .inval)
  else requestIrq pdev { d with irqLine := pdev.irq } ⟨pdev.irq, .xdev⟩

def irqTeardown (pdev : PciDev) (d : XdmaDev) : XdmaDev :=
  if d.msixEnabled then d.irqMsixChannelTeardown.irqMsixUserTeardown pdev
  else if d.irqLine ≠ -1 then d.freeIrq ⟨d.irqLine, .xdev⟩
  else d

def irqSetup (pdev : PciDev) (d : XdmaDev) : XdmaDev × ℤ :=
  if d.msixEnabled then
    let (d, rv) := d.irqMsixChannelSetup pdev
    if rv ≠ 0 then (d, rv)
    else
      let (d, rv) := d.irqMsixUserSetup pdev
      if rv ≠ 0 then (d, rv) else (d, 0)
  else if d.msiEnabled then d.irqMsiSetup pdev
  else d.irqLegacySetup pdev

def enableMsiMsix (interruptMode : ℕ) (pdev : PciDev) (d : XdmaDev) : XdmaDev × ℤ :=
  if (interruptMode = 3 ∨ interruptMode = 0) ∧ pdev.msixCapable then
    ({ d with msixEnabled := true }, pdev.pciAllocIrqVectors)
  else if (interruptMode = 1 ∨ interruptMode = 0) ∧ pdev.msiCapable then
    ({ d with msiEnabled := true }, pdev.pciEnableMsi)
  else (d, 0)

def disableMsiMsix (d : XdmaDev) : XdmaDev :=
  if d.msixEnabled then { d with msixEnabled := false }
  else if d.msiEnabled then { d with msiEnabled := false }
  else d

def clampMax (n max : ℕ) : ℕ := if n = 0 ∨ max < n then max else n

def xdmaDeviceClose (pdev : PciDev) (d : XdmaDev) : XdmaDev := (irqTeardown pdev d).disableMsiMsix

def xdmaDeviceOffline (pdev : PciDev) (d : XdmaDev) : XdmaDev := irqTeardown pdev d

/-- `xdma_device_online`, which does not look at the result of `irq_setup`. -/
def xdmaDeviceOnline (p : Params) (pdev : PciDev) (d : XdmaDev) : XdmaDev :=
  if p.pollMode then d else (irqSetup pdev d).1

end XdmaDev

namespace XdmaDev

variable (p : Params) (pdev : PciDev)

def channelIrq (dir : DmaDir) (j i : ℕ) : Irq := ⟨pdev.pciIrqVector (j + i), .engine dir i⟩

def lines (d : XdmaDev) : List Irq :=
  if d.msixEnabled then
    (List.range d.h2cChannelMax).map (channelIrq pdev .toDevice 0) ++
      (List.range d.c2hChannelMax).map (channelIrq pdev .fromDevice d.h2cChannelMax) ++
      (List.range d.userMax).map (d.userIrq pdev)
  else [⟨pdev.irq, .xdev⟩]

/-- What the driver relies on: `request_irq` succeeds, the vectors of the device are lines of
their own and none is line 0, and its `irq` is a line number. -/
structure LinesValid (d : XdmaDev) : Prop where
  answered : ∀ irq, pdev.requestIrq irq = 0
  distinct : Set.InjOn pdev.pciIrqVector {i | i < d.h2cChannelMax + d.c2hChannelMax + d.userMax}
  valid : ∀ i < d.h2cChannelMax + d.c2hChannelMax + d.userMax, pdev.pciIrqVector i ≠ 0
  irq : pdev.irq ≠ -1

structure LinesKnown (d : XdmaDev) : Prop where
  h2c : d.msixEnabled → ∀ i < d.h2cChannelMax, d.msixIrqLine .toDevice i = pdev.pciIrqVector i
  c2h : d.msixEnabled → ∀ i < d.c2hChannelMax,
    d.msixIrqLine .fromDevice i = pdev.pciIrqVector (d.h2cChannelMax + i)
  irqLine : d.msixEnabled = false → d.irqLine = pdev.irq

structure Logged (d d' : XdmaDev) (ops : List (Op Irq)) : Prop where
  userMax : d'.userMax = d.userMax
  h2cChannelMax : d'.h2cChannelMax = d.h2cChannelMax
  c2hChannelMax : d'.c2hChannelMax = d.c2hChannelMax
  msiEnabled : d'.msiEnabled = d.msiEnabled
  msixEnabled : d'.msixEnabled = d.msixEnabled
  log : d'.log = d.log ++ ops

variable {p pdev}

theorem Logged.refl (d : XdmaDev) : Logged d d [] := ⟨rfl, rfl, rfl, rfl, rfl, (List.append_nil _).symm⟩

theorem Logged.trans {d d' d'' : XdmaDev} {ops ops' : List (Op Irq)} (h : Logged d d' ops)
    (h' : Logged d' d'' ops') : Logged d d'' (ops ++ ops') :=
  ⟨h'.userMax.trans h.userMax, h'.h2cChannelMax.trans h.h2cChannelMax,
    h'.c2hChannelMax.trans h.c2hChannelMax, h'.msiEnabled.trans h.msiEnabled,
    h'.msixEnabled.trans h.msixEnabled, by rw [h'.log, h.log, List.append_assoc]⟩

theorem Logged.lines {d d' : XdmaDev} {ops : List (Op Irq)} (h : Logged d d' ops) :
    d'.lines pdev = d.lines pdev := by
  have huser : d'.userIrq pdev = d.userIrq pdev := by
    funext i
    rw [userIrq, userIrq, h.h2cChannelMax, h.c2hChannelMax]
  rw [XdmaDev.lines, XdmaDev.lines, h.msixEnabled, h.h2cChannelMax, h.c2hChannelMax, h.userMax, huser]

theorem Logged.valid {d d' : XdmaDev} {ops : List (Op Irq)} (h : Logged d d' ops)
    (hv : LinesValid pdev d) : LinesValid pdev d' := by
  obtain ⟨ha, hd, hz, hi⟩ := hv
  constructor
  · exact ha
  · rwa [h.userMax, h.h2cChannelMax, h.c2hChannelMax]
  · rwa [h.userMax, h.h2cChannelMax, h.c2hChannelMax]
  · exact hi

def withChannels (pdev : PciDev) (dir : DmaDir) (j : ℕ) (is : List ℕ) (line : DmaDir → ℕ → U32) :
    DmaDir → ℕ → U32 :=
  fun dir' i => if dir' = dir ∧ i ∈ is then pdev.pciIrqVector (j + i) else line dir' i

@[simp] theorem withChannels_nil (dir : DmaDir) (j : ℕ) (line : DmaDir → ℕ → U32) :
    withChannels pdev dir j [] line = line := by
  funext dir' i
  simp [withChannels]

theorem withChannels_cons (d : XdmaDev) (dir : DmaDir) (j i : ℕ) (is : List ℕ) :
    withChannels pdev dir j is (d.setMsixIrqLine dir i (pdev.pciIrqVector (j + i))).msixIrqLine =
      withChannels pdev dir j (i :: is) d.msixIrqLine := by
  funext dir' i'
  by_cases hdir : dir' = dir
  · subst hdir
    by_cases hi : i' = i
    · subst hi
      simp [withChannels, setMsixIrqLine]
    · simp [withChannels, setMsixIrqLine, hi]
  · simp [withChannels, setMsixIrqLine, hdir]

theorem withChannels_of_mem {dir : DmaDir} {j i : ℕ} {is : List ℕ} (h : i ∈ is) (line : DmaDir → ℕ → U32) :
    withChannels pdev dir j is line dir i = pdev.pciIrqVector (j + i) := if_pos ⟨rfl, h⟩

theorem withChannels_of_ne {dir dir' : DmaDir} (h : dir' ≠ dir) (j i : ℕ) (is : List ℕ)
    (line : DmaDir → ℕ → U32) : withChannels pdev dir j is line dir' i = line dir' i :=
  if_neg fun h' => h h'.1

def logged (d : XdmaDev) (ops : List (Op Irq)) : XdmaDev := { d with log := d.log ++ ops }

def withLines (d : XdmaDev) (line : DmaDir → ℕ → U32) : XdmaDev := { d with msixIrqLine := line }

section

variable (d : XdmaDev) (ops : List (Op Irq)) (line : DmaDir → ℕ → U32)

@[simp] theorem logged_userMax : (d.logged ops).userMax = d.userMax := rfl
@[simp] theorem logged_h2cChannelMax : (d.logged ops).h2cChannelMax = d.h2cChannelMax := rfl
@[simp] theorem logged_c2hChannelMax : (d.logged ops).c2hChannelMax = d.c2hChannelMax := rfl
@[simp] theorem logged_msixEnabled : (d.logged ops).msixEnabled = d.msixEnabled := rfl
@[simp] theorem logged_msixIrqLine : (d.logged ops).msixIrqLine = d.msixIrqLine := rfl
@[simp] theorem withLines_userMax : (d.withLines line).userMax = d.userMax := rfl
@[simp] theorem withLines_h2cChannelMax : (d.withLines line).h2cChannelMax = d.h2cChannelMax := rfl
@[simp] theorem withLines_c2hChannelMax : (d.withLines line).c2hChannelMax = d.c2hChannelMax := rfl
@[simp] theorem withLines_msixEnabled : (d.withLines line).msixEnabled = d.msixEnabled := rfl
@[simp] theorem withLines_msixIrqLine : (d.withLines line).msixIrqLine = line := rfl

theorem logged_nil : d.logged [] = d := by rw [logged, List.append_nil]

theorem logged_logged (ops' : List (Op Irq)) : (d.logged ops).logged ops' = d.logged (ops ++ ops') := by
  simp only [logged, List.append_assoc]

theorem logged_spec : Logged d (d.logged ops) ops := ⟨rfl, rfl, rfl, rfl, rfl, rfl⟩

theorem withLines_spec : Logged d (d.withLines line) [] := ⟨rfl, rfl, rfl, rfl, rfl, (List.append_nil _).symm⟩

end

theorem requestIrq_eq (ha : ∀ irq, pdev.requestIrq irq = 0) (d : XdmaDev) (irq : Irq) :
    d.requestIrq pdev irq = (d.logged [.acquire irq], 0) := if_pos (ha irq.line)

theorem requestChannels_eq (ha : ∀ irq, pdev.requestIrq irq = 0) (dir : DmaDir) (j : ℕ) (is : List ℕ)
    (d : XdmaDev) : requestChannels pdev dir j is d =
      ((d.withLines (withChannels pdev dir j is d.msixIrqLine)).logged
        (block (is.map (channelIrq pdev dir j)) true), 0) := by
  induction is generalizing d with
  | nil => simp [requestChannels, block, logged_nil, withLines]
  | cons i is ih =>
    rw [requestChannels]
    simp only [requestIrq_eq ha, ne_eq, not_true_eq_false, ↓reduceIte, ih, withChannels_cons]
    change (logged (logged (d.withLines _) [_]) _, (0 : ℤ)) = _
    rw [logged_logged]
    rfl

theorem freeChannels_eq {dir : DmaDir} {j : ℕ} {is : List ℕ} {d : XdmaDev}
    (hline : ∀ i ∈ is, d.msixIrqLine dir i = pdev.pciIrqVector (j + i))
    (hvalid : ∀ i ∈ is, pdev.pciIrqVector (j + i) ≠ 0) :
    freeChannels dir is d = d.logged (block (is.map (channelIrq pdev dir j)) false) := by
  induction is generalizing d with
  | nil => exact (logged_nil d).symm
  | cons i is ih =>
    have hi := hline i (List.mem_cons_self ..)
    have hrest : ∀ k ∈ is, (d.logged [.release (channelIrq pdev dir j i)]).msixIrqLine dir k =
        pdev.pciIrqVector (j + k) := fun k hk => hline k (List.mem_cons_of_mem _ hk)
    rw [freeChannels, hi, if_neg (hvalid i (List.mem_cons_self ..))]
    change freeChannels dir is (d.logged [.release (channelIrq pdev dir j i)]) = _
    rw [ih hrest fun k hk => hvalid k (List.mem_cons_of_mem _ hk)]
    exact logged_logged d [_] _

theorem requestUsers_eq (ha : ∀ irq, pdev.requestIrq irq = 0) (done is : List ℕ) (d : XdmaDev) :
    requestUsers pdev done is d = (d.logged (block (is.map (d.userIrq pdev)) true), 0) := by
  induction is generalizing done d with
  | nil => simp [requestUsers, block, logged_nil]
  | cons i is ih =>
    rw [requestUsers]
    simp only [requestIrq_eq ha, ne_eq, not_true_eq_false, ↓reduceIte, ih, logged_logged]
    rfl

theorem freeUsers_eq (is : List ℕ) (d : XdmaDev) :
    freeUsers pdev is d = d.logged (block (is.map (d.userIrq pdev)) false) := by
  induction is generalizing d with
  | nil => exact (logged_nil d).symm
  | cons i is ih =>
    rw [freeUsers, ih]
    exact logged_logged d [_] _

theorem block_append (xs ys : List Irq) (b : Bool) : block (xs ++ ys) b = block xs b ++ block ys b := by
  cases b <;> exact List.map_append

def setupLines (pdev : PciDev) (d : XdmaDev) : DmaDir → ℕ → U32 :=
  withChannels pdev .fromDevice d.h2cChannelMax (List.range d.c2hChannelMax)
    (withChannels pdev .toDevice 0 (List.range d.h2cChannelMax) d.msixIrqLine)

theorem setupLines_toDevice (d : XdmaDev) {i : ℕ} (hi : i < d.h2cChannelMax) :
    setupLines pdev d .toDevice i = pdev.pciIrqVector i := by
  rw [setupLines, withChannels_of_ne (by decide), withChannels_of_mem (List.mem_range.mpr hi), Nat.zero_add]

theorem setupLines_fromDevice (d : XdmaDev) {i : ℕ} (hi : i < d.c2hChannelMax) :
    setupLines pdev d .fromDevice i = pdev.pciIrqVector (d.h2cChannelMax + i) := by
  rw [setupLines, withChannels_of_mem (List.mem_range.mpr hi)]

theorem irqSetup_msix {d : XdmaDev} (ha : ∀ irq, pdev.requestIrq irq = 0) (hx : d.msixEnabled = true) :
    irqSetup pdev d = ((d.withLines (setupLines pdev d)).logged (block (d.lines pdev) true), 0) := by
  rw [lines, if_pos hx, block_append, block_append, ← logged_logged, ← logged_logged]
  simp only [irqSetup, irqMsixChannelSetup, irqMsixUserSetup, hx, requestChannels_eq ha, requestUsers_eq ha,
    ↓reduceIte, Bool.not_true, Bool.false_eq_true, ne_eq, not_true_eq_false]
  rfl

theorem irqSetup_spec {d : XdmaDev} (ha : ∀ irq, pdev.requestIrq irq = 0)
    (hpin : d.msixEnabled = false → d.msiEnabled = false → pdev.interruptPin ≠ 0) :
    (irqSetup pdev d).2 = 0 ∧ LinesKnown pdev (irqSetup pdev d).1 ∧
      Logged d (irqSetup pdev d).1 (block (d.lines pdev) true) := by
  cases hx : d.msixEnabled with
  | true =>
    rw [irqSetup_msix ha hx]
    refine ⟨rfl, ⟨?_, ?_, ?_⟩, (withLines_spec d _).trans (logged_spec _ _)⟩
    · exact fun _ i hi => setupLines_toDevice d hi
    · exact fun _ i hi => setupLines_fromDevice d hi
    · simp [hx]
  | false =>
    have hlines : d.lines pdev = [⟨pdev.irq, .xdev⟩] := if_neg (by simp [hx])
    have hknown : ∀ d' : XdmaDev, d'.msixEnabled = false → d'.irqLine = pdev.irq → LinesKnown pdev d' := by
      intro d' hx' hirq
      exact ⟨by simp [hx'], by simp [hx'], fun _ => hirq⟩
    rw [irqSetup, if_neg (by simp [hx])]
    cases hm : d.msiEnabled with
    | true =>
      simp only [↓reduceIte, irqMsiSetup, requestIrq_eq ha, hlines, true_and]
      exact ⟨hknown _ hx rfl, rfl, rfl, rfl, rfl, rfl, rfl⟩
    | false =>
      simp only [Bool.false_eq_true, ↓reduceIte, irqLegacySetup, hpin hx hm, requestIrq_eq ha, hlines,
        true_and]
      exact ⟨hknown _ hx rfl, rfl, rfl, rfl, rfl, rfl, rfl⟩

theorem irqTeardown_eq {d : XdmaDev} (hk : LinesKnown pdev d) (hv : LinesValid pdev d) :
    irqTeardown pdev d = d.logged (block (d.lines pdev) false) := by
  unfold irqTeardown
  cases hx : d.msixEnabled with
  | true =>
    have hh : ∀ i ∈ List.range d.h2cChannelMax, d.msixIrqLine .toDevice i = pdev.pciIrqVector (0 + i) := by
      intro i hi
      rw [hk.h2c hx i (List.mem_range.mp hi), Nat.zero_add]
    have hhv : ∀ i ∈ List.range d.h2cChannelMax, pdev.pciIrqVector (0 + i) ≠ 0 := by
      intro i hi
      have := List.mem_range.mp hi
      exact hv.valid _ (by omega)
    have hc : ∀ i ∈ List.range d.c2hChannelMax,
        d.msixIrqLine .fromDevice i = pdev.pciIrqVector (d.h2cChannelMax + i) :=
      fun i hi => hk.c2h hx i (List.mem_range.mp hi)
    have hcv : ∀ i ∈ List.range d.c2hChannelMax, pdev.pciIrqVector (d.h2cChannelMax + i) ≠ 0 := by
      intro i hi
      have := List.mem_range.mp hi
      exact hv.valid _ (by omega)
    simp only [↓reduceIte, irqMsixChannelTeardown, hx, Bool.not_true, Bool.false_eq_true,
      freeChannels_eq hh hhv, irqMsixUserTeardown]
    rw [logged_c2hChannelMax, freeChannels_eq (d := d.logged _) hc hcv, logged_logged]
    simp only [logged_msixEnabled, hx, Bool.not_true, Bool.false_eq_true, ↓reduceIte,
      freeUsers_eq, logged_logged]
    rw [lines, if_pos hx, block_append, block_append]
    rfl
  | false =>
    have hlines : d.lines pdev = [⟨pdev.irq, .xdev⟩] := if_neg (by simp [hx])
    rw [if_neg (by decide), hk.irqLine hx, if_pos hv.irq, hlines]
    rfl

structure Open (pdev : PciDev) (d : XdmaDev) : Prop where
  known : LinesKnown pdev d
  valid : LinesValid pdev d
  pin : d.msixEnabled = false → d.msiEnabled = false → pdev.interruptPin ≠ 0

theorem Logged.open {d d' : XdmaDev} {ops : List (Op Irq)} (h : Logged d d' ops) (ho : Open pdev d)
    (hk : LinesKnown pdev d') : Open pdev d' :=
  ⟨hk, h.valid ho.valid, fun hx hm => ho.pin (h.msixEnabled ▸ hx) (h.msiEnabled ▸ hm)⟩

theorem offline_spec {d : XdmaDev} (ho : Open pdev d) : Open pdev (d.xdmaDeviceOffline pdev) ∧
    Logged d (d.xdmaDeviceOffline pdev) (block (d.lines pdev) false) := by
  rw [xdmaDeviceOffline, irqTeardown_eq ho.known ho.valid]
  have hlog := logged_spec d (block (d.lines pdev) false)
  exact ⟨hlog.open ho ⟨ho.known.h2c, ho.known.c2h, ho.known.irqLine⟩, hlog⟩

theorem clampMax_pos {max : ℕ} (h : 0 < max) (n : ℕ) : 0 < clampMax n max := by
  unfold clampMax
  split_ifs with hn
  · exact h
  · omega

theorem clampMax_le (n max : ℕ) : clampMax n max ≤ max := by
  unfold clampMax
  split <;> omega

theorem lines_line (d : XdmaDev) (hx : d.msixEnabled = true) : (d.lines pdev).map Irq.line =
    (List.range (d.h2cChannelMax + d.c2hChannelMax + d.userMax)).map pdev.pciIrqVector := by
  rw [lines, if_pos hx, List.range_add, List.range_add]
  simp only [List.map_append, List.map_map]
  congr 2
  apply List.map_congr_left
  intro i _
  exact congrArg pdev.pciIrqVector (Nat.zero_add i)

theorem lines_nodup {d : XdmaDev} (hv : LinesValid pdev d) : ((d.lines pdev).map Irq.line).Nodup := by
  cases hx : d.msixEnabled with
  | true =>
    rw [lines_line d hx]
    apply List.Nodup.map_on _ List.nodup_range
    intro i hi j hj hij
    exact hv.distinct (List.mem_range.mp hi) (List.mem_range.mp hj) hij
  | false =>
    rw [lines, if_neg (by simp [hx])]
    exact List.nodup_singleton _

theorem lines_ne_nil {d : XdmaDev} (hu : 0 < d.userMax) : d.lines pdev ≠ [] := by
  unfold lines
  split_ifs
  · intro h
    have := congrArg List.length h
    simp at this
    omega
  · exact List.cons_ne_nil _ _

def msixDevice : PciDev :=
  { irq := 11, msixCapable := true, pciIrqVector := fun i => BitVec.ofNat 32 (40 + i) }

theorem msixDevice_valid {d : XdmaDev} (h : d.h2cChannelMax + d.c2hChannelMax + d.userMax ≤ 24) :
    LinesValid msixDevice d := by
  have hline : ∀ i < 24, (msixDevice.pciIrqVector i).toNat = 40 + i := by
    intro i hi
    exact (BitVec.toNat_ofNat ..).trans (Nat.mod_eq_of_lt (by omega))
  refine ⟨fun _ => rfl, ?_, ?_, by decide⟩
  · intro i hi j hj hij
    have hnat := congrArg BitVec.toNat hij
    rw [hline i (lt_of_lt_of_le hi h), hline j (lt_of_lt_of_le hj h)] at hnat
    omega
  · intro i hi hz
    have hnat := congrArg BitVec.toNat hz
    rw [hline i (lt_of_lt_of_le hi h)] at hnat
    change 40 + i = 0 at hnat
    omega

end XdmaDev

end XdmaDriver
