import XdmaDriver.Types
import Mathlib.Tactic.Ring

/-!
The control and user nodes: register reads and writes at the file position, and `bridge_mmap`.
-/

namespace XdmaDriver

def eproto : ℤ := 71
def eagain : ℤ := 11
def pageShift : ℕ := 12
def intMax : U64 := 0x7fffffff

/-- A BAR of the device. Where it is present its length is a power of two and its start a
multiple of that. -/
structure PciBar where
  start : U64
  len : U64
  natural : len ≠ 0 → (∃ k, len.toNat = 2 ^ k) ∧ len.toNat ∣ start.toNat

namespace PciBar

def resourceEnd (b : PciBar) : U64 := b.start + b.len - 1

def Contains (b : PciBar) (a : U64) : Prop := b.start.toNat ≤ a.toNat ∧ a.toNat < b.start.toNat + b.len.toNat

instance (b : PciBar) (a : U64) : Decidable (b.Contains a) := inferInstanceAs (Decidable (_ ∧ _))

def mapLen (b : PciBar) : U64 := if intMax < b.len then intMax else b.len

end PciBar

/-- `xdev->bar[idx]`, zero where nothing is mapped, and the value returned. -/
def mapSingleBar (b : PciBar) (pciIomap : U64 → U64) : U64 × ℤ :=
  if b.len = 0 then (0, 0)
  else
    let bar := pciIomap b.mapLen
    if bar = 0 then (0, -1) else (bar, (b.mapLen.setWidth 32).toInt)

/-- What `pci_iomap` returns for a length, and how many bytes it maps: at least those asked
for, up to the end of a page. -/
structure Iomap where
  addr : U64 → U64
  bytes : U64 → U64
  covers : ∀ len, addr len ≠ 0 → len ≤ bytes len
  fits : ∀ len, addr len ≠ 0 → (addr len).toNat + (bytes len).toNat ≤ 2 ^ 64

structure CtrlNode where
  bar : PciBar
  iomap : Iomap
  mapped : (mapSingleBar bar iomap.addr).1 ≠ 0

structure VmArea where
  vmStart : U64
  vmEnd : U64
  vmPgoff : U64
  nonempty : vmStart < vmEnd
  aligned : 2 ^ pageShift ∣ vmStart.toNat ∧ 2 ^ pageShift ∣ vmEnd.toNat

inductive Given
  | ioread32 (reg : U64)
  | iowrite32 (w : U32) (reg : U64)
  | pages (pfn vsize : U64)
  deriving DecidableEq, Repr

/-- The value returned, the file position after the call, what it gave access to and the
bytes written to the user buffer. -/
structure CtrlOutcome where
  rv : ℤ
  pos : U64
  given : Option Given := none
  stored : List U8 := []
  deriving DecidableEq, Repr

namespace CtrlNode

variable (n : CtrlNode)

def base : U64 := (mapSingleBar n.bar n.iomap.addr).1

/-- `rv` is the result of `xcdev_check`, `w` the register and `uncopied` the bytes that the copy
to the user leaves. The count is not looked at. -/
def charCtrlRead (check : ℤ) (w : U32) (uncopied : ℕ) (_count pos : U64) : CtrlOutcome :=
  if check < 0 then { rv := check, pos := pos }
  else if pos &&& 3 ≠ 0 then { rv := -eproto, pos := pos }
  else
    { rv := 4
      pos := pos + 4
      given := some (.ioread32 (n.base + pos))
      stored := (List.range (4 - uncopied)).map fun i => (w >>> (8 * i)).setWidth 8 }

def charCtrlWrite (check : ℤ) (w : U32) (_count pos : U64) : CtrlOutcome :=
  if check < 0 then { rv := check, pos := pos }
  else if pos &&& 3 ≠ 0 then { rv := -eproto, pos := pos }
  else { rv := 4, pos := pos + 4, given := some (.iowrite32 w (n.base + pos)) }

def mmapOff (vma : VmArea) : U64 := vma.vmPgoff <<< pageShift

/-- The bytes of the resource from the offset on. The difference is one of unsigned longs. -/
def psize (vma : VmArea) : U64 := n.bar.resourceEnd - n.bar.start + 1 - mmapOff vma

/-- `remap` is the result of `io_remap_pfn_range`; the area goes with the call when it fails. -/
def bridgeMmap (check : ℤ) (vma : VmArea) (remap : ℤ) (pos : U64) : CtrlOutcome :=
  let phys := n.bar.start + mmapOff vma
  let vsize := vma.vmEnd - vma.vmStart
  if check < 0 then { rv := check, pos := pos }
  else if n.psize vma < vsize then { rv := err .inval, pos := pos }
  else if remap ≠ 0 then { rv := -eagain, pos := pos }
  else { rv := 0, pos := pos, given := some (.pages (phys >>> pageShift) vsize) }

/-- Where a kernel address leads to on the bus, through the mapping of the BAR. -/
def busAddress (a : U64) : Option U64 :=
  let bytes := n.iomap.bytes n.bar.mapLen
  if n.base.toNat ≤ a.toNat ∧ a.toNat < n.base.toNat +
    bytes.toNat then some (n.bar.start + (a - n.base)) else none

def Inside : Given → Prop
  | .ioread32 reg | .iowrite32 _ reg => ∀ i < 4, ∃ a ∈
      n.busAddress (reg + BitVec.ofNat 64 i), n.bar.Contains a
  | .pages pfn vsize => ∀ i < vsize.toNat, n.bar.Contains (pfn <<< pageShift + BitVec.ofNat 64 i)

def window : ℕ := min (n.iomap.bytes n.bar.mapLen).toNat n.bar.len.toNat

end CtrlNode

/-- The calls on an open node. A user sets the position with `lseek`, or passes it with a call. -/
inductive CtrlCall
  | lseek (pos : U64)
  | read (check : ℤ) (w : U32) (uncopied : ℕ) (count : U64)
  | write (check : ℤ) (w : U32) (count : U64)
  | mmap (check : ℤ) (vma : VmArea) (remap : ℤ)

def CtrlCall.Room (stored : ℕ) : CtrlCall → Prop
  | .read _ _ _ count => stored ≤ count.toNat
  | _ => True

namespace CtrlNode

variable (n : CtrlNode)

def call (pos : U64) : CtrlCall → CtrlOutcome
  | .lseek pos' => { rv := 0, pos := pos' }
  | .read check w uncopied count => n.charCtrlRead check w uncopied count pos
  | .write check w count => n.charCtrlWrite check w count pos
  | .mmap check vma remap => n.bridgeMmap check vma remap pos

def trace : U64 → List CtrlCall → List (U64 × CtrlCall)
  | _, [] => []
  | pos, c :: cs => (pos, c) :: trace (n.call pos c).pos cs

def Confined (pos : U64) (c : CtrlCall) : Prop :=
  (∀ g ∈ (n.call pos c).given, n.Inside g) ∧ c.Room (n.call pos c).stored.length

def Refused (check : ℤ) (pos : U64) : Prop := check < 0 ∨ pos &&& 3 ≠ 0

instance (check : ℤ) (pos : U64) : Decidable (Refused check pos) := inferInstanceAs (Decidable (_ ∨ _))

/-- The register lies in the part of the BAR that is mapped, a read asks for what it gets, and
the offset of a mapping is not beyond the end of the BAR. -/
def Within (pos : U64) : CtrlCall → Prop
  | .lseek _ => True
  | .read check _ uncopied count => Refused check pos ∨ pos.toNat + 4 ≤ n.window ∧ 4 - uncopied ≤ count.toNat
  | .write check _ _ => Refused check pos ∨ pos.toNat + 4 ≤ n.window
  | .mmap check vma remap => check < 0 ∨ n.psize vma < vma.vmEnd - vma.vmStart ∨ remap ≠ 0 ∨
      mmapOff vma ≤ n.bar.len

end CtrlNode

theorem add_le_of_dvd {d s m : ℕ} (hs : d ∣ s) (hm : d ∣ m) (h : s < m) : s + d ≤ m := by
  have := Nat.le_of_dvd (Nat.sub_pos_of_lt h) (Nat.dvd_sub hm hs)
  omega

theorem window_iff {base a : U64} {size : ℕ} (h : base.toNat + size ≤ 2 ^ 64) :
    base.toNat ≤ a.toNat ∧ a.toNat < base.toNat + size ↔ (a - base).toNat < size := by
  have := a.isLt
  have := base.isLt
  rw [BitVec.toNat_sub]
  omega

theorem aligned_iff (pos : U64) : pos &&& 3 = 0 ↔ pos.toNat % 4 = 0 := by
  rw [← BitVec.toNat_inj, BitVec.toNat_and]
  change pos.toNat &&& (2 ^ 2 - 1) = 0 ↔ _
  rw [Nat.and_two_pow_sub_one_eq_mod]

namespace PciBar

variable {b : PciBar} (h : b.len ≠ 0)

include h

theorem fits : b.start.toNat + b.len.toNat ≤ 2 ^ 64 := by
  obtain ⟨⟨k, hk⟩, hdvd⟩ := b.natural h
  apply add_le_of_dvd hdvd _ b.start.isLt
  rw [hk]
  refine Nat.pow_dvd_pow 2 (Nat.le_of_lt ((Nat.pow_lt_pow_iff_right one_lt_two).mp ?_))
  rw [← hk]
  exact b.len.isLt

theorem start_in_page : b.start.toNat % 2 ^ pageShift + min b.len.toNat (2 ^ pageShift) ≤ 2 ^ pageShift := by
  obtain ⟨⟨k, hk⟩, hdvd⟩ := b.natural h
  rw [hk] at hdvd ⊢
  have hpage : b.start.toNat % 2 ^ pageShift < 2 ^ pageShift := Nat.mod_lt _ (Nat.two_pow_pos _)
  by_cases hle : k ≤ pageShift
  · have hpow := Nat.pow_dvd_pow 2 hle
    rw [min_eq_left (Nat.le_of_dvd (Nat.two_pow_pos _) hpow)]
    exact add_le_of_dvd ((Nat.dvd_mod_iff hpow).mpr hdvd) hpow hpage
  · have hpow := Nat.pow_dvd_pow 2 (Nat.le_of_not_le hle)
    rw [Nat.mod_eq_zero_of_dvd (hpow.trans hdvd), zero_add]
    exact min_le_right _ _

theorem contains_iff (a : U64) : b.Contains a ↔ (a - b.start).toNat < b.len.toNat := window_iff (fits h)

end PciBar

namespace CtrlNode

variable {n : CtrlNode}

theorem present (n : CtrlNode) : n.bar.len ≠ 0 := by
  intro h
  apply n.mapped
  rw [mapSingleBar, if_pos h]

theorem base_eq (n : CtrlNode) : n.base = n.iomap.addr n.bar.mapLen ∧ n.base ≠ 0 := by
  refine ⟨?_, n.mapped⟩
  have hbase := n.mapped
  unfold base mapSingleBar at *
  rw [if_neg n.present] at hbase ⊢
  dsimp only at hbase ⊢
  split_ifs at hbase ⊢
  · exact absurd rfl hbase
  · rfl

theorem base_fits (n : CtrlNode) : n.base.toNat + (n.iomap.bytes n.bar.mapLen).toNat ≤ 2 ^ 64 := by
  obtain ⟨heq, hne⟩ := n.base_eq
  rw [heq] at hne ⊢
  exact n.iomap.fits _ hne

theorem busAddress_inside_iff (x : U64) :
    (∃ a ∈ n.busAddress (n.base + x), n.bar.Contains a) ↔ x.toNat < n.window := by
  have hfits := n.base_fits
  have hx : (n.base + x - n.base).toNat = x.toNat := by rw [add_sub_cancel_left]
  have hin := window_iff (a := n.base + x) hfits
  rw [hx] at hin
  rw [busAddress, window, lt_min_iff, ← hin]
  split_ifs with h
  · simp only [Option.mem_some_iff, exists_eq_left', PciBar.contains_iff n.present,
      add_sub_cancel_left, h, true_and]
  · simp only [Option.not_mem_none, false_and, exists_false, h]

theorem register_inside_iff {pos : U64} (h : pos &&& 3 = 0) :
    (∀ i < 4, ∃ a ∈ n.busAddress (n.base + pos + BitVec.ofNat 64 i), n.bar.Contains a) ↔
      pos.toNat + 4 ≤ n.window := by
  have hmod := (aligned_iff pos).mp h
  have hlt := pos.isLt
  have hadd : ∀ i < 4, (pos + BitVec.ofNat 64 i).toNat = pos.toNat + i := by
    intro i hi
    rw [BitVec.toNat_add, BitVec.toNat_ofNat]
    omega
  simp only [add_assoc, busAddress_inside_iff]
  constructor
  · intro hall
    have hlast := hall 3 (by omega)
    rw [hadd 3 (by omega)] at hlast
    omega
  · intro hle i hi
    rw [hadd i hi]
    omega

theorem toNat_mmapOff (vma : VmArea) : (mmapOff vma).toNat % 2 ^ pageShift = 0 := by
  rw [mmapOff, BitVec.toNat_shiftLeft, Nat.shiftLeft_eq]
  simp only [pageShift]
  omega

theorem psize_eq (vma : VmArea) : n.psize vma = n.bar.len - mmapOff vma := by
  rw [psize, PciBar.resourceEnd]
  ring

theorem toNat_page (phys : U64) :
    (phys >>> pageShift <<< pageShift).toNat = phys.toNat - phys.toNat % 2 ^ pageShift := by
  have := phys.isLt
  rw [BitVec.toNat_shiftLeft, BitVec.toNat_ushiftRight, Nat.shiftLeft_eq, Nat.shiftRight_eq_div_pow]
  simp only [pageShift]
  omega

theorem pages_inside_iff {vma : VmArea} (h : ¬ n.psize vma < vma.vmEnd - vma.vmStart) :
    n.Inside (.pages ((n.bar.start + mmapOff vma) >>> pageShift) (vma.vmEnd - vma.vmStart)) ↔
      mmapOff vma ≤ n.bar.len := by
  have hvsize : (vma.vmEnd - vma.vmStart).toNat = vma.vmEnd.toNat - vma.vmStart.toNat :=
    BitVec.toNat_sub_of_le (BitVec.le_of_lt vma.nonempty)
  have hnonempty := BitVec.lt_def.mp vma.nonempty
  obtain ⟨hstart, hend⟩ := vma.aligned
  have hoff := toNat_mmapOff vma
  have hofflt := (mmapOff vma).isLt
  have hpage := PciBar.start_in_page n.present
  have hfits := PciBar.fits n.present
  have hroom := BitVec.not_lt.mp h
  have hpos : 0 < n.bar.len.toNat := by
    have := BitVec.toNat_inj.not.mpr n.present
    exact Nat.pos_of_ne_zero this
  rw [psize_eq, BitVec.le_def, hvsize, BitVec.toNat_sub] at hroom
  rw [BitVec.le_def]
  simp only [Inside, PciBar.Contains, BitVec.toNat_add, toNat_page, BitVec.toNat_ofNat, hvsize]
  simp only [pageShift] at *
  generalize n.bar.start.toNat = s at *
  generalize n.bar.len.toNat = l at *
  generalize (mmapOff vma).toNat = o at *
  constructor
  · intro hall
    have hfirst := hall 0 (by omega)
    omega
  · intro hle i hi
    omega

theorem confined_none {pos : U64} {c : CtrlCall} (hgiven : (n.call pos c).given = none)
    (hstored : (n.call pos c).stored = []) : n.Confined pos c := by
  refine ⟨?_, ?_⟩
  · rw [hgiven]
    exact fun g hg => absurd hg (Option.not_mem_none g)
  · rw [hstored]
    cases c with
    | read check w uncopied count => exact Nat.zero_le _
    | _ => trivial

theorem confined_some {pos : U64} {c : CtrlCall} {g : Given} (h : (n.call pos c).given = some g) :
    n.Confined pos c ↔ n.Inside g ∧ c.Room (n.call pos c).stored.length := by
  rw [Confined, h]
  simp only [Option.mem_some_iff, forall_eq']

theorem read_confined_iff (pos : U64) (check : ℤ) (w : U32) (uncopied : ℕ) (count : U64) :
    n.Confined pos (.read check w uncopied count) ↔ n.Within pos (.read check w uncopied count) := by
  by_cases hcheck : check < 0
  · refine iff_of_true (confined_none ?_ ?_) (.inl (.inl hcheck))
    all_goals
      rw [call, charCtrlRead, if_pos hcheck]
  by_cases halign : pos &&& 3 ≠ 0
  · refine iff_of_true (confined_none ?_ ?_) (.inl (.inr halign))
    all_goals
      rw [call, charCtrlRead, if_neg hcheck, if_pos halign]
  have hcall : n.call pos (.read check w uncopied count) = n.charCtrlRead check w uncopied count pos := rfl
  rw [charCtrlRead, if_neg hcheck, if_neg halign] at hcall
  rw [confined_some (congrArg CtrlOutcome.given hcall), hcall, Inside,
    register_inside_iff (Classical.not_not.mp halign)]
  simp only [CtrlCall.Room, List.length_map, List.length_range, Within, Refused, hcheck, halign, false_or]

theorem write_confined_iff (pos : U64) (check : ℤ) (w : U32) (count : U64) :
    n.Confined pos (.write check w count) ↔ n.Within pos (.write check w count) := by
  by_cases hcheck : check < 0
  · refine iff_of_true (confined_none ?_ ?_) (.inl (.inl hcheck))
    all_goals
      rw [call, charCtrlWrite, if_pos hcheck]
  by_cases halign : pos &&& 3 ≠ 0
  · refine iff_of_true (confined_none ?_ ?_) (.inl (.inr halign))
    all_goals
      rw [call, charCtrlWrite, if_neg hcheck, if_pos halign]
  have hcall : n.call pos (.write check w count) = n.charCtrlWrite check w count pos := rfl
  rw [charCtrlWrite, if_neg hcheck, if_neg halign] at hcall
  rw [confined_some (congrArg CtrlOutcome.given hcall), Inside,
    register_inside_iff (Classical.not_not.mp halign)]
  simp only [CtrlCall.Room, and_true, Within, Refused, hcheck, halign, false_or]

theorem mmap_confined_iff (pos : U64) (check : ℤ) (vma : VmArea) (remap : ℤ) :
    n.Confined pos (.mmap check vma remap) ↔ n.Within pos (.mmap check vma remap) := by
  by_cases hcheck : check < 0
  · refine iff_of_true (confined_none ?_ ?_) (.inl hcheck)
    all_goals
      simp only [call, bridgeMmap, if_pos hcheck]
  by_cases hroom : n.psize vma < vma.vmEnd - vma.vmStart
  · refine iff_of_true (confined_none ?_ ?_) (.inr (.inl hroom))
    all_goals
      simp only [call, bridgeMmap, if_neg hcheck, if_pos hroom]
  by_cases hremap : remap ≠ 0
  · refine iff_of_true (confined_none ?_ ?_) (.inr (.inr (.inl hremap)))
    all_goals
      simp only [call, bridgeMmap, if_neg hcheck, if_neg hroom, if_pos hremap]
  have hcall : n.call pos (.mmap check vma remap) = n.bridgeMmap check vma remap pos := rfl
  simp only [bridgeMmap, if_neg hcheck, if_neg hroom, if_neg hremap] at hcall
  rw [confined_some (congrArg CtrlOutcome.given hcall), pages_inside_iff hroom]
  simp only [CtrlCall.Room, and_true, Within, hcheck, hroom, hremap, false_or]

theorem confined_iff (pos : U64) (c : CtrlCall) : n.Confined pos c ↔ n.Within pos c := by
  cases c with
  | lseek pos' => exact iff_of_true (confined_none rfl rfl) trivial
  | read check w uncopied count => exact read_confined_iff pos check w uncopied count
  | write check w count => exact write_confined_iff pos check w count
  | mmap check vma remap => exact mmap_confined_iff pos check vma remap

/-- The calls on a node stay in its BAR exactly if each is refused or asks for what is there. -/
theorem trace_confined_iff (n : CtrlNode) (pos : U64) (cs : List CtrlCall) :
    (∀ x ∈ n.trace pos cs, n.Confined x.1 x.2) ↔ ∀ x ∈ n.trace pos cs, n.Within x.1 x.2 :=
  forall₂_congr fun x _ => confined_iff x.1 x.2

def userNode : CtrlNode where
  bar := ⟨0xf0000000, 0x10000, fun _ => ⟨⟨16, rfl⟩, ⟨0xf000, rfl⟩⟩⟩
  iomap :=
    { addr := fun len => if len = 0x10000 then 0xffffc90000000000 else 0
      bytes := fun len => len
      covers := fun _ _ => BitVec.le_refl _
      fits := by
        intro len h
        have hlen : len = 0x10000 := by_contra fun hne => h (if_neg hne)
        rw [hlen]
        decide }
  mapped := by decide

/-- The register behind the last one is read. -/
theorem not_confined : ¬ ∀ (n : CtrlNode) (pos : U64) (cs : List CtrlCall),
    ∀ x ∈ n.trace pos cs, n.Confined x.1 x.2 := by
  intro h
  have hread := h userNode 0x10000 [.read 0 0 0 4] (0x10000, .read 0 0 0 4) (List.mem_cons_self)
  rw [confined_iff] at hread
  rcases hread with hrefused | ⟨hin, -⟩
  · exact absurd hrefused (by decide)
  · exact absurd hin (by decide)

end CtrlNode

end XdmaDriver
