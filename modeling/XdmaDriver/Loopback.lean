import XdmaDriver.DeviceFiles
import XdmaDriver.Lib.Stores

/-!
Transfers of the tools to ranges of the memory of the device, and transfers that read them back:
the memory mapped test.
-/

namespace XdmaDriver

open Spans Stores

/-- A transfer between the buffer of a tool and the memory of the device from `base` on. -/
structure MemTransfer where
  file : ChannelFile
  size : U64
  base : U64
  bus : ℕ → ℕ → U64

namespace MemTransfer

variable (T : MemTransfer) (write : Bool)

def bytes : List (U64 × U64) := chainPairs T.file.own (ChannelFile.dir write) (T.file.run write T.size T.base)

/-- A transfer that the tool takes for whole. It does not begin at the last address. -/
structure Whole : Prop where
  serves : T.file.Serves T.size T.bus
  noError : (T.file.transfer write T.size T.base).rc.slt 0 = false
  all : (T.file.transfer write T.size T.base).rc = T.size
  base : T.base.toNat ≠ 2 ^ 64 - 1

def hostAddr (i : ℕ) : U64 := (T.file.bytePair T.size T.base T.bus i).1

def hostAddrs : List U64 := (List.range T.size.toNat).map T.hostAddr

def deviceAddrs : List U64 := span T.base T.size.toNat

def buffer (host : U64 → U8) : List U8 := T.hostAddrs.map host

def deviceStores (host : U64 → U8) : List (U64 × U8) := (T.bytes true).map fun x => (x.2, host x.1)

def hostStores (dev : U64 → U8) : List (U64 × U8) := (T.bytes false).map fun x => (x.1, dev x.2)

variable {T write}

theorem Whole.bytes_eq (h : T.Whole write) :
    T.bytes write = (List.range T.size.toNat).map fun i => (T.hostAddr i, T.base + (i : U64)) := by
  obtain ⟨m, hmoves, hreports⟩ := ChannelFile.transfer_movesFirst write T.base h.serves
  have hm : m = T.size.toNat := by
    rcases hreports with ⟨-, hm⟩ | ⟨hfail, -⟩
    · rw [← hm, h.all]
    · have hno := h.noError
      rw [hfail] at hno
      exact absurd hno (by decide)
  have hlen : m = ((List.range T.size.toNat).map (T.file.bytePair T.size T.base T.bus)).length := by
    rw [hm, List.length_map, List.length_range]
  rw [bytes, ChannelFile.MovesFirst.whole (hlen ▸ hmoves)]
  apply List.map_congr_left
  intro i _
  rw [ChannelFile.bytePair, hostAddr, ChannelFile.bytePair, ChannelFile.deviceAddr,
    if_neg fun hlast => h.base hlast.1]

theorem Whole.deviceStores_places (h : T.Whole true) (host : U64 → U8) :
    (T.deviceStores host).map Prod.fst = T.deviceAddrs := by
  rw [deviceStores, h.bytes_eq, List.map_map, List.map_map]
  rfl

theorem Whole.hostStores_places (h : T.Whole false) (dev : U64 → U8) :
    (T.hostStores dev).map Prod.fst = T.hostAddrs := by
  rw [hostStores, h.bytes_eq, List.map_map, List.map_map]
  rfl

theorem Whole.mem_deviceStores (h : T.Whole true) (host : U64 → U8) {i : ℕ} (hi : i < T.size.toNat) :
    (T.base + (i : U64), host (T.hostAddr i)) ∈ T.deviceStores host := by
  rw [deviceStores, h.bytes_eq, List.map_map]
  exact List.mem_map.mpr ⟨i, List.mem_range.mpr hi, rfl⟩

theorem Whole.mem_hostStores (h : T.Whole false) (dev : U64 → U8) {i : ℕ} (hi : i < T.size.toNat) :
    (T.hostAddr i, dev (T.base + (i : U64))) ∈ T.hostStores dev := by
  rw [hostStores, h.bytes_eq, List.map_map]
  exact List.mem_map.mpr ⟨i, List.mem_range.mpr hi, rfl⟩

/-- What was written to the device is read back: after whole writes to ranges that do not meet, and
whole reads into buffers that do not meet, the bytes of each in any order, a buffer that was read
from inside a written range holds that part of the buffer it was written from. Nothing else changes. -/
theorem written_read_back {writes reads : List MemTransfer} (hwrites : ∀ w ∈ writes, w.Whole true)
    (hreads : ∀ r ∈ reads, r.Whole false) (hranges : (writes.flatMap deviceAddrs).Nodup)
    (hbuffers : (reads.flatMap hostAddrs).Nodup) {host dev : U64 → U8} {written fetched : List (U64 × U8)}
    (hw : written.Perm (writes.flatMap fun w => w.deviceStores host))
    (hr : fetched.Perm (reads.flatMap fun r => r.hostStores (storeAll dev written))) :
    (∀ w ∈ writes, ∀ r ∈ reads, ∀ n : ℕ, r.base = w.base + (n : U64) → n + r.size.toNat ≤ w.size.toNat →
      r.buffer (storeAll host fetched) = ((w.buffer host).drop n).take r.size.toNat) ∧
    (∀ a ∉ writes.flatMap deviceAddrs, storeAll dev written a = dev a) ∧
      ∀ a ∉ reads.flatMap hostAddrs, storeAll host fetched a = host a := by
  obtain ⟨hdev, hdevice⟩ := storeAll_flatMap (fun w hw =>
    (hwrites w hw).deviceStores_places host) hranges hw dev
  obtain ⟨hhost, hhosts⟩ := storeAll_flatMap
    (fun r hr => (hreads r hr).hostStores_places (storeAll dev written)) hbuffers hr host
  refine ⟨fun w hwm r hrm n hbase hfit => ?_, hdevice, hhosts⟩
  apply List.ext_getElem
  · simp only [buffer, hostAddrs, List.length_map, List.length_range, List.length_take, List.length_drop]
    omega
  intro j hj _
  have hj : j < r.size.toNat := by simpa only [buffer, hostAddrs, List.length_map, List.length_range] using hj
  have hfetched := hhost r hrm _ ((hreads r hrm).mem_hostStores (storeAll dev written) hj)
  have hwritten := hdev w hwm _ ((hwrites w hwm).mem_deviceStores host (show n + j < w.size.toNat by omega))
  have hplace : r.base + (j : U64) = w.base + ((n + j : ℕ) : U64) := by rw [hbase, Nat.cast_add, add_assoc]
  simp only [buffer, hostAddrs, List.getElem_take, List.getElem_drop, List.getElem_map, List.getElem_range]
  exact hfetched.trans ((congrArg _ hplace).trans hwritten)

def splitWrite : ChannelFile where
  p := {}
  own := 1
  align := {}
  buffer := 0x7f0000002ff0
  round _ :=
    { drv := { eng := { dir := .toDevice } }
      map := { pinned := .ok [5, 9] }
      mapped := [⟨0x5ff0, 16⟩, ⟨0x9000, 16⟩]
      envs := [{ during := [.service 0 ⟨4, 2, 2⟩] }, {}] }

def firstWrite : MemTransfer := ⟨splitWrite, 0x20, 0x20, fun _ => identityBus⟩

def firstRead : MemTransfer := ⟨ChannelFile.splitRead, 0x20, 0x20, fun _ => identityBus⟩

theorem incremental_toDevice : Incremental {} 1 { eng := { dir := .toDevice } } :=
  ⟨by decide, rfl, rfl, List.nodup_nil, fun _ => List.not_mem_nil, by decide⟩

theorem firstWrite_whole : firstWrite.Whole true := by
  have hone : rounds 0x20 = 1 := by decide
  have hchains : (requestSdesc {} [⟨0x5ff0, 16⟩, ⟨0x9000, 16⟩]).length ≤ 2 := by decide
  have hcount : pagesOf 0x7f0000002ff0 0x20 = 2 := by decide
  refine ⟨⟨fun _ _ => incremental_toDevice, fun k hk _ pages hpages => ?_,
    fun _ _ => hchains⟩, by decide, by decide,
    by decide⟩
  obtain rfl : k = 0 := Nat.lt_one_iff.mp (hone ▸ hk)
  change MapEnv.pin { pinned := .ok [5, 9] } (pagesOf 0x7f0000002ff0 0x20) = _ at hpages
  rw [hcount] at hpages
  obtain rfl := Except.ok.inj hpages
  decide

theorem firstRead_whole : firstRead.Whole false :=
  ⟨ChannelFile.serves_splitRead, by decide, by decide, by decide⟩

theorem written_read_back_split : firstRead.buffer (storeAll (BitVec.setWidth 8) (firstRead.hostStores
      (storeAll (fun _ => 0) (firstWrite.deviceStores (BitVec.setWidth 8))))) =
    (List.range 0x20).map fun i => BitVec.ofNat 8 (0xf0 + i) := by
  have hwrites : ∀ w ∈ [firstWrite], w.Whole true := List.forall_mem_singleton.mpr firstWrite_whole
  have hreads : ∀ r ∈ [firstRead], r.Whole false := List.forall_mem_singleton.mpr firstRead_whole
  have hw : (firstWrite.deviceStores (BitVec.setWidth 8)).Perm
      ([firstWrite].flatMap fun w => w.deviceStores (BitVec.setWidth 8)) := .of_eq (List.append_nil _).symm
  obtain ⟨hback, -⟩ := written_read_back hwrites hreads (by decide)
    (by decide) hw (.of_eq (List.append_nil _).symm)
  refine (hback firstWrite List.mem_cons_self firstRead List.mem_cons_self 0 rfl (le_refl _)).trans ?_
  decide

end MemTransfer

end XdmaDriver
