import Mathlib.Data.List.Induction
import XdmaDriver.RingUse

/-!
The bypass device of an engine: what a read copies of the descriptors that are queued, and what a
write puts into the bypass BAR.
-/

namespace XdmaDriver

open Transition Drv

def enodev : ℤ := -19

def descBytes : ℕ := 32

/-- What one call of `char_bypass_read` or `char_bypass_write` meets: the result of `xcdev_check`, whether the buffer is
there, its size (which the kernel has cut to less than `2 ^ 31`), the BAR and the offsets at which
the copy to or from the user fails. -/
structure BypassCall where
  xcdevCheck : ℤ := 0
  buf : Bool := true
  count : ℕ
  bypassBarIdx : ℤ
  fault : ℕ → Bool := fun _ => false

/-- The checks that both make before they take the lock; `r` is what comes after them. -/
def BypassCall.checked {α : Type} (call : BypassCall) (r : ℤ × List α) : ℤ × List α :=
  if call.xcdevCheck < 0 then (call.xcdevCheck, [])
  else if call.count % 4 ≠ 0 then (err .inval, [])
  else if call.buf = false then (err .inval, [])
  else if call.bypassBarIdx < 0 then (enodev, [])
  else r

structure BypassCall.Served (call : BypassCall) : Prop where
  check : 0 ≤ call.xcdevCheck
  words : call.count % 4 = 0
  buf : call.buf = true
  bar : 0 ≤ call.bypassBarIdx

theorem BypassCall.Served.checked {α : Type} {call : BypassCall} (h : call.Served) (r : ℤ × List α) :
    call.checked r = r := by
  rw [BypassCall.checked, if_neg (Int.not_lt.mpr h.check), if_neg (not_not.mpr h.words), h.buf,
    if_neg (by decide : ¬true = false), if_neg (Int.not_lt.mpr h.bar)]

theorem BypassCall.checked_refused {α : Type} {call : BypassCall} (h : ¬call.Served) (r : ℤ × List α) :
    (call.checked r).1 < 0 := by
  unfold BypassCall.checked
  split_ifs with hcheck hwords hbuf hbar
  · exact hcheck
  · exact err_neg _
  · exact err_neg _
  · exact (by decide : enodev < 0)
  · exact absurd ⟨Int.not_lt.mp hcheck, not_not.mp hwords, Bool.eq_true_of_not_eq_false hbuf,
      Int.not_lt.mp hbar⟩ h

/-- `buf_offset` and `rc` of a read, and which descriptor was copied to which offset. -/
structure BypassRead where
  bufOffset : ℕ := 0
  rc : ℤ := 0
  copied : List (ℕ × XdmaDesc) := []

namespace BypassRead

variable (fault : ℕ → Bool) (count : ℕ)

def copyDesc (c : BypassRead) (d : XdmaDesc) : BypassRead :=
  if c.bufOffset + descBytes ≤ count then
    if fault c.bufOffset then { c with bufOffset := count, rc := err .inval }
    else { c with bufOffset := c.bufOffset + descBytes, copied := c.copied ++ [(c.bufOffset, d)] }
  else { c with rc := err .noMem }

def transferDescs (s : Drv) (t : XferRef) : List XdmaDesc :=
  (List.range (s.tfer t).descNum).map fun i => s.eng.desc ((s.tfer t).descIndex + i)

def copyDescData (s : Drv) (c : BypassRead) (t : XferRef) : BypassRead :=
  (transferDescs s t).foldl (copyDesc fault count) { c with rc := 0 }

/-- One transfer of the queue after the other. What is left in `rc` is the result of the last. -/
def copyQueue (s : Drv) (ts : List XferRef) : BypassRead := ts.foldl (copyDescData fault count s) {}

end BypassRead

open BypassRead

/-- `char_bypass_read`, with what it copied. -/
def charBypassRead (s : Drv) (call : BypassCall) : ℤ × List (ℕ × XdmaDesc) :=
  let c := copyQueue call.fault call.count s s.eng.transferList
  call.checked (if c.rc < 0 then c.rc else c.bufOffset, c.copied)

/-- `buf_offset` and `rc` of a write, and the words with the addresses they went to. -/
structure BypassWrite where
  bufOffset : ℕ := 0
  rc : ℤ
  written : List (U64 × U32) := []

/-- The address is that of a pointer to `u32`, so the offset counts words. `write_register` of this
file does not use its third argument. -/
def bypassAddr (bar : U64) (bypassOffset : U32) : U64 := bar + 4 * bypassOffset.setWidth 64

/-- The loop of `char_bypass_write`. -/
def writeWords (call : BypassCall) (addr : U64) (user : ℕ → U32) : ℕ → BypassWrite → BypassWrite
  | 0, w => w
  | fuel + 1, w =>
    if w.bufOffset < call.count then
      if call.fault w.bufOffset then { w with rc := err .inval }
      else
        writeWords call addr user fuel
          { bufOffset := w.bufOffset + 4
            rc := ((w.bufOffset + 4 : ℕ) : ℤ)
            written := w.written ++ [(addr, user (w.bufOffset / 4))] }
    else w

/-- `char_bypass_write`, with what it wrote. `user k` is word `k` of the buffer, and `fault` are
the offsets at which `copy_from_user` fails. -/
def charBypassWrite (call : BypassCall) (bar : U64) (bypassOffset : U32) (user : ℕ → U32) :
    ℤ × List (U64 × U32) :=
  let w := writeWords call (bypassAddr bar bypassOffset) user call.count { rc := call.xcdevCheck }
  call.checked (w.rc, w.written)

def Drv.listedDescs (s : Drv) : List XdmaDesc := s.eng.transferList.flatMap (transferDescs s)

namespace BypassRead

variable {fault : ℕ → Bool} {count : ℕ} {ds : List XdmaDesc} {c : BypassRead}

def Fits (fault : ℕ → Bool) (count k : ℕ) : Prop := descBytes * (k + 1) ≤ count ∧
    fault (descBytes * k) = false

def AllFit (fault : ℕ → Bool) (count n : ℕ) : Prop := ∀ k < n, Fits fault count k

def laid (ds : List XdmaDesc) : List (ℕ × XdmaDesc) := ((List.range ds.length).map (descBytes * ·)).zip ds

structure Copied (ds : List XdmaDesc) (c : BypassRead) : Prop where
  offset : c.bufOffset = descBytes * ds.length
  rc : c.rc = 0
  copied : c.copied = laid ds

/-- All of the descriptors are copied, or one was not, and then the buffer has no room any more. -/
def Went (fault : ℕ → Bool) (count : ℕ) (ds : List XdmaDesc) (c : BypassRead) : Prop :=
  AllFit fault count ds.length ∧ Copied ds c ∨
    ¬AllFit fault count ds.length ∧ count < c.bufOffset + descBytes

theorem allFit_succ (n : ℕ) : AllFit fault count (n + 1) ↔ AllFit fault count n ∧ Fits fault count n :=
  Nat.forall_lt_succ_right

theorem laid_append (ds : List XdmaDesc) (d : XdmaDesc) :
    laid (ds ++ [d]) = laid ds ++ [(descBytes * ds.length, d)] := by
  rw [laid, List.length_append, List.length_singleton, List.range_succ, List.map_append, List.zip_append]
  · rfl
  · rw [List.length_map, List.length_range]

theorem Went.copyDesc (h : Went fault count ds c) (d : XdmaDesc) :
    Went fault count (ds ++ [d]) (c.copyDesc fault count d) ∧
      (¬AllFit fault count (ds ++ [d]).length → (c.copyDesc fault count d).rc < 0) := by
  have hlen : (ds ++ [d]).length = ds.length + 1 := by rw [List.length_append, List.length_singleton]
  have hfull (hno : ¬AllFit fault count (ds.length + 1)) (hroom : count < c.bufOffset + descBytes) :
      Went fault count (ds ++ [d]) (c.copyDesc fault count d) ∧
        (¬AllFit fault count (ds ++ [d]).length → (c.copyDesc fault count d).rc < 0) := by
    rw [BypassRead.copyDesc, if_neg (Nat.not_le.mpr hroom), Went, hlen]
    exact ⟨.inr ⟨hno, hroom⟩, fun _ => err_neg _⟩
  rcases h with ⟨hall, hcopied⟩ | ⟨hno, hroom⟩
  swap
  · exact hfull (fun h => hno ((allFit_succ _).mp h).1) hroom
  have hoffset : c.bufOffset + descBytes = descBytes * (ds.length + 1) := by rw [hcopied.offset, Nat.mul_succ]
  by_cases hroom : c.bufOffset + descBytes ≤ count
  swap
  · refine hfull (fun h => hroom ?_) (Nat.lt_of_not_le hroom)
    rw [hoffset]
    exact ((allFit_succ _).mp h).2.1
  rw [BypassRead.copyDesc, if_pos hroom, Went, hlen, allFit_succ]
  cases hfault : fault c.bufOffset with
  | true =>
    have hnot : ¬(AllFit fault count ds.length ∧ Fits fault count ds.length) := fun h => by
      have hno := h.2.2
      rw [← hcopied.offset, hfault] at hno
      cases hno
    rw [if_pos rfl]
    exact ⟨.inr ⟨hnot, Nat.lt_add_of_pos_right (by decide)⟩, fun _ => err_neg _⟩
  | false =>
    have hfits : Fits fault count ds.length := ⟨hoffset ▸ hroom, hcopied.offset ▸ hfault⟩
    rw [if_neg Bool.false_ne_true]
    refine ⟨.inl ⟨⟨hall, hfits⟩, ?_, hcopied.rc, ?_⟩, fun hnot => absurd ⟨hall, hfits⟩ hnot⟩
    · rw [hlen]
      exact hoffset
    · rw [laid_append, ← hcopied.copied, ← hcopied.offset]

theorem Went.foldl (h : Went fault count ds c) (more : List XdmaDesc) :
    Went fault count (ds ++ more) (more.foldl (BypassRead.copyDesc fault count) c) ∧
      (more ≠ [] → ¬AllFit fault count (ds ++ more).length →
        (more.foldl (BypassRead.copyDesc fault count) c).rc < 0) := by
  induction more using List.reverseRecOn with
  | nil =>
    rw [List.append_nil]
    exact ⟨h, fun hne => absurd rfl hne⟩
  | append_singleton more d ih =>
    rw [List.foldl_append, ← List.append_assoc]
    obtain ⟨hwent, hrc⟩ := ih.1.copyDesc d
    exact ⟨hwent, fun _ => hrc⟩

/-- The value that a transfer leaves in `rc` is that of all transfers so far: a transfer with a
descriptor fails if one before it did. -/
theorem Went.copyDescData {s : Drv} {t : XferRef} (h : Went fault count ds c) (ht : (s.tfer t).descNum ≠ 0) :
    Went fault count (ds ++ transferDescs s t) (c.copyDescData fault count s t) ∧
      (¬AllFit fault count (ds ++ transferDescs s t).length → (c.copyDescData fault count s t).rc < 0) := by
  have hreset : Went fault count ds { c with rc := 0 } :=
    h.imp (fun ⟨hall, hcopied⟩ => ⟨hall, hcopied.offset, rfl, hcopied.copied⟩) id
  have hne : transferDescs s t ≠ [] := by
    rw [transferDescs, ne_eq, List.map_eq_nil_iff, List.range_eq_nil]
    exact ht
  obtain ⟨hwent, hrc⟩ := hreset.foldl (transferDescs s t)
  exact ⟨hwent, hrc hne⟩

theorem went_queue {s : Drv} (ts : List XferRef) (hts : ∀ t ∈ ts, (s.tfer t).descNum ≠ 0) :
    Went fault count (ts.flatMap (transferDescs s)) (copyQueue fault count s ts) ∧
      (¬AllFit fault count (ts.flatMap (transferDescs s)).length → (copyQueue fault count s ts).rc < 0) := by
  induction ts using List.reverseRecOn with
  | nil =>
    have hnone : AllFit fault count 0 := fun k hk => absurd hk (Nat.not_lt_zero k)
    exact ⟨.inl ⟨hnone, rfl, rfl, rfl⟩, fun hnot => absurd hnone hnot⟩
  | append_singleton ts t ih =>
    obtain ⟨hwent, -⟩ := ih fun u hu => hts u (List.mem_append_left _ hu)
    rw [copyQueue, List.foldl_append, List.flatMap_append, List.flatMap_singleton]
    exact hwent.copyDescData (hts t (List.mem_append_right _ (List.mem_singleton_self t)))

theorem went_listed (fault : ℕ → Bool) (count : ℕ) {s : Drv} (h : ∀ t ∈ s.eng.transferList,
    (s.tfer t).descNum ≠ 0) :
    Went fault count s.listedDescs (copyQueue fault count s s.eng.transferList) ∧
      (¬AllFit fault count s.listedDescs.length → (copyQueue fault count s s.eng.transferList).rc < 0) :=
  went_queue s.eng.transferList h

theorem allFit_iff {n : ℕ} : AllFit fault count n ↔
    descBytes * n ≤ count ∧ ∀ k < n, fault (descBytes * k) = false := by
  constructor
  · intro h
    refine ⟨?_, fun k hk => (h k hk).2⟩
    cases n with
    | zero => exact Nat.zero_le _
    | succ n => exact (h n (Nat.lt_succ_self n)).1
  · exact fun ⟨hle, hfault⟩ k hk => ⟨(Nat.mul_le_mul_left _ hk).trans hle, hfault k hk⟩

end BypassRead

namespace BypassWrite

variable {call : BypassCall} {addr : U64} {user : ℕ → U32} {n k : ℕ} {w : BypassWrite}

structure AtWord (call : BypassCall) (addr : U64) (user : ℕ → U32) (k : ℕ) (w : BypassWrite) : Prop where
  offset : w.bufOffset = 4 * k
  rc : 0 ≤ w.rc
  written : w.written = (List.range k).map fun i => (addr, user i)
  read : ∀ i < k, call.fault (4 * i) = false

structure EndsAt (call : BypassCall) (addr : U64) (user : ℕ → U32) (n m : ℕ) (w : BypassWrite) : Prop where
  le : m ≤ n
  written : w.written = (List.range m).map fun i => (addr, user i)
  read : ∀ i < m, call.fault (4 * i) = false
  stops : m < n → call.fault (4 * m) = true
  rc : 0 ≤ w.rc ↔ m = n

theorem AtWord.next (h : AtWord call addr user k w) (hread : call.fault (4 * k) = false) :
    AtWord call addr user (k + 1)
      { bufOffset := w.bufOffset + 4
        rc := ((w.bufOffset + 4 : ℕ) : ℤ)
        written := w.written ++ [(addr, user (w.bufOffset / 4))] } where
  offset := by
    dsimp only
    rw [h.offset, Nat.mul_succ]
  rc := Int.natCast_nonneg _
  written := by
    rw [h.offset, Nat.mul_div_cancel_left k (by decide), h.written, List.range_succ, List.map_append]
    rfl
  read := Nat.forall_lt_succ_right.mpr ⟨h.read, hread⟩

/-- Induction on the fuel, which is enough for the words that are left. -/
theorem AtWord.writeWords (fuel : ℕ) (h : AtWord call addr user k w)
    (hcount : call.count = 4 * n) (hk : k ≤ n)
    (hfuel : n - k ≤ fuel) : ∃ m, EndsAt call addr user n m (writeWords call addr user fuel w) := by
  have hall (hkn : k = n) : EndsAt call addr user n k w :=
    ⟨hk, h.written, h.read, fun hlt => absurd hkn hlt.ne, iff_of_true h.rc hkn⟩
  induction fuel generalizing k w with
  | zero => exact ⟨k, hall (Nat.le_antisymm hk (Nat.sub_eq_zero_iff_le.mp (Nat.le_zero.mp hfuel)))⟩
  | succ fuel ih =>
    rw [XdmaDriver.writeWords]
    by_cases hlt : k < n
    swap
    · rw [if_neg (by rw [h.offset, hcount]; omega)]
      exact ⟨k, hall (Nat.le_antisymm hk (Nat.le_of_not_lt hlt))⟩
    rw [if_pos (by rw [h.offset, hcount]; omega), h.offset]
    cases hfault : call.fault (4 * k) with
    | true =>
      rw [if_pos rfl]
      exact ⟨k, hk, h.written, h.read, fun _ => hfault, iff_of_false (Int.not_le.mpr (err_neg _)) hlt.ne⟩
    | false =>
      rw [if_neg Bool.false_ne_true, ← h.offset]
      have hnext := h.next hfault
      refine ih hnext hlt (by omega) fun hkn => ?_
      exact ⟨hlt, hnext.written, hnext.read, fun hlt => absurd hkn hlt.ne, iff_of_true hnext.rc hkn⟩

/-- A write gives the hardware the words before the first that cannot be read, in order and all at
the address of the engine. It succeeds exactly if these are all words. -/
theorem charBypassWrite_delivers (h : call.Served) (bar : U64) (bypassOffset : U32) (user : ℕ → U32) :
    ∃ m ≤ call.count / 4,
      (charBypassWrite call bar bypassOffset user).2 =
        (List.range m).map (fun k => (bypassAddr bar bypassOffset, user k)) ∧
      (∀ k < m, call.fault (4 * k) = false) ∧ (m < call.count / 4 → call.fault (4 * m) = true) ∧
      (0 ≤ (charBypassWrite call bar bypassOffset user).1 ↔ m = call.count / 4) := by
  have hstart : AtWord call (bypassAddr bar bypassOffset) user 0 { rc := call.xcdevCheck } :=
    ⟨rfl, h.check, rfl, fun i hi => absurd hi (Nat.not_lt_zero i)⟩
  obtain ⟨m, hm⟩ := hstart.writeWords (n := call.count / 4) call.count
    (Nat.mul_div_cancel' (Nat.dvd_of_mod_eq_zero h.words)).symm (Nat.zero_le _) (Nat.div_le_self _ _)
  rw [charBypassWrite, h.checked]
  exact ⟨m, hm.le, hm.written, hm.read, hm.stops, hm.rc⟩

def fourWords : BypassCall := { count := 16, bypassBarIdx := 2, fault := fun i => i == 8 }

theorem fourWords_served : fourWords.Served := ⟨le_rfl, rfl, rfl, by decide⟩

theorem charBypassWrite_delivers_fourWords :
    (charBypassWrite fourWords 0xf0000000 0x100 (BitVec.ofNat 32)).2 =
      [(0xf0000400, 0), (0xf0000400, 1)] := by
  obtain ⟨m, hle, hwritten, hread, hstops, -⟩ :=
    charBypassWrite_delivers fourWords_served 0xf0000000 0x100 (BitVec.ofNat 32)
  have htwo : m = 2 := by
    refine Nat.le_antisymm (Nat.le_of_not_lt fun hlt => absurd (hread 2 hlt) (by decide)) ?_
    by_contra hlt
    have hfault := hstops (lt_of_lt_of_le (not_le.mp hlt) (by decide))
    rcases Nat.le_one_iff_eq_zero_or_eq_one.mp (Nat.le_of_lt_succ (not_le.mp hlt)) with rfl | rfl
    · exact absurd hfault (by decide)
    · exact absurd hfault (by decide)
  rw [hwritten, htwo]
  rfl

end BypassWrite

namespace RingRun

variable {p : Params} {s s' : RingRun}

theorem step_descNum {a : RingAct} (h : ∀ t ∈ s.drv.eng.transferList, (s.drv.tfer t).descNum ≠ 0)
    (hs : s.step p a = some s') : ∀ t ∈ s'.drv.eng.transferList, (s'.drv.tfer t).descNum ≠ 0 := by
  have hsame {drv : Drv} (hd : SameChains s.drv drv) :
    ∀ t ∈ drv.eng.transferList, (drv.tfer t).descNum ≠ 0 := by
    intro t ht
    rw [(hd.tfer t).1]
    exact h t (hd.list t ht)
  cases a with
  | build req t u last cb =>
    have hb := build_step hs
    intro v hv
    rw [hb.list] at hv
    have hne : v ≠ t := fun he => hb.fresh (he ▸ List.mem_append_left _ hv)
    rw [hb.other v hne]
    exact h v hv
  | queue t w =>
    obtain ⟨-, hs⟩ := Option.ite_none_right_eq_some.mp hs
    obtain rfl := Option.some.inj hs
    by_cases ha : s.drv.Accepts t
    · obtain ⟨hq, -⟩ := transferQueue_accepted (p := p) (w := w) ha
      intro v hv
      rw [hq.list] at hv
      change ((s.drv.transferQueue p t w).1.tfer v).descNum ≠ 0
      rw [(hq.same v).1]
      rcases List.mem_append.mp hv with hv | hv
      · exact h v hv
      · rw [List.mem_singleton.mp hv]
        exact ha.1
    · rw [(transferQueue_refused (p := p) (w := w) ha).1]
      exact h
  | service wb r =>
    obtain rfl := Option.some.inj hs
    exact hsame (engineService_sameChains wb r s.drv)
  | wait t r =>
    obtain ⟨-, hs⟩ := Option.ite_none_left_eq_some.mp hs
    obtain rfl := Option.some.inj hs
    exact hsame ((waitEnd_sameChains s.drv t r).trans (transferDestroy_sameChains _ t))
  | complete t r =>
    obtain ⟨-, hs⟩ := Option.ite_none_left_eq_some.mp hs
    obtain rfl := Option.some.inj hs
    exact hsame (completionChain_sameChains s.drv t r 0)
  | setOffline offline =>
    obtain rfl := Option.some.inj hs
    exact h

theorem listed_descNum {ok : RingRun → RingAct → Prop} (h : Reachable (step p) Fresh ok s) :
    ∀ t ∈ s.drv.eng.transferList, (s.drv.tfer t).descNum ≠ 0 := by
  refine h.invariant (I := fun s => ∀ t ∈ s.drv.eng.transferList, (s.drv.tfer t).descNum ≠ 0)
    (fun s hs t ht => ?_)
    fun _ _ _ hI _ hs => step_descNum hI hs
  have hmem : t ∈ s.outstanding := List.mem_append_left s.pending ht
  rw [hs.1] at hmem
  cases hmem

/-- In every run of an engine a read of the bypass device succeeds exactly if its buffer takes all
descriptors of the queue and no copy fails. Then it has copied them in order, one behind the other. -/
theorem bypassRead_succeeds_iff (h : Reachable (step p) Fresh (fun _ _ => True) s) (call : BypassCall) :
    (0 ≤ (charBypassRead s.drv call).1 ↔ call.Served ∧ descBytes * s.drv.listedDescs.length ≤ call.count ∧
      ∀ k < s.drv.listedDescs.length, call.fault (descBytes * k) = false) ∧
    (0 ≤ (charBypassRead s.drv call).1 → charBypassRead s.drv call =
      (((descBytes * s.drv.listedDescs.length : ℕ) : ℤ), laid s.drv.listedDescs)) := by
  rw [← allFit_iff]
  by_cases hserved : call.Served
  swap
  · have hrefused : (charBypassRead s.drv call).1 < 0 := BypassCall.checked_refused hserved _
    exact ⟨⟨fun h => absurd h (Int.not_le.mpr hrefused), fun h => absurd h.1 hserved⟩,
      fun h => absurd h (Int.not_le.mpr hrefused)⟩
  obtain ⟨hwent, hrc⟩ := went_listed call.fault call.count (listed_descNum h)
  rw [charBypassRead, hserved.checked]
  dsimp only
  rcases hwent with ⟨hall, hcopied⟩ | ⟨hnot, -⟩
  · rw [if_neg (Int.not_lt.mpr hcopied.rc.ge), hcopied.offset, hcopied.copied]
    exact ⟨⟨fun _ => ⟨hserved, hall⟩, fun _ => Int.natCast_nonneg _⟩, fun _ => rfl⟩
  · have hneg := hrc hnot
    rw [if_pos hneg]
    exact ⟨⟨fun h => absurd h (Int.not_le.mpr hneg), fun h => absurd h.2 hnot⟩,
      fun h => absurd h (Int.not_le.mpr hneg)⟩

theorem bypassRead_succeeds_iff_twoChains : ∃ s : RingRun, s.drv.eng.transferList = [⟨0, 0⟩, ⟨1, 0⟩] ∧
    charBypassRead s.drv { count := 160, bypassBarIdx := 2 } = (160, laid s.drv.listedDescs) := by
  have hfresh : Fresh {} := ⟨rfl, rfl, by decide⟩
  have hrun : (run (step {}) (fun _ _ => True) {} twoChains).map
      (fun s => (s.drv.eng.transferList, s.drv.listedDescs.length)) = some ([⟨0, 0⟩, ⟨1, 0⟩], 5) := by decide
  obtain ⟨s, hs, hl⟩ := exists_reachable hfresh hrun
  obtain ⟨hlist, hlen⟩ := Prod.mk.inj hl
  have hread := bypassRead_succeeds_iff hs { count := 160, bypassBarIdx := 2 }
  rw [hlen] at hread
  have hserved : BypassCall.Served { count := 160, bypassBarIdx := 2 } := ⟨le_rfl, rfl, rfl, by decide⟩
  exact ⟨s, hlist, hread.2 (hread.1.mpr ⟨hserved, by decide, fun _ _ => rfl⟩)⟩

end RingRun

end XdmaDriver
