import Mathlib.Data.List.Flatten
import XdmaDriver.ToolRuns
import XdmaDriver.UserTransfers

/-!
The chunked reads and writes of the tools on the file of a channel: what `read_to_buffer` and
`write_from_buffer` move through `char_sgdma_llseek` and `char_sgdma_read_write`.
-/

namespace XdmaDriver

open Drv Spans

/-- `char_sgdma_llseek`: the position it leaves and the value it returns. -/
def charSgdmaLlseek (fPos off : U64) (whence : ℕ) : U64 × ℤ :=
  let newpos := match whence with
    | 0 => some off
    | 1 => some (fPos + off)
    | 2 => some (0xffffffff + off)
    | _ => none
  match newpos with
  | none => (fPos, err .inval)
  | some newpos => if newpos.slt 0 then (fPos, err .inval) else (newpos, newpos.toNat)

/-- What a system call gives the process for the value that the driver returns. -/
def sysValue (rv : ℤ) : U64 := if rv < 0 then -1 else BitVec.ofInt 64 rv

def CallEnd.sysValue : CallEnd → U64
  | .returned rv => XdmaDriver.sysValue rv
  | _ => -1

/-- What one `read` or `write` of the file meets. The kernel can turn it away before the driver is
called. -/
structure FileCall where
  drv : Drv
  refused : Bool := false
  map : MapEnv
  mapped : List SgEntry
  oom : Bool := false
  envs : List ChainEnv

/-- The file of a channel, newly opened, and the buffer of the tool, with what the rounds of its
loop meet. -/
structure ChannelFile where
  p : Params
  own : ℕ
  align : EngineAlign
  buffer : U64
  round : ℕ → FileCall

namespace ChannelFile

variable (F : ChannelFile) (write : Bool) (size base : U64)

def call (k buf : ℕ) (bytes pos : U64) : XferResult :=
  if (F.round k).refused ∨ 2 ^ 63 ≤ F.buffer.toNat + buf + bytes.toNat then
    { drv := (F.round k).drv, outcome := .returned (err .fault) }
  else
    charSgdmaReadWrite F.p F.own F.align write (F.buffer + BitVec.ofNat 64 buf) bytes pos (F.round k).map
      (F.round k).mapped (F.round k).oom (F.round k).envs (F.round k).drv

def seekPos : ℕ → U64
  | 0 => 0
  | k + 1 =>
    if roundOffset base k ≠ 0 then (charSgdmaLlseek (seekPos k) (roundOffset base k) 0).1 else seekPos k

def lseek (k : ℕ) (offset : U64) : U64 := sysValue (charSgdmaLlseek (seekPos base k) offset 0).2

def readWrite (k buf : ℕ) (bytes : U64) : U64 :=
    (F.call write k buf bytes (seekPos base (k + 1))).outcome.sysValue

def calls : IoCalls where
  lseek := lseek base
  read := F.readWrite false base
  write := F.readWrite true base

def transfer : IoResult :=
  if write then writeFromBuffer (F.calls base) { moves := false } size base
  else readToBuffer (F.calls base) { moves := false } size base

def chains (k : ℕ) : List ChainTrace :=
  (F.call write k (rwMaxSize.toNat * k) (roundBytes size k) (seekPos base (k + 1))).chains

end ChannelFile

section

variable (lseek : ℕ → U64 → U64) (rw : ℕ → ℕ → U64 → U64) (moves : Bool) (size : U64)

def bufferCalls : ℕ → ℕ → IoLoop → ℕ
  | 0, _, _ => 0
  | n + 1, k, s =>
    if s.count < size ∧ (s.offset = 0 ∨ lseek k s.offset = s.offset) then
      match ioRound lseek rw moves size k s with
      | .leave _ => 1
      | .again s' => bufferCalls n (k + 1) s' + 1
    else 0

end

theorem slt_zero_iff (x : U64) : x.slt 0 = true ↔ 2 ^ 63 ≤ x.toNat := by
  change x.slt 0#64 = true ↔ _
  rw [BitVec.slt_zero_eq_msb, BitVec.msb_eq_decide, decide_eq_true_eq]

theorem sysValue_neg {rv : ℤ} (h : rv < 0) : (sysValue rv).slt 0 = true := by
  rw [sysValue, if_pos h]
  rfl

theorem sysValue_nonneg {n : ℕ} (h : n < 2 ^ 63) : (sysValue n).slt 0 = false ∧ (sysValue n).toNat = n := by
  have hnat : (sysValue n).toNat = n := by
    rw [sysValue, if_neg (Int.not_lt.mpr (Int.natCast_nonneg n)), BitVec.ofInt_natCast, BitVec.toNat_ofNat]
    exact Nat.mod_eq_of_lt (by omega)
  refine ⟨?_, hnat⟩
  rw [Bool.eq_false_iff]
  intro hneg
  rw [slt_zero_iff, hnat] at hneg
  omega

namespace ChannelFile

section

variable {base : U64}

theorem llseek_set (pos off : U64) :
    charSgdmaLlseek pos off 0 = if off.slt 0 then (pos, err .inval) else (off, (off.toNat : ℤ)) := rfl

theorem seeks_iff (k : ℕ) : Seeks (lseek base) base k ↔
    (roundOffset base k).toNat < 2 ^ 63 ∨ (roundOffset base k).toNat = 2 ^ 64 - 1 := by
  rw [Seeks, lseek, llseek_set]
  generalize roundOffset base k = off
  by_cases hneg : off.slt 0 = true
  · rw [if_pos hneg]
    have hhigh := (slt_zero_iff off).mp hneg
    have hne : off ≠ 0 := by
      rintro rfl
      exact absurd hneg (by decide)
    rw [or_iff_right hne, or_iff_right (by omega), ← BitVec.toNat_inj]
    exact eq_comm
  · rw [if_neg hneg]
    have hlow : off.toNat < 2 ^ 63 := Nat.lt_of_not_le fun h => hneg ((slt_zero_iff off).mpr h)
    refine iff_of_true (.inr ?_) (.inl hlow)
    rw [← BitVec.toNat_inj]
    exact (sysValue_nonneg hlow).2

theorem roundOffset_zero (base : U64) : roundOffset base 0 = base := by
  rw [roundOffset, Nat.mul_zero]
  exact BitVec.add_zero base

theorem roundOffset_succ (base : U64) (k : ℕ) :
    roundOffset base (k + 1) = roundOffset base k + rwMaxSize := by
  rw [roundOffset, roundOffset, Nat.mul_succ, BitVec.ofNat_add, add_assoc, BitVec.ofNat_toNat,
    BitVec.setWidth_eq]

theorem seekPos_low {k : ℕ} (h : (roundOffset base k).toNat < 2 ^ 63) (h0 : roundOffset base k ≠ 0) :
    seekPos base (k + 1) = roundOffset base k := by
  have hneg : ¬ (roundOffset base k).slt 0 = true := fun hneg => absurd ((slt_zero_iff _).mp hneg) (by omega)
  rw [seekPos, if_pos h0, llseek_set, if_neg hneg]

theorem seekPos_high {k : ℕ} (h : 2 ^ 63 ≤ (roundOffset base k).toNat) :
    seekPos base (k + 1) = seekPos base k := by
  rw [seekPos, llseek_set, if_pos ((slt_zero_iff _).mpr h)]
  exact ite_self _

theorem seekPos_succ (k : ℕ) (h : ∀ j ≤ k, Seeks (lseek base) base j) :
    seekPos base (k + 1) = if base.toNat = 2 ^ 64 - 1 ∧ k = 0 then 0 else roundOffset base k := by
  have hk := (seeks_iff k).mp (h k (le_refl k))
  cases k with
  | zero =>
    rcases hk with hlow | hlast
    · rw [if_neg (by rw [roundOffset_zero] at hlow; omega)]
      by_cases h0 : roundOffset base 0 = 0
      · rw [seekPos, if_neg (not_not.mpr h0), h0, seekPos]
      · exact seekPos_low hlow h0
    · rw [seekPos_high (by omega), if_pos ⟨by rwa [roundOffset_zero] at hlast, rfl⟩, seekPos]
  | succ j =>
    have hj := (seeks_iff j).mp (h j (Nat.le_succ j))
    have hmax : rwMaxSize.toNat = 0x7ffff000 := rfl
    have hadd : (roundOffset base (j + 1)).toNat = ((roundOffset base j).toNat + 0x7ffff000) % 2 ^ 64 := by
      rw [roundOffset_succ, BitVec.toNat_add, hmax]
    have h0 : roundOffset base (j + 1) ≠ 0 := by
      rw [← BitVec.toNat_inj.ne, hadd]
      change _ ≠ 0
      omega
    rw [if_neg (by omega)]
    exact seekPos_low (by omega) h0

end

variable (F : ChannelFile) (write : Bool) (size base : U64) (bus : ℕ → ℕ → U64)

def bufferAt (k : ℕ) : U64 := F.buffer + BitVec.ofNat 64 (rwMaxSize.toNat * k)

def pages (k : ℕ) : List ℕ :=
  match (F.round k).map.pin (pagesOf (F.bufferAt k) (roundBytes size k)) with
  | .ok pages => pages
  | .error _ => []

/-- Each round finds an engine that increments addresses and is given its completions, and
`dma_map_sg` gives the bytes of the table in their order, or fails. -/
structure Serves : Prop where
  incremental : ∀ k < rounds size, Incremental F.p F.own (F.round k).drv
  bytes : ∀ k < rounds size, (F.round k).mapped ≠ [] → ∀ pages,
    (F.round k).map.pin (pagesOf (F.bufferAt k) (roundBytes size k)) = .ok pages →
    sgBytes (F.round k).mapped =
      (sgSetPages pages (F.bufferAt k) (roundBytes size k)).1.flatMap (SgPage.busBytes (bus k))
  completions : ∀ k < rounds size, (requestSdesc F.p (F.round k).mapped).length ≤ (F.round k).envs.length

def dir (write : Bool) : DmaDir := if write then .toDevice else .fromDevice

def completed (trs : List ChainTrace) : List ChainTrace := trs.filter fun tr => tr.Completed ⟨F.own, 0⟩

/-- The first `v` of `all` have been moved by chains that completed, and nothing was tried out of their order. -/
structure MovesFirst (all : List (U64 × U64)) (trs : List ChainTrace) (v : ℕ) : Prop where
  le : v ≤ all.length
  moved : chainPairs F.own (dir write) (F.completed trs) = all.take v
  order : chainPairs F.own (dir write) trs <+: all

def Returns (rc : U64) (v : ℕ) : Prop := rc.slt 0 = true ∧ v = 0 ∨ rc.slt 0 = false ∧ rc.toNat = v

variable {F write size base bus}

theorem movesFirst_nil (all : List (U64 × U64)) : F.MovesFirst write all [] 0 :=
  ⟨Nat.zero_le _, rfl, List.nil_prefix⟩

theorem length_userPairs (bus : ℕ → U64) (pages : List ℕ) (buf : ℕ) (pos : U64) (n : ℕ) :
    (userPairs bus pages buf pos n).length = n := by
  rw [userPairs, List.length_map, List.length_range]

theorem movesFirst_of_movesUser {bus : ℕ → U64} {pages : List ℕ} {buf count : ℕ} {pos : U64}
    {trs oks : List ChainTrace} {stop : Option ChainTrace} {v : ℤ}
    (h : MovesUser F.own (dir write) bus pages buf pos count trs oks stop v) :
    F.MovesFirst write (userPairs bus pages buf pos count) trs v.toNat := by
  have hle : v.toNat ≤ count := Int.toNat_le.mpr h.bounds.2
  have hoks : F.completed trs = oks := by
    have hstop : stop.toList.filter (fun tr => tr.Completed ⟨F.own, 0⟩) = [] := by
      apply List.filter_eq_nil_iff.mpr
      intro tr htr
      have hno := h.stopped tr (Option.mem_toList.mp htr)
      rwa [decide_eq_true_eq]
    rw [completed, h.chains, List.filter_append, hstop, List.append_nil]
    apply List.filter_eq_self.mpr
    intro tr htr
    exact decide_eq_true (h.completed tr htr)
  refine ⟨by rwa [length_userPairs], ?_, h.order⟩
  rw [hoks, h.moved, take_userPairs _ _ _ _ hle]

theorem toNat_bufferAt {k : ℕ} (h : F.buffer.toNat + rwMaxSize.toNat * k < 2 ^ 64) :
    (F.bufferAt k).toNat = F.buffer.toNat + rwMaxSize.toNat * k := by
  rw [bufferAt, BitVec.toNat_add, BitVec.toNat_ofNat, Nat.add_mod_mod, Nat.mod_eq_of_lt h]

variable (write) in
theorem call_moves (h : F.Serves size bus) {k : ℕ} (hk : rwMaxSize.toNat * k < size.toNat) (pos : U64) :
    ∃ v, F.MovesFirst write
        (userPairs (bus k) (F.pages size k) (F.buffer.toNat + rwMaxSize.toNat * k) pos
          (roundBytes size k).toNat)
        (F.call write k (rwMaxSize.toNat * k) (roundBytes size k) pos).chains v ∧
      Returns (F.call write k (rwMaxSize.toNat * k) (roundBytes size k) pos).outcome.sysValue v := by
  have hbytes := toNat_roundBytes hk
  have hround := lt_rounds_iff.mpr hk
  have hmax : rwMaxSize.toNat = 0x7ffff000 := rfl
  unfold call
  by_cases hrefused : (F.round k).refused = true ∨
      2 ^ 63 ≤ F.buffer.toNat + rwMaxSize.toNat * k + (roundBytes size k).toNat
  · rw [if_pos hrefused]
    exact ⟨0, movesFirst_nil _, .inl ⟨sysValue_neg (err_neg _), rfl⟩⟩
  rw [if_neg hrefused]
  obtain ⟨-, hfit⟩ := not_or.mp hrefused
  by_cases hdir : (F.round k).drv.eng.dir ≠ (if write then .toDevice else .fromDevice)
  · rw [charSgdmaReadWrite, if_pos hdir]
    exact ⟨0, movesFirst_nil _, .inl ⟨sysValue_neg (err_neg _), rfl⟩⟩
  have hat := toNat_bufferAt (F := F) (k := k) (by omega)
  have hu : MapsUser (bus k) (F.bufferAt k) (roundBytes size k) (F.round k).map (F.round k).mapped :=
    ⟨by omega, by omega, h.bytes k hround⟩
  obtain ⟨hret, hmoves⟩ := charSgdmaReadWrite_movesUser (h.incremental k hround) hu (show
    charSgdmaReadWrite F.p F.own F.align write (F.bufferAt k) (roundBytes size k) pos (F.round k).map
      (F.round k).mapped (F.round k).oom (F.round k).envs (F.round k).drv = _ from rfl)
  obtain ⟨v, hv⟩ := hret (h.completions k hround)
  change ∃ v, F.MovesFirst write _ (charSgdmaReadWrite F.p F.own F.align write (F.bufferAt k) _ _ _
    _ _ _ _).chains v ∧
    Returns (charSgdmaReadWrite F.p F.own F.align write (F.bufferAt k) _ _ _ _ _ _ _).outcome.sysValue v
  rw [hv]
  rcases hmoves v hv with ⟨hrefusal, hnone⟩ | ⟨-, pages, oks, stop, hpin, hm⟩
  · rw [hnone]
    exact ⟨0, movesFirst_nil _, .inl ⟨sysValue_neg (readWriteRefusal_neg hrefusal), rfl⟩⟩
  · have hpages : F.pages size k = pages := by
      rw [ChannelFile.pages, hpin]
    have hdir : (F.round k).drv.eng.dir = dir write := not_not.mp hdir
    rw [hdir, hat] at hm
    rw [hpages]
    refine ⟨v.toNat, movesFirst_of_movesUser hm, ?_⟩
    rcases lt_or_ge v 0 with hneg | hnonneg
    · exact .inl ⟨sysValue_neg hneg, Int.toNat_of_nonpos (Int.le_of_lt hneg)⟩
    · have hle := hm.bounds.2
      obtain ⟨n, rfl⟩ := Int.eq_ofNat_of_zero_le hnonneg
      exact .inr (sysValue_nonneg (by omega))

theorem charSgdmaReadWrite_clipped {p : Params} {own : ℕ} {align : EngineAlign} {write : Bool}
    {buf count pos : U64}
    {env : MapEnv} {mapped : List SgEntry} {oom : Bool} {envs : List ChainEnv} {s : Drv} {v : ℤ}
    (h : (charSgdmaReadWrite p own align write buf count pos env mapped oom envs s).outcome = .returned v) :
    v ≤ count.toNat := by
  rcases charSgdmaReadWrite_cases align write buf count pos env mapped oom envs rfl with
    ⟨rv, hrefusal, hrv, -⟩ | ⟨-, cb, rv, -, -, -, -, hiff⟩
  · obtain rfl := CallEnd.returned.inj (hrv.symm.trans h)
    have hneg := readWriteRefusal_neg hrefusal
    omega
  · obtain ⟨res, -, rfl⟩ := (hiff v).mp h
    split_ifs <;> omega

theorem readWrite_bounded (F : ChannelFile) (write : Bool) (base : U64) :
    Bounded (F.readWrite write base) := by
  intro k buf bytes hneg
  rw [readWrite, call] at hneg ⊢
  by_cases hrefused : (F.round k).refused = true ∨ 2 ^ 63 ≤ F.buffer.toNat + buf + bytes.toNat
  · rw [if_pos hrefused] at hneg
    exact absurd (sysValue_neg (err_neg _)) hneg
  rw [if_neg hrefused] at hneg ⊢
  obtain ⟨-, hfit⟩ := not_or.mp hrefused
  generalize hr : charSgdmaReadWrite F.p F.own F.align write (F.buffer + BitVec.ofNat 64 buf) bytes
    (seekPos base (k + 1)) (F.round k).map (F.round k).mapped (F.round k).oom (F.round k).envs
      (F.round k).drv = r at *
  cases ho : r.outcome with
  | returned v =>
    have hle := charSgdmaReadWrite_clipped (hr ▸ ho)
    rw [ho] at hneg
    have hnonneg : 0 ≤ v := Int.not_lt.mp fun h => hneg (sysValue_neg h)
    obtain ⟨n, rfl⟩ := Int.eq_ofNat_of_zero_le hnonneg
    have hn := (sysValue_nonneg (n := n) (by omega)).2
    change sysValue n ≤ bytes ∧ buf + (sysValue n).toNat < 2 ^ 63
    rw [BitVec.le_def, hn]
    omega
  | waiting =>
    rw [ho] at hneg
    exact absurd rfl hneg
  | overrun =>
    rw [ho] at hneg
    exact absurd rfl hneg

def deviceAddr (base : U64) (i : ℕ) : U64 :=
  if base.toNat = 2 ^ 64 - 1 ∧ i < rwMaxSize.toNat then (i : U64) else base + (i : U64)

variable (F size base bus) in
def bytePair (i : ℕ) : U64 × U64 :=
  (userBus (bus (i / rwMaxSize.toNat)) (F.pages size (i / rwMaxSize.toNat))
    (F.buffer.toNat + rwMaxSize.toNat * (i / rwMaxSize.toNat)) (F.buffer.toNat + i), deviceAddr base i)

theorem seekPos_deviceAddr {k i : ℕ} (h : ∀ j ≤ k, Seeks (lseek base) base j) (hi : i < rwMaxSize.toNat) :
    seekPos base (k + 1) + (i : U64) = deviceAddr base (rwMaxSize.toNat * k + i) := by
  rw [seekPos_succ k h, deviceAddr]
  by_cases hfirst : base.toNat = 2 ^ 64 - 1 ∧ k = 0
  · obtain ⟨hlast, rfl⟩ := hfirst
    rw [if_pos ⟨hlast, rfl⟩, Nat.mul_zero, Nat.zero_add, if_pos ⟨hlast, hi⟩, zero_add]
  · have hnot : ¬ (base.toNat = 2 ^ 64 - 1 ∧ rwMaxSize.toNat * k + i < rwMaxSize.toNat) := by
      rintro ⟨hlast, hlt⟩
      have hk : k ≠ 0 := fun h0 => hfirst ⟨hlast, h0⟩
      have hle := Nat.le_mul_of_pos_right rwMaxSize.toNat (Nat.pos_of_ne_zero hk)
      omega
    rw [if_neg hfirst, if_neg hnot, roundOffset, Nat.cast_add, ← add_assoc]
    rfl

theorem userPairs_bytePair {k n : ℕ} (h : ∀ j ≤ k, Seeks (lseek base) base j) (hn : n ≤ rwMaxSize.toNat) :
    userPairs (bus k) (F.pages size k) (F.buffer.toNat + rwMaxSize.toNat * k) (seekPos base (k + 1)) n =
      (List.range' (rwMaxSize.toNat * k) n).map (F.bytePair size base bus) := by
  rw [userPairs, List.range'_eq_map_range, List.map_map]
  apply List.map_congr_left
  intro i hi
  have hi : i < rwMaxSize.toNat := (List.mem_range.mp hi).trans_le hn
  have hdiv : (rwMaxSize.toNat * k + i) / rwMaxSize.toNat = k := by
    rw [Nat.mul_add_div (by decide), Nat.div_eq_of_lt hi, Nat.add_zero]
  rw [Function.comp_apply, bytePair, hdiv, seekPos_deviceAddr h hi, Nat.add_assoc]

theorem MovesFirst.append_left {all rest : List (U64 × U64)} {trs : List ChainTrace} {v : ℕ}
    (h : F.MovesFirst write all trs v) : F.MovesFirst write (all ++ rest) trs v := by
  obtain ⟨hle, hmoved, horder⟩ := h
  refine ⟨?_, ?_, horder.trans (List.prefix_append _ _)⟩
  · rw [List.length_append]
    omega
  · rw [hmoved, List.take_append_of_le_length hle]

theorem MovesFirst.whole {all : List (U64 × U64)} {trs : List ChainTrace}
    (h : F.MovesFirst write all trs all.length) :
    chainPairs F.own (dir write) trs = all := by
  have hmoved := h.moved
  rw [List.take_length] at hmoved
  apply h.order.eq_of_length_le
  have hsub : (chainPairs F.own (dir write) (F.completed trs)).Sublist (chainPairs F.own (dir write) trs) :=
    (List.filter_sublist.flatMap _).flatMap _
  have hlen := hsub.length_le
  rwa [hmoved] at hlen

theorem MovesFirst.append {all rest : List (U64 × U64)} {trs trs' : List ChainTrace} {v : ℕ}
    (h : F.MovesFirst write all trs all.length) (h' : F.MovesFirst write rest trs' v) :
    F.MovesFirst write (all ++ rest) (trs ++ trs') (all.length + v) := by
  have hmoved := h.moved
  rw [List.take_length] at hmoved
  refine ⟨?_, ?_, ?_⟩
  · rw [List.length_append]
    exact Nat.add_le_add_left h'.le _
  · rw [completed, List.filter_append, chainPairs_append, List.take_length_add_append]
    exact congrArg₂ _ hmoved h'.moved
  · rw [chainPairs_append, h.whole]
    exact (List.prefix_append_right_inj _).mpr h'.order

variable (F size base bus) in
def rest (k : ℕ) : List (U64 × U64) :=
  (List.range' (min (rwMaxSize.toNat * k) size.toNat) (size.toNat - rwMaxSize.toNat * k)).map
    (F.bytePair size base bus)

theorem start_succ {k : ℕ} (hk : rwMaxSize.toNat * k < size.toNat) :
    min (rwMaxSize.toNat * (k + 1)) size.toNat = rwMaxSize.toNat * k + (roundBytes size k).toNat := by
  have hbytes := toNat_roundBytes hk
  have hmax : rwMaxSize.toNat = 0x7ffff000 := rfl
  rw [Nat.mul_succ]
  omega

theorem rest_succ {k : ℕ} (hk : rwMaxSize.toNat * k < size.toNat) : F.rest size base bus k =
    (List.range' (rwMaxSize.toNat * k) (roundBytes size k).toNat).map (F.bytePair size base bus) ++
      F.rest size base bus (k + 1) := by
  have hbytes := toNat_roundBytes hk
  have hmax : rwMaxSize.toNat = 0x7ffff000 := rfl
  have hlen : size.toNat - rwMaxSize.toNat * k =
      (roundBytes size k).toNat + (size.toNat - rwMaxSize.toNat * (k + 1)) := by
    rw [Nat.mul_succ]
    omega
  rw [rest, rest, min_eq_left (Nat.le_of_lt hk), start_succ hk, hlen, ← List.map_append, List.range'_append_1]

/-- The value that a transfer returns, when it moved `m` bytes. After a failing call it says nothing
of the chunks before. -/
def Reports (size rc : U64) (m : ℕ) : Prop :=
  rc.slt 0 = false ∧ rc.toNat = m ∨ rc = eio ∧ m < size.toNat ∧ rwMaxSize.toNat ∣ m

variable (write) in
theorem transfer_rounds (h : F.Serves size bus) (n : ℕ) : ∀ {k : ℕ} {s : IoLoop}, k + n = rounds size →
    s.At size base k → (∀ j < k, Seeks (lseek base) base j) →
    ∃ m, F.MovesFirst write (F.rest size base bus k)
        ((List.range' k (bufferCalls (lseek base) (F.readWrite write base) false size n k s)).flatMap
          (F.chains write size base)) m ∧
      Reports size (bufferLoop (lseek base) (F.readWrite write base) false size n k s).rc
        (min (rwMaxSize.toNat * k) size.toNat + m) := by
  induction n with
  | zero =>
    intro k s hk hs _
    have hend : ¬ rwMaxSize.toNat * k < size.toNat := fun hlt => by
      have := lt_rounds_iff.mpr hlt
      omega
    refine ⟨0, movesFirst_nil _, .inl ⟨?_, hs.count⟩⟩
    rw [Bool.eq_false_iff]
    intro hneg
    have := (slt_zero_iff _).mp hneg
    exact absurd hs.low (Nat.not_lt.mpr this)
  | succ n ih =>
    intro k s hk hs hsought
    have hlt := lt_rounds_iff.mp (show k < rounds size by omega)
    have hcount := hs.count_eq hlt
    have hless : s.count < size := by
      rw [BitVec.lt_def]
      omega
    have hoff := hs.offset (show k < rounds size by omega)
    rw [bufferLoop, if_pos hless, bufferCalls, hoff, ioRound_at hs hlt, min_eq_left (Nat.le_of_lt hlt)]
    by_cases hseeks : Seeks (lseek base) base k
    swap
    · rw [if_neg fun h => hseeks h.2, if_pos hseeks]
      exact ⟨0, movesFirst_nil _, .inr ⟨rfl, hlt, Nat.dvd_mul_right _ _⟩⟩
    have hall : ∀ j ≤ k, Seeks (lseek base) base j := fun j hj =>
      (Nat.lt_or_eq_of_le hj).elim (hsought j) fun he => he ▸ hseeks
    have hbytes := toNat_roundBytes hlt
    obtain ⟨v, hm, hrc⟩ := call_moves write h hlt (seekPos base (k + 1))
    rw [userPairs_bytePair hall (by omega)] at hm
    change F.MovesFirst write _ (F.chains write size base k) v at hm
    change Returns (roundRc (F.readWrite write base) size k) v at hrc
    rw [if_pos ⟨hless, hseeks⟩, if_neg (not_not.mpr hseeks), rest_succ hlt]
    have hone : (List.range' k 1).flatMap (F.chains write size base) =
      F.chains write size base k := List.append_nil _
    by_cases hneg : (roundRc (F.readWrite write base) size k).slt 0 = true
    · rw [if_pos hneg]
      refine ⟨v, ?_, .inr ⟨rfl, ?_⟩⟩
      · rw [hone]
        exact hm.append_left
      · rcases hrc with ⟨-, rfl⟩ | ⟨hpos, -⟩
        · exact ⟨hlt, Nat.dvd_mul_right _ _⟩
        · exact absurd hneg (Bool.eq_false_iff.mp hpos)
    rw [if_neg hneg]
    obtain ⟨hle, hlow⟩ := readWrite_bounded F write base k _ _ hneg
    change roundRc (F.readWrite write base) size k ≤ roundBytes size k at hle
    change rwMaxSize.toNat * k + (roundRc (F.readWrite write base) size k).toNat < 2 ^ 63 at hlow
    have hv : (roundRc (F.readWrite write base) size k).toNat = v := by
      rcases hrc with ⟨hneg', -⟩ | ⟨-, hv⟩
      · exact absurd hneg' hneg
      · exact hv
    by_cases hfull : roundRc (F.readWrite write base) size k = roundBytes size k
    · rw [if_neg (not_not.mpr hfull)]
      dsimp only
      obtain ⟨m, hmoves, hreports⟩ := ih (k := k + 1) (by omega)
        (hs.next (readWrite_bounded F write base) hlt hfull)
        fun j hj => hall j (Nat.lt_succ_iff.mp hj)
      have hlen : v = ((List.range' (rwMaxSize.toNat * k) (roundBytes size k).toNat).map
          (F.bytePair size base bus)).length := by
        rw [List.length_map, List.length_range', ← hv, hfull]
      refine ⟨v + m, ?_, ?_⟩
      · rw [List.range'_succ, List.flatMap_cons]
        rw [hlen] at hm ⊢
        exact hm.append hmoves
      · have hbytes : (roundBytes size k).toNat = v := hfull ▸ hv
        rw [start_succ hlt, hbytes, Nat.add_assoc] at hreports
        exact hreports
    · rw [if_pos hfull]
      refine ⟨v, ?_, .inl ?_⟩
      · rw [hone]
        exact hm.append_left
      · have hsum : (s.count + roundRc (F.readWrite write base) size k).toNat = rwMaxSize.toNat * k + v := by
          rw [BitVec.toNat_add, hcount, hv]
          exact Nat.mod_eq_of_lt (by omega)
        refine ⟨?_, hsum⟩
        rw [Bool.eq_false_iff]
        intro hneg'
        have := (slt_zero_iff _).mp hneg'
        change 2 ^ 63 ≤ (s.count + roundRc (F.readWrite write base) size k).toNat at this
        omega

variable (F write size base) in
def run : List ChainTrace :=
  (List.range (bufferCalls (lseek base) (F.readWrite write base) false size (rounds size) 0
    { offset := base, pos := 0 })).flatMap (F.chains write size base)

theorem transfer_loop : F.transfer write size base =
    bufferLoop (lseek base) (F.readWrite write base) false size (rounds size) 0 { offset := base, pos := 0 } := by
  cases write with
  | true => rw [transfer, if_pos rfl, writeFromBuffer, calls]
  | false => rw [transfer, if_neg Bool.false_ne_true, readToBuffer, calls]

variable (write base) in
theorem transfer_movesFirst (h : F.Serves size bus) : ∃ m,
    F.MovesFirst write ((List.range size.toNat).map (F.bytePair size base bus)) (F.run write size base) m ∧
      Reports size (F.transfer write size base).rc m := by
  obtain ⟨m, hmoves, hreports⟩ := transfer_rounds write h (rounds size) (Nat.zero_add _)
    (start_at size base 0) fun j hj => absurd hj (Nat.not_lt_zero j)
  have hall : F.rest size base bus 0 = (List.range size.toNat).map (F.bytePair size base bus) := by
    rw [rest, Nat.mul_zero, Nat.zero_min, Nat.sub_zero, ← List.range_eq_range']
  rw [hall, ← List.range_eq_range'] at hmoves
  rw [Nat.mul_zero, Nat.zero_min, Nat.zero_add] at hreports
  refine ⟨m, hmoves, ?_⟩
  rw [transfer_loop]
  exact hreports

/-- A transfer that returns without an error has moved the first bytes of the buffer of the tool, as
many as it returns, to or from the device addresses from `base` on, each once and in order. -/
theorem transfer_moves (h : F.Serves size bus) : ∃ m ≤ size.toNat,
    chainPairs F.own (dir write) (F.completed (F.run write size base)) =
      (List.range m).map (F.bytePair size base bus) ∧
    chainPairs F.own (dir write) (F.run write size base) <+:
      (List.range size.toNat).map (F.bytePair size base bus) ∧
    Reports size (F.transfer write size base).rc m := by
  obtain ⟨m, hmoves, hreports⟩ := transfer_movesFirst write base h
  have hle := hmoves.le
  rw [List.length_map, List.length_range] at hle
  refine ⟨m, hle, ?_, hmoves.order, hreports⟩
  rw [hmoves.moved, ← List.map_take, List.take_range, Nat.min_eq_left hle]

def splitRead : ChannelFile where
  p := {}
  own := 1
  align := {}
  buffer := 0x7f0000001ff0
  round _ :=
    { drv := {}
      map := { pinned := .ok [7, 3] }
      mapped := [⟨0x7ff0, 16⟩, ⟨0x3000, 16⟩]
      envs := [{ during := [.service 0 ⟨4, 2, 2⟩] }, {}] }

theorem serves_splitRead : splitRead.Serves 0x20 fun _ => identityBus := by
  have hone : rounds 0x20 = 1 := by decide
  have hchains : (requestSdesc {} [⟨0x7ff0, 16⟩, ⟨0x3000, 16⟩]).length ≤ 2 := by decide
  refine ⟨fun _ _ => incremental_idle, fun k hk hne pages hpages => ?_, fun _ _ => hchains⟩
  obtain rfl : k = 0 := by omega
  exact mapsUser_twoPages.bytes hne pages hpages

theorem transfer_moves_splitRead : (splitRead.transfer false 0x20 0x20).rc = 0x20 ∧
    chainPairs 1 .fromDevice (splitRead.completed (splitRead.run false 0x20 0x20)) =
      (List.range 32).map (splitRead.bytePair 0x20 0x20 fun _ => identityBus) := by
  have hrc : (splitRead.transfer false 0x20 0x20).rc = 0x20 := by decide
  obtain ⟨m, -, hmoved, -, hreports⟩ := @transfer_moves splitRead false 0x20 0x20 _ serves_splitRead
  rw [hrc] at hreports
  rcases hreports with ⟨-, rfl⟩ | ⟨hfail, -⟩
  · exact ⟨hrc, hmoved⟩
  · exact absurd hfail (by decide)

end ChannelFile

end XdmaDriver
