import XdmaDriver.Types
import Mathlib.Data.List.Chain

/-!
The user buffers of `read` and `write`: the alignment check, and the scatter table over
the pinned pages.
-/

namespace XdmaDriver

/-- The `u8` fields of `struct xdma_engine` that the alignment check reads. -/
structure EngineAlign where
  addrAlign : BitVec 8 := 1
  lenGranularity : BitVec 8 := 1
  deriving DecidableEq, Repr

def checkTransferAlign (nonIncrAddr : Bool) (al : EngineAlign) (buf count pos : U64) (sync : Bool) : ℤ :=
  let bufLsb : U32 := buf.setWidth 32 &&& (al.addrAlign.setWidth 32 - 1)
  let posLsb : U32 := pos.setWidth 32 &&& (al.addrAlign.setWidth 32 - 1)
  if nonIncrAddr then
    let lenLsb := count &&& (al.lenGranularity.setWidth 64 - 1)
    if bufLsb ≠ 0 then err .inval
    else if posLsb ≠ 0 ∧ sync then err .inval
    else if lenLsb ≠ 0 then err .inval
    else 0
  else if bufLsb ≠ posLsb then err .inval
  else 0

def pageSize : U64 := 0x1000

/-- An entry of a scatter table as `sg_set_page` leaves it. -/
structure SgPage where
  page : ℕ
  length : U32
  offset : U32
  deriving DecidableEq, Repr

/-- `struct xdma_io_cb`. `pages` are the references that `cb->pages` holds, `pagesArray`
says that the array is allocated, and `sgt` is the scatter table until it is freed. -/
structure XdmaIoCb where
  buf : U64 := 0
  len : U64 := 0
  epAddr : U64 := 0
  write : Bool := false
  pagesNr : ℕ := 0
  pagesArray : Bool := false
  pages : List ℕ := []
  sgt : Option (List SgPage) := none
  deriving DecidableEq, Repr

/-- What the allocations for one mapping return, and `get_user_pages_fast`: an error,
or the pages it has pinned. -/
structure MapEnv where
  sgTable : Bool := true
  pagesArray : Bool := true
  pinned : Except Errno (List ℕ)

def pagesOf (buf len : U64) : ℕ :=
  (((buf + len + pageSize - 1 - (buf &&& ~~~(pageSize - 1))) >>> 12).setWidth 32 : U32).toNat

def sgSetPages : List ℕ → U64 → U64 → List SgPage × U64
  | [], _, len => ([], len)
  | page :: pages, buf, len =>
    let offset : U32 := (buf &&& (pageSize - 1)).setWidth 32
    let room : U32 := (pageSize - offset.setWidth 64).setWidth 32
    let nbytes := if len.setWidth 32 < room then len.setWidth 32 else room
    let (sgl, left) := sgSetPages pages (buf + nbytes.setWidth 64) (len - nbytes.setWidth 64)
    (⟨page, nbytes, offset⟩ :: sgl, left)

/-- `put_page` for the first `pages_nr` pages, and the end of the array. -/
def charSgdmaUnmapUserBuf (cb : XdmaIoCb) : XdmaIoCb :=
  let cb := { cb with sgt := none }
  if cb.pagesArray = false ∨ cb.pagesNr = 0 then cb
  else { cb with pages := cb.pages.drop cb.pagesNr, pagesArray := false }

def MapEnv.pin (env : MapEnv) (n : ℕ) : Except Errno (List ℕ) := env.pinned.map (List.take n)

def charSgdmaMapUserBufToSgl (env : MapEnv) (cb : XdmaIoCb) : XdmaIoCb × ℤ :=
  let pagesNr := pagesOf cb.buf cb.len
  if pagesNr = 0 then (cb, err .inval)
  else if env.sgTable = false then (cb, err .noMem)
  else
    let cb := { cb with sgt := some [] }
    if env.pagesArray = false then (charSgdmaUnmapUserBuf cb, err .noMem)
    else
      let cb := { cb with pagesArray := true }
      match env.pin pagesNr with
      | .error e => (charSgdmaUnmapUserBuf cb, err e)
      | .ok pages =>
        let cb := { cb with pages := pages }
        if pages.length ≠ pagesNr then
          (charSgdmaUnmapUserBuf { cb with pagesNr := pages.length }, err .fault)
        else if ¬ pages.IsChain (· ≠ ·) then
          (charSgdmaUnmapUserBuf { cb with pagesNr := pagesNr }, err .fault)
        else
          let (sgl, left) := sgSetPages pages cb.buf cb.len
          let cb := { cb with sgt := some sgl }
          if left ≠ 0 then (cb, err .inval) else ({ cb with pagesNr := pagesNr }, 0)

def XdmaIoCb.HoldsNothing (cb : XdmaIoCb) : Prop := cb.pages = [] ∧ cb.sgt = none

instance (cb : XdmaIoCb) : Decidable cb.HoldsNothing := inferInstanceAs (Decidable (_ ∧ _))

theorem pageOffset_toNat (buf : U64) : (buf &&& (pageSize - 1)).toNat = buf.toNat % 4096 := by
  have hmask : (pageSize - 1 : U64).toNat = 2 ^ 12 - 1 := rfl
  rw [BitVec.toNat_and, hmask, Nat.and_two_pow_sub_one_eq_mod]

theorem pagesOf_eq (buf : U64) {len : U64} (h : len.toNat < 2 ^ 32) :
    pagesOf buf len = (buf.toNat % 4096 + len.toNat + 4095) / 4096 := by
  have hsplit : (buf &&& (pageSize - 1)) + (buf &&& ~~~(pageSize - 1)) = buf := by
    rw [BitVec.add_eq_or_of_and_eq_zero]
    · rw [← BitVec.and_or_distrib_left, BitVec.or_not_self, BitVec.and_allOnes]
    · rw [BitVec.and_assoc, ← BitVec.and_assoc (pageSize - 1), BitVec.and_comm (pageSize - 1),
        BitVec.and_assoc buf,
        BitVec.and_not_self]
      simp
  have hoff := pageOffset_toNat buf
  have hsize : pageSize.toNat = 4096 := rfl
  have hone : (1 : U64).toNat = 1 := rfl
  have hbuf := buf.isLt
  have hsum : (buf + len + pageSize - 1 - (buf &&& ~~~(pageSize - 1))).toNat =
      buf.toNat % 4096 + len.toNat + 4095 := by
    have hnat := congrArg BitVec.toNat hsplit
    rw [BitVec.toNat_add, hoff] at hnat
    simp only [BitVec.toNat_sub, BitVec.toNat_add, hsize, hone]
    omega
  rw [pagesOf, BitVec.toNat_setWidth, BitVec.toNat_ushiftRight, Nat.shiftRight_eq_div_pow, hsum]
  apply Nat.mod_eq_of_lt
  omega

theorem pagesOf_covers (buf : U64) {len : U64} (h : len.toNat < 2 ^ 32) :
    buf.toNat % 4096 + len.toNat ≤ 4096 * pagesOf buf len := by
  rw [pagesOf_eq buf h]
  omega

theorem sgSetPages_cons (page : ℕ) (pages : List ℕ) (buf : U64) {len : U64} (hlen : len.toNat < 2 ^ 32) :
    ∃ (e : SgPage) (buf' len' : U64),
      sgSetPages (page :: pages) buf len = (e :: (sgSetPages pages buf' len').1,
      (sgSetPages pages buf' len').2) ∧
      e.page = page ∧ e.offset.toNat = buf.toNat % 4096 ∧
      e.length.toNat = min len.toNat (4096 - buf.toNat % 4096) ∧
      buf'.toNat = (buf.toNat + e.length.toNat) % 2 ^ 64 ∧ len'.toNat = len.toNat - e.length.toNat := by
  rw [sgSetPages]
  dsimp only
  have hoff : ((buf &&& (pageSize - 1)).setWidth 32 : U32).toNat = buf.toNat % 4096 := by
    rw [BitVec.toNat_setWidth, pageOffset_toNat]
    omega
  generalize ((buf &&& (pageSize - 1)).setWidth 32 : U32) = offset at *
  have hsize : pageSize.toNat = 4096 := rfl
  have hroom : ((pageSize - offset.setWidth 64).setWidth 32 : U32).toNat = 4096 - buf.toNat % 4096 := by
    rw [BitVec.toNat_setWidth, BitVec.toNat_sub, BitVec.toNat_setWidth, hoff, hsize]
    omega
  generalize ((pageSize - offset.setWidth 64).setWidth 32 : U32) = room at *
  have hn : (if len.setWidth 32 < room then len.setWidth 32 else room : U32).toNat =
      min len.toNat (4096 - buf.toNat % 4096) := by
    have hset : (len.setWidth 32 : U32).toNat = len.toNat := by
      rw [BitVec.toNat_setWidth]
      omega
    split_ifs with hlt
    · rw [BitVec.lt_def] at hlt
      omega
    · rw [BitVec.lt_def] at hlt
      omega
  generalize (if len.setWidth 32 < room then len.setWidth 32 else room : U32) = nbytes at *
  refine ⟨⟨page, nbytes, offset⟩, buf + nbytes.setWidth 64, len - nbytes.setWidth 64, rfl,
    rfl, hoff, hn, ?_, ?_⟩
  · dsimp only
    rw [BitVec.toNat_add, BitVec.toNat_setWidth]
    omega
  · dsimp only
    rw [BitVec.toNat_sub, BitVec.toNat_setWidth]
    omega

theorem sgSetPages_all (pages : List ℕ) : ∀ {buf len : U64}, len.toNat < 2 ^ 32 →
    len = 0 ∨ buf.toNat % 4096 + len.toNat ≤ 4096 * pages.length → (sgSetPages pages buf len).2 = 0 := by
  have hzero : ∀ {x : U64}, x.toNat = 0 → x = 0 := fun h => BitVec.eq_of_toNat_eq h
  induction pages with
  | nil =>
    rintro buf len - (h | h)
    · exact h
    · rw [List.length_nil] at h
      apply hzero
      change len.toNat = 0
      omega
  | cons page pages ih =>
    intro buf len hlen h
    obtain ⟨e, buf', len', heq, -, -, hn, hbuf, hleft⟩ := sgSetPages_cons page pages buf hlen
    rw [heq]
    apply ih
    · omega
    · rcases h with rfl | h
      · apply Or.inl
        apply hzero
        rw [hleft]
        simp
      · rw [List.length_cons] at h
        by_cases hlast : len.toNat ≤ 4096 - buf.toNat % 4096
        · apply Or.inl
          apply hzero
          omega
        · apply Or.inr
          rw [hbuf, hleft]
          omega

end XdmaDriver
