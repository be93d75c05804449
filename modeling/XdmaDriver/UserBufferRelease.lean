import XdmaDriver.UserBuffer
import XdmaDriver.Lib.Ledger

/-!
What a failed mapping of a user buffer gives back: the references to the pages, their array
and the scatter table.
-/

namespace XdmaDriver

open Ledger

/-- What a mapping holds. The array has a reference for each of its places. -/
inductive MapHeld
  | table
  | array
  | page (i frame : ℕ)
  deriving DecidableEq, Repr

def pageRefs (pages : List ℕ) : List MapHeld := pages.mapIdx .page

structure MapRun where
  cb : XdmaIoCb
  rv : ℤ := 0
  ops : List (Op MapHeld) := []
  deriving DecidableEq

namespace MapRun

def acquire (run : MapRun) (held : List MapHeld) (cb : XdmaIoCb) : MapRun :=
  { run with cb := cb, ops := run.ops ++ held.map .acquire }

def errOut (run : MapRun) (rv : ℤ) : MapRun where
  cb := charSgdmaUnmapUserBuf run.cb
  rv := rv
  ops := run.ops ++ Op.release .table ::
    if run.cb.pagesArray = false ∨ run.cb.pagesNr = 0 then []
    else ((pageRefs run.cb.pages).take run.cb.pagesNr ++ [MapHeld.array]).map .release

end MapRun

/-- `char_sgdma_map_user_buf_to_sgl`, with what it acquires and releases. -/
def mapUserBufRun (env : MapEnv) (cb : XdmaIoCb) : MapRun :=
  let pagesNr := pagesOf cb.buf cb.len
  if pagesNr = 0 then { cb := cb, rv := err .inval }
  else if env.sgTable = false then { cb := cb, rv := err .noMem }
  else
    let run := MapRun.acquire { cb := cb } [.table] { cb with sgt := some [] }
    if env.pagesArray = false then run.errOut (err .noMem)
    else
      let run := run.acquire [.array] { run.cb with pagesArray := true }
      match env.pin pagesNr with
      | .error e => run.errOut (err e)
      | .ok pages =>
        let run := run.acquire (pageRefs pages) { run.cb with pages := pages }
        if pages.length ≠ pagesNr then { run with cb :=
          { run.cb with pagesNr := pages.length } }.errOut (err .fault)
        else if ¬ pages.IsChain (· ≠ ·) then
          { run with cb := { run.cb with pagesNr := pagesNr } }.errOut (err .fault)
        else
          let (sgl, left) := sgSetPages pages cb.buf cb.len
          let run := { run with cb := { run.cb with sgt := some sgl } }
          if left ≠ 0 then { run with rv := err .inval }
            else { run with cb := { run.cb with pagesNr := pagesNr } }

theorem mapUserBufRun_eq (env : MapEnv) (cb : XdmaIoCb) :
    charSgdmaMapUserBufToSgl env cb = ((mapUserBufRun env cb).cb, (mapUserBufRun env cb).rv) := by
  unfold mapUserBufRun charSgdmaMapUserBufToSgl
  dsimp only
  split_ifs
  · rfl
  · rfl
  · rfl
  · cases env.pin (pagesOf cb.buf cb.len) with
    | error e => rfl
    | ok pages =>
      dsimp only
      split_ifs <;> rfl

namespace MapRun

def Balanced (run : MapRun) : Prop := replay id [] run.ops = some []

instance (run : MapRun) : Decidable run.Balanced := inferInstanceAs (Decidable (_ = _))

end MapRun

def userIoCb (buf len epAddr : U64) (write : Bool) : XdmaIoCb :=
  { buf := buf, len := len, epAddr := epAddr, write := write }

/-- A mapping that stops before it has an array of pages, or whose `pages_nr` is set when it
stops. -/
def Releases (env : MapEnv) (buf len : U64) : Prop :=
  pagesOf buf len = 0 ∨ env.sgTable = false ∨ env.pagesArray = false ∨
    ∃ pages, env.pin (pagesOf buf len) = .ok pages ∧ pages ≠ [] ∧
      (pages.length ≠ pagesOf buf len ∨ ¬ pages.IsChain (· ≠ ·) ∨ len.toNat < 2 ^ 32)

theorem length_pageRefs (pages : List ℕ) : (pageRefs pages).length = pages.length := List.length_mapIdx

theorem pageRefs_nodup (pages : List ℕ) : (MapHeld.table :: .array :: pageRefs pages).Nodup := by
  have hpage : ∀ x ∈ pageRefs pages, ∃ i frame, x = .page i frame := by
    intro x hx
    obtain ⟨i, hi, rfl⟩ := List.mem_mapIdx.mp hx
    exact ⟨i, pages[i], rfl⟩
  have hrefs : (pageRefs pages).Nodup := by
    apply List.pairwise_iff_getElem.mpr
    intro i j hi hj hlt heq
    simp only [pageRefs, List.getElem_mapIdx, MapHeld.page.injEq] at heq
    omega
  refine List.nodup_cons.mpr ⟨?_, List.nodup_cons.mpr ⟨?_, hrefs⟩⟩
  · intro h
    rcases List.mem_cons.mp h with h | h
    · cases h
    · obtain ⟨i, frame, h⟩ := hpage _ h
      cases h
  · intro h
    obtain ⟨i, frame, h⟩ := hpage _ h
    cases h

theorem sgSetPages_left (pages : List ℕ) : ∀ {buf len : U64}, 2 ^ 32 ≤ len.toNat →
    2 ^ 32 ≤ (sgSetPages pages buf len).2.toNat := by
  induction pages with
  | nil => exact fun h => h
  | cons page pages ih =>
    intro buf len h
    rw [sgSetPages]
    dsimp only
    apply ih
    have hlow : (len.setWidth 32 : U32).toNat = len.toNat % 2 ^ 32 := BitVec.toNat_setWidth ..
    generalize ((pageSize - ((buf &&& (pageSize - 1)).setWidth 32 : U32).setWidth 64).setWidth 32 :
      U32) = room
    have hn : (if len.setWidth 32 < room then len.setWidth 32 else room : U32).toNat ≤
      len.toNat % 2 ^ 32 := by
      split_ifs with hlt
      · exact hlow.le
      · rw [BitVec.lt_def] at hlt
        omega
    generalize (if len.setWidth 32 < room then len.setWidth 32 else room : U32) = nbytes at *
    have hlen := len.isLt
    rw [BitVec.toNat_sub, BitVec.toNat_setWidth]
    omega

namespace MapRun

theorem errOut_balanced {run : MapRun} {pages : List ℕ} (rv : ℤ) (hpages : run.cb.pages = pages)
    (hops : run.ops = (MapHeld.table :: .array :: pageRefs pages).map .acquire)
      (harray : run.cb.pagesArray = true)
    (hnr : run.cb.pagesNr = pages.length) (hne : pages ≠ []) : (run.errOut rv).Balanced := by
  have hpos := List.length_pos_of_ne_nil hne
  have hcond : ¬ (run.cb.pagesArray = false ∨ run.cb.pagesNr = 0) := by
    rw [harray, hnr]
    rintro (h | h)
    · cases h
    · omega
  have hall : (pageRefs run.cb.pages).take run.cb.pagesNr = pageRefs pages := by
    rw [hpages, hnr]
    exact List.take_of_length_le (length_pageRefs pages).le
  have hperm : (MapHeld.table :: .array :: pageRefs pages).Perm (.table :: (pageRefs pages ++ [.array])) := by
    apply List.Perm.cons
    exact (List.perm_append_singleton MapHeld.array (pageRefs pages)).symm
  rw [Balanced, errOut, hops, if_neg hcond, hall]
  apply replay_acquires_releases _ hperm
  rw [List.map_id]
  exact pageRefs_nodup pages

theorem errOut_not_balanced {run : MapRun} (rv : ℤ)
    (hops : run.ops = [.acquire .table, .acquire .array]) (hnr : run.cb.pagesNr = 0) :
      ¬ (run.errOut rv).Balanced := by
  have hend : (run.errOut rv).ops = [.acquire .table, .acquire .array, .release .table] := by
    rw [errOut, hops, hnr, if_pos (.inr rfl)]
    rfl
  rw [Balanced, hend]
  decide

theorem not_balanced_of_acquired {run : MapRun} {pages : List ℕ}
    (hops : run.ops = (MapHeld.table :: .array :: pageRefs pages).map .acquire) : ¬ run.Balanced := by
  have hall : replay id [] run.ops = some ([] ++ MapHeld.table :: .array :: pageRefs pages) := by
    rw [hops]
    apply replay_acquires
    rw [List.map_id]
    exact pageRefs_nodup pages
  rw [Balanced, hall]
  simp

end MapRun

/-- A call that fails gives back what it has taken, exactly if it stops before it has an array
of pages or after it has set `pages_nr`. -/
theorem mapping_released_iff (env : MapEnv) (buf len epAddr : U64) (write : Bool) :
    ((charSgdmaMapUserBufToSgl env (userIoCb buf len epAddr write)).2 < 0 →
      (mapUserBufRun env (userIoCb buf len epAddr write)).Balanced) ↔ Releases env buf len := by
  rw [mapUserBufRun_eq]
  have herr := err_neg
  unfold mapUserBufRun userIoCb Releases
  dsimp only
  split_ifs with hz ht ha
  · exact iff_of_true (fun _ => rfl) (.inl hz)
  · exact iff_of_true (fun _ => rfl) (.inr (.inl ht))
  · exact iff_of_true (fun _ => rfl) (.inr (.inr (.inl ha)))
  · rw [or_iff_right hz, or_iff_right ht, or_iff_right ha]
    cases hpin : env.pin (pagesOf buf len) with
    | error e =>
      dsimp only
      refine iff_of_false (fun h => ?_) (by simp)
      exact MapRun.errOut_not_balanced _ rfl rfl (h (herr e))
    | ok pages =>
      have hex : ∀ P : List ℕ → Prop, (∃ ps, (Except.ok pages : Except Errno _) = .ok ps ∧
        P ps) ↔ P pages := by
        intro P
        simp
      rw [hex]
      dsimp only
      split_ifs with hshort hdup hleft
      · by_cases hne : pages = []
        · subst hne
          refine iff_of_false (fun h => ?_) (by simp)
          exact MapRun.errOut_not_balanced _ rfl rfl (h (herr _))
        · refine iff_of_true (fun _ => ?_) ⟨hne, .inl hshort⟩
          exact MapRun.errOut_balanced (err .fault) rfl rfl rfl rfl hne
      · rw [not_not] at hshort
        refine iff_of_false (fun h => ?_) ?_
        · exact MapRun.not_balanced_of_acquired rfl (h (herr _))
        · rintro ⟨-, h | h | h⟩
          · exact h hshort
          · exact h hdup
          · have hcovers := pagesOf_covers buf h
            rw [← hshort] at hcovers
            exact hleft (sgSetPages_all pages h (.inr hcovers))
      · rw [not_not] at hshort hleft
        have hne : pages ≠ [] := fun h => hz (by rw [← hshort, h, List.length_nil])
        refine iff_of_true (fun h => absurd h (lt_irrefl 0)) ⟨hne, .inr (.inr ?_)⟩
        by_contra hbig
        have h := @sgSetPages_left pages buf len (not_lt.mp hbig)
        rw [hleft] at h
        exact absurd h (by decide)
      · rw [not_not] at hshort
        have hne : pages ≠ [] := fun h => hz (by rw [← hshort, h, List.length_nil])
        refine iff_of_true (fun _ => ?_) ⟨hne, .inr (.inl hdup)⟩
        exact MapRun.errOut_balanced (err .fault) rfl rfl rfl hshort.symm hne

/-- A buffer that is not mapped in the process. -/
theorem mapping_not_released : ¬ ∀ (env : MapEnv) (buf len epAddr : U64) (write : Bool),
    (charSgdmaMapUserBufToSgl env (userIoCb buf len epAddr write)).2 < 0 →
      (mapUserBufRun env (userIoCb buf len epAddr write)).Balanced := by
  intro h
  have hbad := h { pinned := .error .fault } 0x1000 0x1000 0 false (by decide)
  revert hbad
  decide

end XdmaDriver
