import XdmaDriver.UserBuffer
import XdmaDriver.Lib.Tiling

/-!
The scatter table of a user buffer tiles it: page by page, in order and without a gap.
-/

namespace XdmaDriver

open Tiling

/-- An entry that starts at the user address `a`. The first of `pages` is the page of `buf`,
and the entry names the page of `a`, at the offset of `a`, and ends inside this page. -/
def PageEntry (pages : List ℕ) (buf : ℕ) (e : SgPage) (a : ℕ) : Prop :=
  pages[a / 4096 - buf / 4096]? = some e.page ∧ e.offset.toNat = a % 4096 ∧ 1 ≤ e.length.toNat ∧
    e.offset.toNat + e.length.toNat ≤ 4096

def TilesBuffer (pages : List ℕ) (buf len : ℕ) (sgl : List SgPage) : Prop :=
  Tiles (fun e : SgPage => e.length.toNat) (PageEntry pages buf) buf sgl (buf + len)

theorem PageEntry.later {pages : List ℕ} {page buf buf' a : ℕ} {e : SgPage} (h : PageEntry pages buf' e a)
    (hnext : buf' / 4096 = buf / 4096 + 1) (ha : buf' ≤ a) : PageEntry (page :: pages) buf e a := by
  refine ⟨?_, h.2⟩
  have hmono := Nat.div_le_div_right (c := 4096) ha
  rw [show a / 4096 - buf / 4096 = a / 4096 - buf' / 4096 + 1 by omega, List.getElem?_cons_succ]
  exact h.1

theorem sgSetPages_tiles (pages : List ℕ) : ∀ {buf len : U64}, 1 ≤ len.toNat → len.toNat < 2 ^ 32 →
    buf.toNat + len.toNat ≤ 2 ^ 64 → pages.length = (buf.toNat % 4096 + len.toNat + 4095) / 4096 →
    (sgSetPages pages buf len).1.map SgPage.page = pages ∧
      TilesBuffer pages buf.toNat len.toNat (sgSetPages pages buf len).1 := by
  induction pages with
  | nil =>
    intro buf len hpos _ _ hcount
    rw [List.length_nil] at hcount
    omega
  | cons page pages ih =>
    intro buf len hpos hlen hwrap hcount
    obtain ⟨e, buf', len', heq, hpage, hoff, hn, hbuf, hleft⟩ := sgSetPages_cons page pages buf hlen
    have hin : PageEntry (page :: pages) buf.toNat e buf.toNat := by
      refine ⟨?_, hoff, ?_, ?_⟩
      · rw [Nat.sub_self, List.getElem?_cons_zero, hpage]
      · omega
      · omega
    rw [List.length_cons] at hcount
    rw [heq, List.map_cons, hpage]
    by_cases hlast : len.toNat ≤ 4096 - buf.toNat % 4096
    · -- the last page takes what is left
      obtain rfl : pages = [] := by
        apply List.eq_nil_of_length_eq_zero
        omega
      refine ⟨rfl, hin, ?_⟩
      change buf.toNat + e.length.toNat = buf.toNat + len.toNat
      omega
    · have hstart : buf'.toNat = buf.toNat + e.length.toNat := by
        rw [hbuf]
        apply Nat.mod_eq_of_lt
        omega
      have hnext : buf'.toNat / 4096 = buf.toNat / 4096 + 1 := by omega
      obtain ⟨hpages, htiles⟩ := @ih buf' len' (by omega) (by omega) (by omega) (by omega)
      refine ⟨by rw [hpages], hin, ?_⟩
      have hend : buf'.toNat + len'.toNat = buf.toNat + len.toNat := by omega
      rw [TilesBuffer, hend, hstart] at htiles
      rw [hstart] at hnext
      exact htiles.mono fun _ _ ha h => h.later hnext ha

theorem charSgdmaMapUserBufToSgl_pinned {env : MapEnv} {cb : XdmaIoCb} {pages : List ℕ}
    (hpos : 1 ≤ cb.len.toNat)
    (hlen : cb.len.toNat < 2 ^ 32) (hsg : env.sgTable = true) (harray : env.pagesArray = true)
    (hpin : env.pin (pagesOf cb.buf cb.len) = .ok pages) (hall : pages.length = pagesOf cb.buf cb.len)
    (hdistinct : pages.Nodup) : (sgSetPages pages cb.buf cb.len).2 = 0 ∧
      charSgdmaMapUserBufToSgl env cb = ({ cb with
        sgt := some (sgSetPages pages cb.buf cb.len).1
        pagesArray := true
        pages := pages
        pagesNr := pagesOf cb.buf cb.len }, 0) := by
  have hcount := pagesOf_eq cb.buf hlen
  have hcovers := pagesOf_covers cb.buf hlen
  have hleft : (sgSetPages pages cb.buf cb.len).2 = 0 := by
    apply sgSetPages_all pages hlen
    apply Or.inr
    rw [hall]
    exact hcovers
  have hne : pagesOf cb.buf cb.len ≠ 0 := by omega
  have hchain : pages.IsChain (· ≠ ·) := hdistinct.isChain
  refine ⟨hleft, ?_⟩
  unfold charSgdmaMapUserBufToSgl
  simp [hne, hsg, harray, hpin, hall, hchain, hleft]

theorem charSgdmaMapUserBufToSgl_tiles {env : MapEnv} {cb : XdmaIoCb} {pages : List ℕ}
    (hpos : 1 ≤ cb.len.toNat)
    (hlen : cb.len.toNat < 2 ^ 32) (hwrap : cb.buf.toNat + cb.len.toNat ≤ 2 ^ 64) (hsg : env.sgTable = true)
    (harray : env.pagesArray = true) (hpin : env.pin (pagesOf cb.buf cb.len) = .ok pages)
    (hall : pages.length = pagesOf cb.buf cb.len) (hdistinct : pages.Nodup) :
    (charSgdmaMapUserBufToSgl env cb).2 = 0 ∧ (sgSetPages pages cb.buf cb.len).2 = 0 ∧
      ∃ sgl, (charSgdmaMapUserBufToSgl env cb).1.sgt = some sgl ∧
        (charSgdmaMapUserBufToSgl env cb).1.pagesNr = pagesOf cb.buf cb.len ∧
        sgl.length = pagesOf cb.buf cb.len ∧ sgl.map SgPage.page = pages ∧
        TilesBuffer pages cb.buf.toNat cb.len.toNat sgl := by
  obtain ⟨hleft, hrun⟩ := charSgdmaMapUserBufToSgl_pinned hpos hlen hsg harray hpin hall hdistinct
  obtain ⟨hpages, htiles⟩ := sgSetPages_tiles pages hpos hlen hwrap (by rw [hall, pagesOf_eq cb.buf hlen])
  rw [hrun]
  refine ⟨rfl, hleft, (sgSetPages pages cb.buf cb.len).1, rfl, rfl, ?_, hpages, htiles⟩
  rw [← List.length_map SgPage.page, hpages, hall]

theorem charSgdmaMapUserBufToSgl_tiles_two :
    let cb : XdmaIoCb := { buf := 0x7f0000001ff0, len := 0x20 }
    let env : MapEnv := { pinned := .ok [7, 3] }
    (charSgdmaMapUserBufToSgl env cb).2 = 0 ∧
      ∃ sgl, (charSgdmaMapUserBufToSgl env cb).1.sgt = some sgl ∧ sgl.length = 2 ∧
        TilesBuffer [7, 3] 0x7f0000001ff0 0x20 sgl := by
  intro cb env
  have hcount : pagesOf cb.buf cb.len = 2 := by decide
  have hpin : env.pin (pagesOf cb.buf cb.len) = .ok [7, 3] := by
    rw [hcount]
    rfl
  obtain ⟨hrv, -, sgl, hsgt, -, hlen, -, htiles⟩ :=
    charSgdmaMapUserBufToSgl_tiles (by decide) (by decide) (by decide) rfl rfl hpin hcount.symm (by decide)
  exact ⟨hrv, sgl, hsgt, hlen.trans hcount, htiles⟩

end XdmaDriver
