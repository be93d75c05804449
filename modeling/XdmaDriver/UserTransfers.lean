import XdmaDriver.PartialTransfers
import XdmaDriver.UserBufferTiling
import XdmaDriver.VectoredIo

/-!
`read` and `write` from the user buffer to the device: which byte of the buffer goes to which
device address, and what the call returns.
-/

namespace XdmaDriver

open Drv Spans Tiling

/-- The bus address of the user address `a`, in a buffer at `buf` whose pages are the frames
`pages`; `bus` is where the frames are mapped for the device. -/
def userBus (bus : ℕ → U64) (pages : List ℕ) (buf a : ℕ) : U64 :=
  bus (pages.getD (a / 4096 - buf / 4096) 0) + ((a % 4096 : ℕ) : U64)

def SgPage.busBytes (bus : ℕ → U64) (e : SgPage) :
    List U64 := span (bus e.page + (e.offset.toNat : U64)) e.length.toNat

def userPairs (bus : ℕ → U64) (pages : List ℕ) (buf : ℕ) (pos : U64) (n : ℕ) : List (U64 × U64) :=
  (List.range n).map fun i => (userBus bus pages buf (buf + i), pos + (i : U64))

theorem PageEntry.busBytes {bus : ℕ → U64} {pages : List ℕ} {buf a : ℕ} {e : SgPage}
    (h : PageEntry pages buf e a) :
    e.busBytes bus = (List.range' a e.length.toNat).map (userBus bus pages buf) := by
  obtain ⟨hpage, hoff, -, hfit⟩ := h
  rw [SgPage.busBytes, span, List.range'_eq_map_range, List.map_map]
  apply List.map_congr_left
  intro k hk
  have hlt := List.mem_range.mp hk
  obtain ⟨hdiv, hmod⟩ := round_add (d := 4096) (a := a) (n := k) (by omega)
  rw [Function.comp_apply, userBus, hdiv, hmod, List.getD_eq_getElem?_getD, hpage, Option.getD_some, ← hoff,
    Nat.cast_add, add_assoc]

/-- The table of a user buffer names the bytes of the buffer in their order. -/
theorem tilesBuffer_busBytes {bus : ℕ → U64} {pages : List ℕ} {buf len : ℕ} {sgl : List SgPage}
    (h : TilesBuffer pages buf len sgl) :
    sgl.flatMap (SgPage.busBytes bus) = (List.range' buf len).map (userBus bus pages buf) := by
  have hall := h.flatMap (f := SgPage.busBytes bus) (g := userBus bus pages buf) fun e a he => he.busBytes
  rwa [Nat.add_sub_cancel_left] at hall

theorem userPairs_eq (bus : ℕ → U64) (pages : List ℕ) (buf : ℕ) (pos : U64) (n : ℕ) :
    ((List.range' buf n).map (userBus bus pages buf)).zip (span pos n) = userPairs bus pages buf pos n := by
  rw [List.range'_eq_map_range, List.map_map, span, userPairs, List.zip_map']
  rfl

theorem take_userPairs (bus : ℕ → U64) (pages : List ℕ) (buf : ℕ) (pos : U64) {m n : ℕ} (h : m ≤ n) :
    (userPairs bus pages buf pos n).take m = userPairs bus pages buf pos m := by
  rw [userPairs, ← List.map_take, List.take_range, Nat.min_eq_left h]
  rfl

/-- The descriptors of the chains are for the first bytes of the `count` bytes at `buf`. -/
structure UserOrder (own : ℕ) (dir : DmaDir) (bus : ℕ → U64) (pages : List ℕ) (buf : ℕ)
    (pos : U64) (count : ℕ)
    (trs : List ChainTrace) : Prop where
  sizes : ∀ d ∈ trs.flatMap (ChainTrace.descs own), 1 ≤ d.bytes.toNat
  order : chainPairs own dir trs <+: userPairs bus pages buf pos count

/-- What a call on the `count` bytes at `buf` has done when it returns `v`: the chains of `oks`
completed, and `stop`, if there was one, did not. -/
structure MovesUser (own : ℕ) (dir : DmaDir) (bus : ℕ → U64) (pages : List ℕ) (buf : ℕ)
    (pos : U64) (count : ℕ)
    (trs oks : List ChainTrace) (stop : Option ChainTrace) (v : ℤ) : Prop
    extends UserOrder own dir bus pages buf pos count trs where
  chains : trs = oks ++ stop.toList
  completed : ∀ tr ∈ oks, tr.Completed ⟨own, 0⟩
  stopped : ∀ tr ∈ stop, ¬ tr.Completed ⟨own, 0⟩
  moved : chainPairs own dir oks = userPairs bus pages buf pos v.toNat
  bounds : v ≠ 0 ∧ v ≤ count
  failed : v < 0 → ∃ tr ∈ stop, v = tr.error own
  whole : stop = none → v = count

/-- An engine that increments device addresses, with a request `own` that is not queued yet. -/
structure Incremental (p : Params) (own : ℕ) (s : Drv) : Prop where
  blen : 1 ≤ p.descBlenMax ∧ p.descBlenMax ≤ 2 ^ 28 - 1
  mm : s.eng.streamingC2h = false
  incr : s.eng.nonIncrAddr = false
  nodup : s.eng.transferList.Nodup
  free : Unlinked own s
  idx : s.eng.descIdx < s.eng.descMax

/-- The `count` bytes at `buf`, and what `dma_map_sg` makes of the pages they are in: nothing, when
it fails, or the bytes of the table in their order. -/
structure MapsUser (bus : ℕ → U64) (buf count : U64) (env : MapEnv) (mapped : List SgEntry) : Prop where
  size : 1 ≤ count.toNat ∧ count.toNat ≤ 2 ^ 31 - 1
  wrap : buf.toNat + count.toNat ≤ 2 ^ 64
  bytes : mapped ≠ [] → ∀ pages, env.pin (pagesOf buf count) = .ok pages →
    sgBytes mapped = (sgSetPages pages buf count).1.flatMap (SgPage.busBytes bus)

theorem length_chainPairs {own : ℕ} {dir : DmaDir} (trs : List ChainTrace) :
    (chainPairs own dir trs).length = (chainBytes own dir trs).length := by
  simp only [chainPairs, chainBytes, List.length_flatMap, length_pairs, length_span]

section

variable {p : Params} {own : ℕ} {e : XdmaEngine} {bus : ℕ → U64} {pages : List ℕ} {buf : ℕ}
    {pos : U64} {count : ℕ}

theorem XferCall.describes_userPairs (hb : 1 ≤ p.descBlenMax) (hb' : p.descBlenMax < 2 ^ 32)
    (hst : e.streamingC2h = false) (hinc : e.nonIncrAddr = false) {sgt : List SgEntry}
    (hbytes : sgBytes sgt = (List.range' buf count).map (userBus bus pages buf)) {k : ℕ}
      {trs : List ChainTrace}
    (hd : Describes e pos ((requestSdesc p sgt).take k) (trs.flatMap (ChainTrace.descs own))) :
    chainPairs own e.dir trs <+: userPairs bus pages buf pos count := by
  have hlen : (sgBytes sgt).length = count := by rw [hbytes, List.length_map, List.length_range']
  have hall : (sgBytes sgt).zip (span pos (sgBytes sgt).length) = userPairs bus pages buf pos count := by
    rw [hlen, hbytes, userPairs_eq]
  rw [← hall]
  exact describes_moves hb hb' hst hinc hd

theorem XferCall.Moved.userOrder (hb : 1 ≤ p.descBlenMax) (hb' : p.descBlenMax < 2 ^ 32)
    (hst : e.streamingC2h = false) (hinc : e.nonIncrAddr = false) {sgt : List SgEntry}
    (hbytes : sgBytes sgt = (List.range' buf count).map (userBus bus pages buf)) {c : XferCall}
    (h : Moved own e pos (requestSdesc p sgt) c) : UserOrder own e.dir bus pages buf pos count c.chains := by
  have hsizes := h.describes.bytes hb' _ fun sd hsd => requestSdesc_len hb sgt sd (List.mem_of_mem_take hsd)
  exact ⟨fun d hd => (hsizes d hd).1, XferCall.describes_userPairs hb hb' hst hinc hbytes h.describes⟩

theorem XferCall.Stopped.movesUser (hb : 1 ≤ p.descBlenMax) (hb' : p.descBlenMax < 2 ^ 32)
    (hst : e.streamingC2h = false) (hinc : e.nonIncrAddr = false) (hcount : 1 ≤ count) {sgt : List SgEntry}
    (hbytes : sgBytes sgt = (List.range' buf count).map (userBus bus pages buf)) {oks : List ChainTrace}
    {stop : Option ChainTrace} {c : XferCall} {rv : ℤ}
      (h : Stopped own e pos (requestSdesc p sgt) oks stop c rv) :
    MovesUser own e.dir bus pages buf pos count c.chains oks stop (if c.done ≠ 0 then c.done else rv) := by
  have hlen : (sgBytes sgt).length = count := by rw [hbytes, List.length_map, List.length_range']
  have hrep := h.reports hb hb' (by rw [hlen]; exact hcount)
  obtain ⟨k, -, hdesc, hsum, -⟩ := h.describes
  have hle : lenTotal own oks ≤ count := by
    rw [hsum, ← hlen, ← requestSdesc_bytes hb sgt, length_sdescBytes]
    exact lenSum_take_le _ _
  generalize hv : (if c.done ≠ 0 then c.done else rv) = v at hrep
  have hbounds : v ≠ 0 ∧ v ≤ count := by
    rcases Nat.eq_zero_or_pos (lenTotal own oks) with hz | hpos
    · have := (hrep.failed hz).1
      omega
    · have := hrep.counted hpos
      omega
  refine ⟨h.moved.userOrder hb hb' hst hinc hbytes, h.chains, h.completed, h.stopped, ?_,
    hbounds, fun hneg => ?_,
    fun hnone => ?_⟩
  · have hoks := List.prefix_iff_eq_take.mp (XferCall.describes_userPairs hb hb' hst hinc hbytes hdesc)
    rw [length_chainPairs, hrep.moved, List.length_take, hlen, Nat.min_eq_left (by omega),
      take_userPairs _ _ _ _ (by omega)] at hoks
    exact hoks
  · rcases Nat.eq_zero_or_pos (lenTotal own oks) with hz | hpos
    · exact (hrep.failed hz).2
    · have := hrep.counted hpos
      omega
  · rw [hrep.whole hnone, hlen]

end

section

variable {p : Params} {own : ℕ} {s : Drv}

theorem charSgdmaMapUserBufToSgl_table {env : MapEnv} {cb : XdmaIoCb} (hpos : 1 ≤ cb.len.toNat)
    (hlen : cb.len.toNat < 2 ^ 32) (hwrap : cb.buf.toNat + cb.len.toNat ≤ 2 ^ 64)
    (h : ¬(charSgdmaMapUserBufToSgl env cb).2 < 0) : ∃ pages, env.pin (pagesOf cb.buf cb.len) = .ok pages ∧
      TilesBuffer pages cb.buf.toNat cb.len.toNat (sgSetPages pages cb.buf cb.len).1 := by
  unfold charSgdmaMapUserBufToSgl at h
  dsimp only at h
  split_ifs at h
  · exact absurd (err_neg _) h
  · exact absurd (err_neg _) h
  · exact absurd (err_neg _) h
  · cases hpin : env.pin (pagesOf cb.buf cb.len) with
    | error e =>
      rw [hpin] at h
      exact absurd (err_neg e) h
    | ok pages =>
      simp only [hpin] at h
      by_cases hshort : pages.length ≠ pagesOf cb.buf cb.len
      · rw [if_pos hshort] at h
        exact absurd (err_neg _) h
      · refine ⟨pages, rfl, (sgSetPages_tiles pages hpos hlen hwrap ?_).2⟩
        rw [not_not.mp hshort, pagesOf_eq cb.buf hlen]

variable (p own s) in
theorem xdmaXferSubmit_unmapped (write : Bool) (pos : U64) (sgt : SgTable) (oom : Bool)
    (envs : List ChainEnv) :
    (xdmaXferSubmit p own write pos sgt false [] oom envs s).req = none := by
  have hz : (XferCall.mapSgt sgt false []).nents = 0 := rfl
  unfold xdmaXferSubmit
  by_cases ho : s.offline = true
  · simp [ho]
  by_cases hdir : s.eng.dir ≠ (if write then .toDevice else .fromDevice)
  · simp [ho, hdir]
  · simp [ho, hdir, hz]

theorem xdmaXferSubmit_userOrder (h : Incremental p own s) (write : Bool) (pos : U64) (sgt : SgTable)
    (mapped : List SgEntry) (oom : Bool) (envs : List ChainEnv) {bus : ℕ → U64}
      {pages : List ℕ} {buf count : ℕ}
    (hbytes : mapped ≠ [] → sgBytes mapped = (List.range' buf count).map (userBus bus pages buf))
      {r : XferResult}
    (hr : xdmaXferSubmit p own write pos sgt false mapped oom envs s = r) :
    r.chains = [] ∨ UserOrder own s.eng.dir bus pages buf pos count r.chains := by
  obtain ⟨⟨hb, hb'⟩, hst, hinc, hnd, hfree, hidx⟩ := h
  have hentries : (XferCall.mapSgt sgt false mapped).entries = mapped := List.take_length
  rcases xdmaXferSubmit_starts p own write pos sgt false mapped oom envs s hr with hno | hloop
  · exact .inl hno.2.1
  obtain ⟨req, c, outcome, hreq, hloop, rfl⟩ := hloop
  rw [(XferCall.leave_spec false c outcome).2.1]
  by_cases hne : mapped = []
  · have hreq' := xdmaXferSubmit_unmapped p own s write pos sgt oom envs
    rw [← hne, hr, (XferCall.leave_spec _ _ _).1] at hreq'
    cases hreq'
  have hmoved := (XferCall.submitLoop_moved (p := p) false envs
    (XferCall.submitCall_between (p := p) hnd hfree hidx hreq)
    (XferCall.moved_start hreq)).1
  rw [hloop, hentries] at hmoved
  exact .inr (hmoved.userOrder hb (by omega) hst hinc (hbytes hne))

theorem xdmaXferSubmit_movesUser (h : Incremental p own s) (write : Bool) (pos : U64) (sgt : SgTable)
    (mapped : List SgEntry) (oom : Bool) (envs : List ChainEnv) {bus : ℕ → U64}
      {pages : List ℕ} {buf count : ℕ}
    (hcount : 1 ≤ count ∧ count ≤ 2 ^ 31 - 1)
    (hbytes : mapped ≠ [] → sgBytes mapped = (List.range' buf count).map (userBus bus pages buf))
      {r : XferResult}
    (hr : xdmaXferSubmit p own write pos sgt false mapped oom envs s = r) :
    ((requestSdesc p mapped).length ≤ envs.length → ∃ v, r.outcome = .returned v) ∧
    ∀ v, r.outcome = .returned v →
      submitRefusal p s write oom (XferCall.mapSgt sgt false mapped) = some v ∧ r.chains = [] ∨
      submitRefusal p s write oom (XferCall.mapSgt sgt false mapped) = none ∧
        ∃ oks stop, MovesUser own s.eng.dir bus pages buf pos count r.chains oks stop v := by
  obtain ⟨⟨hb, hb'⟩, hst, hinc, hnd, hfree, hidx⟩ := h
  have hentries : (XferCall.mapSgt sgt false mapped).entries = mapped := List.take_length
  obtain ⟨hrefused, hstarted⟩ := xdmaXferSubmit_unstarted hr
  have hunstarted (hno : r.req = none) : (∃ v, r.outcome = .returned v) ∧ ∀ v, r.outcome = .returned v →
      submitRefusal p s write oom (XferCall.mapSgt sgt false mapped) = some v ∧ r.chains = [] := by
    obtain ⟨v, hrefusal, hv, hchains⟩ := hrefused hno
    refine ⟨⟨v, hv⟩, fun v' hv' => ⟨?_, hchains⟩⟩
    obtain rfl := CallEnd.returned.inj (hv.symm.trans hv')
    exact hrefusal
  by_cases hne : mapped = []
  · subst hne
    obtain ⟨hret, hneg⟩ := hunstarted (hr ▸ xdmaXferSubmit_unmapped p own s write pos sgt oom envs)
    exact ⟨fun _ => hret, fun v hv => .inl (hneg v hv)⟩
  rcases xdmaXferSubmit_starts p own write pos sgt false mapped oom envs s hr with hno | hloop
  · obtain ⟨hret, hneg⟩ := hunstarted hno.1
    exact ⟨fun _ => hret, fun v hv => .inl (hneg v hv)⟩
  obtain ⟨req, c, outcome, hreq, hloop, rfl⟩ := hloop
  have hnone := hstarted (by rw [(XferCall.leave_spec _ _ _).1]; exact Option.some_ne_none _)
  have hsum : lenSum (requestSdesc p (XferCall.mapSgt sgt false mapped).entries) < 2 ^ 32 := by
    rw [← length_sdescBytes, requestSdesc_bytes hb, hentries, hbytes hne, List.length_map, List.length_range']
    omega
  have hbetween := XferCall.submitCall_between (p := p) hnd hfree hidx hreq
  have hinit := xdmaInitRequest_initialised hreq
  have hend := XferCall.submitLoop_stopped (p := p) (e := s.eng) pos hsum hst false envs hbetween
    ⟨XferCall.moved_start hreq, by simp [XferCall.submitCall], by simp [XferCall.submitCall,
      hinit.idx, lenTotal],
      by simp [XferCall.submitCall, lenTotal], by simp [XferCall.submitCall, hinit.cnt, hinit.idx]⟩
  have hwait := XferCall.submitLoop_terminates (p := p) false envs hbetween
  have hover := XferCall.submitLoop_not_overrun p own false envs
    (XferCall.submitCall s req (XferCall.mapSgt sgt false mapped))
  rw [hloop] at hend hover hwait
  rw [hentries] at hend hinit
  cases outcome with
  | returned rv =>
    refine ⟨fun _ => ⟨_, rfl⟩, fun v hv => ?_⟩
    obtain rfl := CallEnd.returned.inj hv
    obtain ⟨oks, stop, h⟩ := hend rv rfl
    exact .inr ⟨hnone, oks, stop, h.movesUser hb (by omega) hst hinc hcount.1 (hbytes hne)⟩
  | waiting => exact ⟨fun hl => absurd rfl (hwait (hinit.cnt.trans_le hl)), fun v hv => by cases hv⟩
  | overrun => exact absurd rfl hover

theorem checkTransferAlign_neg {nonIncrAddr : Bool} {al : EngineAlign} {buf count pos : U64} {sync : Bool}
    (h : checkTransferAlign nonIncrAddr al buf count pos sync ≠ 0) :
    checkTransferAlign nonIncrAddr al buf count pos sync < 0 := by
  unfold checkTransferAlign at h ⊢
  dsimp only at h ⊢
  split_ifs at h ⊢
  · exact err_neg _
  · exact err_neg _
  · exact err_neg _
  · exact absurd rfl h
  · exact err_neg _
  · exact absurd rfl h

/-- The error with which a call ends before its first chain, if it does. -/
def readWriteRefusal (p : Params) (s : Drv) (align : EngineAlign) (write : Bool)
    (buf count pos : U64) (env : MapEnv)
    (mapped : List SgEntry) (oom : Bool) : Option ℤ :=
  if s.eng.dir ≠ (if write then .toDevice else .fromDevice) then some (err .inval)
  else
    let rv := checkTransferAlign s.eng.nonIncrAddr align buf count pos true
    if rv ≠ 0 then some rv
    else
      let (cb, rv) := charSgdmaMapUserBufToSgl env { buf := buf, len := count, epAddr := pos, write := write }
      if rv < 0 then some rv
      else submitRefusal p s write oom (XferCall.mapSgt (VectoredRun.sgTable cb) false mapped)

theorem readWriteRefusal_neg {align : EngineAlign} {write : Bool} {buf count pos : U64} {env : MapEnv}
    {mapped : List SgEntry} {oom : Bool} {v : ℤ}
    (h : readWriteRefusal p s align write buf count pos env mapped oom = some v) : v < 0 := by
  unfold readWriteRefusal at h
  dsimp only at h
  generalize (if write = true then DmaDir.toDevice else DmaDir.fromDevice) = dir at h
  split_ifs at h with hdir halign hrv
  · obtain rfl := Option.some.inj h
    exact err_neg _
  · obtain rfl := Option.some.inj h
    exact checkTransferAlign_neg halign
  · obtain rfl := Option.some.inj h
    exact hrv
  · exact submitRefusal_neg h

theorem charSgdmaReadWrite_cases (align : EngineAlign) (write : Bool) (buf count pos : U64) (env : MapEnv)
    (mapped : List SgEntry) (oom : Bool) (envs : List ChainEnv) {r : XferResult}
    (hr : charSgdmaReadWrite p own align write buf count pos env mapped oom envs s = r) :
    (∃ rv, readWriteRefusal p s align write buf count pos env mapped oom = some rv ∧
      r.outcome = .returned rv ∧
      r.chains = []) ∨
      checkTransferAlign s.eng.nonIncrAddr align buf count pos true = 0 ∧
      ∃ cb rv, charSgdmaMapUserBufToSgl env { buf := buf, len := count, epAddr := pos, write := write } = (cb, rv) ∧
        ¬rv < 0 ∧ readWriteRefusal p s align write buf count pos env mapped oom =
          submitRefusal p s write oom (XferCall.mapSgt (VectoredRun.sgTable cb) false mapped) ∧
        r.chains = (xdmaXferSubmit p own write pos (VectoredRun.sgTable cb) false mapped oom envs s).chains ∧
        ∀ v, r.outcome = .returned v ↔ ∃ res,
          (xdmaXferSubmit p own write pos (VectoredRun.sgTable cb) false mapped oom envs s).outcome =
            .returned res ∧
            v = if count.toNat < res then (count.toNat : ℤ) else res := by
  subst hr
  unfold charSgdmaReadWrite readWriteRefusal
  by_cases hdir : s.eng.dir ≠ (if write then .toDevice else .fromDevice)
  · rw [if_pos hdir, if_pos hdir]
    exact .inl ⟨_, rfl, rfl, rfl⟩
  rw [if_neg hdir, if_neg hdir]
  dsimp only
  by_cases halign : checkTransferAlign s.eng.nonIncrAddr align buf count pos true ≠ 0
  · rw [if_pos halign, if_pos halign]
    exact .inl ⟨_, rfl, rfl, rfl⟩
  rw [if_neg halign, if_neg halign]
  cases hmap : charSgdmaMapUserBufToSgl env { buf := buf, len := count, epAddr := pos, write := write } with
  | mk cb rv =>
    dsimp only
    by_cases hrv : rv < 0
    · rw [if_pos hrv, if_pos hrv]
      exact .inl ⟨rv, rfl, rfl, rfl⟩
    rw [if_neg hrv, if_neg hrv]
    refine .inr ⟨not_not.mp halign, cb, rv, rfl, hrv, rfl, ?_⟩
    generalize xdmaXferSubmit p own write pos (VectoredRun.sgTable cb) false mapped oom envs s = r'
    cases ho : r'.outcome with
    | returned res =>
      refine ⟨rfl, fun v => ?_⟩
      simp only [CallEnd.returned.injEq, exists_eq_left']
      exact eq_comm
    | waiting => exact ⟨rfl, fun v => by simp [ho]⟩
    | overrun => exact ⟨rfl, fun v => by simp [ho]⟩

theorem MapsUser.table {buf count pos : U64} {write : Bool} {env : MapEnv} {mapped : List SgEntry} {bus : ℕ → U64}
    (hu : MapsUser bus buf count env mapped) {cb : XdmaIoCb} {rv : ℤ}
    (hcb : charSgdmaMapUserBufToSgl env { buf := buf, len := count, epAddr := pos, write := write } = (cb, rv))
    (hrv : ¬rv < 0) : ∃ pages, env.pin (pagesOf buf count) = .ok pages ∧
      (mapped ≠ [] → sgBytes mapped = (List.range' buf.toNat count.toNat).map (userBus bus pages buf.toNat)) := by
  have hcount := hu.size
  have hmapped : ¬(charSgdmaMapUserBufToSgl env { buf := buf, len := count, epAddr := pos, write := write }).2 < 0 := by
    rw [hcb]
    exact hrv
  obtain ⟨pages, hpin, htiles⟩ := charSgdmaMapUserBufToSgl_table hcount.1 (by dsimp only; omega) hu.wrap hmapped
  exact ⟨pages, hpin, fun hne => (hu.bytes hne pages hpin).trans (tilesBuffer_busBytes htiles)⟩

theorem charSgdmaReadWrite_userOrder (h : Incremental p own s) {align : EngineAlign} {write : Bool}
    {buf count pos : U64} {env : MapEnv} {mapped : List SgEntry} {oom : Bool} {envs : List ChainEnv} {bus : ℕ → U64}
    (hu : MapsUser bus buf count env mapped) {r : XferResult}
    (hr : charSgdmaReadWrite p own align write buf count pos env mapped oom envs s = r) :
    r.chains = [] ∨ checkTransferAlign false align buf count pos true = 0 ∧
      ∃ pages, UserOrder own s.eng.dir bus pages buf.toNat pos count.toNat r.chains := by
  rcases charSgdmaReadWrite_cases align write buf count pos env mapped oom envs hr with
    ⟨rv, -, -, hchains⟩ | ⟨halign, cb, rv, hcb, hrv, -, hchains, -⟩
  · exact .inl hchains
  rw [h.incr] at halign
  obtain ⟨pages, -, hbytes⟩ := hu.table hcb hrv
  rw [hchains]
  rcases xdmaXferSubmit_userOrder h write pos (VectoredRun.sgTable cb) mapped oom envs hbytes rfl with hnone | horder
  · exact .inl hnone
  · exact .inr ⟨halign, pages, horder⟩

theorem charSgdmaReadWrite_movesUser (h : Incremental p own s) {align : EngineAlign} {write : Bool}
    {buf count pos : U64} {env : MapEnv} {mapped : List SgEntry} {oom : Bool} {envs : List ChainEnv} {bus : ℕ → U64}
    (hu : MapsUser bus buf count env mapped) {r : XferResult}
    (hr : charSgdmaReadWrite p own align write buf count pos env mapped oom envs s = r) :
    ((requestSdesc p mapped).length ≤ envs.length → ∃ v, r.outcome = .returned v) ∧
    ∀ v, r.outcome = .returned v →
      readWriteRefusal p s align write buf count pos env mapped oom = some v ∧ r.chains = [] ∨
      readWriteRefusal p s align write buf count pos env mapped oom = none ∧ ∃ pages oks stop,
        env.pin (pagesOf buf count) = .ok pages ∧
        MovesUser own s.eng.dir bus pages buf.toNat pos count.toNat r.chains oks stop v := by
  have hcount := hu.size
  rcases charSgdmaReadWrite_cases align write buf count pos env mapped oom envs hr with
    ⟨rv, hrefusal, hrv, hchains⟩ | ⟨-, cb, rv, hcb, hrv, hrefusal, hchains, hiff⟩
  · refine ⟨fun _ => ⟨rv, hrv⟩, fun v hv => .inl ⟨?_, hchains⟩⟩
    obtain rfl := CallEnd.returned.inj (hrv.symm.trans hv)
    exact hrefusal
  obtain ⟨pages, hpin, hbytes⟩ := hu.table hcb hrv
  obtain ⟨hret, hmoves⟩ := xdmaXferSubmit_movesUser h write pos (VectoredRun.sgTable cb) mapped oom
    envs hcount hbytes
    rfl
  constructor
  · intro hl
    obtain ⟨res, hres⟩ := hret hl
    exact ⟨_, (hiff _).mpr ⟨res, hres, rfl⟩⟩
  · intro v hv
    obtain ⟨res, hres, heq⟩ := (hiff v).mp hv
    rw [hchains, hrefusal]
    rcases hmoves res hres with ⟨hsome, hnone⟩ | ⟨hnone, oks, stop, hm⟩
    · have hneg := submitRefusal_neg hsome
      rw [heq, if_neg (by omega)]
      exact .inl ⟨hsome, hnone⟩
    · have hclip := hm.bounds.2
      rw [heq, if_neg (by omega)]
      exact .inr ⟨hnone, pages, oks, stop, hpin, hm⟩

/-- A `read` or `write` of `count` bytes at `buf` is refused by one of the checks, or moves the
first bytes of the buffer, as many as it returns, each once and in order, to or from the device
addresses from `pos` on; what a chain that failed may have moved besides are the bytes that
follow. -/
theorem charSgdmaReadWrite_moves (h : Incremental p own s) (align : EngineAlign) (write : Bool)
    (buf count pos : U64) (env : MapEnv) (mapped : List SgEntry) (oom : Bool)
      (envs : List ChainEnv) {bus : ℕ → U64}
    (hu : MapsUser bus buf count env mapped) {r : XferResult}
    (hr : charSgdmaReadWrite p own align write buf count pos env mapped oom envs s = r) :
    ((requestSdesc p mapped).length ≤ envs.length → ∃ v, r.outcome = .returned v) ∧
    ∀ v, r.outcome = .returned v →
      readWriteRefusal p s align write buf count pos env mapped oom = some v ∧ r.chains = [] ∨
      readWriteRefusal p s align write buf count pos env mapped oom = none ∧ ∃ pages oks stop,
        env.pin (pagesOf buf count) = .ok pages ∧
        MovesUser own s.eng.dir bus pages buf.toNat pos count.toNat r.chains oks stop v :=
  charSgdmaReadWrite_movesUser h hu hr

end

def identityBus (frame : ℕ) : U64 := BitVec.ofNat 64 (4096 * frame)

def twoPages (align : EngineAlign) : XferResult :=
  charSgdmaReadWrite {} 1 align false 0x7f0000001ff0 0x20 0x20 { pinned := .ok [7, 3] }
    [⟨0x7ff0, 16⟩, ⟨0x3000, 16⟩] false [{ during := [.service 0 ⟨4, 2, 2⟩] }] {}

theorem incremental_idle : Incremental {} 1 {} :=
  ⟨by decide, rfl, rfl, List.nodup_nil, fun _ => List.not_mem_nil, by decide⟩

theorem mapsUser_twoPages : MapsUser identityBus 0x7f0000001ff0 0x20 { pinned := .ok [7, 3] }
    [⟨0x7ff0, 16⟩, ⟨0x3000, 16⟩] := by
  have hcount : pagesOf 0x7f0000001ff0 0x20 = 2 := by decide
  refine ⟨by decide, by decide, fun _ pages hpages => ?_⟩
  rw [hcount] at hpages
  obtain rfl := Except.ok.inj hpages
  decide

theorem charSgdmaReadWrite_moves_twoPages : ∃ pages oks stop,
    MovesUser 1 .fromDevice identityBus pages 0x7f0000001ff0 0x20 0x20 (twoPages {}).chains
    oks stop 0x20 := by
  have h := (charSgdmaReadWrite_moves incremental_idle {} false _ _ 0x20 _ _ false
    [{ during := [.service 0 ⟨4, 2, 2⟩] }] mapsUser_twoPages (r := twoPages {}) rfl).2 0x20 (by decide)
  rcases h with ⟨hrefusal, -⟩ | ⟨-, pages, oks, stop, -, hm⟩
  · exact absurd (readWriteRefusal_neg hrefusal) (by decide)
  · exact ⟨pages, oks, stop, hm⟩

/-- `engine_alignments`, on what it reads from the register. -/
def engineAlignments (w : U32) : EngineAlign :=
  if w ≠ 0 then
    { addrAlign := ((w &&& 0x00ff0000) >>> 16).setWidth 8
      lenGranularity := ((w &&& 0x0000ff00) >>> 8).setWidth 8 }
  else { addrAlign := 1, lenGranularity := 1 }

theorem and_align {k : ℕ} (hk : k < 8) (x : U64) :
    (x.setWidth 32 &&& ((BitVec.twoPow 8 k).setWidth 32 - 1) : U32).toNat = x.toNat % 2 ^ k := by
  have hlt : 2 ^ k < 2 ^ 8 := Nat.pow_lt_pow_right (by decide) hk
  have hpos : 0 < 2 ^ k := Nat.two_pow_pos k
  have hset : ((BitVec.twoPow 8 k).setWidth 32 : U32).toNat = 2 ^ k := by
    rw [BitVec.toNat_setWidth, BitVec.toNat_twoPow, Nat.mod_eq_of_lt hlt]
    omega
  have hone : (1 : U32).toNat = 1 := rfl
  have hmask : ((BitVec.twoPow 8 k).setWidth 32 - 1 : U32).toNat = 2 ^ k - 1 := by
    rw [BitVec.toNat_sub, hset, hone]
    omega
  rw [BitVec.toNat_and, hmask, Nat.and_two_pow_sub_one_eq_mod, BitVec.toNat_setWidth]
  exact Nat.mod_mod_of_dvd _ (Nat.pow_dvd_pow 2 (by omega))

theorem checkTransferAlign_incr {al : EngineAlign} {k : ℕ} (hk : k < 8)
    (hal : al.addrAlign = BitVec.twoPow 8 k)
    {buf count pos : U64} {sync : Bool} (h : checkTransferAlign false al buf count pos sync = 0) :
    buf.toNat % 2 ^ k = pos.toNat % 2 ^ k := by
  unfold checkTransferAlign at h
  dsimp only at h
  rw [if_neg Bool.false_ne_true, hal] at h
  split at h
  · cases h
  · rename_i heq
    rw [← and_align hk buf, ← and_align hk pos, not_not.mp heq]

theorem add_mod_align {k : ℕ} (hk : k < 8) (x : U64) (i : ℕ) :
    (x + (i : U64)).toNat % 2 ^ k = (x.toNat + i) % 2 ^ k := by
  have hdvd : 2 ^ k ∣ 2 ^ 64 := Nat.pow_dvd_pow 2 (by omega)
  rw [BitVec.toNat_add, Nat.mod_mod_of_dvd _ hdvd, BitVec.natCast_eq_ofNat, BitVec.toNat_ofNat, Nat.add_mod,
    Nat.mod_mod_of_dvd _ hdvd, ← Nat.add_mod]

theorem userBus_align {bus : ℕ → U64} (hbus : ∀ frame, 4096 ∣ (bus frame).toNat) {k : ℕ}
    (hk : k < 8) (pages : List ℕ)
    (buf a : ℕ) : (userBus bus pages buf a).toNat % 2 ^ k = a % 2 ^ k := by
  have hpage : 2 ^ k ∣ 4096 := Nat.pow_dvd_pow 2 (show k ≤ 12 by omega)
  obtain ⟨c, hc⟩ := hpage.trans (hbus (pages.getD (a / 4096 - buf / 4096) 0))
  rw [userBus, add_mod_align hk, hc, Nat.mul_add_mod, Nat.mod_mod_of_dvd _ hpage]

/-- On an engine that asks for an alignment, every descriptor of a call that is let through has a
host address and a device address that differ by a multiple of it. -/
theorem UserOrder.aligned {own : ℕ} {dir : DmaDir} {bus : ℕ → U64} {pages : List ℕ} {buf : ℕ}
    {pos : U64} {count : ℕ}
    {trs : List ChainTrace} (h : UserOrder own dir bus pages buf pos count trs)
    (hbus : ∀ frame, 4096 ∣ (bus frame).toNat) {k : ℕ} (hk : k < 8) (hcheck : buf % 2 ^ k = pos.toNat % 2 ^ k)
    {d : XdmaDesc} (hd : d ∈ trs.flatMap (ChainTrace.descs own)) :
    (d.hostAddr dir).toNat % 2 ^ k = (d.devAddr dir).toNat % 2 ^ k := by
  obtain ⟨n, hn⟩ := Nat.exists_eq_add_of_le' (h.sizes d hd)
  have hfirst : (d.hostAddr dir, d.devAddr dir) ∈ pairs (d.hostAddr dir) (d.devAddr dir) d.bytes.toNat := by
    rw [hn]
    exact List.mem_of_mem_head? (head?_pairs _ _ n)
  have hmem : (d.hostAddr dir, d.devAddr dir) ∈ userPairs bus pages buf pos count :=
    h.order.subset (List.mem_flatMap.mpr ⟨d, hd, hfirst⟩)
  obtain ⟨i, -, heq⟩ := List.mem_map.mp hmem
  obtain ⟨hhost, hdev⟩ := Prod.mk.inj heq
  rw [← hhost, ← hdev, userBus_align hbus hk, add_mod_align hk, Nat.add_mod, hcheck, ← Nat.add_mod]

/-- Where the engine asks for addresses that are aligned, the host and the device address of
every descriptor differ by a multiple of the alignment, whether the call returns or waits. -/
theorem charSgdmaReadWrite_aligned {p : Params} {own : ℕ} {s : Drv}
    (h : Incremental p own s) {w : U32} {k : ℕ}
    (hk : k < 8) (hw : (engineAlignments w).addrAlign = BitVec.twoPow 8 k) (write : Bool)
      (buf count pos : U64)
    (env : MapEnv) (mapped : List SgEntry) (oom : Bool) (envs : List ChainEnv) {bus : ℕ → U64}
    (hbus : ∀ frame, 4096 ∣ (bus frame).toNat) (hu : MapsUser bus buf count env mapped) {r : XferResult}
    (hr : charSgdmaReadWrite p own (engineAlignments w) write buf count pos env mapped oom envs s = r) :
    ∀ d ∈ r.chains.flatMap (ChainTrace.descs own),
      (d.hostAddr s.eng.dir).toNat % 2 ^ k = (d.devAddr s.eng.dir).toNat % 2 ^ k := by
  intro d hd
  rcases charSgdmaReadWrite_userOrder h hu hr with hnone | ⟨hcheck, pages, horder⟩
  · rw [hnone] at hd
    simp at hd
  · exact horder.aligned hbus hk (checkTransferAlign_incr hk hw hcheck) hd

theorem identityBus_aligned (frame : ℕ) : 4096 ∣ (identityBus frame).toNat := by
  rw [identityBus, BitVec.toNat_ofNat]
  exact Nat.dvd_mod_iff (by decide) |>.mpr (Nat.dvd_mul_right _ _)

def waitingRead : XferResult :=
  charSgdmaReadWrite {} 1 (engineAlignments 0x00080140) false 0x7f0000001ff3 0x20 0x2b
  { pinned := .ok [7, 3] }
    [⟨0x7ff3, 13⟩, ⟨0x3000, 19⟩] false [{}] {}

theorem mapsUser_waiting : MapsUser identityBus 0x7f0000001ff3 0x20 { pinned := .ok [7, 3] }
    [⟨0x7ff3, 13⟩, ⟨0x3000, 19⟩] := by
  have hcount : pagesOf 0x7f0000001ff3 0x20 = 2 := by decide
  refine ⟨by decide, by decide, fun _ pages hpages => ?_⟩
  rw [hcount] at hpages
  obtain rfl := Except.ok.inj hpages
  decide

theorem charSgdmaReadWrite_aligned_waiting :
    (waitingRead.chains.flatMap (ChainTrace.descs 1)).map (fun d =>
      (d.hostAddr .fromDevice).toNat % 8) = [3, 0] ∧
    ∀ d ∈ waitingRead.chains.flatMap (ChainTrace.descs 1),
      (d.hostAddr .fromDevice).toNat % 8 = (d.devAddr .fromDevice).toNat % 8 :=
  ⟨by decide, charSgdmaReadWrite_aligned incremental_idle (k := 3) (by decide) (by decide) false _ _ 0x2b _ _
    false [{}] identityBus_aligned mapsUser_waiting rfl⟩

end XdmaDriver
