import XdmaDriver.VectoredIo

/-!
The device addresses of vectored I/O against those of the synchronous calls.
-/

namespace XdmaDriver

open Drv Spans

def EngineKept (s s' : Drv) : Prop :=
  s.eng.SameConfig s'.eng ∧ (s.eng.descIdx < s.eng.descMax → s'.eng.descIdx < s'.eng.descMax)

theorem EngineKept.refl (s : Drv) : EngineKept s s := ⟨.refl _, id⟩

theorem EngineKept.trans {s t u : Drv} (h : EngineKept s t) (h' : EngineKept t u) : EngineKept s u :=
  ⟨h.1.trans h'.1, h'.2 ∘ h.2⟩

theorem EngineKept.of_same {s s' : Drv} (h : s.eng.SameConfig s'.eng)
    (hidx : s'.eng.descIdx = s.eng.descIdx) :
    EngineKept s s' :=
  ⟨h, by rw [hidx, h.descMax]; exact id⟩

theorem transferQueue_kept (p : Params) (s : Drv) (t : XferRef) (w : U32) :
    EngineKept s (s.transferQueue p t w).1 := by
  by_cases ha : s.Accepts t
  · have hq := (transferQueue_accepted (p := p) (w := w) ha).1
    exact .of_same hq.ring.config hq.ring.descIdx
  · rw [(transferQueue_refused ha).1]
    exact .refl s

namespace NowaitCall

theorem chain_kept (p : Params) (own : ℕ) (dmaMapped : Bool) (cb : IoCb) (i : ℕ) (env : NowaitEnv)
    (c : NowaitCall) :
    EngineKept c.drv (c.chain p own dmaMapped cb i env).1.drv := by
  obtain ⟨built, req, hc, hchain⟩ := chain_built p own dmaMapped cb i env c
  have hbuilt : EngineKept c.drv built := ⟨hc.config, hc.descIdx_lt⟩
  rw [hchain]
  dsimp only
  have hq := hbuilt.trans (transferQueue_kept p built ⟨own, i⟩ env.startStatus)
  split_ifs
  · exact hq
  · exact hq.trans (engineSteps_config p own env.after)

theorem loop_kept (p : Params) (own : ℕ) (dmaMapped : Bool) (cb : IoCb) (envs : List NowaitEnv) :
    ∀ (i : ℕ) (c : NowaitCall), EngineKept c.drv (c.loop p own dmaMapped cb envs i).1.drv := by
  induction envs with
  | nil => exact fun _ c => .refl c.drv
  | cons env envs ih =>
    intro i c
    have h := chain_kept p own dmaMapped cb i env c
    unfold loop
    dsimp only
    split_ifs
    · exact .refl c.drv
    · exact .refl c.drv
    · exact h
    · exact h.trans (ih _ _)

end NowaitCall

theorem xdmaXferSubmitNowait_kept (p : Params) (own : ℕ) (cb : IoCb) (write : Bool)
    (epAddr : U64) (sgt : SgTable)
    (dmaMapped : Bool) (mapped : List SgEntry) (oom : Bool) (envs : List NowaitEnv) (s : Drv) :
    EngineKept s (xdmaXferSubmitNowait p own cb write epAddr sgt dmaMapped mapped oom envs s).drv := by
  by_cases hstart : ∃ req, NowaitStarts p write epAddr (XferCall.mapSgt sgt dmaMapped mapped) oom s req
  · obtain ⟨req, h⟩ := hstart
    rw [(nowait_eq_loop own cb h envs).2.1]
    exact NowaitCall.loop_kept p own dmaMapped cb envs 0 (nowaitCall s req cb)
  · rw [(nowait_not_started own cb envs (not_exists.mp hstart)).2.1]
    exact .refl s

theorem transferDestroy_kept (s : Drv) (t : XferRef) : EngineKept s (s.transferDestroy t) :=
  .of_same (transferDestroy_sameConfig s t).1 (transferDestroy_sameConfig s t).2

namespace Completion

theorem chain_kept (p : Params) (t : XferRef) (r : DumpRegs) (c : Completion) :
    EngineKept c.drv (c.chain p t r).1.drv := by
  have hdump : EngineKept c.drv (c.drv.engineStatusReadDump r.identifier r.status).1 := by
    unfold engineStatusReadDump
    dsimp only
    split_ifs
    · exact .refl _
    · exact .of_same ⟨rfl, rfl, rfl, rfl, rfl⟩ rfl
  have habort := transferAbort_sameConfig (c.drv.engineStatusReadDump r.identifier r.status).1 t
  have hstop := xdmaEngineStop_sameRing p ((c.drv.engineStatusReadDump r.identifier
    r.status).1.transferAbort t).1
  have hlate := ((hdump.trans (.of_same habort.1 habort.2)).trans (.of_same hstop.config hstop.descIdx)).trans
    (transferDestroy_kept _ t)
  unfold chain
  dsimp only
  cases (c.drv.tfer t).state
  · exact hlate
  · exact hlate
  · exact transferDestroy_kept c.drv t
  · exact transferDestroy_kept c.drv t
  · exact hlate

theorem loop_kept (p : Params) (own : ℕ) (dump : ℕ → DumpRegs) (left : ℕ) : ∀ (i : ℕ) (c : Completion),
    EngineKept c.drv (c.loop p own dump left i).1.drv := by
  induction left with
  | zero => exact fun _ c => .refl c.drv
  | succ left ih =>
    intro i c
    have h := chain_kept p ⟨own, i⟩ (dump i) c
    unfold loop
    dsimp only
    split_ifs
    · exact .refl c.drv
    · exact h
    · exact h.trans (ih _ _)

end Completion

theorem charSgdmaMapUserBufToSgl_epAddr (env : MapEnv) (cb : XdmaIoCb) :
    (charSgdmaMapUserBufToSgl env cb).1.epAddr = cb.epAddr := by
  have hunmap : ∀ cb : XdmaIoCb, (charSgdmaUnmapUserBuf cb).epAddr = cb.epAddr := fun cb => by
    unfold charSgdmaUnmapUserBuf
    dsimp only
    split_ifs <;> rfl
  unfold charSgdmaMapUserBufToSgl
  dsimp only
  split_ifs
  · rfl
  · rfl
  · exact hunmap _
  · cases env.pin (pagesOf cb.buf cb.len) with
    | error e => exact hunmap _
    | ok pages =>
      dsimp only
      split_ifs
      · exact hunmap _
      · rfl
      · rfl
      · exact hunmap _

theorem AioCall.segment_epAddr (c : AioCall) (io : Iovec) (env : MapEnv) :
    (c.segment io env).1.epAddr = c.pos := by
  unfold AioCall.segment
  dsimp only
  split_ifs
  · rfl
  · exact charSgdmaMapUserBufToSgl_epAddr _ _
  · exact charSgdmaMapUserBufToSgl_epAddr _ _

namespace VectoredRun

variable {p : Params} {base caio : ℕ} {c : AioCall} {s : Drv} {d d' : VectoredRun}

structure Traced (p : Params) (base caio : ℕ) (c : AioCall) (s : Drv) (d : VectoredRun) : Prop where
  kept : EngineKept s d.drv
  traces : ∀ tr ∈ d.traces, EngineKept s tr.before ∧
    ∃ cb : XdmaIoCb, cb.epAddr = c.pos ∧ tr.result = submit p base caio c tr.i cb tr.env tr.before

theorem Traced.of_drv (h : Traced p base caio c s d) (hkept : EngineKept d.drv d'.drv)
    (htraces : d'.traces = d.traces) :
    Traced p base caio c s d' := by
  constructor
  · exact h.kept.trans hkept
  · rw [htraces]
    exact h.traces

theorem Traced.submit (h : Traced p base caio c s d) (env : SegmentEnv) {cb : XdmaIoCb}
    (hcb : cb.epAddr = c.pos)
    (run : AioRun) (lost : Bool) : Traced p base caio c s
      ⟨run, (VectoredRun.submit p base caio c d.run.i cb env d.drv).drv,
        d.traces ++ [⟨d.run.i, env, d.drv, VectoredRun.submit p base caio c d.run.i cb env d.drv⟩],
        lost⟩ := by
  constructor
  · exact h.kept.trans (xdmaXferSubmitNowait_kept _ _ _ _ _ _ _ _ _ _ _)
  · intro tr htr
    rcases List.mem_append.mp htr with htr | htr
    · exact h.traces tr htr
    · obtain rfl := List.mem_singleton.mp htr
      exact ⟨h.kept, cb, hcb, rfl⟩

theorem Traced.step (h : Traced p base caio c s d) {a : VectoredStep}
    (hs : d.step p base caio c a = some d') :
    Traced p base caio c s d' := by
  cases a with
  | segment env =>
    simp only [VectoredRun.step] at hs
    cases hio : c.io[d.run.i]? with
    | none => simp [hio] at hs
    | some io =>
      have hcb := c.segment_epAddr io env.map
      simp only [hio] at hs
      generalize c.segment io env.map = r at hs hcb
      obtain ⟨cb, check⟩ := r
      cases check with
      | ready =>
        dsimp only at hs hcb
        split_ifs at hs
        split at hs
        · obtain ⟨run, -, rfl⟩ := Option.map_eq_some_iff.mp hs
          exact h.submit env hcb run false
        · obtain rfl := Option.some.inj hs
          exact h.submit env hcb d.run true
      | misaligned rv =>
        dsimp only at hs
        split_ifs at hs
        obtain ⟨run, -, rfl⟩ := Option.map_eq_some_iff.mp hs
        exact h.of_drv (.refl _) rfl
      | unmapped rv =>
        dsimp only at hs
        split_ifs at hs
        obtain ⟨run, -, rfl⟩ := Option.map_eq_some_iff.mp hs
        exact h.of_drv (.refl _) rfl
  | leave =>
    obtain ⟨run, -, rfl⟩ := Option.map_eq_some_iff.mp hs
    exact h.of_drv (.refl _) rfl
  | complete i dump =>
    simp only [VectoredRun.step] at hs
    cases hreq : d.reqOf i with
    | none => simp [hreq] at hs
    | some req =>
      have hkept := Completion.loop_kept p (base + i) dump tferMax 0 { drv := d.drv, nents := req.swDescCnt }
      change EngineKept d.drv (xdmaXferCompletion p (base + i) req dump d.drv).1.drv at hkept
      simp only [hreq] at hs
      generalize xdmaXferCompletion p (base + i) req dump d.drv = r at hs hkept
      obtain ⟨done, outcome⟩ := r
      cases outcome with
      | returned n =>
        obtain ⟨run, -, rfl⟩ := Option.map_eq_some_iff.mp hs
        exact h.of_drv hkept rfl
      | waiting => cases hs
      | overrun => cases hs
  | engine st =>
    simp only [VectoredRun.step] at hs
    split_ifs at hs
    obtain rfl := Option.some.inj hs
    exact h.of_drv ((engineStep_move p base d.drv st).config) rfl

theorem Reachable.traced (h : Reachable p base caio c s d) : Traced p base caio c s d := by
  refine Transition.Reachable.invariant (I := Traced p base caio c s) ?_
    (fun _ _ _ hd _ hstep => hd.step hstep) h
  rintro d rfl
  exact ⟨.refl s, by simp⟩

end VectoredRun

def MovesTo (mapped : List SgEntry) (addr : U64) (moved : List (U64 × U64)) : Prop :=
  moved <+: (sgBytes mapped).zip (span addr (sgBytes mapped).length)

theorem MovesTo.unique {mapped : List SgEntry} {a b : U64} {moved : List (U64 × U64)}
    (h : MovesTo mapped a moved)
    (h' : MovesTo mapped b moved) (hne : moved ≠ []) : a = b := by
  unfold MovesTo at h h'
  cases hm : sgBytes mapped with
  | nil =>
    rw [hm] at h
    exact absurd (List.prefix_nil.mp h) hne
  | cons x xs =>
    obtain ⟨y, ys, rfl⟩ := List.exists_cons_of_ne_nil hne
    rw [hm, List.length_cons] at h h'
    have hhead : ∀ z : U64, ((x :: xs).zip (span z (xs.length + 1))).head? = some (x, z) := fun z => by
      rw [span, List.range_succ_eq_map]
      simp
    have hfirst : ∀ {z : U64}, y :: ys <+: (x :: xs).zip (span z (xs.length + 1)) → y = (x, z) := by
      rintro z ⟨rest, hrest⟩
      have hz := hhead z
      rw [← hrest] at hz
      exact Option.some.inj hz
    exact (Prod.mk.inj ((hfirst h).symm.trans (hfirst h'))).2

def AioCall.offset (c : AioCall) (i : ℕ) : U64 := ((c.io.take i).map Iovec.iovLen).sum

namespace SegmentTrace

def moved (base : ℕ) (dir : DmaDir) (tr : SegmentTrace) : List (U64 × U64) :=
  queuedPairs (base + tr.i) dir tr.result.chains

def Queues (p : Params) (c : AioCall) (tr : SegmentTrace) : Prop :=
  NowaitQueues p c.write c.pos ⟨tr.env.mapped, tr.env.mapped.length, 0⟩ tr.env.oom tr.before

end SegmentTrace

section

variable {p : Params} {s : Drv} (hb : 1 ≤ p.descBlenMax) (hb' : p.descBlenMax < 2 ^ 32)
  (hst : s.eng.streamingC2h = false) (hinc : s.eng.nonIncrAddr = false) (hidx : s.eng.descIdx < s.eng.descMax)

include hb hb' hst hinc hidx

theorem VectoredRun.Traced.moves {base caio : ℕ} {c : AioCall} {d : VectoredRun}
    (h : VectoredRun.Traced p base caio c s d) {tr : SegmentTrace} (htr : tr ∈ d.traces) :
    MovesTo tr.env.mapped c.pos (tr.moved base s.eng.dir) ∧
      (tr.moved base s.eng.dir ≠ [] ↔ tr.Queues p c) := by
  obtain ⟨⟨hcfg, hkept⟩, cb, hcb, hr⟩ := h.traces tr htr
  have hst' : tr.before.eng.streamingC2h = false := by
    rw [XdmaEngine.streamingC2h, hcfg.streaming, hcfg.dir]
    exact hst
  have hentries : (XferCall.mapSgt (VectoredRun.sgTable cb) false tr.env.mapped).entries = tr.env.mapped :=
    List.take_length
  have hq := xdmaXferSubmitNowait_queues hb hb' hst' (hcfg.nonIncrAddr.trans hinc)
    (hkept hidx) _ _ _ _ _ _ _ _ _
    hr.symm
  rw [hentries, hcfg.dir, hcb] at hq
  exact hq

/-- The synchronous calls move a buffer to and from the file position, and the vectored
calls do where the offset in the iterator is the position of each segment they queue. -/
theorem vectored_addresses_iff (align : EngineAlign) (iocb : Kiocb) (io : IovIter) :
    (s.eng.transferList.Nodup → ∀ (own : ℕ) (write : Bool) (buf count : U64) (env : MapEnv)
      (mapped : List SgEntry)
      (oom : Bool) (envs : List ChainEnv), Unlinked own s →
      MovesTo mapped iocb.kiPos (chainPairs own s.eng.dir
        (charSgdmaReadWrite p own align write buf count iocb.kiPos env mapped oom envs s).chains)) ∧
    ∀ (base caio : ℕ) (c : AioCall) (d : VectoredRun),
      cdevWriteIter s.eng align iocb io = .ok c ∨ cdevReadIter s.eng align iocb io = .ok c →
      VectoredRun.Reachable p base caio c s d →
      ((∀ tr ∈ d.traces, MovesTo tr.env.mapped (iocb.kiPos + c.offset tr.i) (tr.moved base s.eng.dir)) ↔
        ∀ tr ∈ d.traces, tr.Queues p c → io.iovOffset = iocb.kiPos + c.offset tr.i) := by
  constructor
  · intro hnd own write buf count env mapped oom envs hfree
    rcases charSgdmaReadWrite_chains p own align write buf count iocb.kiPos env mapped oom envs
      s with hchains | hcb
    · rw [hchains]
      exact List.nil_prefix
    · obtain ⟨cb, hchains⟩ := hcb
      have h := xdmaXferSubmit_moves hb hb' hst hinc hnd hfree hidx write iocb.kiPos
        (VectoredRun.sgTable cb) false
        mapped oom envs
      have hentries : (XferCall.mapSgt (VectoredRun.sgTable cb) false mapped).entries =
        mapped := List.take_length
      rw [hentries] at h
      rw [hchains]
      exact h
  · intro base caio c d hcall hreach
    have hpos : c.pos = io.iovOffset := hcall.elim cdevAio_pos cdevAio_pos
    have hmoves : ∀ tr ∈ d.traces, MovesTo tr.env.mapped c.pos (tr.moved base s.eng.dir) ∧
        (tr.moved base s.eng.dir ≠ [] ↔ tr.Queues p c) := fun tr htr =>
      VectoredRun.Traced.moves hb hb' hst hinc hidx hreach.traced htr
    rw [hpos] at hmoves
    constructor
    · intro h tr htr hq
      exact (hmoves tr htr).1.unique (h tr htr) ((hmoves tr htr).2.mpr hq)
    · intro h tr htr
      obtain ⟨hm, hq⟩ := hmoves tr htr
      by_cases hne : tr.moved base s.eng.dir = []
      · rw [hne]
        exact List.nil_prefix
      · rw [← h tr htr (hq.mp hne)]
        exact hm

end

def shortRead (pos : U64) : AioCall := { write := false, io := [⟨0x1000, 4⟩], pos := pos }

def pageSegment : SegmentEnv := { map := { pinned := .ok [1] }, mapped := [⟨0x5000, 4⟩] }

theorem shortRead_run : ∃ d, VectoredRun.Reachable {} 1 0 (shortRead 0) {} d ∧
    ∃ tr, d.traces = [tr] ∧ tr.i = 0 ∧
    tr.moved 1 .fromDevice ≠ [] := by
  obtain ⟨d, hd⟩ : ∃ d, Transition.run (VectoredRun.step {} 1 0 (shortRead 0)) (fun _ _ => True)
      ⟨.start (shortRead 0), {}, [], false⟩ [.segment pageSegment] = some d := ⟨_, rfl⟩
  refine ⟨d, .of_run (.init rfl) hd, ?_⟩
  obtain rfl := Option.some.inj hd
  exact ⟨_, rfl, rfl, by decide⟩

def twoReads : AioCall := { write := false, io := [⟨0x1000, 4⟩, ⟨0x2000, 8⟩], pos := 0x1004 }

theorem vectored_addresses_iff_second : ∃ d, VectoredRun.Reachable {} 1 0 twoReads {} d ∧
    d.traces.map (fun tr => (tr.moved 1 .fromDevice).length) = [0, 8] ∧
      ∀ tr ∈ d.traces, MovesTo tr.env.mapped (0x1000 + twoReads.offset tr.i) (tr.moved 1 .fromDevice) := by
  obtain ⟨d, hd⟩ : ∃ d, Transition.run (VectoredRun.step {} 1 0 twoReads) (fun _ _ => True)
      ⟨.start twoReads, {}, [], false⟩ [.segment { pageSegment with oom := true },
        .segment { pageSegment with mapped := [⟨0x6000, 8⟩] }] = some d := ⟨_, rfl⟩
  have hreach : VectoredRun.Reachable {} 1 0 twoReads {} d := .of_run (.init rfl) hd
  have hiff := (vectored_addresses_iff (p := {}) (s := {}) (by decide) (by decide) rfl rfl
    (by decide) {} ⟨0x1000⟩
    ⟨[⟨0x1000, 4⟩, ⟨0x2000, 8⟩], 0x1004⟩).2 1 0 twoReads d (.inr rfl) hreach
  obtain rfl := Option.some.inj hd
  refine ⟨_, hreach, by decide, hiff.mpr fun tr htr hq => ?_⟩
  rcases List.mem_cons.mp htr with rfl | htr
  · obtain ⟨req, ⟨-, -, -, hreq⟩, -⟩ := hq
    cases hreq
  · rw [List.mem_singleton.mp htr]
    decide

/-- A read at the position `0x1000` goes to the address `0`. -/
theorem vectored_read_ignores_position : ¬ ∀ (c : AioCall) (d : VectoredRun),
    cdevReadIter {} {} ⟨0x1000⟩ ⟨[⟨0x1000, 4⟩], 0⟩ = .ok c → VectoredRun.Reachable {} 1 0 c {} d →
      ∀ tr ∈ d.traces, MovesTo tr.env.mapped (0x1000 + c.offset tr.i) (tr.moved 1 .fromDevice) := by
  intro h
  obtain ⟨d, hreach, tr, htraces, hi, hne⟩ := shortRead_run
  have htr : tr ∈ d.traces := by simp [htraces]
  have hmoves := (VectoredRun.Traced.moves (p := {}) (s := {}) (by decide) (by decide) rfl rfl (by decide)
    hreach.traced htr).1
  have heq := hmoves.unique (h (shortRead 0) d rfl hreach tr htr) hne
  rw [hi] at heq
  exact absurd heq (by decide)

end XdmaDriver
