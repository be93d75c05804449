import XdmaDriver.DoubleBufferMemory
import XdmaDriver.ChainOutcomes
import XdmaDriver.VectoredIo

/-!
How much a read hands out: what the engine reported for the transfer, in
`char_sgdma_read_write`, and what was asked for, in the double-buffer mode.
-/

namespace XdmaDriver

open Transition Drv

/-- What the engine reports for one descriptor: it has room for `size` bytes, and
`length` bytes were written from its address on, none when it was not completed. -/
structure DescReport where
  size : ℕ
  length : ℕ
  deriving DecidableEq, Repr

namespace DescReport

def bytes (ds : List DescReport) : ℕ := (ds.map length).sum

def Wrote : List DescReport → ℕ → Prop
  | [], _ => False
  | d :: ds, k => if k < d.size then k < d.length else Wrote ds (k - d.size)

def FilledTo : List DescReport → ℕ → Prop
  | [], n => n = 0
  | d :: ds, n => min d.size n ≤ d.length ∧ FilledTo ds (n - d.size)

instance decidableFilledTo : ∀ (ds : List DescReport) (n : ℕ), Decidable (FilledTo ds n)
  | [], n => inferInstanceAs (Decidable (n = 0))
  | d :: ds, n =>
    have := decidableFilledTo ds (n - d.size)
    inferInstanceAs (Decidable (_ ∧ _))

theorem FilledTo.le {ds : List DescReport} : ∀ {n : ℕ}, FilledTo ds n → n ≤ bytes ds := by
  induction ds with
  | nil =>
    rintro n rfl
    exact Nat.zero_le _
  | cons d ds ih =>
    rintro n ⟨hfirst, hrest⟩
    have hbytes : bytes (d :: ds) = d.length + bytes ds := by simp [bytes]
    have := ih hrest
    omega

theorem wrote_iff (ds : List DescReport) : ∀ n : ℕ, (∀ k < n, Wrote ds k) ↔ FilledTo ds n := by
  induction ds with
  | nil =>
    intro n
    constructor
    · intro h
      by_contra hn
      exact h 0 (Nat.pos_of_ne_zero hn)
    · rintro rfl k hk
      exact absurd hk (Nat.not_lt_zero k)
  | cons d ds ih =>
    intro n
    constructor
    · intro h
      refine ⟨?_, (ih _).mp fun k hk => ?_⟩
      · by_contra hlt
        have hk := h d.length (by omega)
        simp only [Wrote, show d.length < d.size by omega, ↓reduceIte, lt_self_iff_false] at hk
      · have hk' := h (k + d.size) (by omega)
        simpa only [Wrote, show ¬ k + d.size < d.size by omega, ↓reduceIte, Nat.add_sub_cancel] using hk'
    · rintro ⟨hfirst, hrest⟩ k hk
      unfold Wrote
      split_ifs with hin
      · omega
      · exact (ih _).mpr hrest _ (by omega)

end DescReport

def ChainTrace.reportedBytes (own : ℕ) (tr : ChainTrace) : ℕ :=
  (tr.outcome own).elim 0 fun o => if o.state = .completed then o.syncBytes true else 0

theorem CallTally.reportedBytes {flush : Bool} {own : ℕ} {chains : List ChainTrace} {done rv : ℤ}
    (h : CallTally true flush (chains.map (ChainTrace.outcome own)) done rv) :
    done = (chains.map (ChainTrace.reportedBytes own)).sum ∧ (done = 0 → rv ≤ 0) := by
  have hcounted : (chains.map (ChainTrace.reportedBytes own)).sum =
      ((chains.map (ChainTrace.outcome own)).map fun x : Option ChainOutcome =>
        x.elim 0 fun o => if o.state = .completed then o.syncBytes true else 0).sum := by
    rw [List.map_map]
    rfl
  have hsum {os : List ChainOutcome} (hos : ∀ o ∈ os, o.state = .completed) :
      ((os.map some).map fun x : Option ChainOutcome =>
        x.elim 0 fun o => if o.state = .completed then o.syncBytes true else 0).sum =
        ChainOutcome.syncSum true os := by
    rw [List.map_map, ChainOutcome.syncSum]
    congr 1
    refine List.map_congr_left fun o ho => ?_
    simp [hos o ho]
  rw [hcounted]
  generalize chains.map (ChainTrace.outcome own) = xs at h
  cases h with
  | nothing => exact ⟨rfl, fun _ => le_refl 0⟩
  | @closed os o hos ho hlast =>
    refine ⟨?_, fun _ => le_refl 0⟩
    rw [List.map_append, List.sum_append, hsum fun o ho => (hos o ho).state, ChainOutcome.syncSum_append]
    simp [ho.state]
  | @stopped os x _ hos hx hrv hfailed =>
    refine ⟨?_, fun _ => le_of_lt hrv⟩
    rw [List.map_append, List.sum_append, hsum fun o ho => (hos o ho).state]
    cases x with
    | none => simp
    | some o => simp [hx o rfl]

/-- A read of `count` bytes from a packet stream through the single buffer, which returns
`v` and not an error, when the engine has reported `n` bytes for its descriptors. -/
inductive SingleRead (count : ℕ) : ℕ → ℤ → Prop
  | mk {p : Params} {own : ℕ} {align : EngineAlign} {buf len pos : U64} {env : MapEnv} {mapped : List SgEntry}
      {oom : Bool} {envs : List ChainEnv} {s : Drv} {r : XferResult} {v : ℤ} (hlen : len.toNat = count)
      (hnd : s.eng.transferList.Nodup) (hfree : Unlinked own s) (hidx : s.eng.descIdx < s.eng.descMax)
      (hstream : s.eng.streamingC2h = true) (hr : charSgdmaRead p own align buf len pos env
        mapped oom envs s = r)
      (hv : r.outcome = .returned v) (hpos : 0 ≤ v) (hchains : r.chains ≠ []) :
      SingleRead count (r.chains.map (ChainTrace.reportedBytes own)).sum v

theorem SingleRead.value {count n : ℕ} {v : ℤ} (h : SingleRead count n v) : v = min n count := by
  obtain ⟨hlen, hnd, hfree, hidx, hstream, hr, hv, hpos, hchains⟩ := h
  rename_i p own align buf len pos env mapped oom envs s r
  unfold charSgdmaRead charSgdmaReadWrite at hr
  by_cases hdir : s.eng.dir ≠ (if false then .toDevice else .fromDevice)
  · rw [if_pos hdir] at hr
    exact absurd (congrArg XferResult.chains hr).symm hchains
  rw [if_neg hdir] at hr
  dsimp only at hr
  by_cases hal : checkTransferAlign s.eng.nonIncrAddr align buf len pos true ≠ 0
  · rw [if_pos hal] at hr
    exact absurd (congrArg XferResult.chains hr).symm hchains
  rw [if_neg hal] at hr
  generalize charSgdmaMapUserBufToSgl env { buf := buf, len := len, epAddr := pos, write := false } = m at hr
  obtain ⟨cb, rv⟩ := m
  dsimp only at hr
  by_cases hmap : rv < 0
  · rw [if_pos hmap] at hr
    exact absurd (congrArg XferResult.chains hr).symm hchains
  rw [if_neg hmap] at hr
  generalize hcall : xdmaXferSubmit p own false pos (VectoredRun.sgTable cb) false mapped oom envs s =
    r' at hr
  cases hout : r'.outcome with
  | returned res =>
    rw [hout] at hr
    obtain rfl := hr
    dsimp only at hv hpos hchains ⊢
    obtain ⟨done, rv', htally, hres⟩ := xdmaXferSubmit_tally hnd hfree hidx hcall hout hchains
    rw [hstream] at htally
    obtain ⟨hdone, hrv⟩ := htally.reportedBytes
    have hcut := CallEnd.returned.inj hv
    rw [hlen] at hcut
    split_ifs at hres hcut
    all_goals
      omega
  | waiting =>
    rw [hout] at hr
    obtain rfl := hr
    cases hout.symm.trans hv
  | overrun =>
    rw [hout] at hr
    obtain rfl := hr
    cases hout.symm.trans hv

/-- A successful read in the double-buffer mode: what it asked for and returned, and what
was reported for the fill it copied. -/
structure DbufRead where
  count : ℕ
  ret : ℤ
  fill : List DescReport
  deriving DecidableEq, Repr

/-- The double buffer on a packet stream, where a descriptor may take fewer bytes than it
has room for. `report` is what was reported for the descriptors of a transfer when it left
the queue, `fill` that of the request that was last completed for a slot, and `taken` that
of the fill a read has copied. -/
structure LengthRun where
  run : DbufRun := {}
  report : XferRef → List DescReport := fun _ => []
  fill : Fin 2 → List DescReport := fun _ => []
  taken : List DescReport := []
  reads : List DbufRead := []

inductive LengthAct
  | packet (data : ℕ → U8) (r : XdmaResult)
  | call (a : DbufAct)

namespace LengthRun

def packetDesc (data : ℕ → U8) (r : XdmaResult) (t : XferRef) (s : DbufRun) : DbufRun :=
  let x := s.cdev.drv.tfer t
  let e := x.descIndex + s.executed
  let d := s.cdev.drv.eng.desc e
  let eng := { s.cdev.drv.eng with cyclicResult := Function.update s.cdev.drv.eng.cyclicResult e r }
  { s.withDrv { s.cdev.drv with eng := eng } with
    mem := writeMem s.mem (d.hostAddr .fromDevice) r.length.toNat data
    exec := s.executed + 1
    execAt := s.cdev.drv.eng.starts }

def reportOf (s : DbufRun) (t : XferRef) : List DescReport :=
  let x := s.cdev.drv.tfer t
  (s.target t).mapIdx fun i sd =>
    ⟨sd.len, if i < x.descCmpl then (s.cdev.drv.eng.cyclicResult (x.descIndex + i)).length.toNat else 0⟩

def takeOff (s : LengthRun) (t : XferRef) : LengthRun :=
  let report := Function.update s.report t (reportOf s.run t)
  match (s.run.cdev.drv.tfer t).cb with
  | some (.dbuf i) =>
    if (s.run.cdev.drv.tfer t).lastInRequest then
      { s with
        report := report
        fill := Function.update s.fill i ((List.range (t.idx + 1)).flatMap fun k => report ⟨t.req, k⟩) }
    else { s with report := report }
  | _ => { s with report := report }

def after (s : LengthRun) (run : DbufRun) : DbufAct → LengthRun
  | .service _ _ =>
    let old := s.run.cdev.drv.eng.transferList
    (old.take (old.length - run.cdev.drv.eng.transferList.length)).foldl takeOff { s with run := run }
  | .wake _ => { s with run := run, taken := s.fill s.run.cdev.dbufReadIdx }
  | .submitted =>
    match s.run.pc with
    | .chain ⟨.read count, _, _, _, _, _⟩ => { s with run := run, reads := s.reads ++ [⟨count, run.ret, s.taken⟩] }
    | _ => { s with run := run }
  | _ => { s with run := run }

def step (p : Params) (s : LengthRun) : LengthAct → Option LengthRun
  | .packet data r =>
    match s.run.cdev.drv.eng.started with
    | some t =>
      if s.run.cdev.drv.eng.running = true ∧ s.run.executed < (s.run.cdev.drv.tfer t).descNum then
        some { s with run := packetDesc data r t s.run }
      else none
    | none => none
  | .call a =>
    match a with
    | .dma _ | .result _ _ => none
    | a => (s.run.step p a).map fun run => s.after run a

structure Begins (s : LengthRun) : Prop where
  run : s.run.Begins
  stream : s.run.cdev.drv.eng.streamingC2h = true
  reads : s.reads = []

variable {p : Params} {s s' : LengthRun}

theorem takeOff_reads (t : XferRef) : (s.takeOff t).reads = s.reads := by
  unfold takeOff
  split
  · split_ifs <;> rfl
  · rfl

theorem foldl_takeOff_reads (ts : List XferRef) : ∀ s : LengthRun, (ts.foldl takeOff s).reads = s.reads := by
  induction ts with
  | nil => exact fun _ => rfl
  | cons t ts ih => exact fun s => (ih (s.takeOff t)).trans (takeOff_reads t)

theorem step_reads {a : LengthAct} (hs : s.step p a = some s') :
    s'.reads = s.reads ∨ ∃ count fill, s'.reads = s.reads ++ [⟨count, count, fill⟩] := by
  cases a with
  | packet data r =>
    simp only [step] at hs
    split at hs
    · obtain ⟨-, rfl⟩ := Option.ite_none_right_eq_some.mp hs |>.imp_right Option.some.inj
      exact .inl rfl
    · cases hs
  | call a =>
    have hcall : ∀ run, s.run.step p a = some run → (s.after run a).reads = s.reads ∨
        ∃ count fill, (s.after run a).reads = s.reads ++ [⟨count, count, fill⟩] := by
      intro run hrun
      cases a with
      | service wb r => exact .inl (foldl_takeOff_reads _ _)
      | submitted =>
        simp only [after]
        split
        · rename_i count i own req nents tferIdx hpc
          simp only [DbufRun.step, hpc] at hrun
          obtain ⟨-, rfl⟩ := Option.ite_none_right_eq_some.mp hrun |>.imp_right Option.some.inj
          exact .inr ⟨count, s.taken, rfl⟩
        · exact .inl rfl
      | _ => exact .inl rfl
    simp only [step] at hs
    split at hs
    · cases hs
    · cases hs
    · obtain ⟨run, hrun, rfl⟩ := Option.map_eq_some_iff.mp hs
      exact hcall run hrun

theorem Reachable.ret (h : Reachable (step p) Begins (fun _ _ => True) s) :
    ∀ r ∈ s.reads, r.ret = r.count := by
  refine h.invariant (I := fun s => ∀ r ∈ s.reads, r.ret = r.count) ?_ ?_
  · intro s hs r hr
    simp [hs.reads] at hr
  · intro s a s' ih _ hs r hr
    rcases step_reads hs with hsame | ⟨count, fill, hadd⟩
    · exact ih r (hsame ▸ hr)
    · rw [hadd] at hr
      rcases List.mem_append.mp hr with hr | hr
      · exact ih r hr
      · obtain rfl := List.mem_singleton.mp hr
        rfl

/-- A read of the double buffer returns what the single buffer returns for a transfer with
the same reports, the reported bytes up to the count, exactly when the engine reported at
least as much as the read asked for; and it hands out no byte that was not written in the
fill exactly when the descriptors that its bytes lie in were filled up to there. -/
theorem read_length_iff (h : Reachable (step p) Begins (fun _ _ => True) s) {r : DbufRead}
    (hr : r ∈ s.reads) :
    ((r.ret = min (DescReport.bytes r.fill) r.count ∧
        ∀ v, SingleRead r.count (DescReport.bytes r.fill) v → r.ret = v) ↔
      r.count ≤ DescReport.bytes r.fill) ∧
    ((r.ret = min (DescReport.bytes r.fill) r.count ∧
        (∀ v, SingleRead r.count (DescReport.bytes r.fill) v → r.ret = v) ∧
        ∀ k < r.ret.toNat, DescReport.Wrote r.fill k) ↔
      DescReport.FilledTo r.fill r.count) := by
  have hret := Reachable.ret h r hr
  have hvalue : r.ret = min (DescReport.bytes r.fill) r.count ↔ r.count ≤ DescReport.bytes r.fill := by
    rw [hret, Nat.cast_inj]
    omega
  have hsingle (hle : r.count ≤ DescReport.bytes r.fill) (v : ℤ)
      (hv : SingleRead r.count (DescReport.bytes r.fill) v) :
        r.ret = v := (hvalue.mpr hle).trans hv.value.symm
  have hwrote : (∀ k < r.ret.toNat, DescReport.Wrote r.fill k) ↔ DescReport.FilledTo r.fill r.count := by
    rw [hret, Int.toNat_natCast]
    exact DescReport.wrote_iff _ _
  constructor
  · exact ⟨fun h => hvalue.mp h.1, fun hle => ⟨hvalue.mpr hle, hsingle hle⟩⟩
  · exact ⟨fun h => hwrote.mp h.2.2, fun hf => ⟨hvalue.mpr hf.le, hsingle hf.le, hwrote.mpr hf⟩⟩

def packetStream : LengthRun := { run := { cdev := { drv := { eng := { streaming := true } } } } }

theorem packetStream_begins : Begins packetStream :=
  ⟨⟨⟨rfl, rfl, rfl, rfl, fun _ => rfl⟩, fun _ => rfl⟩, rfl, rfl⟩

def packetRun (length : U32) (count : ℕ) : List LengthAct :=
  DbufRun.startedRun.map .call ++
    [.packet (fun k => BitVec.ofNat 8 (k + 7)) ⟨1, length⟩, .call (.service 0 ⟨0, 1, 1⟩), .call (.read count),
      .call (.wake false), .call (.submit false), .call .build, .call (.queue 1), .call .submitted]

def singlePacket (length : U32) (count : U64) : XferResult :=
  charSgdmaRead {} 1 {} 0x1000 count 0 { pinned := .ok [1] } [⟨0x5000, count.setWidth 32⟩] false
    [{ during := [.result 0 ⟨1, length⟩, .service 0 ⟨0, 1, 1⟩] }] { eng := { streaming := true } }

theorem singlePacket_read (length : U32) (count : U64) {n m : ℕ} {v : ℤ} (hlen : count.toNat = n)
    (hchains : (singlePacket length count).chains.map (ChainTrace.reportedBytes 1) = [m])
    (hv : (singlePacket length count).outcome = .returned v) (hpos : 0 ≤ v) : SingleRead n m v := by
  have hne : (singlePacket length count).chains ≠ [] := fun hnil => by
    rw [hnil] at hchains
    cases hchains
  have h := SingleRead.mk (s := { eng := { streaming := true } }) (r := singlePacket length count) hlen List.nodup_nil
    (show Unlinked 1 _ by simp [Unlinked]) (by decide) rfl rfl hv hpos hne
  rwa [hchains, List.sum_singleton] at h

theorem read_length_iff_filled : ∃ s r, Reachable (step {}) Begins (fun _ _ => True) s ∧ r ∈ s.reads ∧
    s.run.reads = [(4, [7, 8, 9, 10])] ∧ SingleRead r.count (DescReport.bytes r.fill) r.ret ∧
    ∀ k < r.ret.toNat, DescReport.Wrote r.fill k := by
  have hrun : (Transition.run (step {}) (fun _ _ => True) packetStream (packetRun 6 4)).map
      (fun s => (s.reads, s.run.reads)) = some ([⟨4, 4, [⟨4096, 6⟩]⟩], [(4, [7, 8, 9, 10])]) := by decide
  obtain ⟨s, hs, heq⟩ := exists_reachable packetStream_begins hrun
  simp only [Prod.mk.injEq] at heq
  obtain ⟨hreads, hbytes⟩ := heq
  have hr : (⟨4, 4, [⟨4096, 6⟩]⟩ : DbufRead) ∈ s.reads := by simp [hreads]
  refine ⟨s, _, hs, hr, hbytes, singlePacket_read 6 4 rfl ?_ ?_ ?_, ?_⟩
  · decide
  · decide
  · decide
  · exact ((read_length_iff hs hr).2.mpr (by decide)).2.2

/-- A packet that ends early: the single buffer returns its two bytes, and the double buffer
adds two that are not from the packet. -/
theorem read_past_packet : ∃ s r, Reachable (step {}) Begins (fun _ _ => True) s ∧ r ∈ s.reads ∧
    SingleRead r.count (DescReport.bytes r.fill) 2 ∧ r.ret = 4 ∧ r.ret ≠ min (DescReport.bytes r.fill) r.count ∧
    s.run.reads = [(4, [7, 8, 0, 0])] ∧ ¬ DescReport.Wrote r.fill 2 := by
  have hrun : (Transition.run (step {}) (fun _ _ => True) packetStream (packetRun 2 4)).map
      (fun s => (s.reads, s.run.reads)) = some ([⟨4, 4, [⟨4096, 2⟩]⟩], [(4, [7, 8, 0, 0])]) := by decide
  obtain ⟨s, hs, heq⟩ := exists_reachable packetStream_begins hrun
  simp only [Prod.mk.injEq] at heq
  obtain ⟨hreads, hbytes⟩ := heq
  have hr : (⟨4, 4, [⟨4096, 2⟩]⟩ : DbufRead) ∈ s.reads := by simp [hreads]
  refine ⟨s, _, hs, hr, singlePacket_read 2 4 rfl ?_ ?_ ?_, rfl, by decide,
    hbytes, by simp [DescReport.Wrote]⟩
  · decide
  · decide
  · decide

end LengthRun

end XdmaDriver
