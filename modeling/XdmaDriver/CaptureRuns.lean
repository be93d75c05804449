import XdmaDriver.DoubleBufferSessions
import XdmaDriver.LfsrErrorCounts

/-!
Captures through the double buffer: the file that the capture loops make of the slots they read,
and what the analyses say of the samples lost between them.
-/

namespace XdmaDriver

open Transition Drv Records Function

/-- The loop of `dbuf_capture` over the results of its calls of `read`, and the bytes it writes
to the file. -/
def dbufCapture (size : ℕ) : List (ℤ × List U8) → List U8
  | [] => []
  | (r, data) :: calls => if r ≠ size then [] else data ++ dbufCapture size calls

theorem dbufCapture_append {size : ℕ} {last : List (ℤ × List U8)} (hlast : ∀ c ∈ last.head?, c.1 ≠ size)
    (calls : List (ℤ × List U8)) (h : ∀ c ∈ calls, c.1 = size) :
    dbufCapture size (calls ++ last) = (calls.map Prod.snd).flatten := by
  induction calls with
  | nil =>
    cases last with
    | nil => rfl
    | cons c last => exact if_pos (hlast c rfl)
  | cons c calls ih =>
    have hc : c.1 = size := h c List.mem_cons_self
    rw [List.cons_append, dbufCapture, if_neg (not_not.mpr hc),
      ih fun c hc => h c (List.mem_cons_of_mem _ hc)]
    rfl

/-- The capture makes the calls: it starts slots of `size` bytes and reads whole slots. -/
def Captures (size : U32) : DbufAct → Prop
  | .start _ io _ => io.bufSize = size
  | .read count => count = size.toNat
  | _ => True

instance (size : U32) (a : DbufAct) : Decidable (Captures size a) := by
  apply @DbufAct.casesOn _ a <;> intros <;> (dsimp only [Captures]; infer_instance)

def DbufAct.sent : DbufAct → Option (ℕ → U8)
  | .dma data => some data
  | _ => none

def DbufAct.starts : DbufAct → Bool
  | .start _ _ _ => true
  | _ => false

def DbufCaller.count : DbufCaller → Option ℕ
  | .start => none
  | .read count => some count

def DbufPc.asked : DbufPc → Option ℕ
  | .readWait count => some count
  | .submit caller _ => caller.count
  | .chain c => c.caller.count
  | .queue c => c.caller.count
  | _ => none

namespace DbufRun

def results (s : DbufRun) : List (ℤ × List U8) := s.reads.map fun r => ((r.1 : ℤ), r.2)

structure AsksFor (size : ℕ) (s : DbufRun) : Prop where
  pc : ∀ count ∈ s.pc.asked, count = size
  reads : ∀ r ∈ s.reads, r.1 = size

variable {p : Params} {size : ℕ} {s s' : DbufRun}

theorem AsksFor.keep (h : s.AsksFor size) (hpc : ∀ count ∈ s'.pc.asked, count ∈ s.pc.asked)
    (hreads : s'.reads = s.reads) : s'.AsksFor size :=
  ⟨fun count hc => h.pc count (hpc count hc), hreads ▸ h.reads⟩

theorem AsksFor.failed (h : s.AsksFor size) (caller : DbufCaller) (rv : ℤ) :
    (s.submitFailed caller rv).AsksFor size := by
  cases caller with
  | start => exact ⟨fun _ hc => by simp [submitFailed, DbufPc.asked] at hc, h.reads⟩
  | read count => exact ⟨fun _ hc => by simp [submitFailed, DbufPc.asked] at hc, h.reads⟩

theorem AsksFor.done {c : DbufSubmit} (h : s.AsksFor size) (hpc : s.pc = .chain c) :
    (s.submitDone c.caller c.i).AsksFor size := by
  have hcount : ∀ count ∈ c.caller.count, count = size := fun count hc => h.pc count (by rwa [hpc])
  cases hcaller : c.caller with
  | start =>
    by_cases hi : c.i = 0
    · refine h.keep (fun count hc => ?_) ?_
      · simp [submitDone, hi, DbufPc.asked, DbufCaller.count] at hc
      · simp [submitDone, hi]
    · refine h.keep (fun count hc => ?_) ?_
      · simp [submitDone, hi, DbufPc.asked] at hc
      · simp [submitDone, hi]
  | read count =>
    rw [hcaller] at hcount
    refine ⟨fun _ hc => by simp [submitDone, DbufPc.asked] at hc, fun r hr => ?_⟩
    rcases List.mem_append.mp hr with hr | hr
    · exact h.reads r hr
    · rw [List.mem_singleton.mp hr]
      exact hcount count rfl

theorem step_asksFor {a : DbufAct} (h : s.AsksFor size) (ha : ∀ count, a = .read count → count = size)
    (hs : s.step p a = some s') : s'.AsksFor size := by
  cases a with
  | start fault io alloc =>
    obtain ⟨-, ⟨rv, -, rfl⟩ | ⟨-, rfl⟩⟩ := step_start hs
    · exact h.keep (fun _ => id) rfl
    · refine ⟨fun count hc => ?_, fun r hr => absurd hr List.not_mem_nil⟩
      simp [DbufPc.asked, DbufCaller.count] at hc
  | submit oom =>
    obtain ⟨caller, i, hpc, rfl⟩ := step_submit hs
    rcases submitSlot_cases s oom caller i with ⟨rv, -, hslot⟩ | ⟨req, -, hslot⟩
    · have hclear : (s.clearSlot i).AsksFor size := ⟨h.pc, h.reads⟩
      rw [hslot]
      exact hclear.failed caller rv
    · rw [hslot]
      exact h.keep (fun _ hc => by rw [hpc]; exact hc) rfl
  | build =>
    obtain ⟨c, hpc, -, -, rfl⟩ := step_build hs
    refine h.keep (fun count hc => ?_) rfl
    rw [(buildNext_built s c).pc] at hc
    rw [hpc]
    exact hc
  | queue w =>
    obtain ⟨c, hpc, rfl⟩ := step_queue hs
    by_cases hacc : s.cdev.drv.Accepts c.ref
    · rw [(queueNext_accepted hacc).2]
      exact h.keep (fun _ hc => by rw [hpc]; exact hc) rfl
    · obtain ⟨rv, hrv⟩ := queueNext_refused (p := p) (w := w) hacc
      rw [hrv]
      exact h.failed c.caller rv
  | submitted =>
    obtain ⟨c, hpc, -, rfl⟩ := step_submitted hs
    exact h.done hpc
  | unwind =>
    obtain ⟨rv, -, rfl⟩ := step_unwind hs
    exact h.keep (fun _ hc => by simp [DbufPc.asked] at hc) rfl
  | read count =>
    obtain ⟨-, -, ⟨-, rfl⟩ | ⟨-, rfl⟩⟩ := step_read hs
    · exact h.keep (fun _ => id) rfl
    · refine ⟨fun count' hc => ?_, h.reads⟩
      obtain rfl := Option.some.inj hc
      exact ha _ rfl
  | wake fault =>
    obtain ⟨count, hpc, -, rfl⟩ := step_wake hs
    unfold readWoken
    dsimp only
    split_ifs
    · exact h.keep (fun _ hc => by simp [DbufPc.asked] at hc) rfl
    · exact h.keep (fun _ hc => by simp [DbufPc.asked] at hc) rfl
    · exact h.keep (fun _ hc => by rw [hpc]; exact hc) rfl
  | signal =>
    obtain ⟨count, -, rfl⟩ := step_signal hs
    exact h.keep (fun _ hc => by simp [DbufPc.asked] at hc) rfl
  | stop =>
    obtain ⟨-, rfl⟩ := step_stop hs
    exact h.keep (fun _ => id) rfl
  | close =>
    obtain ⟨-, rfl⟩ := step_close hs
    exact h.keep (fun _ => id) rfl
  | service wb r =>
    obtain rfl := Option.some.inj hs
    exact h.keep (fun _ => id) rfl
  | dma data =>
    obtain ⟨t, -, -, -, rfl⟩ := step_dma hs
    refine h.keep (fun count hc => ?_) ?_
    · rwa [(execDesc_frame s data t).2.2.2.2] at hc
    · unfold execDesc
      dsimp only
      split_ifs <;> rfl
  | result i r =>
    obtain rfl := Option.some.inj hs
    exact h.keep (fun _ => id) rfl
  | setOffline offline =>
    obtain rfl := Option.some.inj hs
    exact h.keep (fun _ => id) rfl

theorem session_starts {a : DbufAct} (h : s.Between) (hs : s.step p a = some s')
    (hact : s'.cdev.dbufActive = true) :
    ∃ fault io alloc, a = .start fault io alloc ∧ s'.cdev.dbufSize = io.bufSize ∧
      io.bufSize &&& BitVec.ofNat 32 (xdmaPageSize - 1) = 0 ∧ s'.AsksFor size := by
  have hidle := h.active
  have hsubmit {caller : DbufCaller} {i : Fin 2} (hpc : s.pc = .submit caller i) : False := by
    rcases h.pc with (hq | ⟨count, hq⟩) | ⟨rv, hq⟩ <;> simp [hq] at hpc
  cases step_slotMove hs with
  | kept _ _ hkept => simp [(hkept hact).1] at hidle
  | unwound rv _ hsame => simp [← hsame, hact] at hidle
  | started fault io alloc bus ha hret _ _ hall =>
    subst ha
    refine ⟨fault, io, alloc, rfl, hall.dbufSize, hall.aligned.2, ?_⟩
    obtain ⟨-, ⟨rv, hsome, -⟩ | ⟨-, rfl⟩⟩ := step_start hs
    · simp [hret] at hsome
    · refine ⟨fun count hc => ?_, fun r hr => absurd hr List.not_mem_nil⟩
      simp [DbufPc.asked, DbufCaller.count] at hc
  | woken count _ _ hon => simp [hon] at hidle
  | refused oom caller i rv _ hpc => exact (hsubmit hpc).elim
  | allocated oom caller i req _ hpc => exact (hsubmit hpc).elim
  | built c _ hpc => exact (h.not_at (.inl hpc)).elim
  | dropped w c rv _ hpc => exact (h.not_at (.inr hpc)).elim
  | queued w c _ hpc => exact (h.not_at (.inr hpc)).elim
  | serviced wb r _ heq =>
    obtain ⟨out, he⟩ := engineService_effect p wb r s.cdev.drv
    rw [heq] at hact
    change (s.cdev.service p wb r).dbufActive = true at hact
    rw [(XdmaCdev.service_spec he).frame] at hact
    simp [hidle] at hact

def Captured (p : Params) (size : U32) (s : DbufRun) : Prop :=
  s.AsksFor size.toNat ∧ ∃ (σ : DbufSession p) (a e q b : ℕ), σ.Delivering s a e q b ∧ σ.size = size ∧
    size &&& BitVec.ofNat 32 (xdmaPageSize - 1) = 0

theorem step_captured (hp : p.descBlenMax = xdmaDescBlenMax) {size : U32} {a : DbufAct}
    (h : s.Between ∨ s.Captured p size) (hok : s.SessionOk p a ∧ s.StartsIdle a ∧ Captures size a)
    (hs : s.step p a = some s') : s'.Between ∨ s'.Captured p size := by
  obtain ⟨hok, hidle, ha⟩ := hok
  rcases h with h | ⟨hasks, σ, x, e, q, b, h, hsize, haligned⟩
  · rcases step_between hp h hok hidle hs with h' | ⟨σ, h'⟩
    · exact .inl h'
    · obtain ⟨fault, io, alloc, rfl, hdbuf, haligned, hasks⟩ := session_starts h hs h'.active
      have hio : io.bufSize = size := ha
      rw [hio] at hdbuf haligned
      exact .inr ⟨hasks, σ, 0, 0, 0, 0, h', h'.dbufSize.symm.trans hdbuf, haligned⟩
  · rcases step_delivering h hok hs with h' | ⟨x', e', q', b', h'⟩
    · exact .inl h'
    · refine .inr ⟨step_asksFor hasks (fun count hread => ?_) hs, σ, x', e', q', b', h', hsize, haligned⟩
      rw [hread] at ha
      exact ha

theorem captured_reads {size : U32} (h : s.Captured p size) :
    s.reads.map Prod.snd = s.fills.take s.reads.length ∧
      ∀ f ∈ s.fills.take s.reads.length, f.length = size.toNat ∧ 0 < size.toNat ∧ wordSize ∣ size.toNat := by
  obtain ⟨hasks, σ, x, e, q, b, hd, rfl, haligned⟩ := h
  have hwhole : wordSize ∣ σ.size.toNat := by
    have hmask := congrArg BitVec.toNat haligned
    change σ.size.toNat &&& (2 ^ 12 - 1) = 0 at hmask
    rw [Nat.and_two_pow_sub_one_eq_mod] at hmask
    exact (show wordSize ∣ 2 ^ 12 by decide).trans (Nat.dvd_of_mod_eq_zero hmask)
  have hsizes : ∀ f ∈ s.fills, f.length = σ.size.toNat := hd.written.sizes
  refine ⟨?_, fun f hf => ⟨hsizes f (List.mem_of_mem_take hf), σ.pos, hwhole⟩⟩
  apply List.ext_getElem?
  intro k
  rw [List.getElem?_map]
  by_cases hk : k < s.reads.length
  · obtain ⟨-, f, hf, hr⟩ := hd.returned k s.reads[k].1 s.reads[k].2 (List.getElem?_eq_getElem hk)
    have hcount := hasks.reads _ (List.getElem_mem hk)
    rw [hcount, List.take_of_length_le (hsizes f (List.mem_of_getElem? hf)).le] at hr
    rw [List.getElem?_eq_getElem hk, List.getElem?_take_of_lt hk, hf, ← hr]
    rfl
  · rw [List.getElem?_eq_none (Nat.le_of_not_lt hk), List.getElem?_eq_none]
    · rfl
    · rw [List.length_take]
      omega

theorem step_fills {a : DbufAct} (ha : a.sent = none) (hempty : a.starts = true → s.fills = [])
    (hs : s.step p a = some s') : s'.fills = s.fills := by
  have hfailed : ∀ (s : DbufRun) caller rv, (s.submitFailed caller rv).fills = s.fills := by
    intro s caller rv
    cases caller <;> rfl
  cases a with
  | dma data => cases ha
  | start fault io alloc =>
    obtain ⟨-, ⟨rv, -, rfl⟩ | ⟨-, rfl⟩⟩ := step_start hs
    · rfl
    · exact (hempty rfl).symm
  | submit oom =>
    obtain ⟨caller, i, -, rfl⟩ := step_submit hs
    rcases submitSlot_cases s oom caller i with ⟨rv, -, hslot⟩ | ⟨req, -, hslot⟩
    · rw [hslot]
      exact hfailed _ caller rv
    · rw [hslot]
      rfl
  | build =>
    obtain ⟨c, -, -, -, rfl⟩ := step_build hs
    rfl
  | queue w =>
    obtain ⟨c, -, rfl⟩ := step_queue hs
    by_cases hacc : s.cdev.drv.Accepts c.ref
    · rw [(queueNext_accepted hacc).2]
      rfl
    · obtain ⟨rv, hrv⟩ := queueNext_refused (p := p) (w := w) hacc
      rw [hrv]
      exact hfailed _ c.caller rv
  | submitted =>
    obtain ⟨c, -, -, rfl⟩ := step_submitted hs
    unfold submitDone
    split
    · split_ifs <;> rfl
    · rfl
  | unwind =>
    obtain ⟨rv, -, rfl⟩ := step_unwind hs
    rfl
  | read count => obtain ⟨-, -, ⟨-, rfl⟩ | ⟨-, rfl⟩⟩ := step_read hs <;> rfl
  | wake fault =>
    obtain ⟨count, -, -, rfl⟩ := step_wake hs
    unfold readWoken
    dsimp only
    split_ifs <;> rfl
  | signal =>
    obtain ⟨count, -, rfl⟩ := step_signal hs
    rfl
  | stop =>
    obtain ⟨-, rfl⟩ := step_stop hs
    rfl
  | close =>
    obtain ⟨-, rfl⟩ := step_close hs
    rfl
  | service wb r =>
    obtain rfl := Option.some.inj hs
    rfl
  | result i r =>
    obtain rfl := Option.some.inj hs
    rfl
  | setOffline offline =>
    obtain rfl := Option.some.inj hs
    rfl

/-- The next descriptor of the engine is a whole slot of `n` bytes, and a session starts before
any fill. -/
def FillsSlot (n : ℕ) (s : DbufRun) (a : DbufAct) : Prop :=
  (a.starts = true → s.fills = []) ∧ (a.sent.isSome = true → ∀ t ∈ s.cdev.drv.eng.started,
    s.acc = [] ∧ (s.cdev.drv.tfer t).lastInRequest = true ∧ s.executed + 1 = (s.cdev.drv.tfer t).descNum ∧
      (s.cdev.drv.eng.desc ((s.cdev.drv.tfer t).descIndex + s.executed)).bytes.toNat = n)

instance (n : ℕ) (s : DbufRun) (a : DbufAct) : Decidable (s.FillsSlot n a) :=
  inferInstanceAs (Decidable (_ ∧ (_ → ∀ _ ∈ s.cdev.drv.eng.started, _)))

theorem run_fills {ok : DbufRun → DbufAct → Prop} [∀ s a, Decidable (ok s a)] {n : ℕ}
    (hok : ∀ s a, ok s a → s.FillsSlot n a) {as : List DbufAct} (h : run (step p) ok s as = some s') :
    s'.fills = s.fills ++ (as.filterMap DbufAct.sent).map fun data => (List.range n).map data := by
  induction as generalizing s with
  | nil =>
    obtain rfl := Option.some.inj h
    exact (List.append_nil _).symm
  | cons a as ih =>
    obtain ⟨ha, h⟩ := Option.ite_none_right_eq_some.mp h
    obtain ⟨s₁, hs, h⟩ := Option.bind_eq_some_iff.mp h
    rw [ih h]
    cases hsent : a.sent with
    | none => rw [step_fills hsent (hok _ _ ha).1 hs, List.filterMap_cons_none hsent]
    | some data =>
      obtain rfl : a = .dma data := by
        cases a <;> cases hsent
        rfl
      obtain ⟨t, ht, -, -, rfl⟩ := step_dma hs
      obtain ⟨hacc, hlast, hnum, hbytes⟩ := (hok _ _ ha).2 rfl t ht
      have hfills : (s.execDesc data t).fills = s.fills ++ [(List.range n).map data] := by
        unfold execDesc
        dsimp only
        rw [if_pos ⟨hlast, hnum⟩, hacc, hbytes]
        rfl
      rw [hfills, List.append_assoc]
      rfl

end DbufRun

section

variable {m : ℕ} {gap : ℕ → ℕ} {seed : BitVec 32} {c : ℕ}

/-- The time of sample `i` of blocks of `m` samples, where `gap k` samples are lost after block `k`. -/
def sampleTime (m : ℕ) (gap : ℕ → ℕ) (i : ℕ) : ℕ := i + ((List.range (i / m)).map gap).sum

/-- Block after block is filled with samples of the register, without a loss inside a block. -/
def Sends (seed : BitVec 32) (c m : ℕ) (gap : ℕ → ℕ) (blocks : List (List U8)) : Prop :=
  ∀ k block, blocks[k]? = some block → ∀ j < m,
    (decodeSample ((block.drop (wordSize * j)).take wordSize)).At seed c (sampleTime m gap (m * k + j))

def losses (m : ℕ) (gap : ℕ → ℕ) (n : ℕ) : List (ℕ × Option ℕ × Option ℕ) :=
  ((List.range (n - 1)).filter fun k => gap k ≠ 0).map fun k => (m * (k + 1) - 1, some (gap k), some (gap k))

theorem sampleTime_succ (m : ℕ) (gap : ℕ → ℕ) (i : ℕ) : sampleTime m gap (i + 1) =
    sampleTime m gap i + 1 + if (i + 1) % m = 0 then gap (i / m) else 0 := by
  rw [sampleTime, sampleTime, Nat.succ_div]
  by_cases hm : m ∣ i + 1
  · rw [if_pos hm, if_pos (Nat.mod_eq_zero_of_dvd hm), List.range_succ, List.map_append, List.sum_append]
    simp only [List.map_cons, List.map_nil, List.sum_cons, List.sum_nil]
    omega
  · rw [if_neg hm, if_neg fun h => hm (Nat.dvd_of_mod_eq_zero h)]
    simp only [Nat.add_zero]
    omega

theorem lost_step_iff (j : ℕ) : 1 < sampleTime m gap (j + 1) - sampleTime m gap j ↔
    (j + 1) % m = 0 ∧ gap (j / m) ≠ 0 := by
  rw [sampleTime_succ]
  split_ifs with h
  · rw [and_iff_right h]
    omega
  · rw [iff_false_right fun hlost => h hlost.1]
    omega

theorem lost_losses (hm : 0 < m) (n : ℕ) : lost (sampleTime m gap) 0 (m * n - 1) = losses m gap n := by
  have hfilter : (List.range (m * n - 1)).filter
      (fun j => 1 < sampleTime m gap (0 + j + 1) - sampleTime m gap (0 + j)) =
        ((List.range (n - 1)).filter fun k => gap k ≠ 0).map fun k => m * (k + 1) - 1 := by
    rw [← filter_range_ends (fun k => gap k ≠ 0) hm n]
    apply List.filter_congr
    intro j _
    rw [Nat.zero_add]
    exact decide_eq_decide.mpr (lost_step_iff j)
  rw [lost, hfilter, List.map_map, losses]
  apply List.map_congr_left
  intro k _
  have hsucc : m * (k + 1) - 1 + 1 = m * (k + 1) := Nat.sub_add_cancel (Nat.mul_pos hm (Nat.succ_pos k))
  have hdiv : (m * (k + 1) - 1) / m = k := by
    rw [Nat.mul_succ, Nat.add_sub_assoc hm, Nat.mul_add_div hm, Nat.div_eq_of_lt (by omega), Nat.add_zero]
  have hgap : sampleTime m gap (m * (k + 1) - 1 + 1) - sampleTime m gap (m * (k + 1) - 1) - 1 = gap k := by
    rw [sampleTime_succ, hsucc, if_pos (Nat.mul_mod_right _ _), hdiv]
    omega
  rw [Function.comp_apply, Nat.zero_add, hgap]

theorem Sends.sample {blocks : List (List U8)} (h : Sends seed c m gap blocks)
    (hlen : ∀ b ∈ blocks, b.length = wordSize * m) :
    (records wordSize blocks.flatten).length = m * blocks.length ∧
      ∀ i (hi : i < (records wordSize blocks.flatten).length),
      (decodeSample (records wordSize blocks.flatten)[i]).At seed c (sampleTime m gap i) := by
  have hword : 0 < wordSize := by decide
  have hcount : (records wordSize blocks.flatten).length = m * blocks.length := by
    rw [length_records, length_flatten_eq hlen, Nat.mul_assoc, Nat.mul_div_cancel_left _ hword]
  refine ⟨hcount, fun i hi => ?_⟩
  have hlt : i < m * blocks.length := hcount ▸ hi
  have hm : 0 < m := Nat.pos_of_mul_pos_right (Nat.zero_lt_of_lt hlt)
  have hk : i / m < blocks.length := Nat.div_lt_of_lt_mul hlt
  have hj := Nat.mod_lt i hm
  have hsplit := Nat.div_add_mod i m
  have hsample := h (i / m) blocks[i / m] (List.getElem?_eq_getElem hk) (i % m) hj
  have hroom : wordSize * (i % m) + wordSize ≤ wordSize * m := by
    rw [← Nat.mul_succ]
    exact Nat.mul_le_mul_left _ hj
  have hoffset : wordSize * i = wordSize * m * (i / m) + wordSize * (i % m) := by
    rw [Nat.mul_assoc, ← Nat.mul_add, hsplit]
  rw [getElem_records, hoffset, take_drop_flatten hroom hlen (List.getElem?_eq_getElem hk)]
  rwa [hsplit] at hsample

section

variable (h0 : seed ≠ 0) (h1 : seed ≠ BitVec.allOnes 32)

include h0 h1

theorem writeSkipReport_rows {t : ℕ → ℕ} {bytes : List U8} (hwhole : remainder wordSize bytes = [])
    (hsample : ∀ i (hi : i < (records wordSize bytes).length),
      (decodeSample (records wordSize bytes)[i]).At seed c (t i))
    (ht : ∀ i, t i < t (i + 1) ∧ t (i + 1) ≤ t i + 64) :
    (writeSkipReport bytes).rows.map SkipRow.missing = lost t 0 ((records wordSize bytes).length - 1) := by
  have hlen : ∀ r ∈ records wordSize bytes, r.length = wordSize := fun r => length_of_mem_records
  rw [writeSkipReport, reads_records, if_pos hwhole, List.append_nil]
  generalize records wordSize bytes = recs at *
  cases recs with
  | nil => rfl
  | cons r recs =>
    have hloop := SkipReport.loop_rows h0 h1 (t := t)
      (fun r (hr : r ∈ ([] : List (List U8))) => absurd hr List.not_mem_nil) recs 0
      { sampleCount := 1 } rfl (hsample 0 (Nat.succ_pos _)) (fun j hj => ?_) fun j _ => ht (0 + j)
    · dsimp only
      rw [if_neg (not_not.mpr (hlen r List.mem_cons_self))]
      rw [List.append_nil] at hloop
      refine hloop.trans ?_
      rw [List.length_cons, Nat.add_sub_cancel]
      rfl
    · have hnext := hsample (j + 1) (Nat.succ_lt_succ hj)
      rw [List.getElem_cons_succ] at hnext
      rw [Nat.zero_add]
      exact ⟨hlen _ (List.mem_cons_of_mem _ (List.getElem_mem hj)), hnext⟩

theorem lfsrBreak_iff {t t' : ℕ} (hlt : t < t') (hle : t' ≤ t + 64) :
    LfsrBreak (lfsrNext^[t] seed) (lfsrNext^[t'] seed) ↔ 1 < t' - t := by
  obtain ⟨hne0, hne1⟩ := iterate_ne h0 h1 t
  obtain ⟨d, rfl⟩ := Nat.exists_eq_add_of_lt hlt
  have hstate : lfsrNext^[t + d + 1] seed = lfsrNext (lfsrNext^[d] (lfsrNext^[t] seed)) := by
    rw [Function.iterate_succ_apply', Nat.add_comm t d, Function.iterate_add_apply]
  rw [LfsrBreak, hstate, lfsrNext_injective.ne_iff]
  constructor
  · intro hne
    by_contra hone
    obtain rfl : d = 0 := by omega
    exact hne rfl
  · intro hlost
    exact lfsrNext_ne hne0 hne1 (by omega) (by omega)

theorem checkBufferBoundaries_lost {size : ℕ} (hm : m = size / wordSize) (hpos : 0 < m)
    {values : List (BitVec 32)}
    (hgap : ∀ k, gap k < 64) (hvalues : ∀ i < values.length,
      values.getD i 0 = lfsrNext^[sampleTime m gap i] seed) :
    checkBufferBoundaries values size =
      some { boundaryErrors := (lost (sampleTime m gap) 0 (values.length - 1)).length } := by
  have hloop : ∀ n ≤ values.length - 1, (List.range n).foldl
      (fun check i => BoundaryCheck.step (size / wordSize) check i (values.getD i 0) (values.getD (i + 1) 0))
      (some {}) = some { boundaryErrors :=
        ((List.range n).filter fun j => 1 < sampleTime m gap (j + 1) - sampleTime m gap j).length } := by
    intro n
    induction n with
    | zero => exact fun _ => rfl
    | succ n ih =>
      intro hn
      have hstep := sampleTime_succ m gap n
      have hbreak : values.getD (n + 1) 0 ≠ lfsrNext (values.getD n 0) ↔
          1 < sampleTime m gap (n + 1) - sampleTime m gap n := by
        have hlt := hgap (n / m)
        rw [hvalues n (by omega), hvalues (n + 1) (by omega)]
        exact lfsrBreak_iff h0 h1 (by omega) (by split_ifs at hstep <;> omega)
      rw [List.range_succ, List.foldl_append, ih (by omega), List.foldl_cons, List.foldl_nil,
        BoundaryCheck.step,
        Option.bind_some, List.filter_append, List.filter_singleton, List.length_append, ← hm]
      by_cases hlost : 1 < sampleTime m gap (n + 1) - sampleTime m gap n
      · have hend := ((lost_step_iff n).mp hlost).1
        rw [if_pos (hbreak.mpr hlost), if_neg (by omega), if_pos hend]
        simp [hlost]
      · rw [if_neg fun hne => hlost (hbreak.mp hne)]
        simp [hlost]
  have hall := hloop _ (le_refl _)
  rw [checkBufferBoundaries, hall, lost, List.length_map]
  simp only [Nat.zero_add]

end

end

structure Analysed (size m : ℕ) (gap : ℕ → ℕ) (n : ℕ) (file : List U8) : Prop where
  rows : (writeSkipReport file).rows.map SkipRow.missing = losses m gap n
  errors : (verifyLfsr (parseBytes file).lists.lfsr 0).errors = (losses m gap n).length
  boundaries : checkBufferBoundaries (parseBytes file).lists.lfsr size =
    some { boundaryErrors := (losses m gap n).length, innerErrors := 0 }

theorem analysed_blocks {seed : BitVec 32} (h0 : seed ≠ 0) (h1 : seed ≠ BitVec.allOnes 32)
    {c m : ℕ} {gap : ℕ → ℕ}
    (hgap : ∀ k, gap k < 64) (hm : 0 < m) {blocks : List (List U8)} (h : Sends seed c m gap blocks)
    (hlen : ∀ b ∈ blocks, b.length = wordSize * m) :
    Analysed (wordSize * m) m gap blocks.length blocks.flatten := by
  have hword : 0 < wordSize := by decide
  have hdiv : m = wordSize * m / wordSize := (Nat.mul_div_cancel_left m hword).symm
  obtain ⟨hcount, hsample⟩ := h.sample hlen
  have hwhole : remainder wordSize blocks.flatten = [] := by
    apply List.eq_nil_of_length_eq_zero
    rw [length_remainder, length_flatten_eq hlen, Nat.mul_assoc, Nat.mul_mod_right]
  have htimes : ∀ i, sampleTime m gap i < sampleTime m gap (i + 1) ∧
      sampleTime m gap (i + 1) ≤ sampleTime m gap i + 64 := by
    intro i
    have hstep := sampleTime_succ m gap i
    have hlt := hgap (i / m)
    split_ifs at hstep <;> omega
  have hlfsr : (parseBytes blocks.flatten).lists.lfsr =
      (records wordSize blocks.flatten).map fun r => (decodeSample r).lfsr := by
    rw [parseBytes_lists, SampleLists.ofSamples, List.map_map]
    rfl
  have hlength : (parseBytes blocks.flatten).lists.lfsr.length = m * blocks.length := by
    rw [hlfsr, List.length_map, hcount]
  have hvalues : ∀ i < (parseBytes blocks.flatten).lists.lfsr.length,
      (parseBytes blocks.flatten).lists.lfsr.getD i 0 = lfsrNext^[sampleTime m gap i] seed := by
    intro i hi
    have hi' : i < (records wordSize blocks.flatten).length := by rwa [hcount, ← hlength]
    rw [hlfsr, List.getD_eq_getElem?_getD, List.getElem?_map, List.getElem?_eq_getElem hi']
    exact (hsample i hi').lfsr
  have hcheck := checkBufferBoundaries_lost h0 h1 hdiv hm hgap hvalues
  rw [hlength, lost_losses hm] at hcheck
  refine ⟨?_, ?_, hcheck⟩
  · rw [writeSkipReport_rows h0 h1 hwhole hsample htimes, hcount, lost_losses hm]
  · obtain ⟨check, hsome, hsum⟩ := checkBufferBoundaries_errors (parseBytes blocks.flatten).lists.lfsr
      (show wordSize ≤ wordSize * m from Nat.le_mul_of_pos_right _ hm)
    rw [hcheck] at hsome
    rw [verifyLfsr_errors, ← hsum, ← Option.some.inj hsome]
    rfl

def oneGap (k : ℕ) : ℕ := if k = 0 then 3 else 0

def streamByte (k i : ℕ) : U8 :=
  let t := sampleTime 128 oneGap (128 * k + i / wordSize)
  (record (lfsrNext^[t] 1) (BitVec.ofNat 16 (1 + t))).getD (i % wordSize) 0

theorem decodeSample_record (l : BitVec 32) (c : BitVec 16) :
    (decodeSample (record l c)).lfsr = l ∧ (decodeSample (record l c)).counter = c := by
  constructor
  · change l.extractLsb' 24 8 ++ l.extractLsb' 16 8 ++ l.extractLsb' 8 8 ++ l.extractLsb' 0 8 = l
    ext i hi
    simp only [BitVec.getElem_append, BitVec.getElem_extractLsb']
    split_ifs <;> grind
  · change c.extractLsb' 8 8 ++ c.extractLsb' 0 8 = c
    ext i hi
    simp only [BitVec.getElem_append, BitVec.getElem_extractLsb']
    split_ifs <;> grind

theorem sends_streamByte (n : ℕ) : Sends 1 1 128 oneGap
    ((List.range n).map fun k => (List.range (wordSize * 128)).map (streamByte k)) := by
  intro k block hblock j hj
  rw [List.getElem?_map] at hblock
  obtain ⟨k', hk', rfl⟩ := Option.map_eq_some_iff.mp hblock
  obtain ⟨hlt, hk⟩ := List.getElem?_eq_some_iff.mp hk'
  obtain rfl : k = k' := by rwa [List.getElem_range] at hk
  have hchunk : (((List.range (wordSize * 128)).map (streamByte k)).drop (wordSize * j)).take wordSize =
      record (lfsrNext^[sampleTime 128 oneGap (128 * k + j)] 1)
        (BitVec.ofNat 16 (1 + sampleTime 128 oneGap (128 * k + j))) := by
    apply List.ext_getElem
    · rw [List.length_take, List.length_drop, List.length_map, List.length_range, Nat.min_eq_left]
      · rfl
      · have := Nat.mul_le_mul_left wordSize (Nat.succ_le_of_lt hj)
        rw [Nat.mul_succ] at this
        omega
    intro i hi hi'
    have hi : i < wordSize := hi'
    rw [List.getElem_take, List.getElem_drop, List.getElem_map, List.getElem_range, streamByte,
      Nat.mul_add_div (by decide), Nat.div_eq_of_lt hi, Nat.mul_add_mod, Nat.mod_eq_of_lt hi, Nat.add_zero]
    exact (List.getElem_eq_getD 0).symm
  obtain ⟨hlfsr, hcounter⟩ := decodeSample_record (lfsrNext^[sampleTime 128 oneGap (128 * k + j)] 1)
    (BitVec.ofNat 16 (1 + sampleTime 128 oneGap (128 * k + j)))
  rw [hchunk]
  exact ⟨hlfsr, by rw [hcounter]; exact BitVec.toNat_ofNat _ _⟩

namespace DbufRun

variable {p : Params} {s : DbufRun}

/-- A capture is the first slot fills of its session, and its analyses report the samples that were
lost between two fills, all of them and no others, as errors at the ends of the buffers. -/
theorem capture_losses (hp : p.descBlenMax = xdmaDescBlenMax) {size : U32}
    (h : Reachable (step p) Opens (fun s a => s.SessionOk p a ∧ s.StartsIdle a ∧ Captures size a) s)
    (hact : s.cdev.dbufActive = true)
    {last : List (ℤ × List U8)} (hlast : ∀ c ∈ last.head?, c.1 ≠ size.toNat)
    {seed : BitVec 32} (h0 : seed ≠ 0) (h1 : seed ≠ BitVec.allOnes 32) {c : ℕ} {gap : ℕ → ℕ}
      (hgap : ∀ k, gap k < 64)
    (hsends : Sends seed c (size.toNat / wordSize) gap s.fills) :
    dbufCapture size.toNat (s.results ++ last) = (s.fills.take s.reads.length).flatten ∧
      Analysed size.toNat (size.toNat / wordSize) gap s.reads.length
        (dbufCapture size.toNat (s.results ++ last)) := by
  have hrun : s.Between ∨ s.Captured p size :=
    h.invariant (I := fun s => s.Between ∨ s.Captured p size) (fun _ h => .inl h.between)
      fun _ _ _ hI hok hs => step_captured hp hI hok hs
  have hcaptured : s.Captured p size := hrun.resolve_left fun h => by simp [h.active] at hact
  obtain ⟨hreads, hblocks⟩ := captured_reads hcaptured
  have hcalls : ∀ c ∈ s.results, c.1 = (size.toNat : ℤ) := by
    intro c hc
    obtain ⟨r, hr, rfl⟩ := List.mem_map.mp hc
    exact congrArg Nat.cast (hcaptured.1.reads r hr)
  have hfile : dbufCapture size.toNat (s.results ++ last) = (s.fills.take s.reads.length).flatten := by
    rw [dbufCapture_append hlast s.results hcalls, results, List.map_map]
    exact congrArg List.flatten hreads
  have hlength : (s.fills.take s.reads.length).length = s.reads.length := by
    rw [← hreads, List.length_map]
  have hsent : Sends seed c (size.toNat / wordSize) gap (s.fills.take s.reads.length) := by
    intro k block hk
    rw [List.getElem?_take] at hk
    exact hsends k block (Option.ite_none_right_eq_some.mp hk).2
  refine ⟨hfile, ?_⟩
  generalize s.fills.take s.reads.length = blocks at *
  rw [hfile, ← hlength]
  cases blocks with
  | nil => exact ⟨rfl, rfl, rfl⟩
  | cons b bs =>
    obtain ⟨-, hpos, hdvd⟩ := hblocks b List.mem_cons_self
    have hsize : wordSize * (size.toNat / wordSize) = size.toNat := Nat.mul_div_cancel' hdvd
    have hm : 0 < size.toNat / wordSize := Nat.div_pos (Nat.le_of_dvd hpos hdvd) (by decide)
    have hanalysed := analysed_blocks h0 h1 hgap hm hsent fun b'
      hb' => by rw [hsize]; exact (hblocks b' hb').1
    rwa [hsize] at hanalysed

def captureBlock (k : ℕ) : List DbufAct :=
  [.dma (streamByte k), .service 0 ⟨0, 1, 1⟩, .read 4096, .wake false, .submit false, .build,
    .queue 1, .submitted]

theorem capture_losses_oneGap : ∃ s : DbufRun, s.reads.length = 2 ∧
    (writeSkipReport (dbufCapture 4096 (s.results ++ []))).rows.map SkipRow.missing =
      [(127, some 3, some 3)] := by
  have hreads : (run (step {}) (fun s a => (s.SessionOk {} a ∧ s.StartsIdle a ∧ Captures 4096 a) ∧
      s.FillsSlot 4096 a) {} (startedRun ++ captureBlock 0 ++ captureBlock 1)).map
        (fun s => (s.cdev.dbufActive, s.reads.length)) = some (true, 2) := by decide
  obtain ⟨s, hrun, heq⟩ := Option.map_eq_some_iff.mp hreads
  obtain ⟨hact, hreads⟩ := Prod.mk.inj heq
  have hs : Reachable (step {}) Opens (fun s a => s.SessionOk {} a ∧ s.StartsIdle a ∧ Captures 4096 a) s :=
    (Reachable.of_run (.init opens_default) hrun).mono fun _ _ h => h.1
  have hsends : Sends 1 1 (4096 / wordSize) oneGap s.fills := by
    rw [run_fills (fun _ _ h => h.2) hrun]
    exact sends_streamByte 2
  have hlast : ∀ c ∈ ([] : List (ℤ × List U8)).head?, c.1 ≠ (4096 : U32).toNat := by simp
  have hgap : ∀ k, oneGap k < 64 := fun k => by
    rw [oneGap]
    split_ifs <;> decide
  obtain ⟨-, hrows, -, -⟩ := capture_losses rfl hs hact hlast (by decide) (by decide) hgap hsends
  rw [hreads] at hrows
  exact ⟨s, hreads, hrows⟩

end DbufRun

end XdmaDriver
