import XdmaDriver.DoubleBufferSession
import XdmaDriver.DoubleBufferMemory

/-!
Every read of a session returns the fill it is due, as long as the engine finishes
what it is started with before it is serviced.
-/

namespace XdmaDriver

open Transition Drv Spans Tiling

def DbufCaller.copied : DbufCaller → ℕ
  | .start => 0
  | .read _ => 1

def DbufPc.copied : DbufPc → ℕ
  | .submit caller _ => caller.copied
  | .chain c => c.caller.copied
  | .queue c => c.caller.copied
  | _ => 0

namespace XdmaCdev

theorem service_stopped {p : Params} {wb : U32} {r : ServiceRegs} {s : XdmaCdev}
    (h : s.drv.eng.running = false) :
    s.service p wb r = { s with drv := s.drv.engineStatusRead r.statusRc } := by
  unfold service
  simp [engineService_stopped h]

end XdmaCdev

namespace DbufRun

variable {p : Params} {s s' : DbufRun}

structure Pumped (s : DbufRun) (a e : ℕ) : Prop where
  starts : s.execAt ≤ s.cdev.drv.eng.starts
  idle : s.cdev.drv.eng.running = false → e = a
  busy : s.cdev.drv.eng.running = true → ∃ t, s.cdev.drv.eng.started = some t ∧
    s.cdev.drv.eng.transferList ≠ [] ∧
    ((s.cdev.drv.eng.transferList.head? = some t ∧ s.cdev.drv.eng.descDequeued = 0 ∧
        e = a + s.executed ∧ s.executed ≤ (s.cdev.drv.tfer t).descNum) ∨
      (s.cdev.drv.eng.transferList.head? ≠ some t ∧ s.Older t ∧
        (s.cdev.drv.tfer t).descNum ≤ s.executed ∧ e = a))

theorem Pumped.congr {a e : ℕ} (h : s.Pumped a e) (hexec : s'.exec = s.exec) (hat : s'.execAt = s.execAt)
    (hrun : s'.cdev.drv.eng.running = s.cdev.drv.eng.running)
    (hst : SameStarts s.cdev.drv.eng s'.cdev.drv.eng)
    (hdeq : s'.cdev.drv.eng.descDequeued = s.cdev.drv.eng.descDequeued)
    (hne : s.cdev.drv.eng.transferList ≠ [] → s'.cdev.drv.eng.transferList ≠ [] ∧
      s'.cdev.drv.eng.transferList.head? = s.cdev.drv.eng.transferList.head?)
    (hnum : ∀ t, s.cdev.drv.eng.transferList.head? = some t ∨ s.Older t →
      (s'.cdev.drv.tfer t).descNum = (s.cdev.drv.tfer t).descNum)
    (holder : ∀ t, s.Older t → s'.Older t) : s'.Pumped a e := by
  have hexe : s'.executed = s.executed := by
    unfold executed
    rw [hexec, hat, hst.starts]
  refine ⟨?_, fun hr => h.idle (hrun ▸ hr), fun hr => ?_⟩
  · rw [hat, hst.starts]
    exact h.starts
  · obtain ⟨t, ht, hl, hcase⟩ := h.busy (hrun ▸ hr)
    obtain ⟨hl', hhead⟩ := hne hl
    refine ⟨t, hst.started.trans ht, hl', ?_⟩
    rw [hhead, hexe]
    rcases hcase with ⟨hh, hd, he, hle⟩ | ⟨hh, ho, hle, he⟩
    · rw [hnum t (.inl hh), hdeq]
      exact .inl ⟨hh, hd, he, hle⟩
    · rw [hnum t (.inr ho)]
      exact .inr ⟨hh, holder t ho, hle, he⟩

theorem Pumped.of_started {d : Drv} {a : ℕ} {t : XferRef} {w : U32} (hat : s'.execAt ≤ d.eng.starts)
    (h : Started d s'.cdev.drv t w) (hhead : s'.cdev.drv.eng.transferList.head? = some t) :
      s'.Pumped a a := by
  have hexe : s'.executed = 0 := by
    unfold executed
    rw [h.starts, if_neg (by omega)]
  refine ⟨by rw [h.starts]; omega, by simp [h.running],
    fun _ => ⟨t, h.started, ?_, .inl ⟨hhead, h.dequeued, ?_, ?_⟩⟩⟩
  · intro hnil
    simp [hnil] at hhead
  · rw [hexe, Nat.add_zero]
  · rw [hexe]
    exact Nat.zero_le _

/-- The engine is through with the head of the queue, which it was started with, and
the service call finds its descriptors counted and no error. -/
def HeadFinished (s : DbufRun) (wb : U32) (r : ServiceRegs) : Prop :=
  match s.cdev.drv.eng.transferList with
  | [] => False
  | t :: _ => s.cdev.drv.eng.started = some t ∧ s.executed = (s.cdev.drv.tfer t).descNum ∧
    serviceCount wb r = s.executed ∧ ¬ statusError s.cdev.drv.eng.dir (s.cdev.drv.usedStatus wb r)

instance (s : DbufRun) (wb : U32) (r : ServiceRegs) : Decidable (s.HeadFinished wb r) := by
  unfold HeadFinished
  split <;> infer_instance

def SubmitOk (p : Params) (s : DbufRun) (oom : Bool) : Prop :=
  match s.pc with
  | .submit _ i => ((s.clearSlot i).cdev.slotRequest p oom i).isOk = true
  | _ => True

def QueueOk (s : DbufRun) : Prop :=
  match s.pc with
  | .queue c => s.cdev.drv.Accepts c.ref
  | _ => True

instance (p : Params) (s : DbufRun) (oom : Bool) : Decidable (s.SubmitOk p oom) := by
  unfold SubmitOk
  split <;> infer_instance

instance (s : DbufRun) : Decidable s.QueueOk := by
  unfold QueueOk
  split <;> infer_instance

end DbufRun

namespace DbufSession

variable {p : Params} (σ : DbufSession p)

structure Written (s : DbufRun) (e r : ℕ) : Prop where
  fills : s.fills.length = e / σ.perRequest
  sizes : ∀ f ∈ s.fills, f.length = σ.size.toNat
  acc : s.acc = (span (σ.bus (slotOf (e / σ.perRequest)))
    (lenSum ((σ.sdesc (slotOf (e / σ.perRequest))).take (e % σ.perRequest)))).map s.mem
  kept : ∀ m f, r ≤ m → s.fills[m]? = some f → f = (span (σ.bus (slotOf m)) σ.size.toNat).map s.mem

def made (s : DbufRun) : ℕ := s.nextReq - σ.first

def ordinal (c : DbufSubmit) : ℕ := c.own - σ.first

def Copied (s : DbufRun) (count : ℕ) : Prop :=
  count ≤ σ.size.toNat ∧ ∃ f, s.fills[s.reads.length]? = some f ∧ s.copied = f.take count

def SubmittedBy (s : DbufRun) (m : ℕ) : DbufCaller → Prop
  | .start => s.reads = [] ∧ m < 2
  | .read count => m = s.reads.length + 2 ∧ σ.Copied s count

structure Submitting (s : DbufRun) (b : ℕ) (c : DbufSubmit) : Prop where
  own : σ.made s = σ.ordinal c + 1
  slot : c.i = slotOf (σ.ordinal c)
  sdesc : c.req.sdesc = σ.sdesc c.i
  wf : c.req.Wf
  left : c.req.swDescIdx + c.nents = σ.perRequest
  built : σ.ordinal c * σ.perRequest + c.req.swDescIdx = b
  caller : σ.SubmittedBy s (σ.ordinal c) c.caller

def Turn (s : DbufRun) (q b : ℕ) : DbufPc → Prop
  | .idle => σ.made s = s.reads.length + 2 ∧ b = σ.made s * σ.perRequest ∧ q = b
  | .readWait count =>
    (σ.made s = s.reads.length + 2 ∧ b = σ.made s * σ.perRequest ∧ q = b) ∧ count ≤ σ.size.toNat
  | .submit .start i => s.reads = [] ∧ σ.made s = i.val ∧ b = σ.made s * σ.perRequest ∧ q = b
  | .submit (.read count) i => σ.made s = s.reads.length + 2 ∧ i = slotOf s.reads.length ∧ σ.Copied s count ∧
    b = σ.made s * σ.perRequest ∧ q = b
  | .chain c => σ.Submitting s b c ∧ q = b ∧ (c.nents ≠ 0 → c.tferIdx = 0 ∨ c.tferIdx = 1 ∧ σ.ringSlot b = 0)
  | .queue c => σ.Submitting s b c ∧ σ.Chain s.cdev.drv c.ref q ∧ b = q + (s.cdev.drv.tfer c.ref).descNum ∧
    (c.nents ≠ 0 → c.tferIdx = 0 ∧ σ.ringSlot b = 0)
  | .unwind _ => False

structure Delivering (s : DbufRun) (a e q b : ℕ) : Prop where
  numbered : s.Numbered
  first : σ.first ≤ s.nextReq
  active : s.cdev.dbufActive = true
  slot : ∀ i, s.cdev.dbuf i =
    ⟨true, σ.bus i, σ.size, ⟨[⟨σ.bus i, σ.size⟩], 1, 1⟩, (s.cdev.dbuf i).filled⟩
  dbufSize : s.cdev.dbufSize = σ.size
  laid : σ.Laid s.cdev.drv a q b
  pumped : s.Pumped a e
  turn : σ.Turn s q b s.pc
  readIdx : s.cdev.dbufReadIdx = slotOf s.reads.length
  called : s.reads.length + s.pc.copied ≤ a / σ.perRequest
  filled : ∀ i, (s.cdev.dbuf i).filled = true → ∀ m < σ.made s, slotOf m = i → m < a / σ.perRequest
  written : σ.Written s e (s.reads.length + s.pc.copied)
  returned : ∀ (k count : ℕ) (r : List U8), s.reads[k]? = some (count, r) →
    count ≤ σ.size.toNat ∧ ∃ f : List U8, s.fills[k]? = some f ∧ r = f.take count

variable {σ} {s s' : DbufRun} {a e q b : ℕ}

theorem made_congr (h : s'.nextReq = s.nextReq) : σ.made s' = σ.made s := congrArg (· - σ.first) h

theorem Turn.bounds (h : σ.Turn s q b s.pc) : q ≤ b ∧ b ≤ σ.made s * σ.perRequest ∧
    σ.made s ≤ s.reads.length + s.pc.copied + 2 := by
  have hchain (c : DbufSubmit) (hc : σ.Submitting s b c) : b ≤ σ.made s * σ.perRequest ∧
      σ.made s ≤ s.reads.length + c.caller.copied + 2 := by
    have hleft := hc.left
    have hbuilt := hc.built
    have hcaller := hc.caller
    rw [hc.own, Nat.add_mul, Nat.one_mul]
    refine ⟨by omega, ?_⟩
    cases hcl : c.caller with
    | start =>
      rw [hcl] at hcaller
      obtain ⟨-, hlt⟩ := hcaller
      simp only [DbufCaller.copied]
      omega
    | read count =>
      rw [hcl] at hcaller
      obtain ⟨hm, -⟩ := hcaller
      simp only [DbufCaller.copied]
      omega
  cases hpc : s.pc with
  | idle =>
    rw [hpc] at h
    obtain ⟨hn, hb, hq⟩ := h
    exact ⟨hq.le, hb.le, by simp [DbufPc.copied, hn]⟩
  | readWait count =>
    rw [hpc] at h
    obtain ⟨⟨hn, hb, hq⟩, -⟩ := h
    exact ⟨hq.le, hb.le, by simp [DbufPc.copied, hn]⟩
  | submit caller i =>
    rw [hpc] at h
    cases caller with
    | start =>
      obtain ⟨-, hn, hb, hq⟩ := h
      exact ⟨hq.le, hb.le, by omega⟩
    | read count =>
      obtain ⟨hn, -, -, hb, hq⟩ := h
      exact ⟨hq.le, hb.le, by omega⟩
  | chain c =>
    rw [hpc] at h
    exact ⟨h.2.1.le, hchain c h.1⟩
  | queue c =>
    rw [hpc] at h
    obtain ⟨hc, -, hb, -⟩ := h
    exact ⟨by omega, hchain c hc⟩
  | unwind rv =>
    rw [hpc] at h
    exact h.elim

namespace Delivering

theorem served_le (h : σ.Delivering s a e q b) : a ≤ e ∧ e ≤ q := by
  have haq := h.laid.tiles.le
  by_cases hr : s.cdev.drv.eng.running = true
  swap
  · have := h.pumped.idle (by simpa using hr)
    omega
  obtain ⟨t, -, hl, ⟨hh, -, he, hle⟩ | ⟨-, -, -, he⟩⟩ := h.pumped.busy hr
  swap
  · omega
  have htiles := h.laid.tiles
  obtain ⟨u, us, hus⟩ := List.exists_cons_of_ne_nil hl
  rw [hus] at htiles hh
  obtain rfl := Option.some.inj hh
  have hle := htiles.2.le
  dsimp only at hle
  omega

theorem rounds (h : σ.Delivering s a e q b) : a / σ.perRequest ≤ e / σ.perRequest ∧
    (e < q → e / σ.perRequest < s.reads.length + s.pc.copied + 2) := by
  obtain ⟨hae, -⟩ := h.served_le
  obtain ⟨hqb, hb, hn⟩ := h.turn.bounds
  refine ⟨Nat.div_le_div_right hae, fun heq => ?_⟩
  have := (Nat.div_lt_iff_lt_mul σ.perRequest_pos).mpr (show e < σ.made s * σ.perRequest by omega)
  omega

theorem window (h : σ.Delivering s a e q b) : σ.made s * σ.perRequest ≤ a + 2 * σ.perRequest := by
  obtain ⟨-, -, hn⟩ := h.turn.bounds
  have hcalled := h.called
  have hdiv := Nat.div_mul_le_self a σ.perRequest
  calc σ.made s * σ.perRequest ≤ (a / σ.perRequest + 2) * σ.perRequest := Nat.mul_le_mul_right _ (by omega)
    _ = a / σ.perRequest * σ.perRequest + 2 * σ.perRequest := Nat.add_mul _ _ _
    _ ≤ a + 2 * σ.perRequest := Nat.add_le_add_right hdiv _

theorem frame {e' q' b' : ℕ} (h : σ.Delivering s a e q b) (hnum : s'.Numbered)
    (hcdev : s'.cdev = { s.cdev with drv := s'.cdev.drv }) (hlaid : σ.Laid s'.cdev.drv a q' b')
    (hpumped : s'.Pumped a e') (he : e' = e) (hmem : s'.mem = s.mem) (hacc : s'.acc = s.acc)
    (hfills : s'.fills = s.fills) (hreads : s'.reads = s.reads) (hnext : s'.nextReq = s.nextReq)
    (hcopied : s'.pc.copied = s.pc.copied) (hturn : σ.Turn s' q' b' s'.pc) : σ.Delivering s' a e' q' b' := by
  subst he
  have hdbuf : s'.cdev.dbuf = s.cdev.dbuf := by rw [hcdev]
  refine ⟨hnum, hnext ▸ h.first, ?_, fun i => ?_, ?_, hlaid, hpumped, hturn, ?_, ?_, fun i hi => ?_, ?_, ?_⟩
  · rw [hcdev]
    exact h.active
  · rw [hdbuf]
    exact h.slot i
  · rw [hcdev]
    exact h.dbufSize
  · rw [hcdev, hreads]
    exact h.readIdx
  · rw [hreads, hcopied]
    exact h.called
  · rw [made_congr hnext]
    exact h.filled i (hdbuf ▸ hi)
  · obtain ⟨hf, hs, ha, hk⟩ := h.written
    rw [hreads, hcopied]
    refine ⟨?_, ?_, ?_, ?_⟩
    · rw [hfills]
      exact hf
    · rw [hfills]
      exact hs
    · rw [hacc, hmem]
      exact ha
    · rw [hfills, hmem]
      exact hk
  · rw [hreads, hfills]
    exact h.returned

end Delivering

theorem Copied.congr {count : ℕ} (h : σ.Copied s count)
    (hfills : ∀ (k : ℕ) (f : List U8), s.fills[k]? = some f → s'.fills[k]? = some f)
      (hreads : s'.reads = s.reads)
    (hcopied : s'.copied = s.copied) : σ.Copied s' count := by
  obtain ⟨hle, f, hf, hc⟩ := h
  refine ⟨hle, f, ?_, hcopied.trans hc⟩
  rw [hreads]
  exact hfills _ f hf

theorem Turn.congr (h : σ.Turn s q b s.pc) (hpc : s'.pc = s.pc) (hnext : s'.nextReq = s.nextReq)
    (hreads : s'.reads = s.reads) (hfills : ∀ (k : ℕ) (f : List U8),
      s.fills[k]? = some f → s'.fills[k]? = some f)
    (hcopied : s'.copied = s.copied)
    (hchain : ∀ t, σ.Chain s.cdev.drv t q → σ.Chain s'.cdev.drv t q ∧
      (s'.cdev.drv.tfer t).descNum = (s.cdev.drv.tfer t).descNum) : σ.Turn s' q b s'.pc := by
  have hsub (c : DbufSubmit) (hc : σ.Submitting s b c) : σ.Submitting s' b c := by
    refine ⟨(made_congr hnext).trans hc.own, hc.slot, hc.sdesc, hc.wf, hc.left, hc.built, ?_⟩
    have hcaller := hc.caller
    cases hcl : c.caller with
    | start =>
      rw [hcl] at hcaller
      exact ⟨hreads.trans hcaller.1, hcaller.2⟩
    | read count =>
      rw [hcl] at hcaller
      exact ⟨by rw [hreads]; exact hcaller.1, hcaller.2.congr hfills hreads hcopied⟩
  rw [hpc]
  cases hp : s.pc with
  | idle =>
    rw [hp] at h
    simpa only [Turn, made_congr hnext, hreads] using h
  | readWait count =>
    rw [hp] at h
    simpa only [Turn, made_congr hnext, hreads] using h
  | submit caller i =>
    rw [hp] at h
    cases caller with
    | start => simpa only [Turn, made_congr hnext, hreads] using h
    | read count =>
      obtain ⟨hn, hi, hc, hb⟩ := h
      exact ⟨by rw [made_congr hnext, hreads]; exact hn, by rw [hreads]; exact hi,
        hc.congr hfills hreads hcopied,
        by rw [made_congr hnext]; exact hb⟩
  | chain c =>
    rw [hp] at h
    exact ⟨hsub c h.1, h.2⟩
  | queue c =>
    rw [hp] at h
    obtain ⟨hc, hch, hb, hk⟩ := h
    obtain ⟨hch', hnum⟩ := hchain _ hch
    exact ⟨hsub c hc, hch', by rw [hnum]; exact hb, hk⟩
  | unwind rv =>
    rw [hp] at h
    exact h

theorem submit_delivering {oom : Bool} (h : σ.Delivering s a e q b) (hok : s.SubmitOk p oom)
    (hs : s.step p (.submit oom) = some s') : σ.Delivering s' a e q b := by
  have hnum := DbufRun.step_numbered h.numbered hs
  obtain ⟨caller, i, hpc, rfl⟩ := DbufRun.step_submit hs
  obtain ⟨req, hreq⟩ : ∃ req, (s.clearSlot i).cdev.slotRequest p oom i = .ok req := by
    simp only [DbufRun.SubmitOk, hpc] at hok
    cases hreq : (s.clearSlot i).cdev.slotRequest p oom i with
    | error rv =>
      rw [hreq] at hok
      cases hok
    | ok req => exact ⟨req, rfl⟩
  rcases DbufRun.submitSlot_cases (p := p) s oom caller i with ⟨rv, herr, -⟩ | ⟨req', hreq', heq⟩
  · rw [hreq] at herr
    cases herr
  obtain rfl := Except.ok.inj (hreq.symm.trans hreq')
  rw [heq] at hnum ⊢
  have hslot : ∀ j, (s.clearSlot i).cdev.dbuf j =
      ⟨true, σ.bus j, σ.size, ⟨[⟨σ.bus j, σ.size⟩], 1, 1⟩, ((s.clearSlot i).cdev.dbuf j).filled⟩ :=
        fun j => by
    by_cases hj : j = i
    · subst hj
      have hset : (s.clearSlot j).cdev.dbuf j = { s.cdev.dbuf j with filled := false } := by
        simp [DbufRun.clearSlot]
      rw [hset, h.slot j]
    · simp only [DbufRun.clearSlot, XdmaCdev.setSlot_of_ne hj]
      exact h.slot j
  obtain ⟨hsdesc, hcnt, hidx⟩ := XdmaCdev.slotRequest_ok hreq (by rw [hslot i])
  rw [hslot i] at hsdesc
  change req.sdesc = σ.sdesc i at hsdesc
  have hlen : req.swDescCnt = σ.perRequest := by rw [hcnt, hsdesc, length_sdesc]
  have hturn := h.turn
  rw [hpc] at hturn
  -- both callers come here with everything of the earlier requests queued
  have hat : b = σ.made s * σ.perRequest ∧ q = b ∧ i = slotOf (σ.made s) ∧
    σ.SubmittedBy s (σ.made s) caller := by
    cases caller with
    | start =>
      obtain ⟨hr, hn, hb, hq⟩ := hturn
      refine ⟨hb, hq, ?_, hr, by omega⟩
      rw [hn]
      simp [slotOf]
    | read count =>
      obtain ⟨hn, hi, hc, hb, hq⟩ := hturn
      refine ⟨hb, hq, hi.trans (slotOf_eq_iff.mpr (by omega)), hn, hc⟩
  obtain ⟨hb, hq, hi, hcaller⟩ := hat
  have hcalled := h.called
  have hwritten := h.written
  rw [hpc] at hcalled hwritten
  -- the new request is the next one of the session
  have hfirst := h.first
  have hmade : s.nextReq + 1 - σ.first = σ.made s + 1 := Nat.sub_add_comm hfirst
  refine ⟨hnum, hfirst.trans (Nat.le_succ _), h.active, hslot, h.dbufSize, h.laid, ?_, ?_, h.readIdx, hcalled,
    fun j hj m hm hmj => ?_,
    ⟨hwritten.fills, hwritten.sizes, hwritten.acc, hwritten.kept⟩, h.returned⟩
  · refine h.pumped.congr rfl rfl rfl ⟨rfl, rfl⟩ rfl (fun hl => ⟨hl, rfl⟩) (fun _ _ => rfl) fun t ht => ?_
    refine ⟨ht.1.trans (Nat.lt_succ_self _), ?_⟩
    rintro c (hc | hc) hreq
    · obtain rfl := DbufPc.chain.inj hc
      exact absurd ht.1 (by simp [hreq])
    · cases hc
  · refine ⟨⟨hmade, hi, hsdesc, ⟨hcnt, ?_⟩, ?_, ?_, ?_⟩, hq, fun _ => .inl rfl⟩
    · simp [hidx]
    · simp [hidx, hlen]
    · simp only [hidx, Nat.add_zero, hb]
      rfl
    · cases caller <;> exact hcaller
  · by_cases hji : j = i
    · subst hji
      simp [DbufRun.clearSlot] at hj
    · have hold : (s.cdev.dbuf j).filled = true := by
        simpa [DbufRun.clearSlot, XdmaCdev.setSlot_of_ne hji] using hj
      change m < s.nextReq + 1 - σ.first at hm
      rw [hmade] at hm
      refine h.filled j hold m (lt_of_le_of_ne (Nat.lt_succ_iff.mp hm) fun he => hji ?_) hmj
      rw [hi, ← hmj, he]

theorem submitted_delivering (h : σ.Delivering s a e q b) (hs : s.step p .submitted = some s') :
    σ.Delivering s' a e q b := by
  have hnum := DbufRun.step_numbered h.numbered hs
  obtain ⟨c, hpc, hn, rfl⟩ := DbufRun.step_submitted hs
  have hturn := h.turn
  rw [hpc] at hturn
  obtain ⟨hc, hq, -⟩ := hturn
  have hb : b = σ.made s * σ.perRequest := by
    have hleft := hc.left
    have hbuilt := hc.built
    rw [hc.own, Nat.add_mul, Nat.one_mul]
    omega
  have hslot := hc.slot
  have hcaller := hc.caller
  have hown := hc.own
  have hcopied : s.pc.copied = c.caller.copied := by rw [hpc]; rfl
  cases hcl : c.caller with
  | start =>
    rw [hcl] at hcaller hcopied hnum
    obtain ⟨hr, hlt⟩ := hcaller
    have holder : ∀ (pc : DbufPc), (∀ c, ¬ pc.At c) → ∀ t, s.Older t →
      ({ s with pc := pc } : DbufRun).Older t :=
      fun pc hat t ht => ⟨ht.1, fun c hc => absurd hc (hat c)⟩
    by_cases hi : c.i = 0
    · simp only [DbufRun.submitDone, hi, ↓reduceIte] at hnum ⊢
      have hown0 : σ.ordinal c = 0 := by
        rw [hi] at hslot
        have := slotOf_eq_iff (n := 0).mp hslot.symm
        omega
      refine h.frame hnum rfl h.laid ?_ rfl rfl rfl rfl rfl rfl hcopied.symm ⟨hr, ?_, hb, hq⟩
      swap
      · change σ.made s = 1
        omega
      exact h.pumped.congr rfl rfl rfl ⟨rfl, rfl⟩ rfl (fun hl => ⟨hl, rfl⟩) (fun _ _ => rfl)
        (holder _ (by simp [DbufPc.At]))
    · simp only [DbufRun.submitDone, hi, ↓reduceIte] at hnum ⊢
      have hown1 : σ.ordinal c = 1 := by
        by_contra hne
        have h0 : σ.ordinal c = 0 := by omega
        rw [h0] at hslot
        exact hi hslot
      refine h.frame hnum rfl h.laid ?_ rfl rfl rfl rfl rfl rfl hcopied.symm ⟨?_, hb, hq⟩
      swap
      · change σ.made s = s.reads.length + 2
        rw [hr, List.length_nil]
        omega
      exact h.pumped.congr rfl rfl rfl ⟨rfl, rfl⟩ rfl (fun hl => ⟨hl, rfl⟩) (fun _ _ => rfl)
        (holder _ (by simp [DbufPc.At]))
  | read count =>
    rw [hcl] at hcaller hcopied hnum
    obtain ⟨hm, hle, f, hf, hcf⟩ := hcaller
    have hcount : s.reads.length + s.pc.copied = s.reads.length + 1 := by rw [hcopied]; rfl
    have hcalled := h.called
    have hwritten := h.written
    rw [hcount] at hcalled hwritten
    have hlen : (s.submitDone (.read count) c.i).reads.length = s.reads.length +
      1 := by simp [DbufRun.submitDone]
    refine ⟨hnum, h.first, h.active, h.slot, h.dbufSize, h.laid, ?_, ?_, ?_, ?_, h.filled, ?_,
      fun k n r hk => ?_⟩
    · exact h.pumped.congr rfl rfl rfl ⟨rfl, rfl⟩ rfl (fun hl => ⟨hl, rfl⟩) (fun _ _ => rfl)
        fun t ht => ⟨ht.1, fun c' hc' => by simp [DbufRun.submitDone, DbufPc.At] at hc'⟩
    · refine ⟨?_, hb, hq⟩
      rw [hlen]
      change σ.made s = _
      omega
    · rw [hlen]
      simp only [DbufRun.submitDone, h.readIdx, slotOf_succ]
    · rw [hlen]
      exact hcalled
    · rw [hlen]
      exact ⟨hwritten.fills, hwritten.sizes, hwritten.acc, hwritten.kept⟩
    · simp only [DbufRun.submitDone, List.getElem?_append] at hk
      split at hk
      · exact h.returned k n r hk
      · obtain ⟨hk0, heq⟩ : k - s.reads.length = 0 ∧ (count, s.copied) = (n, r) := by
          rw [List.getElem?_singleton] at hk
          split at hk
          · exact ⟨by assumption, Option.some.inj hk⟩
          · cases hk
        obtain ⟨rfl, rfl⟩ := Prod.mk.inj heq
        obtain rfl : k = s.reads.length := by omega
        exact ⟨hle, f, hf, hcf⟩

theorem build_delivering (h : σ.Delivering s a e q b) (hs : s.step p .build = some s') :
    ∃ b', σ.Delivering s' a e q b' := by
  have hnum := DbufRun.step_numbered h.numbered hs
  obtain ⟨c, hpc, hn, -, rfl⟩ := DbufRun.step_build hs
  have hb := DbufRun.buildNext_built s c
  have hfresh := h.numbered.not_used hpc
  have hturn := h.turn
  rw [hpc] at hturn
  obtain ⟨hc, rfl, hk⟩ := hturn
  have hwin := h.window
  have hleft := hc.left
  have hfew := σ.perRequest_le
  have hcnt : c.req.swDescCnt = σ.perRequest := by rw [hc.wf.cnt, hc.sdesc, length_sdesc]
  have hpos := σ.ringSlot_lt q
  have hlen := chainLen_eq c.req (by rw [h.laid.idx, h.laid.max]; exact hpos)
  rw [h.laid.idx, h.laid.max] at hlen
  have hlast : decide (c.nents = chainLen s.cdev.drv.eng c.req) = true ↔
      c.req.swDescIdx + chainLen s.cdev.drv.eng c.req = σ.perRequest := by
    rw [decide_eq_true_iff]
    omega
  rw [hc.own, Nat.add_mul, Nat.one_mul] at hwin
  obtain ⟨hlaid, hchain⟩ := h.laid.built (u := false)
    (fun ht => hfresh (.inl ht)) hc.wf (hc.slot ▸ hc.sdesc) hc.built
    (by omega) (by simp only [xdmaEngineXferMaxDesc]; omega) hlast
  rw [← hc.slot] at hlaid hchain
  change σ.Laid (s.buildNext c).cdev.drv a q _ at hlaid
  change σ.Chain (s.buildNext c).cdev.drv c.ref q at hchain
  have hdrv : (s.buildNext c).cdev.drv.eng = (s.cdev.drv.transferInit c.req c.ref).1.eng := rfl
  have hxpc := hb.pc
  have hxnum := hb.descNum
  refine ⟨_, h.frame hnum hb.cdev hlaid ?_ rfl rfl rfl rfl rfl hb.nextReq ?_ ?_⟩
  · have hinit := transferInit_eng s.cdev.drv c.req c.ref
    refine h.pumped.congr rfl rfl ?_ ⟨?_, ?_⟩ ?_ (fun hl => ?_) (fun t ht => ?_) fun t ht => ?_
    · rw [hdrv, hinit]
    · rw [hdrv, hinit]
    · rw [hdrv, hinit]
    · rw [hdrv, hinit]
    · rw [hb.list]
      exact ⟨hl, rfl⟩
    · rw [hb.other t]
      rintro rfl
      rcases ht with ht | ht
      · exact hfresh (.inl (List.mem_of_mem_head? ht))
      · exact absurd (ht.2 c (.inl hpc) rfl) (lt_irrefl _)
    · refine ⟨hb.nextReq ▸ ht.1, ?_⟩
      rintro c' (hc' | hc') hreq
      · simp [hb.pc] at hc'
      · rw [hb.pc] at hc'
        obtain rfl := DbufPc.queue.inj hc'
        exact ht.2 c (.inl hpc) hreq
  · rw [hxpc, hpc]
    rfl
  · rw [hxpc]
    refine ⟨⟨(made_congr hb.nextReq).trans hc.own, hc.slot, ?_, ?_, ?_, ?_, ?_⟩, hchain, ?_, fun hn' => ?_⟩
    · exact hc.sdesc
    · refine ⟨hc.wf.cnt, ?_⟩
      change c.req.swDescIdx + chainLen s.cdev.drv.eng c.req ≤ c.req.swDescCnt
      omega
    · change c.req.swDescIdx + chainLen s.cdev.drv.eng c.req + (c.nents - chainLen s.cdev.drv.eng c.req) = _
      omega
    · change σ.ordinal c * σ.perRequest + (c.req.swDescIdx + chainLen s.cdev.drv.eng c.req) = _
      rw [← Nat.add_assoc, hc.built]
    · have hcaller := hc.caller
      cases hcl : c.caller with
      | start =>
        rw [hcl] at hcaller
        exact hcaller
      | read count =>
        rw [hcl] at hcaller
        exact hcaller
    · change q + _ = q + ((s.buildNext c).cdev.drv.tfer c.ref).descNum
      rw [hxnum]
    · -- a chain that is not the last one goes to the ring end
      change c.nents - chainLen s.cdev.drv.eng c.req ≠ 0 at hn'
      have hend : chainLen s.cdev.drv.eng c.req = xdmaEngineXferMaxDesc - σ.ringSlot q := by omega
      refine ⟨(hk hn).resolve_right fun hk1 => ?_, ?_⟩
      · rw [hk1.2] at hend
        simp only [xdmaEngineXferMaxDesc] at hend
        omega
      · have hmod : σ.ringSlot (q + chainLen s.cdev.drv.eng c.req) =
            (σ.ringSlot q + chainLen s.cdev.drv.eng c.req) % xdmaEngineXferMaxDesc := by
          simp only [ringSlot, Nat.mod_add_mod, Nat.add_assoc]
        rw [hmod, hend, Nat.add_sub_cancel' hpos.le, Nat.mod_self]

theorem queue_delivering {w : U32} (h : σ.Delivering s a e q b) (hok : s.QueueOk)
    (hs : s.step p (.queue w) = some s') :
    ∃ q', σ.Delivering s' a e q' b := by
  have hnum := DbufRun.step_numbered h.numbered hs
  obtain ⟨c, hpc, rfl⟩ := DbufRun.step_queue hs
  simp only [DbufRun.QueueOk, hpc] at hok
  obtain ⟨hq, heq⟩ := DbufRun.queueNext_accepted (p := p) (w := w) hok
  have hturn := h.turn
  rw [hpc] at hturn
  obtain ⟨hc, hchain, rfl, hk⟩ := hturn
  have hlaid := h.laid.queued hchain hq
  generalize s.queueNext p w c = s₁ at hnum hq heq hlaid ⊢
  have hpc₁ : s₁.pc = .chain { c with tferIdx := c.tferIdx + 1 } := by rw [heq]
  have hstate : s₁.cdev = { s.cdev with drv := s₁.cdev.drv } ∧ s₁.mem = s.mem ∧ s₁.acc = s.acc ∧
      s₁.fills = s.fills ∧ s₁.reads = s.reads ∧ s₁.nextReq = s.nextReq ∧ s₁.exec = s.exec ∧
      s₁.execAt = s.execAt ∧ s₁.copied = s.copied := by
    rw [heq]
    exact ⟨rfl, rfl, rfl, rfl, rfl, rfl, rfl, rfl, rfl⟩
  obtain ⟨hcdev, hmem, hacc, hfills, hreads, hnext, hexec, hat, hcopied⟩ := hstate
  refine ⟨_, h.frame hnum hcdev hlaid ?_ rfl hmem hacc hfills hreads hnext ?_ ?_⟩
  · by_cases hrun : s.cdev.drv.eng.running = true
    · have hbusy := hq.busy hrun
      refine h.pumped.congr hexec hat ?_ ⟨?_, ?_⟩ ?_ (fun hl => ?_) (fun t _ => (hq.same t).1) fun t ht => ?_
      · rw [hbusy]
      · rw [hbusy]
      · rw [hbusy]
      · rw [hbusy]
      · rw [hq.list]
        exact ⟨by simp, List.head?_append_of_ne_nil _ hl⟩
      · refine ⟨hnext ▸ ht.1, ?_⟩
        rintro c' (hc' | hc') hreq
        · rw [hpc₁] at hc'
          obtain rfl := DbufPc.chain.inj hc'
          exact (ht.2 c (.inr hpc) hreq).trans (Nat.lt_succ_self _)
        · simp [hpc₁] at hc'
    · have hrun : s.cdev.drv.eng.running = false := by simpa using hrun
      obtain ⟨w', hst⟩ := hq.idle hrun
      rw [h.pumped.idle hrun]
      refine .of_started ?_ hst ?_
      · rw [hat]
        exact h.pumped.starts
      · rw [hst.transferList]
        exact (List.head_eq_iff_head?_eq_some _).mp rfl
  · rw [hpc₁, hpc]
    rfl
  · rw [hpc₁]
    refine ⟨⟨(made_congr hnext).trans hc.own, hc.slot, hc.sdesc, hc.wf, hc.left, hc.built, ?_⟩, rfl,
      fun hn => .inr ?_⟩
    · have hcaller := hc.caller
      cases hcl : c.caller with
      | start =>
        rw [hcl] at hcaller
        exact ⟨hreads.trans hcaller.1, hcaller.2⟩
      | read count =>
        rw [hcl] at hcaller
        exact ⟨by rw [hreads]; exact hcaller.1, hcaller.2.congr (fun k f hf => hfills ▸ hf) hreads hcopied⟩
    · obtain ⟨hk0, hk1⟩ := hk hn
      exact ⟨by simp [hk0], hk1⟩

theorem wake_delivering {fault : Bool} (h : σ.Delivering s a e q b) (hs : s.step p (.wake fault) = some s') :
    σ.Delivering s' a e q b := by
  have hnum := DbufRun.step_numbered h.numbered hs
  obtain ⟨count, hpc, hwait, rfl⟩ := DbufRun.step_wake hs
  have hturn := h.turn
  rw [hpc] at hturn
  obtain ⟨⟨hn, hb, hq⟩, hle⟩ := hturn
  have holder : ∀ (pc : DbufPc) (r : ℤ) (l : List U8), (∀ c, ¬ pc.At c) → ∀ t, s.Older t →
      ({ s with pc := pc, ret := r, copied := l } : DbufRun).Older t :=
    fun pc r l hat t ht => ⟨ht.1, fun c hc => absurd hc (hat c)⟩
  have hcopied : s.pc.copied = 0 := by rw [hpc]; rfl
  unfold DbufRun.readWoken at hnum ⊢
  simp only [h.active, Bool.true_eq_false, ↓reduceIte] at hnum ⊢
  by_cases hf : fault = true
  · simp only [hf, ↓reduceIte] at hnum ⊢
    refine h.frame hnum rfl h.laid ?_ rfl rfl rfl rfl rfl rfl hcopied.symm ⟨hn, hb, hq⟩
    exact h.pumped.congr rfl rfl rfl ⟨rfl, rfl⟩ rfl (fun hl => ⟨hl, rfl⟩) (fun _ _ => rfl)
      (holder _ _ _ (by simp [DbufPc.At]))
  simp only [hf, Bool.false_eq_true, ↓reduceIte] at hnum ⊢
  -- the slot was filled by the fill that this read is due
  have hfilled : (s.cdev.dbuf (slotOf s.reads.length)).filled = true := by
    rw [← h.readIdx]
    exact hwait.resolve_right (by simp [h.active])
  have hdone := h.filled _ hfilled s.reads.length (by omega) rfl
  have hlt : s.reads.length < s.fills.length := by
    rw [h.written.fills]
    exact hdone.trans_le h.rounds.1
  obtain ⟨f, hf⟩ : ∃ f, s.fills[s.reads.length]? = some f := ⟨_, List.getElem?_eq_getElem hlt⟩
  have hmem := h.written.kept _ f (by omega) hf
  refine ⟨hnum, h.first, h.active, h.slot, h.dbufSize, h.laid, ?_,
    ⟨hn, h.readIdx, ⟨hle, f, hf, ?_⟩, hb, hq⟩, h.readIdx, hdone,
    h.filled, ⟨h.written.fills, h.written.sizes, h.written.acc, fun m g hm hg => ?_⟩, h.returned⟩
  · exact h.pumped.congr rfl rfl rfl ⟨rfl, rfl⟩ rfl (fun hl => ⟨hl, rfl⟩) (fun _ _ => rfl)
      fun t ht => ⟨ht.1, fun c' hc' => by simp [DbufPc.At] at hc'⟩
  · change (span (s.cdev.dbuf s.cdev.dbufReadIdx).bus count).map s.mem = f.take count
    have hbus : (s.cdev.dbuf s.cdev.dbufReadIdx).bus = σ.bus (slotOf s.reads.length) := by
      rw [h.slot, h.readIdx]
    rw [hbus, hmem, ← List.map_take, take_span _ hle]
  · exact h.written.kept m g (by rw [hcopied]; exact (Nat.le_add_right _ _).trans hm) hg

theorem Written.exec {r : ℕ} {sd : SwDesc} {data : ℕ → U8} {acc : List U8} (h : σ.Written s e r)
    (hr : e / σ.perRequest < r + 2) (hsd : (σ.sdesc (slotOf (e / σ.perRequest)))[e % σ.perRequest]? = some sd)
    (hacc : acc = s.acc ++ (List.range sd.len).map data) (hmem : s'.mem = writeMem s.mem sd.addr sd.len data)
    (hcase : e % σ.perRequest + 1 = σ.perRequest ∧ s'.acc = [] ∧ s'.fills = s.fills ++ [acc] ∨
      e % σ.perRequest + 1 < σ.perRequest ∧ s'.acc = acc ∧ s'.fills = s.fills) : σ.Written s' (e + 1) r := by
  obtain ⟨hfills, hsizes, hold, hkept⟩ := h
  have hsmall := σ.small
  have hsum := DbufSession.lenSum_take_succ hsd
  have hle := σ.lenSum_take_sdesc_le (slotOf (e / σ.perRequest)) (e % σ.perRequest + 1)
  have haddr := σ.sdesc_addr hsd
  generalize hi : slotOf (e / σ.perRequest) = i at *
  generalize hL : lenSum ((σ.sdesc i).take (e % σ.perRequest)) = L at *
  have hin : ∀ x ∈ span sd.addr sd.len, x ∈ span (σ.bus i) σ.size.toNat := fun x hx => by
    rw [← Nat.add_sub_cancel' hle, hsum, span_add, span_add]
    exact List.mem_append_left _ (List.mem_append_right _ (haddr ▸ hx))
  have hbuf : (span (σ.bus i) (L + sd.len)).map s'.mem = acc := by
    rw [span_add, List.map_append, hacc, hold, hmem]
    congr 1
    · refine List.map_congr_left fun x hx => writeMem_of_not_mem (by omega) fun hx' => ?_
      obtain ⟨k, hk, rfl⟩ := mem_span.mp hx
      rw [haddr, mem_span_iff (by omega)] at hx'
      have hk' : (σ.bus i + (k : U64) - (σ.bus i + (L : U64))).toNat = 2 ^ 64 - (L - k) := by
        rw [add_sub_add_left_eq_sub, BitVec.natCast_eq_ofNat, BitVec.natCast_eq_ofNat, BitVec.toNat_sub,
          BitVec.toNat_ofNat, BitVec.toNat_ofNat]
        omega
      omega
    · rw [← haddr]
      exact map_writeMem_span (by omega)
  -- the other buffer keeps the fill before this one
  have hother : ∀ m f, r ≤ m → s.fills[m]? = some f → slotOf m ≠ i →
      f = (span (σ.bus (slotOf m)) σ.size.toNat).map s'.mem := fun m f hm hf hne => by
    rw [hkept m f hm hf, hmem]
    exact List.map_congr_left fun x hx => (writeMem_of_not_mem (by omega) fun hx' =>
      σ.not_mem_other hne hx (hin x hx')).symm
  have hlast : ∀ m f, r ≤ m → s.fills[m]? = some f → slotOf m ≠ slotOf (e / σ.perRequest) :=
    fun m f hm hf hne => by
    have hlt := (List.getElem?_eq_some_iff.mp hf).1
    have := slotOf_eq_iff.mp hne
    omega
  rcases hcase with ⟨hend, hacc', hfills'⟩ | ⟨hend, hacc', hfills'⟩
  · obtain ⟨hq, hm⟩ := round_end σ.perRequest_pos hend
    have hfull : (span (σ.bus i) σ.size.toNat).map s'.mem = acc := by
      rw [← hbuf, ← hsum, hend, ← σ.length_sdesc i, List.take_length, lenSum_sdesc]
    refine ⟨?_, fun f hf => ?_, ?_, fun m f hm hf => ?_⟩
    · rw [hfills', hq, List.length_append, hfills, List.length_singleton]
    · rw [hfills', List.mem_append, List.mem_singleton] at hf
      rcases hf with hf | rfl
      · exact hsizes f hf
      · rw [← hfull, List.length_map, length_span]
    · rw [hacc', hm]
      rfl
    · rw [hfills', List.getElem?_append] at hf
      split at hf
      · exact hother m f hm hf (hi ▸ hlast m f hm hf)
      · obtain ⟨hm0, rfl⟩ : m = e / σ.perRequest ∧ acc = f := by
          rw [List.getElem?_singleton] at hf
          split at hf
          · exact ⟨by omega, Option.some.inj hf⟩
          · cases hf
        rw [hm0, hi, hfull]
  · obtain ⟨hq, hm⟩ := round_add hend
    refine ⟨?_, ?_, ?_, fun m f hm hf => ?_⟩
    · rw [hfills', hq]
      exact hfills
    · rw [hfills']
      exact hsizes
    · rw [hacc', hq, hm, hi, hsum, hbuf]
    · rw [hfills'] at hf
      exact hother m f hm hf (hi ▸ hlast m f hm hf)

theorem Delivering.head {t : XferRef} (h : σ.Delivering s a e q b) (hrun : s.cdev.drv.eng.running = true)
    (hst : s.cdev.drv.eng.started = some t)
    (hon : s.executed < (s.cdev.drv.tfer t).descNum ∨ s.cdev.drv.eng.transferList.head? = some t) :
    ∃ ts, s.cdev.drv.eng.transferList = t :: ts ∧ σ.Chain s.cdev.drv t a ∧ s.cdev.drv.eng.descDequeued = 0 ∧
      e = a + s.executed ∧ a + (s.cdev.drv.tfer t).descNum ≤ q := by
  obtain ⟨u, hu, hl, hcase⟩ := h.pumped.busy hrun
  obtain rfl := Option.some.inj (hst.symm.trans hu)
  rcases hcase with ⟨hh, hd, he, -⟩ | ⟨hh, -, hle, -⟩
  swap
  · rcases hon with hon | hon
    · omega
    · exact absurd hon hh
  obtain ⟨v, ts, hts⟩ := List.exists_cons_of_ne_nil hl
  rw [hts] at hh
  obtain rfl := Option.some.inj hh
  have htiles := h.laid.tiles
  rw [hts] at htiles
  exact ⟨ts, hts, htiles.1, hd, he, htiles.2.le⟩

theorem dma_delivering {data : ℕ → U8} (h : σ.Delivering s a e q b) (hs : s.step p (.dma data) = some s') :
    σ.Delivering s' a (e + 1) q b := by
  have hnum := DbufRun.step_numbered h.numbered hs
  obtain ⟨t, hst, hrun, hlt, rfl⟩ := DbufRun.step_dma hs
  obtain ⟨hcdev, -, hnext, -, hpc⟩ := DbufRun.execDesc_frame s data t
  obtain ⟨ts, hts, hchain, hdeq, he, hle⟩ := h.head hrun hst (.inl hlt)
  obtain ⟨hqb, -, -⟩ := h.turn.bounds
  have hinside := hchain.inside
  have hwithin := hchain.within
  obtain ⟨hround, hoff⟩ := round_add (d := σ.perRequest) (a := a) (n := s.executed) (by omega)
  rw [← he] at hround hoff
  obtain ⟨sd, hsd⟩ : ∃ sd, (σ.sdesc (slotOf (e / σ.perRequest)))[e % σ.perRequest]? = some sd := by
    refine ⟨_, List.getElem?_eq_getElem ?_⟩
    rw [length_sdesc]
    exact Nat.mod_lt _ σ.perRequest_pos
  obtain ⟨hbytes, hhost⟩ := h.laid.ring e (by omega) (by omega) sd hsd
  have hslot : (s.cdev.drv.tfer t).descIndex + s.executed = σ.ringSlot e := by
    rw [hchain.index, he, σ.ringSlot_add (by omega)]
  have hlen : (s.cdev.drv.eng.desc (σ.ringSlot e)).bytes.toNat = sd.len := by
    rw [hbytes, BitVec.toNat_ofNat, Nat.mod_eq_of_lt (σ.sdesc_len_lt hsd)]
  have hlastiff : (s.cdev.drv.tfer t).lastInRequest = true ∧ s.executed + 1 = (s.cdev.drv.tfer t).descNum ↔
      e % σ.perRequest + 1 = σ.perRequest := by
    rw [hchain.last, hoff]
    omega
  -- the fields that one descriptor changes
  have hstep : (s.execDesc data t).mem = writeMem s.mem sd.addr sd.len data ∧
      (s.execDesc data t).exec = s.executed + 1 ∧ (s.execDesc data t).execAt = s.cdev.drv.eng.starts ∧
      (s.execDesc data t).reads = s.reads ∧ (s.execDesc data t).copied = s.copied ∧
      (e % σ.perRequest + 1 = σ.perRequest ∧ (s.execDesc data t).acc = [] ∧
          (s.execDesc data t).fills = s.fills ++ [s.acc ++ (List.range sd.len).map data] ∨
        e % σ.perRequest + 1 < σ.perRequest ∧ (s.execDesc data t).acc = s.acc ++
          (List.range sd.len).map data ∧
          (s.execDesc data t).fills = s.fills) := by
    unfold DbufRun.execDesc
    simp only [hslot, hlen, hhost]
    by_cases hend : e % σ.perRequest + 1 = σ.perRequest
    · rw [if_pos (hlastiff.mpr hend)]
      exact ⟨rfl, rfl, rfl, rfl, rfl, .inl ⟨hend, rfl, rfl⟩⟩
    · rw [if_neg fun hc => hend (hlastiff.mp hc)]
      have := Nat.mod_lt e σ.perRequest_pos
      exact ⟨rfl, rfl, rfl, rfl, rfl, .inr ⟨by omega, rfl, rfl⟩⟩
  generalize s.execDesc data t = s' at *
  obtain ⟨hmem, hexec, hat, hreads, hcopied, hcase⟩ := hstep
  have hfills : ∀ (k : ℕ) (f : List U8), s.fills[k]? = some f → s'.fills[k]? = some f := fun k f hf => by
    rcases hcase with ⟨-, -, hf'⟩ | ⟨-, -, hf'⟩
    · rw [hf', List.getElem?_append_left (List.getElem?_eq_some_iff.mp hf).1]
      exact hf
    · rw [hf']
      exact hf
  have hexecuted : s'.executed = s.executed + 1 := by
    unfold DbufRun.executed
    rw [hat, hcdev, if_pos rfl]
    exact hexec
  refine ⟨hnum, hnext ▸ h.first, hcdev ▸ h.active, fun i => ?_, ?_, hcdev ▸ h.laid, ?_, ?_, ?_, ?_, ?_, ?_,
    fun k n r hk => ?_⟩
  · rw [hcdev]
    exact h.slot i
  · rw [hcdev]
    exact h.dbufSize
  · refine ⟨?_, ?_, fun _ => ⟨t, ?_, ?_, .inl ⟨?_, ?_, ?_, ?_⟩⟩⟩
    · rw [hat, hcdev]
    · simp [hcdev, hrun]
    · rw [hcdev]
      exact hst
    · simp [hcdev, hts]
    · simp [hcdev, hts]
    · rw [hcdev]
      exact hdeq
    · rw [hexecuted]
      omega
    · rw [hexecuted, hcdev]
      exact hlt
  · exact h.turn.congr hpc hnext hreads hfills hcopied fun t ht => ⟨hcdev ▸ ht, by rw [hcdev]⟩
  · rw [hcdev, hreads]
    exact h.readIdx
  · rw [hreads, hpc]
    exact h.called
  · rw [hcdev, made_congr hnext]
    exact h.filled
  · rw [hreads, hpc]
    exact h.written.exec (h.rounds.2 (by omega)) hsd rfl hmem hcase
  · rw [hreads] at hk
    obtain ⟨hn, f, hf, hr⟩ := h.returned k n r hk
    exact ⟨hn, f, hfills k f hf, hr⟩

theorem service_head {wb : U32} {r : ServiceRegs} {d : Drv} {t : XferRef} {ts : List XferRef}
    (hrun : d.eng.running = true) (hl : d.eng.transferList = t :: ts) (hdeq : d.eng.descDequeued = 0)
    (hcount : serviceCount wb r = (d.tfer t).descNum) (hpos : 0 < (d.tfer t).descNum)
    (hne : ¬ statusError d.eng.dir (d.usedStatus wb r)) :
    HeadLeft d (d.engineService p wb r).1 t .completed ∧
      (SameStarts d.eng (d.engineService p wb r).1.eng ∨
        ∃ d₁ u w, d₁.eng.starts = d.eng.starts ∧ ts.head? = some u ∧
          Started d₁ (d.engineService p wb r).1 u w) ∧
      ((d.engineService p wb r).1.eng.running = true ↔ ts ≠ []) := by
  have hsub : u32Sub (serviceCount wb r) d.eng.descDequeued = (d.tfer t).descNum := by
    rw [hdeq, u32Sub_zero (serviceCount_lt wb r), hcount]
  obtain ⟨d₁, hsvc, hleft, hrun₁, hst₁⟩ := engineService_headLeft (p := p) hrun hl (by omega) hsub.le
    (.inr (.inr hsub.ge))
  rw [if_neg hne, hsub, if_neg (lt_irrefl _)] at hleft
  have hl₁ : d₁.eng.transferList = ts := by rw [hleft.list, hl, List.tail_cons]
  rw [hsvc]
  refine ⟨hleft.trans_sameQueue (engineServiceResume_sameQueue p r.status d₁), ?_, ?_⟩
  · by_cases hkeep : d₁.eng.running = true ∨ d₁.eng.transferList = []
    · exact .inl (hst₁.trans (engineServiceResume_sameStarts hkeep))
    · rw [not_or] at hkeep
      obtain ⟨u, us, hu⟩ := List.exists_cons_of_ne_nil hkeep.2
      refine .inr ⟨d₁, u, r.status, hst₁.starts, ?_, engineServiceResume_started (by simpa using hkeep.1) hu⟩
      rw [← hl₁, hu, List.head?_cons]
  · rw [engineServiceResume_iff, hl₁]

theorem service_delivering {wb : U32} {r : ServiceRegs} (h : σ.Delivering s a e q b)
    (hok : s.cdev.drv.eng.running = true → s.HeadFinished wb r) (hs : s.step p (.service wb r) = some s') :
    ∃ a' e', σ.Delivering s' a' e' q b := by
  have hnum := DbufRun.step_numbered h.numbered hs
  obtain rfl := Option.some.inj hs
  by_cases hrun : s.cdev.drv.eng.running = true
  swap
  · have hstop : s.cdev.drv.eng.running = false := by simpa using hrun
    rw [XdmaCdev.service_stopped hstop] at hnum ⊢
    have hread := engineStatusRead_sameQueue s.cdev.drv r.statusRc
    have hlaid := h.laid.congr hread.ring hread.list fun _ _ => .refl _
    refine ⟨a, e, h.frame hnum rfl hlaid ?_ rfl rfl rfl rfl rfl rfl rfl ?_⟩
    · exact h.pumped.congr rfl rfl rfl ⟨rfl, rfl⟩ rfl (fun hl => ⟨hl, rfl⟩) (fun _ _ => rfl) fun t ht => ht
    · exact h.turn.congr rfl rfl rfl (fun _ _ => id) rfl fun t ht => ⟨ht.congr σ (.refl _), rfl⟩
  -- the head of the queue is the transfer the engine was started with
  have hfin := hok hrun
  obtain ⟨t, ts, hts⟩ : ∃ t ts, s.cdev.drv.eng.transferList = t :: ts := by
    unfold DbufRun.HeadFinished at hfin
    split at hfin
    · exact hfin.elim
    · exact ⟨_, _, by assumption⟩
  unfold DbufRun.HeadFinished at hfin
  simp only [hts] at hfin
  obtain ⟨hst, hexe, hcount, hne⟩ := hfin
  obtain ⟨ts', hts', hchain, hdeq, he, hle⟩ := h.head hrun hst (.inr (by simp [hts]))
  obtain ⟨-, rfl⟩ := List.cons.inj (hts.symm.trans hts')
  obtain ⟨hleft, hstarts, hrunning⟩ := service_head (p := p) hrun hts hdeq (hcount.trans hexe) hchain.pos hne
  obtain ⟨out, heff⟩ := engineService_effect p wb r s.cdev.drv
  have hsv := XdmaCdev.service_spec heff
  have hdrv := XdmaCdev.service_drv p wb r s.cdev
  rw [← hdrv] at heff hleft hstarts hrunning
  have hlist : (s.cdev.service p wb r).drv.eng.transferList = ts := by rw [hleft.list, hts, List.tail_cons]
  have hout : out = [t] := by
    have happ := heff.list
    rw [hlist, hts, ← List.singleton_append] at happ
    exact (List.append_cancel_right happ).symm
  have hlaid := h.laid.serviced hts hleft.ring hlist heff.same
  have holder := h.numbered.older (t := t) (by simp [hts])
  generalize s.cdev.service p wb r = cdev at *
  have he' : e = a + (s.cdev.drv.tfer t).descNum := by omega
  have hcdev : cdev.dbufActive = s.cdev.dbufActive ∧ cdev.dbufSize = s.cdev.dbufSize ∧
      cdev.dbufReadIdx = s.cdev.dbufReadIdx := by
    rw [hsv.frame]
    exact ⟨rfl, rfl, rfl⟩
  have hdiv : a / σ.perRequest ≤ (a + (s.cdev.drv.tfer t).descNum) / σ.perRequest :=
    Nat.div_le_div_right (Nat.le_add_right _ _)
  obtain ⟨-, -, hn⟩ := h.turn.bounds
  have hcalled := h.called
  refine ⟨_, _, hnum, h.first, hcdev.1.trans h.active, fun i => ?_, hcdev.2.1.trans h.dbufSize, hlaid, ?_, ?_,
    hcdev.2.2.trans h.readIdx, hcalled.trans hdiv, fun i hi m hm hmi => ?_,
    ⟨h.written.fills, h.written.sizes, h.written.acc, h.written.kept⟩, h.returned⟩
  · change cdev.dbuf i = _
    rw [hsv.slot i, h.slot i]
  · rw [he']
    rcases hstarts with hsame | ⟨d₁, u, w, hs₁, hu, hstarted⟩
    · refine ⟨?_, fun _ => rfl, fun hr => ⟨t, hsame.started.trans hst, ?_, .inr ⟨?_, holder, ?_, rfl⟩⟩⟩
      · change s.execAt ≤ cdev.drv.eng.starts
        rw [hsame.starts]
        exact h.pumped.starts
      · change cdev.drv.eng.transferList ≠ []
        rw [hlist]
        exact hrunning.mp hr
      · change cdev.drv.eng.transferList.head? ≠ some t
        rw [hlist]
        -- a transfer is in the queue once
        intro hh
        have htiles := hlaid.tiles
        rw [hlist] at htiles
        obtain ⟨us, rfl⟩ : ∃ us, ts = t :: us := by
          cases ts with
          | nil => simp at hh
          | cons v us => exact ⟨us, by rw [Option.some.inj hh]⟩
        have hpos := hchain.pos
        have hwin := h.window
        have hfew := σ.perRequest_le
        have hnext := htiles.1.index.symm.trans ((heff.same t).2.1.trans hchain.index)
        refine Circular.mod_ne (n := xdmaEngineXferMaxDesc) ?_ ?_ hnext.symm
        · omega
        · have hq := h.turn.bounds
          simp only [xdmaEngineXferMaxDesc]
          omega
      · change (cdev.drv.tfer t).descNum ≤ DbufRun.executed { s with cdev := cdev }
        have hexe' : DbufRun.executed { s with cdev := cdev } = s.executed := by
          unfold DbufRun.executed
          rw [hsame.starts]
        rw [hexe', (heff.same t).1]
        exact hexe.ge
    · refine .of_started (d := d₁) ?_ hstarted ?_
      · change s.execAt ≤ d₁.eng.starts
        rw [hs₁]
        exact h.pumped.starts
      · change cdev.drv.eng.transferList.head? = _
        rw [hlist, hu]
  · exact h.turn.congr rfl rfl rfl (fun _ _ => id) rfl fun u hu =>
      ⟨hu.congr σ (heff.same u), (heff.same u).1⟩
  · rcases (hsv.filled i).mp hi with hold | ⟨-, u, hu, hui, hul⟩
    · exact (h.filled i hold m hm hmi).trans_le hdiv
    · rw [hout, List.mem_singleton] at hu
      subst hu
      rw [hchain.cb] at hui
      obtain rfl : slotOf (a / σ.perRequest) = i := by simpa using hui
      have hparity := slotOf_eq_iff.mp hmi
      rw [(round_end σ.perRequest_pos (hchain.last.mp hul)).1]
      change m < σ.made s at hm
      omega

theorem Delivering.returns (pc : DbufPc) (rv : ℤ) (h : σ.Delivering s a e q b)
    (hnum : ({ s with pc := pc, ret := rv } : DbufRun).Numbered) (hat : ∀ c, pc.At c → pc = s.pc)
    (hcopied : pc.copied = s.pc.copied) (hturn : σ.Turn { s with pc := pc, ret := rv } q b pc) :
    σ.Delivering { s with pc := pc, ret := rv } a e q b := by
  refine h.frame hnum rfl h.laid ?_ rfl rfl rfl rfl rfl rfl hcopied hturn
  refine h.pumped.congr rfl rfl rfl ⟨rfl, rfl⟩ rfl (fun hl => ⟨hl, rfl⟩)
    (fun _ _ => rfl) fun t ht => ⟨ht.1, ?_⟩
  exact fun c hc => ht.2 c (hat c hc ▸ hc)

theorem Delivering.unseen {d : Drv} (h : σ.Delivering s a e q b) (hnum : (s.withDrv d).Numbered)
    (hlist : d.eng.transferList = s.cdev.drv.eng.transferList) (htfer : d.tfer = s.cdev.drv.tfer)
    (hlaid : σ.Laid d a q b) (hrun : d.eng.running = s.cdev.drv.eng.running)
    (hst : SameStarts s.cdev.drv.eng d.eng) (hdeq : d.eng.descDequeued = s.cdev.drv.eng.descDequeued) :
    σ.Delivering (s.withDrv d) a e q b := by
  refine h.frame hnum rfl hlaid ?_ rfl rfl rfl rfl rfl rfl rfl ?_
  · refine h.pumped.congr rfl rfl hrun hst hdeq (fun hl => ?_) (fun t _ => ?_) fun t ht => ht
    · change d.eng.transferList ≠ [] ∧ d.eng.transferList.head? = _
      rw [hlist]
      exact ⟨hl, rfl⟩
    · change (d.tfer t).descNum = _
      rw [htfer]
  · refine h.turn.congr rfl rfl rfl (fun _ _ => id) rfl fun t ht => ⟨ht.congr σ ?_, ?_⟩
    · change (s.cdev.drv.tfer t).SameRequest (d.tfer t)
      rw [htfer]
      exact .refl _
    · change (d.tfer t).descNum = _
      rw [htfer]

end DbufSession

end XdmaDriver
