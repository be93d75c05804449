import XdmaDriver.ChainWalk
import XdmaDriver.DoubleBufferMemory
import XdmaDriver.Lib.Circular

/-!
How far the hardware gets by itself while one slot of the double buffer is
transferred and the other one is queued.
-/

namespace XdmaDriver

open Transition Drv

def DbufPc.chainReq : DbufPc → Option XdmaRequestCb
  | .chain c => some c.req
  | _ => none

def Drv.GoesOn (s : Drv) (u : XferRef) : Prop :=
  ∃ j, Walks s.eng j ∧ (s.tfer u).descIndex ≤ j ∧ j < (s.tfer u).descIndex + (s.tfer u).descNum

namespace DbufRun

variable {p : Params} {s s' : DbufRun}

/-- The engine works on the transfer `t` of one slot, and `u` of the other slot is
queued behind it. -/
structure PipelineFull (s : DbufRun) (t u : XferRef) : Prop where
  running : s.cdev.drv.eng.running = true
  started : s.cdev.drv.eng.started = some t
  behind : ∃ us, s.cdev.drv.eng.transferList = t :: us ∧ u ∈ us
  slots : ∃ i, (s.cdev.drv.tfer t).cb = some (.dbuf i) ∧ (s.cdev.drv.tfer u).cb = some (.dbuf (1 - i))

/-- A chain is built only in ring slots that no queued transfer uses. -/
def FreeSlots (s : DbufRun) : DbufAct → Prop
  | .build => ∀ req ∈ s.pc.chainReq, ∀ t ∈ s.cdev.drv.eng.transferList,
      Circular.Disjoint s.cdev.drv.eng.descIdx (chainLen s.cdev.drv.eng req) (s.cdev.drv.tfer t).descIndex
        (s.cdev.drv.tfer t).descNum
  | _ => True

instance (s : DbufRun) (a : DbufAct) : Decidable (s.FreeSlots a) := by
  apply @DbufAct.casesOn _ a <;> intros <;> (dsimp only [FreeSlots]; infer_instance)

structure RingBegins (s : DbufRun) : Prop extends Begins s where
  idx : s.cdev.drv.eng.descIdx < s.cdev.drv.eng.descMax
  max : s.cdev.drv.eng.descMax ≤ xdmaEngineXferMaxDesc
  started : ∀ t, s.cdev.drv.eng.started = some t → t.req < s.nextReq

def Outstanding (s : DbufRun) (t : XferRef) : Prop :=
  t ∈ s.cdev.drv.eng.transferList ∨ ∃ c, s.pc = .queue c ∧ t = c.ref

structure Intact (s : Drv) (t : XferRef) : Prop where
  pos : 0 < (s.tfer t).descNum
  terminated : Terminated s.eng (s.tfer t).descIndex (s.tfer t).descNum

structure ChainsKept (s : DbufRun) : Prop where
  numbered : s.Numbered
  idx : s.cdev.drv.eng.descIdx < s.cdev.drv.eng.descMax
  max : s.cdev.drv.eng.descMax ≤ xdmaEngineXferMaxDesc
  nents : ∀ c, s.pc.At c → c.nents = c.req.swDescCnt - c.req.swDescIdx
  older : ∀ t, s.cdev.drv.eng.started = some t → s.Older t
  programmed : s.cdev.drv.Programmed
  intact : ∀ t, s.Outstanding t → Intact s.cdev.drv t
  apart : ∀ t u, s.Outstanding t → s.Outstanding u → t ≠ u →
    Circular.Disjoint (s.cdev.drv.tfer t).descIndex (s.cdev.drv.tfer t).descNum
      (s.cdev.drv.tfer u).descIndex (s.cdev.drv.tfer u).descNum

theorem chainsKept_of_begins (h : s.RingBegins) : s.ChainsKept := by
  obtain ⟨⟨⟨hpc, -, hl, hrun, -⟩, hcur⟩, hidx, hmax, hstarted⟩ := h
  have hno : ∀ t, ¬ s.Outstanding t := by
    simp [Outstanding, hl, hpc]
  refine ⟨⟨?_, ?_, ?_, ?_⟩, hidx, hmax, ?_, fun t ht => ⟨hstarted t ht, ?_⟩, ?_, ?_, ?_⟩
  · simp [Used, hl, hcur]
  · simp [DbufPc.At, hpc]
  · simp [hpc]
  · simp [hpc]
  · simp [DbufPc.At, hpc]
  · simp [DbufPc.At, hpc]
  · exact fun hr => absurd (hrun.symm.trans hr) (by simp)
  · exact fun t ht => absurd ht (hno t)
  · exact fun t u ht => absurd ht (hno t)

theorem ringSlots_of_sameRing {e e' : XdmaEngine} (h : e.SameRing e') :
    e'.descMax = e.descMax ∧ e'.desc = e.desc ∧ e'.descBus = e.descBus ∧ e'.descIdx = e.descIdx := by
  obtain ⟨-, -, -, -, hmax, hdesc, hbus, -, -, hidx, -⟩ := h
  exact ⟨hmax, hdesc, hbus, hidx⟩

theorem ChainsKept.frame (h : s.ChainsKept) (hnum : s'.Numbered)
    (hring : s'.cdev.drv.eng.descMax = s.cdev.drv.eng.descMax ∧ s'.cdev.drv.eng.desc = s.cdev.drv.eng.desc ∧
      s'.cdev.drv.eng.descBus = s.cdev.drv.eng.descBus ∧ s'.cdev.drv.eng.descIdx = s.cdev.drv.eng.descIdx)
    (hprog : s'.cdev.drv.Programmed) (hout : ∀ t, s'.Outstanding t → s.Outstanding t)
    (hsame : ∀ t, (s'.cdev.drv.tfer t).descNum = (s.cdev.drv.tfer t).descNum ∧
      (s'.cdev.drv.tfer t).descIndex = (s.cdev.drv.tfer t).descIndex)
    (hnents : ∀ c, s'.pc.At c → c.nents = c.req.swDescCnt - c.req.swDescIdx)
    (holder : ∀ t, s'.cdev.drv.eng.started = some t → s'.Older t) : s'.ChainsKept := by
  obtain ⟨hmax, hdesc, hbus, hidx⟩ := hring
  refine ⟨hnum, ?_, ?_, hnents, holder, hprog, fun t ht => ?_, fun t u ht hu hne => ?_⟩
  · rw [hidx, hmax]
    exact h.idx
  · rw [hmax]
    exact h.max
  · obtain ⟨hpos, hterm⟩ := h.intact t (hout t ht)
    constructor
    · rw [(hsame t).1]
      exact hpos
    · rw [(hsame t).1, (hsame t).2]
      apply hterm.congr hpos hmax hbus
      intro i _ _
      rw [hdesc]
  · rw [(hsame t).1, (hsame t).2, (hsame u).1, (hsame u).2]
    exact h.apart t u (hout t ht) (hout u hu) hne

theorem build_chainsKept {c : DbufSubmit} (h : s.ChainsKept) (hnum : (s.buildNext c).Numbered)
    (hpc : s.pc = .chain c) (hn : c.nents ≠ 0) (hok : s.FreeSlots .build) : (s.buildNext c).ChainsKept := by
  have hb := buildNext_built s c
  have hreq : c.req.swDescIdx < c.req.swDescCnt := by
    have := h.nents c (.inl hpc)
    omega
  have hpos := chainLen_pos h.idx hreq
  have hfree := hok c.req (by simp [hpc, DbufPc.chainReq])
  have heng : (s.buildNext c).cdev.drv.eng = (s.cdev.drv.transferInit c.req c.ref).1.eng := rfl
  have hinit := transferInit_eng s.cdev.drv c.req c.ref
  have hout : ∀ t, (s.buildNext c).Outstanding t → t ∈ s.cdev.drv.eng.transferList ∨ t = c.ref := by
    rintro t (ht | ⟨c', hc', rfl⟩)
    · exact .inl (hb.list ▸ ht)
    · rw [hb.pc] at hc'
      obtain rfl := DbufPc.queue.inj hc'
      exact .inr rfl
  have hnot : c.ref ∉ s.cdev.drv.eng.transferList := fun hm => h.numbered.not_used hpc (.inl hm)
  have hother : ∀ t ∈ s.cdev.drv.eng.transferList, (s.buildNext c).cdev.drv.tfer t = s.cdev.drv.tfer t :=
    fun t ht => hb.other t fun he => hnot (he ▸ ht)
  constructor
  · exact hnum
  · rw [heng]
    exact transferInit_descIdx_lt c.req c.ref h.idx
  · rw [heng, (transferInit_sameConfig _ _ _).descMax]
    exact h.max
  · rintro c' (hc' | hc')
    · simp [hb.pc] at hc'
    · rw [hb.pc] at hc'
      obtain rfl := DbufPc.queue.inj hc'
      have := h.nents c (.inl hpc)
      simp only [transferInit]
      omega
  · intro t ht
    rw [heng, hinit] at ht
    obtain ⟨hlt, hat⟩ := h.older t ht
    refine ⟨hb.nextReq ▸ hlt, ?_⟩
    rintro c' (hc' | hc') hown
    · simp [hb.pc] at hc'
    · rw [hb.pc] at hc'
      obtain rfl := DbufPc.queue.inj hc'
      exact hat c (.inl hpc) hown
  · apply h.programmed.congr
    refine ⟨?_, ?_, ?_, ?_, ?_, fun t ht => by rw [hother t (hb.list ▸ ht)]⟩
    all_goals rw [heng, hinit]
    · rfl
    · exact id
    · exact fun _ => id
  · intro t ht
    rcases hout t ht with ht | rfl
    · obtain ⟨hpos', hterm⟩ := h.intact t (.inl ht)
      rw [← hother t ht] at hpos' hterm
      refine ⟨hpos', hterm.congr hpos' ?_ ?_ fun i hi hlt => ?_⟩
      · rw [heng, hinit]
      · rw [heng, hinit]
      · rw [heng]
        apply transferInit_desc_frame c.ref hpos
        have := hfree t ht
        rw [hother t ht] at hi hlt
        unfold Circular.Disjoint at this
        omega
    · constructor
      · rw [hb.descNum]
        exact hpos
      · rw [hb.descNum, hb.descIndex, heng]
        exact transferInit_terminated c.req c.ref hpos h.idx
  · intro t u ht hu hne
    rcases hout t ht with ht | rfl
    · rcases hout u hu with hu | rfl
      · rw [hother t ht, hother u hu]
        exact h.apart t u (.inl ht) (.inl hu) hne
      · rw [hother t ht, hb.descNum, hb.descIndex]
        exact (hfree t ht).symm
    · rcases hout u hu with hu | rfl
      · rw [hother u hu, hb.descNum, hb.descIndex]
        exact hfree u hu
      · exact absurd rfl hne

theorem step_chainsKept {a : DbufAct} (h : s.ChainsKept) (hok : s.FreeSlots a) (hs : s.step p a = some s') :
    s'.ChainsKept := by
  have hnum := step_numbered h.numbered hs
  cases step_move hs with
  | still heng htfer hnext hpc =>
    apply h.frame hnum
    · rw [heng]
      exact ⟨rfl, rfl, rfl, rfl⟩
    · apply h.programmed.congr
      refine ⟨?_, ?_, ?_, ?_, ?_, fun t _ => by rw [htfer]⟩
      all_goals rw [heng]
      · rfl
      · exact id
      · exact fun _ => id
    · rintro t (ht | ⟨c, hc, rfl⟩)
      · rw [heng] at ht
        exact .inl ht
      · exact .inr ⟨c, (hpc c (.inr hc)) ▸ hc, rfl⟩
    · intro t
      rw [htfer]
      exact ⟨rfl, rfl⟩
    · exact fun c hc => h.nents c (hpc c hc ▸ hc)
    · intro t ht
      rw [heng] at ht
      obtain ⟨hlt, hat⟩ := h.older t ht
      exact ⟨hnext ▸ hlt, fun c hc => hat c (hpc c hc ▸ hc)⟩
  | allocated c hpc hdrv hnext hown hnents hidx =>
    have hat : ∀ c', s'.pc.At c' → c' = c := by
      rintro c' (hc | hc)
      · exact DbufPc.chain.inj (hc.symm.trans hpc)
      · simp [hpc] at hc
    apply h.frame hnum
    · rw [hdrv]
      exact ⟨rfl, rfl, rfl, rfl⟩
    · rw [hdrv]
      exact h.programmed
    · rintro t (ht | ⟨c', hc', -⟩)
      · rw [hdrv] at ht
        exact .inl ht
      · simp [hpc] at hc'
    · intro t
      rw [hdrv]
      exact ⟨rfl, rfl⟩
    · intro c' hc'
      obtain rfl := hat c' hc'
      rw [hnents, hidx, Nat.sub_zero]
    · intro t ht
      rw [hdrv] at ht
      have hlt := (h.older t ht).1
      refine ⟨by omega, fun c' hc' hreq => ?_⟩
      obtain rfl := hat c' hc'
      omega
  | built c ha hpc hn hs' =>
    subst ha hs'
    exact build_chainsKept h hnum hpc hn hok
  | queued c w hpc hacc hdrv hpc' hnext =>
    obtain ⟨hq, -⟩ := transferQueue_accepted (p := p) (w := w) hacc
    rw [← hdrv] at hq
    have hne : s.cdev.drv.eng.started ≠ some c.ref := fun he =>
      absurd ((h.older _ he).2 c (.inr hpc) rfl) (lt_irrefl _)
    apply h.frame hnum (ringSlots_of_sameRing hq.ring)
    · rw [hdrv]
      exact transferQueue_programmed h.programmed hne
    · rintro t (ht | ⟨c', hc', -⟩)
      · rw [hq.list, List.mem_append, List.mem_singleton] at ht
        rcases ht with ht | rfl
        · exact .inl ht
        · exact .inr ⟨c, hpc, rfl⟩
      · simp [hpc'] at hc'
    · exact fun t => ⟨(hq.same t).1, (hq.same t).2.1⟩
    · rintro c' (hc' | hc')
      · rw [hpc'] at hc'
        obtain rfl := DbufPc.chain.inj hc'
        exact h.nents c (.inr hpc)
      · simp [hpc'] at hc'
    · intro t ht
      by_cases hrun : s.cdev.drv.eng.running = true
      · rw [hq.busy hrun] at ht
        obtain ⟨hlt, hat⟩ := h.older t ht
        refine ⟨hnext ▸ hlt, ?_⟩
        rintro c' (hc' | hc') hreq
        · rw [hpc'] at hc'
          obtain rfl := DbufPc.chain.inj hc'
          exact (hat c (.inr hpc) hreq).trans (Nat.lt_succ_self _)
        · simp [hpc'] at hc'
      · obtain ⟨w', hst⟩ := hq.idle (by simpa using hrun)
        apply hnum.older
        rw [hst.started] at ht
        obtain rfl := Option.some.inj ht
        rw [hq.list]
        exact List.head_mem _
  | serviced wb r _ hdrv hpc hnext =>
    obtain ⟨out, he⟩ := engineService_effect p wb r s.cdev.drv
    have hres := engineService_restarts (p := p) wb r s.cdev.drv
    rw [← hdrv] at he hres
    apply h.frame hnum (ringSlots_of_sameRing he.ring) (hres.programmed h.programmed)
    · rintro t (ht | ⟨c, hc, rfl⟩)
      · exact .inl (he.list ▸ List.mem_append_right _ ht)
      · exact .inr ⟨c, hpc ▸ hc, rfl⟩
    · exact fun t => ⟨(he.same t).1, (he.same t).2.1⟩
    · exact fun c hc => h.nents c (hpc ▸ hc)
    · intro t ht
      have hold : s.Older t := (hres.started ht).elim (h.older t) h.numbered.older
      exact ⟨hnext ▸ hold.1, fun c hc => hold.2 c (hpc ▸ hc)⟩

theorem ChainsKept.not_goesOn {t u : XferRef} (h : s.ChainsKept) (hfull : s.PipelineFull t u) :
    ¬ s.cdev.drv.GoesOn u := by
  obtain ⟨us, hl, hu⟩ := hfull.behind
  obtain ⟨i, ht', hu'⟩ := hfull.slots
  have htm : t ∈ s.cdev.drv.eng.transferList := by
    rw [hl]
    exact List.mem_cons_self
  have hum : u ∈ s.cdev.drv.eng.transferList := by
    rw [hl]
    exact List.mem_cons_of_mem t hu
  have hne : t ≠ u := by
    rintro rfl
    have hi : i = 1 - i := by
      simpa using ht'.symm.trans hu'
    exact absurd hi ((by decide : ∀ i : Fin 2, i ≠ 1 - i) i)
  rintro ⟨j, hw, hj⟩
  obtain ⟨hpos, hterm⟩ := h.intact t (.inl htm)
  have hfirst := h.programmed hfull.running t hfull.started htm
  have hin := hterm.walks hpos h.max hfirst hw
  have hapart := h.apart t u (.inl htm) (.inl hum) hne
  unfold Circular.Disjoint at hapart
  omega

theorem chainsKept_of_reachable (h : Reachable (step p) RingBegins FreeSlots s) : s.ChainsKept :=
  h.invariant (fun _ => chainsKept_of_begins) fun _ _ _ hI hok hs => step_chainsKept hI hok hs

theorem startedRun_full : ∃ s : DbufRun, Reachable (step {}) RingBegins FreeSlots s ∧
    s.PipelineFull ⟨0, 0⟩ ⟨1, 0⟩ := by
  have hbegins : RingBegins {} := ⟨⟨⟨rfl, rfl, rfl, rfl, fun _ => rfl⟩, fun _ => rfl⟩, by decide, le_refl _,
    fun _ ht => by cases ht⟩
  have hrun : (run (step {}) FreeSlots {} startedRun).map (fun s => (s.cdev.drv.eng.running,
      s.cdev.drv.eng.started, s.cdev.drv.eng.transferList, (s.cdev.drv.tfer ⟨0, 0⟩).cb,
      (s.cdev.drv.tfer ⟨1, 0⟩).cb)) =
    some (true, some ⟨0, 0⟩, [⟨0, 0⟩, ⟨1, 0⟩], some (.dbuf 0), some (.dbuf 1)) := by decide
  obtain ⟨s, hs, heq⟩ := exists_reachable hbegins hrun
  simp only [Prod.mk.injEq] at heq
  obtain ⟨hr, hst, hl, hc₀, hc₁⟩ := heq
  exact ⟨s, hs, hr, hst, ⟨[⟨1, 0⟩], hl, List.mem_cons_self⟩, 0, hc₀, hc₁⟩

/-- With one slot in transfer and the other one queued, the hardware stops between
the two. -/
theorem pipeline_dry {t u : XferRef} (h : Reachable (step p) RingBegins FreeSlots s)
    (hfull : s.PipelineFull t u) :
    ¬ s.cdev.drv.GoesOn u := (chainsKept_of_reachable h).not_goesOn hfull

theorem pipeline_dry_startedRun : ∃ s : DbufRun, s.PipelineFull ⟨0, 0⟩ ⟨1, 0⟩ ∧
    ¬ s.cdev.drv.GoesOn ⟨1, 0⟩ := by
  obtain ⟨s, hs, hfull⟩ := startedRun_full
  exact ⟨s, hfull, pipeline_dry hs hfull⟩

theorem pipeline_runs_dry : ¬ ∀ (p : Params) (s : DbufRun) (t u : XferRef),
    Reachable (step p) RingBegins (fun _ _ => True) s → s.PipelineFull t u → s.cdev.drv.GoesOn u := by
  intro h
  obtain ⟨s, hs, hfull⟩ := startedRun_full
  exact (chainsKept_of_reachable hs).not_goesOn hfull (h {} s _ _ (hs.mono fun _ _ _ => trivial) hfull)

end DbufRun

end XdmaDriver
