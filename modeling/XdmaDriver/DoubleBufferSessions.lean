import XdmaDriver.DoubleBufferDelivery

/-!
The sessions of a run, each from a start to the stop, the close or the failed submission that
ends it: every read returns the fill it is due, if each session begins on an idle engine.
-/

namespace XdmaDriver

open Transition Drv Spans Tiling

namespace DbufRun

variable {p : Params} {s s' : DbufRun}

/-- The buffers of a session are apart and less than 2 GiB, the slot of a read is submitted
again, and the engine is serviced when it has finished. -/
def SessionOk (p : Params) (s : DbufRun) : DbufAct → Prop
  | .start fault io alloc => (s.cdev.ioctlDoDbufStart fault io alloc).2 = none →
    io.bufSize.toNat < 2 ^ 31 ∧
      Apart ((alloc 0).bus.getD 0) ((alloc 1).bus.getD 0) io.bufSize.toNat
  | .submit oom => s.pc.copied = 1 → s.SubmitOk p oom
  | .queue _ => s.pc.copied = 1 → s.QueueOk
  | .service wb r => s.cdev.dbufActive = true → s.cdev.drv.eng.running = true → s.HeadFinished wb r
  | _ => True

/-- A session begins with nothing linked, on an engine that does not run. -/
def StartsIdle (s : DbufRun) : DbufAct → Prop
  | .start fault io alloc => (s.cdev.ioctlDoDbufStart fault io alloc).2 = none →
    s.cdev.drv.eng.transferList = [] ∧ s.cdev.drv.eng.running = false
  | _ => True

instance (p : Params) (s : DbufRun) (a : DbufAct) : Decidable (s.SessionOk p a) := by
  apply @DbufAct.casesOn _ a <;> intros <;> (dsimp only [SessionOk]; infer_instance)

instance (s : DbufRun) (a : DbufAct) : Decidable (s.StartsIdle a) := by
  apply @DbufAct.casesOn _ a <;> intros <;> (dsimp only [StartsIdle]; infer_instance)

/-- The device is opened with a ring of the default size. -/
structure Opens (s : DbufRun) : Prop extends Begins s where
  starts : s.execAt ≤ s.cdev.drv.eng.starts
  max : s.cdev.drv.eng.descMax = xdmaEngineXferMaxDesc
  idx : s.cdev.drv.eng.descIdx < s.cdev.drv.eng.descMax

structure Between (s : DbufRun) : Prop where
  numbered : s.Numbered
  pc : s.pc.Quiet ∨ ∃ rv, s.pc = .unwind rv
  active : s.cdev.dbufActive = false
  starts : s.execAt ≤ s.cdev.drv.eng.starts
  max : s.cdev.drv.eng.descMax = xdmaEngineXferMaxDesc
  idx : s.cdev.drv.eng.descIdx < s.cdev.drv.eng.descMax

theorem Opens.between (h : s.Opens) : s.Between := by
  have hpc := h.pc
  refine ⟨⟨?_, ?_, ?_, ?_⟩, .inl (.inl hpc), h.active, h.starts, h.max, h.idx⟩
  all_goals simp [Used, DbufPc.At, h.list, h.cur, hpc]

theorem Between.not_at (h : s.Between) {c : DbufSubmit} (hc : s.pc.At c) : False := by
  rcases h.pc with (hpc | ⟨count, hpc⟩) | ⟨rv, hpc⟩
  all_goals simp [hpc, DbufPc.At] at hc

theorem Between.frame (h : s.Between) (hnum : s'.Numbered) (hpc : s'.pc.Quiet ∨ ∃ rv, s'.pc = .unwind rv)
    (hact : s'.cdev.dbufActive = false) (hat : s'.execAt ≤ s'.cdev.drv.eng.starts)
    (hmax : s'.cdev.drv.eng.descMax = s.cdev.drv.eng.descMax)
    (hidx : s'.cdev.drv.eng.descIdx = s.cdev.drv.eng.descIdx) : s'.Between := by
  refine ⟨hnum, hpc, hact, hat, hmax.trans h.max, ?_⟩
  rw [hidx, hmax]
  exact h.idx

theorem ended_between {σ : DbufSession p} {x e q b : ℕ} (h : σ.Delivering s x e q b) (hnum : s'.Numbered)
    (hpc : s'.pc.Quiet ∨ ∃ rv, s'.pc = .unwind rv) (hact : s'.cdev.dbufActive = false)
    (hat : s'.execAt = s.execAt) (hdrv : s'.cdev.drv = s.cdev.drv) : s'.Between := by
  refine ⟨hnum, hpc, hact, ?_, ?_, ?_⟩
  · rw [hat, hdrv]
    exact h.pumped.starts
  · rw [hdrv]
    exact h.laid.max
  · rw [hdrv, h.laid.idx, h.laid.max]
    exact σ.ringSlot_lt b

theorem start_between {fault : Bool} {io : XdmaDbufIoctl} {alloc : Fin 2 → DbufAlloc}
    (hp : p.descBlenMax = xdmaDescBlenMax) (h : s.Between) (hok : s.SessionOk p (.start fault io alloc))
    (hidle : s.StartsIdle (.start fault io alloc)) (hs : s.step p (.start fault io alloc) = some s') :
    s'.Between ∨ ∃ σ : DbufSession p, σ.Delivering s' 0 0 0 0 := by
  have hnum := step_numbered h.numbered hs
  obtain ⟨hpc, ⟨rv, hrv, rfl⟩ | ⟨hrv, rfl⟩⟩ := step_start hs
  · obtain ⟨rv', -, hn⟩ | ⟨hnone, -⟩ := XdmaCdev.ioctlDoDbufStart_cases fault io alloc s.cdev
    swap
    · rw [hnone] at hrv
      cases hrv
    have hdrv := hn.drv
    have hact := hn.active.trans h.active
    generalize (s.cdev.ioctlDoDbufStart fault io alloc).1 = cdev at *
    exact .inl (h.frame hnum (.inl (.inl hpc)) hact (hdrv ▸ h.starts) (hdrv ▸ rfl) (hdrv ▸ rfl))
  obtain ⟨rv', hsome, -⟩ | ⟨-, bus, hbus, hall⟩ := XdmaCdev.ioctlDoDbufStart_cases fault io alloc s.cdev
  · rw [hrv] at hsome
    cases hsome
  obtain ⟨hsmall, hapart⟩ := hok hrv
  obtain ⟨hlist, hrun⟩ := hidle hrv
  rw [hbus 0, hbus 1] at hapart
  have hpos : 0 < io.bufSize.toNat := by
    refine Nat.pos_of_ne_zero fun h0 => hall.aligned.1 (BitVec.eq_of_toNat_eq ?_)
    simpa using h0
  let σ : DbufSession p := ⟨bus, io.bufSize, s.cdev.drv.eng.descIdx, s.nextReq, hp, hpos, hsmall, hapart⟩
  have hidx := h.idx
  have hmax := h.max
  have hdrv := hall.drv
  have hread := hall.readIdx
  generalize (s.cdev.ioctlDoDbufStart fault io alloc).1 = cdev at *
  have hslot : ∀ i, cdev.dbuf i =
      ⟨true, bus i, io.bufSize, ⟨[⟨bus i, io.bufSize⟩], 1, 1⟩, (cdev.dbuf i).filled⟩ :=
        fun i => by rw [hall.slot i]
  -- no request of the session is made yet
  have hmade : s.nextReq - s.nextReq = 0 := Nat.sub_self _
  refine .inr ⟨σ, hnum, le_refl _, hall.active, hslot, hall.dbufSize, ⟨?_, ?_, ?_, ?_, ?_⟩,
    ⟨?_, fun _ => rfl, ?_⟩,
    ⟨rfl, hmade, ?_, rfl⟩, hread, Nat.zero_le _, ?_, ⟨?_, ?_, ?_, ?_⟩, ?_⟩
  · rw [hdrv]
    exact hall.dir
  · rw [hdrv]
    exact hmax
  · rw [hdrv]
    change _ = (s.cdev.drv.eng.descIdx + 0) % xdmaEngineXferMaxDesc
    rw [Nat.add_zero, Nat.mod_eq_of_lt (hmax ▸ hidx)]
  · rw [hdrv, hlist]
    rfl
  · exact fun g hg hg' => absurd hg' (Nat.not_lt_zero g)
  · change s.execAt ≤ cdev.drv.eng.starts
    rw [hdrv]
    exact h.starts
  · intro hr
    change cdev.drv.eng.running = true at hr
    rw [hdrv, hrun] at hr
    cases hr
  · change 0 = (s.nextReq - s.nextReq) * _
    rw [hmade, Nat.zero_mul]
  · intro i _ m hm
    change m < s.nextReq - s.nextReq at hm
    rw [hmade] at hm
    exact absurd hm (Nat.not_lt_zero m)
  · exact (Nat.zero_div _).symm
  · exact fun f hf => absurd hf List.not_mem_nil
  · change [] = _
    rw [Nat.zero_mod]
    rfl
  · intro m f _ hf
    cases hf
  · intro k count r hk
    cases hk

theorem step_between {a : DbufAct} (hp : p.descBlenMax = xdmaDescBlenMax) (h : s.Between)
    (hok : s.SessionOk p a) (hidle : s.StartsIdle a) (hs : s.step p a = some s') :
    s'.Between ∨ ∃ σ : DbufSession p, σ.Delivering s' 0 0 0 0 := by
  have hnum := step_numbered h.numbered hs
  cases a with
  | start fault io alloc => exact start_between hp h hok hidle hs
  | submit oom =>
    obtain ⟨caller, i, hpc, -⟩ := step_submit hs
    rcases h.pc with (hq | ⟨count, hq⟩) | ⟨rv, hq⟩ <;> simp [hq] at hpc
  | build =>
    obtain ⟨c, hpc, -⟩ := step_build hs
    exact (h.not_at (.inl hpc)).elim
  | queue w =>
    obtain ⟨c, hpc, -⟩ := step_queue hs
    exact (h.not_at (.inr hpc)).elim
  | submitted =>
    obtain ⟨c, hpc, -⟩ := step_submitted hs
    exact (h.not_at (.inl hpc)).elim
  | unwind =>
    obtain ⟨rv, -, rfl⟩ := step_unwind hs
    exact .inl (h.frame hnum (.inl (.inl rfl)) h.active h.starts rfl rfl)
  | read count =>
    obtain ⟨-, hact, -⟩ := step_read hs
    simp [h.active] at hact
  | wake fault =>
    obtain ⟨count, -, -, rfl⟩ := step_wake hs
    unfold readWoken at hnum ⊢
    simp only [h.active, ↓reduceIte] at hnum ⊢
    exact .inl (h.frame hnum (.inl (.inl rfl)) h.active h.starts rfl rfl)
  | signal =>
    obtain ⟨count, -, rfl⟩ := step_signal hs
    exact .inl (h.frame hnum (.inl (.inl rfl)) h.active h.starts rfl rfl)
  | stop =>
    obtain ⟨-, rfl⟩ := step_stop hs
    have hsame : s.cdev.ioctlDoDbufStop = s.cdev := by simp [XdmaCdev.ioctlDoDbufStop, h.active]
    simp only [hsame] at hnum ⊢
    exact .inl (h.frame hnum h.pc h.active h.starts rfl rfl)
  | close =>
    obtain ⟨-, rfl⟩ := step_close hs
    have hsame : s.cdev.ioctlDoDbufStop = s.cdev := by simp [XdmaCdev.ioctlDoDbufStop, h.active]
    simp only [hsame] at hnum ⊢
    exact .inl (h.frame hnum h.pc h.active h.starts rfl rfl)
  | service wb r =>
    obtain rfl := Option.some.inj hs
    obtain ⟨out, he⟩ := engineService_effect p wb r s.cdev.drv
    have hsv := XdmaCdev.service_spec he
    have hstarts := engineService_starts (p := p) wb r s.cdev.drv
    rw [← XdmaCdev.service_drv] at he hstarts
    obtain ⟨-, -, -, -, hmax, -, -, -, -, hidx, -⟩ := he.ring
    refine .inl (h.frame hnum h.pc ?_ (h.starts.trans hstarts) hmax hidx)
    change (s.cdev.service p wb r).dbufActive = false
    rw [hsv.frame]
    exact h.active
  | dma data =>
    obtain ⟨t, -, -, -, rfl⟩ := step_dma hs
    obtain ⟨hcdev, -, -, -, hpc⟩ := execDesc_frame s data t
    refine .inl (h.frame hnum (hpc ▸ h.pc) (hcdev ▸ h.active) ?_ (hcdev ▸ rfl) (hcdev ▸ rfl))
    rw [hcdev]
    unfold execDesc
    dsimp only
    split_ifs <;> exact le_refl _
  | result i r =>
    obtain rfl := Option.some.inj hs
    exact .inl (h.frame hnum h.pc h.active h.starts rfl rfl)
  | setOffline offline =>
    obtain rfl := Option.some.inj hs
    exact .inl (h.frame hnum h.pc h.active h.starts rfl rfl)

theorem submit_ends {oom : Bool} {σ : DbufSession p} {x e q b : ℕ} (h : σ.Delivering s x e q b)
    (hstart : s.pc.copied ≠ 1) (hfail : ¬ s.SubmitOk p oom) (hs : s.step p (.submit oom) = some s') :
    s'.Between := by
  have hnum := step_numbered h.numbered hs
  obtain ⟨caller, i, hpc, rfl⟩ := step_submit hs
  rcases submitSlot_cases (p := p) s oom caller i with ⟨rv, -, heq⟩ | ⟨req, hreq, -⟩
  · cases caller with
    | start =>
      rw [heq] at hnum ⊢
      exact ended_between h hnum (.inr ⟨rv, rfl⟩) rfl rfl rfl
    | read count => simp [hpc, DbufPc.copied, DbufCaller.copied] at hstart
  · simp only [SubmitOk, hpc, hreq] at hfail
    exact absurd rfl hfail

theorem queue_ends {w : U32} {σ : DbufSession p} {x e q b : ℕ} (h : σ.Delivering s x e q b)
    (hstart : s.pc.copied ≠ 1) (hfail : ¬ s.QueueOk) (hs : s.step p (.queue w) = some s') : s'.Between := by
  have hnum := step_numbered h.numbered hs
  obtain ⟨c, hpc, rfl⟩ := step_queue hs
  simp only [QueueOk, hpc] at hfail
  obtain ⟨rv, heq⟩ := queueNext_refused (p := p) (w := w) hfail
  rw [heq] at hnum ⊢
  cases hcaller : c.caller with
  | start =>
    rw [hcaller] at hnum
    exact ended_between h hnum (.inr ⟨rv, rfl⟩) rfl rfl rfl
  | read count => simp [hpc, DbufPc.copied, hcaller, DbufCaller.copied] at hstart

theorem stop_ends {σ : DbufSession p} {x e q b : ℕ} (h : σ.Delivering s x e q b) (hpc : s.pc.Quiet)
    (hnum : ({ s with cdev := s.cdev.ioctlDoDbufStop } : DbufRun).Numbered) :
    ({ s with cdev := s.cdev.ioctlDoDbufStop } : DbufRun).Between := by
  refine ended_between h hnum (.inl hpc) ?_ rfl (ioctlDoDbufStop_drv _)
  simp [XdmaCdev.ioctlDoDbufStop, h.active, XdmaCdev.dbufFree, XdmaCdev.dbufFreeSgt]

theorem step_delivering {a : DbufAct} {σ : DbufSession p} {x e q b : ℕ} (h : σ.Delivering s x e q b)
    (hok : s.SessionOk p a) (hs : s.step p a = some s') :
    s'.Between ∨ ∃ x' e' q' b', σ.Delivering s' x' e' q' b' := by
  have hnum := step_numbered h.numbered hs
  have hturn := h.turn
  cases a with
  | start fault io alloc =>
    obtain ⟨hpc, ⟨rv, hrv, rfl⟩ | ⟨hrv, -⟩⟩ := step_start hs
    · obtain ⟨-, -, hn⟩ | ⟨-, _, -, hall⟩ := XdmaCdev.ioctlDoDbufStart_cases fault io alloc s.cdev
      · have heq := hn.freed.resolve_right fun hf => by simp [h.active] at hf
        rw [heq] at hnum ⊢
        refine .inr ⟨_, _, _, _, h.returns s.pc _ hnum (fun _ _ => rfl) rfl ?_⟩
        exact hturn.congr rfl rfl rfl (fun _ _ => id) rfl fun t ht => ⟨ht, rfl⟩
      · exact absurd hall.idle (by simp [h.active])
    · obtain ⟨rv, hsome, -⟩ | ⟨-, _, -, hall⟩ := XdmaCdev.ioctlDoDbufStart_cases fault io alloc s.cdev
      · rw [hrv] at hsome
        cases hsome
      · exact absurd hall.idle (by simp [h.active])
  | submit oom =>
    by_cases hsub : s.SubmitOk p oom
    · exact .inr ⟨_, _, _, _, DbufSession.submit_delivering h hsub hs⟩
    · exact .inl (submit_ends h (fun hc => hsub (hok hc)) hsub hs)
  | build =>
    obtain ⟨b', h'⟩ := DbufSession.build_delivering h hs
    exact .inr ⟨_, _, _, _, h'⟩
  | queue w =>
    by_cases hq : s.QueueOk
    · obtain ⟨q', h'⟩ := DbufSession.queue_delivering h hq hs
      exact .inr ⟨_, _, _, _, h'⟩
    · exact .inl (queue_ends h (fun hc => hq (hok hc)) hq hs)
  | submitted => exact .inr ⟨_, _, _, _, DbufSession.submitted_delivering h hs⟩
  | unwind =>
    obtain ⟨rv, hpc, -⟩ := step_unwind hs
    rw [hpc] at hturn
    exact hturn.elim
  | read count =>
    obtain ⟨hpc, -, ⟨-, rfl⟩ | ⟨hle, rfl⟩⟩ := step_read hs
    all_goals rw [hpc] at hturn
    · refine .inr ⟨_, _, _, _, h.returns s.pc _ hnum (fun _ _ => rfl) rfl ?_⟩
      rw [hpc]
      exact hturn
    · refine .inr ⟨_, _, _, _, h.returns _ s.ret hnum (by simp [DbufPc.At]) (by rw [hpc]; rfl) ⟨hturn, ?_⟩⟩
      exact h.dbufSize ▸ hle
  | wake fault => exact .inr ⟨_, _, _, _, DbufSession.wake_delivering h hs⟩
  | signal =>
    obtain ⟨count, hpc, rfl⟩ := step_signal hs
    rw [hpc] at hturn
    exact .inr ⟨_, _, _, _, h.returns _ _ hnum (by simp [DbufPc.At]) (by rw [hpc]; rfl) hturn.1⟩
  | stop =>
    obtain ⟨hpc, rfl⟩ := step_stop hs
    exact .inl (stop_ends h hpc hnum)
  | close =>
    obtain ⟨hpc, rfl⟩ := step_close hs
    exact .inl (stop_ends h hpc hnum)
  | service wb r =>
    obtain ⟨x', e', h'⟩ := DbufSession.service_delivering h (hok h.active) hs
    exact .inr ⟨_, _, _, _, h'⟩
  | dma data => exact .inr ⟨_, _, _, _, DbufSession.dma_delivering h hs⟩
  | result i r =>
    obtain rfl := Option.some.inj hs
    refine .inr ⟨_, _, _, _, h.unseen hnum rfl rfl ?_ rfl ⟨rfl, rfl⟩ rfl⟩
    refine ⟨h.laid.dir, h.laid.max, h.laid.idx, ?_, h.laid.ring⟩
    exact h.laid.tiles.congr fun t _ => ⟨rfl, fun _ hc => hc.congr σ (.refl _)⟩
  | setOffline offline =>
    obtain rfl := Option.some.inj hs
    refine .inr ⟨_, _, _, _, h.unseen hnum rfl rfl ?_ rfl ⟨rfl, rfl⟩ rfl⟩
    refine ⟨h.laid.dir, h.laid.max, h.laid.idx, ?_, h.laid.ring⟩
    exact h.laid.tiles.congr fun t _ => ⟨rfl, fun _ hc => hc.congr σ (.refl _)⟩

/-- The reads of a run against its fills, the buffers of filled slots against the
descriptors of the queued transfers, and the elements of `req->tfer` a submission
goes through. -/
structure Delivered (s : DbufRun) : Prop where
  returned : ∀ (k count : ℕ) (r : List U8), s.reads[k]? = some (count, r) →
    ∃ f : List U8, s.fills[k]? = some f ∧ count ≤ f.length ∧ r = f.take count
  free : ∀ i, (s.cdev.dbuf i).filled = true → ∀ t ∈ s.cdev.drv.eng.transferList, ∀ j <
    (s.cdev.drv.tfer t).descNum,
    ∀ x ∈ span ((s.cdev.drv.eng.desc ((s.cdev.drv.tfer t).descIndex + j)).hostAddr .fromDevice)
      (s.cdev.drv.eng.desc ((s.cdev.drv.tfer t).descIndex + j)).bytes.toNat,
    x ∉ span (s.cdev.dbuf i).bus (s.cdev.dbuf i).size.toNat
  fits : ∀ c, s.pc = .chain c → c.nents ≠ 0 → c.tferIdx < tferMax

theorem delivered_of_delivering {σ : DbufSession p} {a e q b : ℕ}
    (h : σ.Delivering s a e q b) : s.Delivered := by
  refine ⟨fun k count r hk => ?_, fun i hi t ht j hj x hx => ?_, fun c hpc hn => ?_⟩
  · obtain ⟨hle, f, hf, hr⟩ := h.returned k count r hk
    exact ⟨f, hf, hle.trans (h.written.sizes f (List.mem_of_getElem? hf)).ge, hr⟩
  · obtain ⟨c, hac, hcq, hc⟩ := h.laid.tiles.of_mem ht
    obtain ⟨hqb, hb, -⟩ := h.turn.bounds
    have hinside := hc.inside
    have hwithin := hc.within
    obtain ⟨hround, -⟩ := round_add (d := σ.perRequest) (a := c) (n := j) (by omega)
    obtain ⟨sd, hsd⟩ : ∃ sd, (σ.sdesc (slotOf ((c + j) / σ.perRequest)))[(c + j) % σ.perRequest]? =
      some sd := by
      refine ⟨_, List.getElem?_eq_getElem ?_⟩
      rw [σ.length_sdesc]
      exact Nat.mod_lt _ σ.perRequest_pos
    obtain ⟨hbytes, hhost⟩ := h.laid.ring (c + j) (by omega) (by omega) sd hsd
    rw [hc.index, ← σ.ringSlot_add (by omega), hbytes, hhost, BitVec.toNat_ofNat,
      Nat.mod_eq_of_lt (σ.sdesc_len_lt hsd)] at hx
    have hin : x ∈ span (σ.bus (slotOf (c / σ.perRequest))) σ.size.toNat := by
      rw [hround] at hsd
      exact sdescSplit_subset p.descBlenMax _ (mem_sdescBytes.mpr ⟨sd, List.mem_of_getElem? hsd, hx⟩)
    -- the requests of a filled slot are all serviced, and this one is not
    have hne : slotOf (c / σ.perRequest) ≠ i := fun he => by
      have hlt : c / σ.perRequest < σ.made s := (Nat.div_lt_iff_lt_mul σ.perRequest_pos).mpr (by omega)
      exact absurd (h.filled i hi _ hlt he) (not_lt.mpr (Nat.div_le_div_right hac))
    rw [h.slot i]
    exact σ.not_mem_other hne hin
  · have hturn := h.turn
    rw [hpc] at hturn
    rcases hturn.2.2 hn with h0 | ⟨h1, -⟩
    · rw [h0]
      decide
    · rw [h1]
      decide

/-- In a session that begins on an idle engine the `k`-th read returns the first bytes of the
`k`-th fill, and no queued transfer writes to a filled slot. -/
theorem fills_delivered (hp : p.descBlenMax = xdmaDescBlenMax)
    (h : Reachable (step p) Opens (fun s a => s.SessionOk p a ∧ s.StartsIdle a) s)
    (hact : s.cdev.dbufActive = true) : s.Delivered := by
  have hkept : s.Between ∨ ∃ (σ : DbufSession p) (a e q b : ℕ), σ.Delivering s a e q b := by
    refine h.invariant (I := fun s => s.Between ∨ ∃ (σ : DbufSession p) (a e q b : ℕ), σ.Delivering s a e q b)
      (fun _ h => .inl h.between) ?_
    rintro s a s' (hI | ⟨σ, x, e, q, b, hI⟩) ⟨hok, hidle⟩ hs
    · exact (step_between hp hI hok hidle hs).imp_right fun ⟨σ, h'⟩ => ⟨σ, 0, 0, 0, 0, h'⟩
    · exact (step_delivering hI hok hs).imp_right fun h' => ⟨σ, h'⟩
  rcases hkept with hI | ⟨σ, a, e, q, b, hI⟩
  · simp [hI.active] at hact
  · exact delivered_of_delivering hI

theorem opens_default : Opens {} := by
  refine ⟨⟨⟨rfl, rfl, rfl, rfl, fun _ => rfl⟩, fun _ => rfl⟩, le_refl _, rfl, ?_⟩
  decide

def fill (n : ℕ) : List DbufAct := [.dma fun k => BitVec.ofNat 8 (k + n), .service 0 ⟨0, 1, 1⟩]

def readSlot (count : ℕ) : List DbufAct :=
  [.read count, .wake false, .submit false, .build, .queue 1, .submitted]

theorem fills_delivered_secondSession : ∃ s : DbufRun, s.cdev.dbufActive = true ∧
    s.reads = [(2, [7, 8]), (3, [9, 10, 11])] ∧ s.Delivered := by
  have hrun : (run (step {}) (fun s a => s.SessionOk {} a ∧
    s.StartsIdle a) {} (startedRun ++ fill 1 ++ [.stop] ++
      fill 3 ++ startedRun ++ fill 7 ++ fill 9 ++ readSlot 2 ++ readSlot 3)).map
        (fun s => (s.cdev.dbufActive, s.reads)) = some (true, [(2, [7, 8]), (3, [9, 10, 11])]) := by decide
  obtain ⟨s, hs, heq⟩ := exists_reachable opens_default hrun
  obtain ⟨hact, hreads⟩ := Prod.mk.inj heq
  exact ⟨s, hact, hreads, fills_delivered rfl hs hact⟩

def otherPages : DbufAct :=
  .start false { bufSize := 4096 } fun i => ⟨some (if i = 0 then 0x30000 else 0x40000), true⟩

/-- The mode is stopped with both slots queued and started anew; the first fill of the new
session goes to a buffer of the old one, and the read takes the slot for filled. -/
theorem stale_fill_delivered : ¬ ∀ (p : Params) (s : DbufRun), p.descBlenMax = xdmaDescBlenMax →
    Reachable (step p) Opens (SessionOk p) s → s.cdev.dbufActive = true → s.Delivered := by
  intro h
  have hrun : (run (step {}) (SessionOk {}) {} (startedRun ++ [.stop, otherPages] ++
    startedRun.tail ++ fill 7 ++
      readSlot 2)).map (fun s => (s.cdev.dbufActive, s.reads, s.fills.map (List.take 2))) =
        some (true, [(2, [0, 0])], [[7, 8]]) := by decide +kernel
  obtain ⟨s, hs, heq⟩ := exists_reachable opens_default hrun
  simp only [Prod.mk.injEq] at heq
  obtain ⟨hact, hreads, hfills⟩ := heq
  obtain ⟨f, hf, -, hr⟩ := (h {} s rfl hs hact).returned 0 2 [0, 0] (by simp [hreads])
  have htake := congrArg (·[0]?) hfills
  simp [hf, ← hr] at htake

end DbufRun

end XdmaDriver
