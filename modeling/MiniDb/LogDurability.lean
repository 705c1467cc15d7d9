import MiniDb.LogOpening

/-!
Records that a log accepts and what becomes of them. A record is accepted when it
enters the buffer, but whether a segment has a place for it is only seen when the
buffer is written. In a run in which every accepted record fits into a segment, each
of them can be flushed and is found again by the next manager; one record that does
not fit stays in the buffer, and with it everything accepted behind it.
-/
namespace MiniDb.Wal
open ByteString Outcome CrashFiles Stateful Wal.LogManager
open List hiding get

/-! Runs of a manager. -/

inductive LogRequest
  | append (record : LogRecord)
  | flushUpTo (target : Nat)
  | flushAll

/-- A manager and the records it has returned positions for, in that order. -/
structure LogHistory where
  state : LogState
  accepted : List LogRecord

variable {h : LogHistory}

def LogHistory.respond (h : LogHistory) : LogRequest → LogHistory
  | .append record =>
    match append record h.state with
    | .ok lsn state => ⟨state, h.accepted ++ [{ record with lsn }]⟩
    | .error _ state => { h with state }
  | .flushUpTo target => { h with state := finalState (flushUpTo target) h.state }
  | .flushAll => { h with state := finalState flushAll h.state }

def LogHistory.run (h : LogHistory) (requests : List LogRequest) : LogHistory :=
  requests.foldl LogHistory.respond h

/-- What the next manager scans. -/
def closeAndReopen (manager : LogManager) : EStateM DbError World WalScanResult := do
  LogManager.close manager
  let next ← LogManager.create manager.config
  let world ← get
  fromExcept (LogManager.scan ⟨next, world⟩)

/-- Every accepted record can be flushed, and the next manager finds them all behind
what there was before. -/
structure Durable (existing : List LogRecord) (h : LogHistory) : Prop where
  flushes : ∀ record ∈ h.accepted, Ensures (flushUpTo record.lsn) h.state
    (fun _ s => ∃ durable ∈ s.manager.durableLsn, record.lsn ≤ durable) fun _ _ => False
  reopens : Ensures (closeAndReopen h.state.manager) h.state.world
    (fun result _ => result.records = existing ++ h.accepted ∧ result.truncatedTail = false)
    fun _ _ => False

theorem LogHistory.respond_sameMode (h : LogHistory) (rq : LogRequest) :
    SameMode h.state (h.respond rq).state := by
  cases rq with
  | append r =>
    have hs := append_sameMode r h.state
    simp only [Ensures] at hs
    simp only [LogHistory.respond]
    split at hs <;> rename_i hc <;> rw [hc] <;> exact hs
  | flushUpTo tgt => exact (flushUpTo_sameMode tgt h.state).final
  | flushAll => exact (flushAll_sameMode h.state).final

theorem LogHistory.respond_flushAll (h : LogHistory) :
    h.respond .flushAll = h ∨ ∃ last, h.respond .flushAll = h.respond (.flushUpTo last) := by
  simp only [LogHistory.respond, finalState, LogManager.flushAll, run_get_bind]
  cases h.state.manager.lastAppendedLsn with
  | none => exact .inl rfl
  | some last => exact .inr ⟨last, rfl⟩

/-! What a run keeps. -/

/-- The positions a manager remembers: it knows those it returned, has none behind its
last one, and has flushed up to that one unless something is in the buffer. -/
structure Listed (s : LogState) (accepted : List LogRecord) : Prop where
  known : ∀ record ∈ accepted, record.lsn ∈ s.manager.knownLsns
  reached : ∀ record ∈ accepted, ∃ last ∈ s.manager.lastAppendedLsn, record.lsn ≤ last
  last : ∀ last ∈ s.manager.lastAppendedLsn, last ∈ s.manager.knownLsns ∧ last < s.manager.nextLsn
  durable : ∀ durable ∈ s.manager.durableLsn, ∃ last ∈ s.manager.lastAppendedLsn, durable ≤ last
  pending : s.manager.buffer ≠ [] → s.manager.durableLsn ≠ s.manager.lastAppendedLsn

/-- Everything accepted is on disk or in the buffer, in order, unless a record in the
buffer has no place in the segments. -/
def Carried (existing : List LogRecord) (start : Nat) (h : LogHistory) : Prop :=
  ∃ written stop buffered, Held h.state start written stop buffered ∧ buffered ⊆ h.accepted ∧
    InOrder h.state written stop buffered (existing ++ h.accepted)

structure LogHistory.Kept (existing : List LogRecord) (start : Nat) (config : LogConfig)
    (h : LogHistory) :
    Prop where
  config : h.state.manager.config = config
  listed : Listed h.state h.accepted
  carried : Carried existing start h

section
variable {s s' : LogState} {accepted exi : List LogRecord} {start stop : Nat} {cfg : LogConfig}
  {wr buf : List LogRecord}

theorem Listed.rebuffer (h : Listed s accepted) (hs : SameButBuffer s s')
    (hb : s.manager.buffer = [] → s'.manager.buffer = []) : Listed s' accepted := by
  have hk : s'.manager.knownLsns = s.manager.knownLsns := by rw [hs]
  have hl : s'.manager.lastAppendedLsn = s.manager.lastAppendedLsn := by rw [hs]
  have hd : s'.manager.durableLsn = s.manager.durableLsn := by rw [hs]
  refine ⟨?_, ?_, ?_, ?_, ?_⟩
  · rw [hk]
    exact h.known
  · rw [hl]
    exact h.reached
  · rw [hl, hk, hs.nextLsn]
    exact h.last
  · rw [hd, hl]
    exact h.durable
  · rw [hd, hl]
    exact fun hne => h.pending fun he => hne (hb he)

theorem Listed.append {rec : LogRecord} (h : Listed s accepted)
    (ha : Accepted s s' rec start wr stop buf) :
    Listed s' (accepted ++ [{ rec with lsn := s.manager.nextLsn }]) := by
  have hs : 0 < encodedSize rec := Nat.lt_of_lt_of_le (by decide) (Nat.le_add_right _ _)
  have hb : ∀ last ∈ s.manager.lastAppendedLsn, last ≤ s.manager.nextLsn :=
    fun last hm => Nat.le_of_lt (h.last last hm).2
  refine ⟨?_, ?_, ?_, ?_, ?_⟩
  · rw [ha.known]
    intro r hm
    rcases mem_append.mp hm with hm | hm
    · exact mem_cons_of_mem _ (h.known r hm)
    · rw [mem_singleton.mp hm]
      exact mem_cons_self
  · rw [ha.last]
    intro r hm
    refine ⟨_, rfl, ?_⟩
    rcases mem_append.mp hm with hm | hm
    · obtain ⟨last, hl, hle⟩ := h.reached r hm
      exact hle.trans (hb last hl)
    · rw [mem_singleton.mp hm]
  · rw [ha.last, ha.known, ha.next]
    intro last hm
    obtain rfl := Option.some.inj hm
    exact ⟨mem_cons_self, Nat.lt_add_of_pos_right hs⟩
  · rw [ha.durable, ha.last]
    intro durable hm
    obtain ⟨last, hl, hle⟩ := h.durable durable hm
    exact ⟨_, rfl, hle.trans (hb last hl)⟩
  · rw [ha.durable, ha.last]
    intro _ hd
    obtain ⟨last, hl, hle⟩ := h.durable _ hd
    exact absurd hle (Nat.not_le_of_lt (h.last last hl).2)

theorem Listed.flush (h : Listed s accepted) (hf : Flushed s s' start wr stop buf) :
    Listed s' accepted := by
  have hl : s'.manager.lastAppendedLsn = s.manager.lastAppendedLsn := by rw [hf.same]
  have hd : s'.manager.durableLsn = s.manager.lastAppendedLsn := by rw [hf.same]
  have hn : s'.manager.nextLsn = s.manager.nextLsn := by rw [hf.same]
  have hk : s'.manager.knownLsns = s.manager.knownLsns := by rw [hf.same]
  have hb : s'.manager.buffer = [] := by rw [hf.same]
  refine ⟨?_, ?_, ?_, ?_, fun hne => absurd hb hne⟩
  · rw [hk]
    exact h.known
  · rw [hl]
    exact h.reached
  · rw [hl, hk, hn]
    exact h.last
  · rw [hd, hl]
    exact fun durable hm => ⟨durable, hm, le_rfl⟩

section
variable (hkept : h.Kept exi start cfg)
include hkept

/-- A call that finds no place for the buffer. -/
theorem LogHistory.Kept.intact (hi : ∀ wr stop buf, Held h.state start wr stop buf →
      Intact h.state s' start wr stop buf) :
    LogHistory.Kept exi start cfg { h with state := s' } := by
  obtain ⟨hc, hl, wr, stop, buf, hh, hs, ho⟩ := hkept
  obtain ⟨hm, hb, wr', stop', buf', hh', hs', ho'⟩ := hi _ _ _ hh
  exact ⟨hm.config.trans hc, hl.rebuffer hm hb, wr', stop', buf', hh',
    List.Subset.trans hs' hs, ho' _ ho⟩

theorem LogHistory.Kept.flushUpTo (tgt : Nat) :
    LogHistory.Kept exi start cfg
      { h with state := finalState (LogManager.flushUpTo tgt) h.state } := by
  obtain ⟨wr, stop, buf, hh, hs, hr⟩ := hkept.carried
  have he := flushUpTo_ensures hh tgt
  cases hl : LogManager.flushUpTo tgt h.state with
  | ok _ s' =>
    rw [ensures_of_ok hl] at he
    rw [finalState, hl]
    rcases he with ⟨rfl, _⟩ | hf
    · exact hkept
    · have hc : s'.manager.config = h.state.manager.config := by rw [hf.same]
      obtain ⟨ho, hrc⟩ := hf.ordered _ hr
      exact ⟨hc.trans hkept.config, hkept.listed.flush hf, _, _, [], hf.held,
        nil_subset _, .inl ⟨ho, by rw [append_nil, hrc]⟩⟩
  | error e s' =>
    rw [finalState, hl]
    refine hkept.intact fun wr stop buf hh => ?_
    have he := flushUpTo_ensures hh tgt
    simp only [Ensures, hl] at he
    exact he.2

theorem LogHistory.Kept.append (rec : LogRecord) :
    LogHistory.Kept exi start cfg (h.respond (.append rec)) := by
  cases hc : LogManager.append rec h.state with
  | ok lsn s' =>
    simp only [LogHistory.respond, hc]
    obtain ⟨wr, stop, buf, hh, hs, ho⟩ := hkept.carried
    have he := append_ensures hh rec
    rw [ensures_of_ok hc] at he
    obtain ⟨rfl, ha⟩ := he
    obtain ⟨wr', stop', buf', hh', hs', ho'⟩ := ha.held
    refine ⟨ha.config.trans hkept.config, hkept.listed.append ha, wr', stop', buf',
      hh', List.Subset.trans hs' ?_, ?_⟩
    · exact append_subset.mpr ⟨fun r hm => mem_append_left _ (hs hm), subset_append_right _ _⟩
    · rw [← append_assoc]
      exact ho' _ ho
  | error e s' =>
    simp only [LogHistory.respond, hc]
    refine hkept.intact fun wr stop buf hh => ?_
    have he := append_ensures hh rec
    simp only [Ensures, hc] at he
    exact he

theorem LogHistory.Kept.respond (rq : LogRequest) :
    LogHistory.Kept exi start cfg (h.respond rq) := by
  cases rq with
  | append r => exact hkept.append r
  | flushUpTo tgt => exact hkept.flushUpTo tgt
  | flushAll =>
    rcases h.respond_flushAll with he | ⟨last, he⟩ <;> rw [he]
    · exact hkept
    · exact hkept.flushUpTo last

theorem LogHistory.Kept.run (rqs : List LogRequest) :
    LogHistory.Kept exi start cfg (h.run rqs) := by
  induction rqs generalizing h with
  | nil => exact hkept
  | cons rq rqs ih => exact ih (hkept.respond rq)

end

theorem LogHistory.run_sameMode (h : LogHistory) (rqs : List LogRequest) :
    SameMode h.state (h.run rqs).state := by
  induction rqs generalizing h with
  | nil => exact rfl
  | cons rq rqs ih => exact (ih (h.respond rq)).trans (h.respond_sameMode rq)

theorem Opened.kept {mgr : LogManager} {w : World} (h : Opened cfg mgr w start exi) :
    LogHistory.Kept exi start cfg ⟨⟨mgr, w⟩, []⟩ := by
  refine ⟨h.config, ⟨by simp, by simp, ?_, ?_, fun hne => absurd h.empty hne⟩,
    exi, _, [], h.held, nil_subset _, .inl ⟨rfl, rfl⟩⟩
  · intro last hm
    obtain ⟨hk, r, hr, rfl⟩ := h.listed last hm
    obtain ⟨bs, hen, hed⟩ := h.held.disk.encodes
    refine ⟨hk, ?_⟩
    rw [← h.held.buffered.stop, hed]
    exact (hen.lsn_le hr).2.trans_le (Nat.le_add_right _ _)
  · intro durable hm
    refine ⟨durable, ?_, le_rfl⟩
    rw [← h.durable]
    exact hm

/-! Flushing, closing and opening again. -/

/-- What the next manager finds: everything if the last flush could write it, and
never a record that has no place in the segments. -/
theorem closeAndReopen_run (h : Held s start wr stop buf)
    (hc : s.manager.config.bufferCapacity ≠ 0) :
    ∃ res w', closeAndReopen s.manager s.world = .ok res w' ∧
      res.truncatedTail = false ∧ (s.manager.segmented.isSome → Fits s res.records) ∧
      (Flushable s stop buf → res.records = wr ++ buf) := by
  obtain ⟨world₁, wr', hl, hs, hm, ha⟩ := close_stored h
  obtain ⟨next, world₂, hr, ho⟩ := create_stored hc hs
  have hsc : scan ⟨next, world₂⟩ =
      .ok ⟨wr', false, next.bufferStartOffset, next.bufferStartOffset, start⟩ := by
    rw [scan, scanIncludingBuffer, ho.held.disk.scan, ok_bind, if_pos (.inr ho.empty)]
    rfl
  refine ⟨_, world₂, (run_bind hl).trans ((run_bind hr).trans (run_get_bind.trans
    (run_fromExcept_ok.mpr ⟨hsc, rfl⟩))), rfl, fun hsm => ?_, ha⟩
  exact (LogFound.stored hs).fits (hm.trans hsm)

/-- Nothing stands in the way of the buffer if every record has a place. -/
theorem unstuck_of_fits (ha : stop = s.manager.bufferStartOffset)
    (hf : s.manager.segmented.isSome → Fits s buf)
    (hl : s.manager.segmented.isSome = false → s.manager.nextLsn ≤ fileOffsetMax) :
    ¬ Stuck s stop buf := by
  unfold Stuck
  split
  · rename_i hs
    exact not_not_intro ⟨ha.symm, hf hs⟩
  · rename_i hn
    exact (hl (Bool.eq_false_iff.mpr hn)).not_gt

theorem Listed.contains {lsn : Nat} (h : Listed s accepted) (hv : isValidLsn s.manager.nextLsn)
    (hk : lsn ∈ s.manager.knownLsns) (hr : ∃ last ∈ s.manager.lastAppendedLsn, lsn ≤ last) :
    containsLsn s lsn = true := by
  obtain ⟨last, hs, hle⟩ := hr
  unfold containsLsn
  cases s.manager.segmented with
  | some stg => simp [hk]
  | none =>
    have hl : isValidLsn lsn :=
      Nat.lt_of_le_of_lt hle (Nat.lt_trans (h.last last hs).2 hv)
    simp [hk, hl]

/-- Something in the buffer is something the last flush has to write. -/
theorem Listed.unflushed (h : Listed s accepted) (hh : Held s start wr stop buf) :
    s.manager.buffer = [] ∨ ∃ last ∈ s.manager.lastAppendedLsn, containsLsn s last = true ∧
      ∀ durable ∈ s.manager.durableLsn, durable < last := by
  by_cases hb : s.manager.buffer = []
  · exact .inl hb
  · have hs : s.manager.lastAppendedLsn ≠ none := by
      intro hn
      refine h.pending hb (Eq.trans (Option.eq_none_iff_forall_not_mem.mpr ?_) hn.symm)
      intro durable hd
      obtain ⟨last, hm, _⟩ := h.durable durable hd
      rw [hn] at hm
      exact absurd hm (by simp)
    obtain ⟨last, hm⟩ := Option.ne_none_iff_exists'.mp hs
    refine .inr ⟨last, hm, h.contains hh.buffered.valid (h.last last hm).1
      ⟨last, hm, le_rfl⟩, fun durable hd => ?_⟩
    obtain ⟨last', hm', hle⟩ := h.durable durable hd
    obtain rfl : last = last' := Option.some.inj (hm.symm.trans hm')
    refine Nat.lt_of_le_of_ne hle fun heq => h.pending hb ?_
    rw [hm, ← heq]
    exact hd

/-- A log in which every record has a place makes them all durable. -/
theorem LogHistory.Kept.durable (hkept : h.Kept exi start cfg) (hc : cfg.bufferCapacity ≠ 0)
    (hlm : h.state.manager.segmented.isSome = false → h.state.manager.nextLsn ≤ fileOffsetMax)
    (ht : h.state.manager.segmented.isSome → Fits h.state h.accepted) : Durable exi h := by
  obtain ⟨hf, hl, wr, stop, buf, hh, hs, hor⟩ := hkept
  have hb : h.state.manager.segmented.isSome → Fits h.state buf :=
    fun hsm r hm => ht hsm r (hs hm)
  obtain ⟨ho, he⟩ := hor.aligned hb
  have hu := unstuck_of_fits ho hb hlm
  refine ⟨fun r hm => ?_, ?_⟩
  · have hrc := hl.reached r hm
    have hn := hl.contains hh.buffered.valid (hl.known r hm) hrc
    refine (flushUpTo_ensures hh r.lsn).imp ?_ ?_
    · rintro _ s' (⟨rfl, hd⟩ | hfl)
      · exact hd
      · rw [hfl.same]
        exact hrc
    · rintro _ s' ⟨hms | hst, _⟩
      · rw [hn] at hms
        exact absurd hms (by simp)
      · exact absurd hst hu
  · obtain ⟨res, w', hr, htl, _, ha⟩ := closeAndReopen_run hh (by rw [hf]; exact hc)
    rw [ensures_of_ok hr]
    exact ⟨(ha ⟨ho, hu, hl.unflushed hh⟩).trans he, htl⟩

/-- A record that has no place is not found by the next manager. -/
theorem LogHistory.Kept.fits_of_durable (hkept : h.Kept exi start cfg)
    (hc : cfg.bufferCapacity ≠ 0) (hd : Durable exi h)
    (hs : h.state.manager.segmented.isSome) : Fits h.state (exi ++ h.accepted) := by
  obtain ⟨hf, _, wr, stop, buf, hh, _⟩ := hkept
  obtain ⟨res, w', hr, _, ht, _⟩ := closeAndReopen_run hh (by rw [hf]; exact hc)
  rw [← ((ensures_of_ok hr).mp hd.reopens).1]
  exact ht hs

/-- Along every run of a manager that was opened on a new or an existing log, all the
accepted records can be made durable just when each of them fits into a segment, if the
log is in segments. The single file has to stay within the limits of the platform. -/
theorem accepted_records_durable {manager : LogManager} {world world' : World}
    (hfound : LogFound cfg world.volume start exi)
    (hcreate : create cfg world = .ok manager world') (requests : List LogRequest)
    (hlimit : opensSegmented cfg world.volume = false →
      (LogHistory.run ⟨⟨manager, world'⟩, []⟩ requests).state.manager.nextLsn ≤ fileOffsetMax) :
    Durable exi (LogHistory.run ⟨⟨manager, world'⟩, []⟩ requests) ↔
      (opensSegmented cfg world.volume = true →
        ∀ record ∈ (LogHistory.run ⟨⟨manager, world'⟩, []⟩ requests).accepted,
          encodedSize record ≤ cfg.segmentPayloadCapacity.toNat) := by
  have hcapacity := bufferCapacity_of_create hcreate
  have hkept := (create_found hfound hcreate).kept.run requests
  have hmode : (LogHistory.run ⟨⟨manager, world'⟩, []⟩ requests).state.manager.segmented.isSome =
      opensSegmented cfg world.volume :=
    (LogHistory.run_sameMode ⟨⟨manager, world'⟩, []⟩ requests).trans (create_mode hcreate)
  generalize LogHistory.run ⟨⟨manager, world'⟩, []⟩ requests = h at hkept hmode hlimit ⊢
  rw [← hmode] at hlimit ⊢
  constructor
  · intro hdurable hsome record hmem
    rw [← hkept.config]
    exact hkept.fits_of_durable hcapacity hdurable hsome record (mem_append_right _ hmem)
  · intro hfits
    refine hkept.durable hcapacity hlimit fun hsome record hmem => ?_
    rw [hkept.config]
    exact hfits hsome record hmem

end

/-! A record that fits, and one that does not. -/

def payloadRecord (size : Nat) : LogRecord :=
  ⟨.pageUpdate, 1, 0xFFFFFFFFFFFFFFFF, List.replicate size 0, 0⟩

theorem smallSegments_found : LogFound smallSegments Volume.empty walHeaderSize [] :=
  .missing (by rw [LogMissing, if_pos (by decide)]; rfl) rfl rfl

theorem accepted_records_durable_small :
    ∃ manager world, create smallSegments ⟨.empty, [], true⟩ = .ok manager world ∧
      Durable [] (LogHistory.run ⟨⟨manager, world⟩, []⟩
        [.append (payloadRecord 80), .append (payloadRecord 0), .flushUpTo 64,
          .append (payloadRecord 8)]) := by
  have hcheck : returnsWith (create smallSegments ⟨.empty, [], true⟩) (fun manager world =>
      (LogHistory.run ⟨⟨manager, world⟩, []⟩ [.append (payloadRecord 80), .append (payloadRecord 0),
        .flushUpTo 64, .append (payloadRecord 8)]).accepted.all (encodedSize · ≤ 128)) = true := by
    decide +kernel
  simp only [returnsWith_iff, all_eq_true, decide_eq_true_eq] at hcheck
  obtain ⟨manager, world, hcreate, hsizes⟩ := hcheck
  refine ⟨manager, world, hcreate,
    (accepted_records_durable smallSegments_found hcreate _ ?_).mpr fun _ => hsizes⟩
  intro hlegacy
  exact absurd hlegacy (by decide)

/-- A record of 129 bytes is accepted by a log whose segments hold 128, and no flush
returns for it. -/
theorem accepted_record_is_stuck :
    ∃ manager world, create smallSegments ⟨.empty, [], true⟩ = .ok manager world ∧
      ¬ Durable [] (LogHistory.run ⟨⟨manager, world⟩, []⟩ [.append (payloadRecord 81)]) := by
  have hcheck : returnsWith (create smallSegments ⟨.empty, [], true⟩) (fun manager world =>
      let h := LogHistory.run ⟨⟨manager, world⟩, []⟩ [.append (payloadRecord 81)]
      decide (64 ∈ h.accepted.map (·.lsn)) && !returnsWith (flushUpTo 64 h.state) fun _ _ => true) =
        true := by
    decide +kernel
  simp only [returnsWith_iff, Bool.and_eq_true, decide_eq_true_eq, mem_map, Bool.not_eq_true']
    at hcheck
  obtain ⟨manager, world, hcreate, ⟨record, hmem, hlsn⟩, hflush⟩ := hcheck
  refine ⟨manager, world, hcreate, fun hdurable => ?_⟩
  have hreturns := hdurable.flushes record hmem
  rw [hlsn] at hreturns
  obtain ⟨_, _, hcall, _⟩ := hreturns.returns
  rw [hcall] at hflush
  cases hflush

end MiniDb.Wal
