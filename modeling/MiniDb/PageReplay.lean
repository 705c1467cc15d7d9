import MiniDb.TransactionLog

/-!
What the update records of a page say about its contents. Replaying them, oldest
first, on the contents that preceded them gives the contents the last of them was
written for, in every encoding a record can have. Contents are compared with the
PageLSN slot cleared, since no record describes the slot.
-/
namespace MiniDb
open ByteBlock Outcome TransactionContext LogPayload List

variable {log log' : LogManager} {pl : LogPayload} {lsn p : Nat} {aft : Page}
  {ctx ctx' : TransactionContext}

def LogPayload.updatedPage (payload : LogPayload) : Option Nat :=
  payload.pageUpdateIdentity.map (·.pageId)

def writeAfterBytes (page : Page) (ranges : List PageByteRange) : Page :=
  ranges.foldl (fun page range => writeBytes page range.offset range.afterBytes) page

/-- The contents of a page once an update record was replayed on it. -/
def LogPayload.contentsAfter (payload : LogPayload) (page : Page) : Page :=
  match payload with
  | .pageUpdate update => normalized update.afterImage
  | .pageUpdateV2 update => normalized update.afterImage
  | .pageDeltaUpdate update => normalized (writeAfterBytes page update.ranges)
  | .pageDeltaUpdateV2 update => normalized (writeAfterBytes page update.ranges)
  | _ => page

def replayRecord (p : Nat) (page : Page) (record : LogRecord) : Page :=
  if record.payload.updatedPage = some p then record.payload.contentsAfter page else page

def replay (p : Nat) (records : List LogRecord) (page : Page) : Page :=
  records.foldl (replayRecord p) page

theorem replay_append (p : Nat) (left right : List LogRecord) (pg : Page) :
    replay p (left ++ right) pg = replay p right (replay p left pg) :=
  foldl_append

/-- The log went on without an update of the page. -/
def QuietOn (p : Nat) (log log' : LogManager) : Prop :=
  ∃ added, log'.records = log.records ++ added ∧
    ∀ record ∈ added, record.payload.updatedPage ≠ some p

theorem QuietOn.of_records (p : Nat) (h : log'.records = log.records) : QuietOn p log log' :=
  ⟨[], by simp [h], by simp⟩

theorem QuietOn.trans {a b c : LogManager} (ha : QuietOn p a b) (hb : QuietOn p b c) :
    QuietOn p a c := by
  obtain ⟨left, hl, hu⟩ := ha
  obtain ⟨right, hr, hq⟩ := hb
  refine ⟨left ++ right, by rw [hr, hl, append_assoc], ?_⟩
  intro r hm
  rcases mem_append.mp hm with hm | hm
  · exact hu r hm
  · exact hq r hm

theorem QuietOn.append {tid : Nat} {pv : Option Nat} (hp : pl.updatedPage ≠ some p)
    (h : log.append tid pv pl = .ok (log', lsn)) : QuietOn p log log' := by
  refine ⟨_, (append_extends h).records, ?_⟩
  intro r hm
  rw [mem_singleton.mp hm]
  exact hp

theorem replay_quiet {added : List LogRecord} (h : ∀ rec ∈ added, rec.payload.updatedPage ≠ some p)
    (pg : Page) : replay p added pg = pg := by
  induction added with
  | nil => rfl
  | cons rec added ih =>
    have hf : replayRecord p pg rec = pg := if_neg (h rec mem_cons_self)
    simp only [replay, foldl_cons, hf]
    exact ih fun r hr => h r (mem_cons_of_mem _ hr)

theorem QuietOn.ensureBeginLogged (p : Nat) (h : ctx.ensureBeginLogged log = .ok (ctx', log')) :
    QuietOn p log log' := by
  rcases ensureBeginLogged_ok h with ⟨_, _, rfl⟩ | ⟨_, _, ha⟩
  · exact .of_records p rfl
  · refine .append ?_ ha
    unfold beginPayload
    cases ctx.rollbackProtocol <;> simp [updatedPage, pageUpdateIdentity]

theorem QuietOn.appendTransactionRecord (hp : pl.updatedPage ≠ some p)
    (h : ctx.appendTransactionRecord log pl = .ok (ctx', log', lsn)) : QuietOn p log log' := by
  obtain ⟨begun, mid, hb, ha, _⟩ :=
    appendTransactionRecord_ok h
  exact (QuietOn.ensureBeginLogged p hb).trans (.append hp ha)

theorem QuietOn.reserved {exp : Nat} (p : Nat)
    (h : ctx.prepareForPhysicalPageAppend log exp = .ok (ctx', log', lsn)) :
    QuietOn p log log' := by
  obtain ⟨begun, mid, hb, hr⟩ := prepareForPhysicalPageAppend_ok h
  refine (QuietOn.ensureBeginLogged p hb).trans ?_
  rcases reservePage_ok hr with ⟨_, rfl, _⟩ | ⟨_, ha, _⟩
  · exact .of_records p rfl
  · refine .appendTransactionRecord ?_ ha
    simp [updatedPage, pageUpdateIdentity]

theorem writeAfterBytes_computePageDelta (pg bef aft : Page) (req : Nat → Bool) :
    writeAfterBytes pg (computePageDelta bef aft req) =
      overlay pg aft (deltaIncludes bef aft req) := by
  rw [writeAfterBytes, computePageDelta, foldl_map]
  exact overlay_of_slices pg aft _

/-- An image that has every byte of `after`, or of `after` with its slot cleared. -/
theorem sameContents_of_bytes {a : Page}
    (h : ∀ i, byteAt a i = byteAt aft i ∨ byteAt a i = byteAt (normalized aft) i) :
    SameContents a aft := by
  cases hs : pageLsnSlot aft with
  | none =>
    have hm : normalized aft = aft := by simp only [normalized, hs]
    rw [hm] at h
    rw [eq_of_byteAt fun i _ => (h i).elim id id]
    exact .refl aft
  | some offset =>
    have hb := pageLsnSlot_bounds hs
    have hc : normalized aft = writeUint64 aft offset 0 := by
      simp only [normalized, hs]
    have ho : ∀ i, i < offset ∨ offset + 8 ≤ i → byteAt a i = byteAt aft i := by
      intro i hi
      rcases h i with heq | heq
      · exact heq
      · rw [heq, hc]
        exact byteAt_writeLe_outside aft hi
    have hs' : pageLsnSlot a = some offset := by
      rw [pageLsnSlot_congr (persistentPageLsnSlot_congr fun i hi => ho i (by omega)), hs]
    show normalized a = normalized aft
    rw [hc]
    simp only [normalized, hs']
    exact writeLe_eq_of_agree fun i _ hi => ho i hi

/-- Replayed on the contents that preceded it, an update record gives the contents
it was written for. -/
theorem Describes.contentsAfter {pageId : Nat} {state : PageState} {previous : Page}
    (h : Describes pageId state previous aft pl) : pl.contentsAfter previous = normalized aft := by
  obtain ⟨mode, aware, state', _, _, hb, hp⟩ := h.payload
  have hf : (fullPayload aware pageId state' (normalized state.before) (normalized aft)
      aft).contentsAfter previous = normalized aft := by
    cases aware with
    | true => exact normalized_normalized aft
    | false => rfl
  have hd : (deltaPayload aware pageId state' (normalized state.before) (normalized aft)
      aft).contentsAfter previous = normalized aft := by
    cases aware with
    | true =>
      simp only [deltaPayload, if_true, LogPayload.contentsAfter, writeAfterBytes_computePageDelta]
      refine Eq.trans (sameContents_of_bytes ?_) (normalized_normalized aft)
      intro i
      rw [byteAt_overlay]
      split
      · exact .inl rfl
      · rename_i hn
        simp only [deltaIncludes, Bool.or_eq_true, not_or, Bool.not_eq_true] at hn
        exact .inl (hb i hn.2)
    | false =>
      simp only [deltaPayload, Bool.false_eq_true, if_false, LogPayload.contentsAfter,
        writeAfterBytes_computePageDelta]
      refine sameContents_of_bytes ?_
      intro i
      rw [byteAt_overlay]
      split
      · exact .inl rfl
      · rename_i hn
        simp only [deltaIncludes, Bool.or_eq_true, not_or, Bool.not_eq_true] at hn
        exact .inr (hb i hn.2)
  rw [hp]
  cases mode with
  | fullPage => exact hf
  | byteRange => exact hd
  | adaptive =>
    simp only [updatePayload]
    split
    · exact hd
    · exact hf

/-- What a preparation adds to the log brings the page from the contents recorded
before to those recorded after, and concerns no other page. -/
theorem prepareOutcome_replays {mode : WalUpdateMode} {formatVersion : Nat}
    {prepared : PreparedPage}
    {state : PageState} (h : ctx.PrepareOutcome log mode formatVersion p aft prepared)
    (hs : ctx.pages.find? p = some state) :
    ∃ added, prepared.log.records = log.records ++ added ∧
      replay p added (state.latestAfter.getD (normalized state.before)) = normalized aft ∧
      ∀ record ∈ added, record.payload.updatedPage = some p → prepared.lsn = some record.lsn := by
  cases h with
  | absent hp => simp [hp] at hs
  | @unchanged old hold _ _ hsm =>
    rw [hold] at hs
    cases hs
    exact ⟨[], by simp, hsm, by simp⟩
  | @logged old _ hold haft hbef _ hlgd =>
    rw [hold] at hs
    cases hs
    obtain ⟨pl, appended, log', lsn, hd, ha, _, hg, hl⟩ :=
      logged_describes haft hbef hlgd
    obtain ⟨begun, middle, hb, ha, _⟩ :=
      appendTransactionRecord_ok ha
    obtain ⟨started, hsr, hq⟩ := QuietOn.ensureBeginLogged p hb
    have hp : pl.updatedPage = some p := by
      simp [updatedPage, hd.identity]
    obtain ⟨hl', _⟩ := append_ok ha
    refine ⟨started ++ [⟨ctx.transactionId, begun.lastLsn, pl, middle.nextLsn⟩], ?_, ?_, ?_⟩
    · rw [hg, (append_extends ha).records, hsr, append_assoc]
    · rw [replay_append, replay_quiet hq]
      show replayRecord p state.current _ = _
      rw [replayRecord, if_pos hp]
      exact hd.contentsAfter
    · intro record hm hr
      rcases mem_append.mp hm with hm | hm
      · exact absurd hr (hq record hm)
      · rw [mem_singleton.mp hm, hl, hl']

theorem prepareOutcome_quiet {mode : WalUpdateMode} {formatVersion q : Nat} {prep : PreparedPage}
    (h : ctx.PrepareOutcome log mode formatVersion p aft prep) (hq : q ≠ p) :
    QuietOn q log prep.log := by
  cases h with
  | absent => exact .of_records q rfl
  | unchanged => exact .of_records q rfl
  | logged _ haft hbef _ hlgd =>
    obtain ⟨pl, app, log', lsn, hd, ha, _, hl, _⟩ :=
      logged_describes haft hbef hlgd
    rw [hl]
    refine .appendTransactionRecord ?_ ha
    simp [updatedPage, hd.identity, Ne.symm hq]

end MiniDb
