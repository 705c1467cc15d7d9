import MiniDb.TransactionLog

/-!
What undo does to disk and log when it returns normally. The walk of one chain
ends with every page of an undone update back at the contents its transaction
found, and with no other page of the start extent changed.
-/
namespace MiniDb
open ByteBlock Outcome Engine TransactionContext LogPayload Storage List

variable {readUndoBase : DiskManager → Nat → Result Page} {rest : List LogRecord}
  {losers : List Loser} {pl : LogPayload} {rec : LogRecord} {loser' : Loser}
  {begin lsn p pid rounds tid : Nat} {pv : Option Nat} {img : Page}
  {st : PageState} {s s' : Storage} {ctx : TransactionContext}

/-- One compensation: the record is forced, then the page written and synced. -/
structure Compensated (s s' : Storage) (loser : Loser) (record : LogRecord) (pageId : Nat)
    (image : Page) : Prop where
  recognised : Recognised image
  log : ∃ log, s.log.append loser.transactionId (some loser.lastLsn) (.compensation
      ⟨pageId, (pageLsnSlot image).isSome, record.prevLsn, record.lsn, image⟩) =
      .ok (log, s.log.nextLsn) ∧ log.flushUpTo s.log.nextLsn = .ok s'.log
  disk : ∃ disk, WrotePage s.disk disk pageId (stamped image s.log.nextLsn) ∧ s'.disk = disk.sync

theorem storage_append_ok (h : s.append tid pv pl = .ok (s', lsn)) :
    s.log.append tid pv pl = .ok (s'.log, s.log.nextLsn) ∧
      lsn = s.log.nextLsn ∧ s'.disk = s.disk := by
  simp only [append, ok_iff, attempt_ok, Prod.exists] at h
  obtain ⟨log, lsn', ha, rfl, rfl⟩ := h
  have hl := (append_ok ha).1
  subst hl
  exact ⟨ha, rfl, rfl⟩

theorem storage_flushUpTo_ok (h : s.flushUpTo lsn = .ok s') :
    s.log.flushUpTo lsn = .ok s'.log ∧ s'.disk = s.disk := by
  simp only [flushUpTo, map_ok, attempt_ok] at h
  obtain ⟨log, hf, rfl⟩ := h
  exact ⟨hf, rfl⟩

/-- A record that was appended and forced, with the disk as it was. -/
structure Noted (s s' : Storage) (transactionId : Nat) (prevLsn : Option Nat)
    (payload : LogPayload) : Prop where
  log : ∃ log, s.log.append transactionId prevLsn payload = .ok (log, s.log.nextLsn) ∧
    log.flushUpTo s.log.nextLsn = .ok s'.log
  disk : s'.disk = s.disk

theorem appendForced_noted (h : s.appendForced tid pv pl = .ok (s', lsn)) :
    Noted s s' tid pv pl ∧ lsn = s.log.nextLsn := by
  simp only [appendForced, ok_iff, Prod.exists] at h
  obtain ⟨app, lsn', ha, frc, hfl, rfl, rfl⟩ := h
  obtain ⟨hl, rfl, hd⟩ := storage_append_ok ha
  obtain ⟨hf, hd'⟩ := storage_flushUpTo_ok hfl
  exact ⟨⟨⟨_, hl, hf⟩, hd'.trans hd⟩, rfl⟩

theorem Noted.grows (h : Noted s s' tid pv pl) : LogGrows s.log s'.log := by
  obtain ⟨log, ha, hf⟩ := h.log
  exact (Relation.ReflTransGen.single (.append ha)).tail (.flush hf)

theorem Noted.records (h : Noted s s' tid pv pl) :
    s'.log.records = s.log.records ++ [⟨tid, pv, pl, s.log.nextLsn⟩] := by
  obtain ⟨log, ha, hf⟩ := h.log
  rw [(flushUpTo_fields hf).1, (append_extends ha).records]

theorem compensate_compensated {loser : Loser}
    (h : compensate s loser rec pid img = .ok (s', loser')) :
    Compensated s s' loser rec pid img ∧ loser' = { loser with lastLsn := s.log.nextLsn } := by
  simp only [compensate, ok_iff, attempt_ok, Prod.exists, supportsPersistentPageLsn_ok] at h
  obtain ⟨_, ⟨hc, rfl⟩, app, lsn, ha, frc, hfl, pg, hp, wr, hw, rfl, rfl⟩ := h
  obtain ⟨hl, rfl, hd⟩ := storage_append_ok ha
  obtain ⟨hf, hd'⟩ := storage_flushUpTo_ok hfl
  simp only [writePhysicalPage, map_ok, attempt_ok] at hw
  obtain ⟨disk, hw, rfl⟩ := hw
  have ht : pg = stamped img s.log.nextLsn := by
    rcases writeLsnIfSupported_ok hp with ⟨_, _, _, hr⟩ | ⟨hs, hr⟩
    · exact hr
    · rw [hr]
      exact (stamped_of_no_slot (by simpa using hs) _).symm
  subst ht
  rw [hd', hd] at hw
  exact ⟨⟨hc, ⟨_, hl, hf⟩, disk, writePhysicalPage_wrote hw, rfl⟩, rfl⟩

theorem Compensated.noted {loser : Loser} (h : Compensated s s' loser rec pid img) :
    Noted s { s with log := s'.log } loser.transactionId (some loser.lastLsn) (.compensation
      ⟨pid, (pageLsnSlot img).isSome, rec.prevLsn, rec.lsn, img⟩) :=
  ⟨h.log, rfl⟩

theorem continueAt_ok {loser : Loser} {tgt : Option Nat}
    (h : loser.continueAt s tgt = .ok (s', loser')) :
    s' = s ∧ ∃ next, tgt = some next ∧ loser' = { loser with undoNextLsn := some next } := by
  simp only [Loser.continueAt, ok_iff, attempt_ok] at h
  obtain ⟨next, hn, rfl, rfl⟩ := h
  cases tgt with
  | none => simp [requireTarget] at hn
  | some lsn =>
    simp only [requireTarget, Except.ok.injEq] at hn
    subst hn
    exact ⟨rfl, lsn, rfl, rfl⟩

/-- An update of an existing page, undone from its original image, restores the
contents of that image in every encoding of the record. -/
theorem compensatedPageFor_describes {previous after : Page} {readUndoBase : Nat → Result Page}
    (h : Describes pid st previous after rec.payload)
    (hb : ∀ base, readUndoBase pid = .ok base → base = st.before)
    (hi : compensatedPageFor rec readUndoBase = .ok img) : img = normalized st.before := by
  obtain ⟨mode, aware, st', ho, _, _, hp⟩ := h.payload
  simp only [compensatedPageFor, bind_ok, map_ok, clearIfSupported_ok] at hi
  obtain ⟨raw, hr, _, ⟨_, rfl⟩, rfl⟩ := hi
  have hf : rec.payload = fullPayload aware pid st' (normalized st.before)
      (normalized after) after → SameContents raw st.before := by
    intro hp
    unfold beforeImageOf at hr
    cases aware with
    | true =>
      simp only [hp, fullPayload, if_true, Except.ok.injEq] at hr
      subst hr
      exact sameContents_normalized st.before
    | false =>
      simp only [hp, fullPayload, Bool.false_eq_true, if_false, Except.ok.injEq] at hr
      subst hr
      rw [ho.before]
      exact .refl _
  have hl : rec.payload = deltaPayload aware pid st' (normalized st.before)
      (normalized after) after → SameContents raw st.before := by
    intro hp
    unfold beforeImageOf at hr
    cases aware with
    | true =>
      simp only [hp, deltaPayload, if_true, bind_ok,
        clearPersistentPageLsn_ok, PageDeltaUpdateV2LogPayload.logical] at hr
      obtain ⟨base, hd, _, ⟨_, rfl⟩, ha⟩ := hr
      rw [applyPageDeltaBefore_computePageDelta ha, hb base hd, overlay_self]
      exact sameContents_normalized st.before
    | false =>
      simp only [hp, deltaPayload, Bool.false_eq_true, if_false, bind_ok] at hr
      obtain ⟨base, hd, ha⟩ := hr
      rw [applyPageDeltaBefore_computePageDelta ha, hb base hd, ho.before, overlay_self]
      exact .refl _
  cases mode with
  | fullPage => exact hf hp
  | byteRange => exact hl hp
  | adaptive =>
    simp only [updatePayload] at hp
    split at hp
    · exact hl hp
    · exact hf hp

def LogPayload.isUndo : LogPayload → Bool
  | .compensation _ | .abort | .rollbackCleanupBegin _ | .rollbackCleanupIntent _
  | .rollbackCleanupProgress _ | .pageReclaim _ => true
  | _ => false

/-- A record that undo adds, of the transaction it undoes or of the system. -/
structure UndoRecord (transactionId : Nat) (record : LogRecord) : Prop where
  author : record.transactionId = transactionId ∨ record.transactionId = 0
  kind : record.payload.isUndo = true

theorem UndoRecord.noUpdate (h : UndoRecord tid rec) : rec.payload.pageUpdateIdentity = none := by
  have hk := h.kind
  cases hp : rec.payload <;> first | rfl | simp [hp, isUndo] at hk

/-- What undo keeps of a storage below the extent `start`: `undone p` says what
became of page `p`. -/
structure Undone (s s' : Storage) (transactionId start : Nat) (undone : Nat → Page → Prop) :
    Prop where
  grows : LogGrows s.log s'.log
  adds : ∀ record ∈ s'.log.records, record ∈ s.log.records ∨ UndoRecord transactionId record
  pages : ∀ p, p < start → undone p (s'.disk.page p)
  extent : start ≤ s'.disk.pageCount
  header : deserializeDatabaseHeader (s'.disk.page 0) = .ok s'.disk.databaseHeader

theorem Compensated.pages {loser : Loser} (h : Compensated s s' loser rec pid img) (p : Nat) :
    s'.disk.page p = if p = pid then stamped img s.log.nextLsn else s.disk.page p := by
  obtain ⟨disk, hw, hd⟩ := h.disk
  rw [hd]
  exact hw.pages p

theorem Compensated.pageCount {loser : Loser} (h : Compensated s s' loser rec pid img)
    (hlt : pid < s.disk.pageCount) : s'.disk.pageCount = s.disk.pageCount := by
  obtain ⟨disk, hw, hd⟩ := h.disk
  rw [hd, pageCount_sync, hw.count]
  omega

theorem Compensated.header {loser : Loser} (h : Compensated s s' loser rec pid img)
    (hh : s.disk.HeaderCached) : s'.disk.HeaderCached := by
  obtain ⟨disk, hw, hd⟩ := h.disk
  rw [hd]
  exact hw.headerCached hh

theorem truncateAppended_ok {start : Nat} (h : truncateAppended s start = .ok s')
    (hh : s.disk.HeaderCached) (hle : start ≤ s.disk.pageCount) :
    s'.log = s.log ∧ s'.disk.pageCount = start ∧
      (∀ p, s'.disk.page p = if p < start then s.disk.page p else zero) ∧
      s'.disk.HeaderCached := by
  unfold truncateAppended at h
  split at h
  · rename_i hlt
    simp only [truncateToPageCount, map_ok, attempt_ok] at h
    obtain ⟨_, ⟨disk, hd, rfl⟩, rfl⟩ := h
    simp only [DiskManager.truncateToPageCount, ok_iff, if_pos hlt, if_neg hlt.ne,
      DiskManager.reloadDatabaseHeader] at hd
    obtain ⟨_, _, hdr, hr, rfl⟩ := hd
    refine ⟨rfl, ?_, ?_, hr⟩
    · show (s.disk.perform (.truncate start)).pages.length = start
      rw [pages_perform]
      show (s.disk.pages.take start).length = start
      rw [length_take]
      exact Nat.min_eq_left hle
    · intro p
      show (s.disk.perform (.truncate start)).pages.getD p zero = _
      rw [pages_perform]
      exact DurableFile.getD_take s.disk.pages start p
  · rename_i hge
    simp only [Except.ok.injEq] at h
    subst h
    have hc : s.disk.pageCount = start := by omega
    refine ⟨rfl, hc, ?_, hh⟩
    intro p
    split
    · rfl
    · exact page_of_ge s.disk (by omega)

/-- The ways one round of undo can go. -/
inductive UndoOutcome (readUndoBase : DiskManager → Nat → Result Page) (s : Storage)
    (loser : Loser) (record : LogRecord) : Storage → Loser → Prop
  | passedCompensation {clr : CompensationLogPayload} {next : Nat}
      (hpayload : record.payload = .compensation clr) (hnext : clr.undoNextLsn = some next) :
      UndoOutcome readUndoBase s loser record s { loser with undoNextLsn := some next }
  | passedReserve {reserve : PageReserveLogPayload} {next : Nat}
      (hpayload : record.payload = .pageReserve reserve) (hnext : record.prevLsn = some next) :
      UndoOutcome readUndoBase s loser record s { loser with undoNextLsn := some next }
  | passedNew {pageId next : Nat}
      (hidentity : record.payload.pageUpdateIdentity = some ⟨pageId, false⟩)
      (hnext : record.prevLsn = some next) :
      UndoOutcome readUndoBase s loser record s { loser with undoNextLsn := some next }
  | compensated {s' : Storage} {pageId next : Nat} {image : Page}
      (hidentity : record.payload.pageUpdateIdentity = some ⟨pageId, true⟩)
      (himage : compensatedPageFor record (readUndoBase s.disk) = .ok image)
      (h : Compensated s s' loser record pageId image) (hnext : record.prevLsn = some next) :
      UndoOutcome readUndoBase s loser record s'
        { loser with lastLsn := s.log.nextLsn, undoNextLsn := some next }
  | aborted {start : Nat} {truncated s' : Storage} (hpayload : record.payload = .begin start)
      (htruncate : truncateAppended s loser.startPageCount = .ok truncated)
      (hnoted : Noted truncated.sync s' loser.transactionId (some loser.lastLsn) .abort) :
      UndoOutcome readUndoBase s loser record s' { loser with
        lastLsn := truncated.log.nextLsn, undoNextLsn := none, aborted := true }
  | resumed (hprotocol : loser.rollbackProtocol = .ownedAppend)
      (hpayload : record.payload.isOwnedRollback = true)
      (hcleanup : loser.cleanupBeginLsn.isSome) :
      UndoOutcome readUndoBase s loser record s { loser with undoNextLsn := none }
  | cleanup {s' : Storage} {start : Nat} (hprotocol : loser.rollbackProtocol = .ownedAppend)
      (hpayload : record.payload = .beginOwned start) (hbegin : record.lsn = loser.beginLsn)
      (hnone : loser.cleanupBeginLsn = none)
      (hnoted : Noted s.sync s' loser.transactionId (some loser.lastLsn)
        (.rollbackCleanupBegin ⟨loser.beginLsn, loser.reservationCount⟩)) :
      UndoOutcome readUndoBase s loser record s' { loser with
        lastLsn := s.log.nextLsn, cleanupBeginLsn := some s.log.nextLsn, undoNextLsn := none }

theorem undoPageUpdate_outcome {loser : Loser} {idn : PageUpdateIdentity}
    (hd : rec.payload.pageUpdateIdentity = some idn)
    (h : undoPageUpdate s loser rec idn readUndoBase = .ok (s', loser')) :
    UndoOutcome readUndoBase s loser rec s' loser' := by
  obtain ⟨pid, ex⟩ := idn
  unfold undoPageUpdate at h
  split at h
  · rename_i hn
    simp only at hn
    subst hn
    obtain ⟨rfl, next, hx, rfl⟩ := continueAt_ok h
    exact .passedNew hd hx
  · rename_i hex
    simp only [Bool.not_eq_false] at hex
    subst hex
    simp only [bind_ok, attempt_ok, Prod.exists] at h
    obtain ⟨img, hi, wr, loser'', hc, hcn⟩ := h
    obtain ⟨ho, rfl⟩ := compensate_compensated hc
    obtain ⟨rfl, next, hx, rfl⟩ := continueAt_ok hcn
    exact .compensated hd hi ho hx

theorem undoBegin_outcome {loser : Loser} {start : Nat} (hp : rec.payload = .begin start)
    (h : undoBegin s loser = .ok (s', loser')) :
    UndoOutcome readUndoBase s loser rec s' loser' := by
  simp only [undoBegin, ok_iff, Prod.exists] at h
  obtain ⟨truncated, ht, _, _, hf, rfl, rfl⟩ := h
  obtain ⟨hn, rfl⟩ := appendForced_noted hf
  exact @UndoOutcome.aborted readUndoBase s loser rec start truncated _ hp ht hn

theorem undoOwnedBoundary_outcome {loser : Loser} (hp : rec.payload.isOwnedRollback = true)
    (h : undoOwnedBoundary s loser rec = .ok (s', loser')) :
    UndoOutcome readUndoBase s loser rec s' loser' := by
  simp only [undoOwnedBoundary, ok_iff, attempt_ok] at h
  obtain ⟨_, hpr, h⟩ := h
  split at h
  · rename_i hc
    simp only [ok_iff] at h
    obtain ⟨rfl, rfl⟩ := h
    exact .resumed hpr hp hc
  · rename_i hn
    simp only [ok_iff, attempt_ok, Prod.exists] at h
    obtain ⟨_, ⟨how, hb⟩, _, _, hf, rfl, rfl⟩ := h
    obtain ⟨ht, rfl⟩ := appendForced_noted hf
    cases hr : rec.payload with
    | beginOwned start =>
      exact @UndoOutcome.cleanup readUndoBase s loser rec _ start hpr hr hb (by simpa using hn) ht
    | _ =>
      rw [hr] at how
      simp [isBeginOwned] at how

theorem undoRecord_outcome {loser : Loser}
    (h : undoRecord s loser rec readUndoBase = .ok (s', loser')) :
    rec.transactionId = loser.transactionId ∧ UndoOutcome readUndoBase s loser rec s' loser' := by
  simp only [undoRecord, ok_iff, attempt_ok] at h
  obtain ⟨_, hi, h⟩ := h
  refine ⟨hi, ?_⟩
  cases hp : rec.payload with
  | begin start =>
    simp only [hp] at h
    exact undoBegin_outcome hp h
  | beginOwned | rollbackCleanupBegin | rollbackCleanupIntent | rollbackCleanupProgress =>
    simp only [hp] at h
    exact undoOwnedBoundary_outcome (by rw [hp]; rfl) h
  | compensation clr =>
    simp only [hp] at h
    obtain ⟨rfl, next, hn, rfl⟩ := continueAt_ok h
    exact .passedCompensation hp hn
  | pageReserve reserve =>
    simp only [hp] at h
    obtain ⟨rfl, next, hn, rfl⟩ := continueAt_ok h
    exact .passedReserve hp hn
  | pageUpdate update | pageDeltaUpdate update | pageUpdateV2 update | pageDeltaUpdateV2 update =>
    simp only [hp, pageUpdateIdentity] at h
    exact undoPageUpdate_outcome (by rw [hp]; rfl) h
  | commit | abort | checkpointBegin | checkpointEnd | fuzzyCheckpointBegin | fuzzyCheckpointEnd
  | pageReclaim =>
    simp [hp, pageUpdateIdentity] at h

theorem UndoOutcome.loser {loser : Loser} (h : UndoOutcome readUndoBase s loser rec s' loser') :
    loser'.transactionId = loser.transactionId ∧ loser'.rollbackProtocol = loser.rollbackProtocol ∧
      loser'.startPageCount = loser.startPageCount ∧ loser'.beginLsn = loser.beginLsn := by
  cases h <;> exact ⟨rfl, rfl, rfl, rfl⟩

variable {loser : Loser}

/-- One round for a single loser whose next target is a known record. -/
theorem undoLoop_single (hs : LogSound s.log) (hm : rec ∈ s.log.records)
    (hg : loser.undoNextLsn = some rec.lsn)
    (h : undoLoop readUndoBase rounds s [loser] = .ok (s', losers)) :
    ∃ rounds' s₁ loser₁, rec.transactionId = loser.transactionId ∧
      UndoOutcome readUndoBase s loser rec s₁ loser₁ ∧
      undoLoop readUndoBase rounds' s₁ [loser₁] = .ok (s', losers) := by
  have ht : topLoser [loser] = some (loser, rec.lsn) := by simp [topLoser, hg]
  cases rounds with
  | zero => simp [undoLoop, ht] at h
  | succ rounds =>
    simp only [undoLoop, ht, ok_iff, attempt_ok, Prod.exists, hs.placed.readRecordAt hm] at h
    obtain ⟨_, rfl, s₁, loser₁, hu, hr⟩ := h
    obtain ⟨hi, ho⟩ := undoRecord_outcome hu
    have hp : replaceLoser [loser] loser₁ = [loser₁] := by
      simp [replaceLoser, ho.loser.1]
    rw [hp] at hr
    exact ⟨rounds, s₁, loser₁, hi, ho, hr⟩

theorem undoLoop_done (hg : loser.undoNextLsn = none)
    (h : undoLoop readUndoBase rounds s [loser] = .ok (s', losers)) :
    s' = s ∧ losers = [loser] := by
  have ht : topLoser [loser] = none := by simp [topLoser, hg]
  cases rounds with
  | zero =>
    simp only [undoLoop, ht, Option.isNone_none, if_true, ok_iff] at h
    exact ⟨h.1.symm, h.2.symm⟩
  | succ rounds =>
    simp only [undoLoop, ht, ok_iff] at h
    exact ⟨h.1.symm, h.2.symm⟩

/-- An update of the page among the records. -/
def Updates (records : List LogRecord) (pageId : Nat) : Prop :=
  ∃ record ∈ records, ∃ existed, record.payload.pageUpdateIdentity = some ⟨pageId, existed⟩

/-- The page as undo leaves it: restored if the records updated it, else alone. -/
def PageUndone (context : TransactionContext) (records : List LogRecord) (old : Nat → Page)
    (p : Nat) (page : Page) : Prop :=
  (¬ Updates records p ∧ page = old p) ∨
    (Updates records p ∧ ∃ state, context.pages.find? p = some state ∧
      SameContents page state.before)

/-- What undo of a live transaction starts from. -/
structure UndoReady (context : TransactionContext) (begin : Nat) (rest : List LogRecord)
    (s : Storage) (loser : Loser) : Prop where
  log : LogSound s.log
  begun : context.beginRecord begin ∈ s.log.records
  present : ∀ record ∈ rest, record ∈ s.log.records
  linked : Linked (some begin) rest
  own : ∀ record ∈ rest, OwnRecord context record
  existed : ∀ p state, context.pages.find? p = some state →
    state.beforeExisted = decide (p < context.startPageCount)
  extent : context.startPageCount ≤ s.disk.pageCount
  header : deserializeDatabaseHeader (s.disk.page 0) = .ok s.disk.databaseHeader
  target : loser.undoNextLsn = some (lastLsnOf begin rest)
  fresh : loser.cleanupBeginLsn = none ∧ loser.aborted = false
  transactionId : loser.transactionId = context.transactionId
  protocol : loser.rollbackProtocol = context.rollbackProtocol
  startPageCount : loser.startPageCount = context.startPageCount
  beginLsn : loser.beginLsn = begin

/-- Where the walk of a live transaction's chain ends. -/
structure ChainUndone (context : TransactionContext) (begin : Nat) (rest : List LogRecord)
    (s s' : Storage) (loser' : Loser) : Prop where
  undone : Undone s s' context.transactionId context.startPageCount
    (PageUndone context rest s.disk.page)
  kept : context.rollbackProtocol = .ownedAppend → s'.disk.pageCount = s.disk.pageCount ∧
    ∀ p, context.startPageCount ≤ p → s'.disk.page p = s.disk.page p
  cut : context.rollbackProtocol = .legacyTruncate →
    s'.disk.pageCount = context.startPageCount
  transactionId : loser'.transactionId = context.transactionId
  protocol : loser'.rollbackProtocol = context.rollbackProtocol
  startPageCount : loser'.startPageCount = context.startPageCount
  beginLsn : loser'.beginLsn = begin

theorem undoBase_ok {base : Page} (hs : ctx.pages.find? p = some st)
    (h : undoBase ctx p = .ok base) : base = st.before := by
  simp only [undoBase, hs, ok_iff] at h
  obtain ⟨_, _, rfl⟩ := h
  rfl

variable {rs : List LogRecord}

theorem updates_concat :
    Updates (rs ++ [rec]) p ↔ Updates rs p ∨
      ∃ ex, rec.payload.pageUpdateIdentity = some ⟨p, ex⟩ := by
  simp only [Updates, mem_append, mem_singleton]
  constructor
  · rintro ⟨r, hm | rfl, hi⟩
    · exact .inl ⟨r, hm, hi⟩
    · exact .inr hi
  · rintro (⟨r, hm, hi⟩ | hi)
    · exact ⟨r, .inl hm, hi⟩
    · exact ⟨rec, .inr rfl, hi⟩

theorem PageUndone.pass {old : Nat → Page} {pg : Page} (h : PageUndone ctx rs old p pg)
    (hn : ¬ ∃ ex, rec.payload.pageUpdateIdentity = some ⟨p, ex⟩) :
    PageUndone ctx (rs ++ [rec]) old p pg := by
  rcases h with ⟨hu, rfl⟩ | ⟨hu, hs⟩
  · exact .inl ⟨fun h => (updates_concat.mp h).elim hu hn, rfl⟩
  · exact .inr ⟨updates_concat.mpr (.inl hu), hs⟩

theorem PageUndone.compensated {old new : Nat → Page} {q : Nat} {existed : Bool} {page : Page}
    (h : PageUndone ctx rs new p page) (hi : rec.payload.pageUpdateIdentity = some ⟨q, existed⟩)
    (ht : ctx.pages.find? q = some st)
    (hn : ∀ p, new p = if p = q then stamped (normalized st.before) lsn else old p) :
    PageUndone ctx (rs ++ [rec]) old p page := by
  by_cases hp : p = q
  · subst hp
    refine .inr ⟨updates_concat.mpr (.inr ⟨existed, hi⟩), ?_⟩
    rcases h with ⟨_, rfl⟩ | ⟨_, hrs⟩
    · refine ⟨st, ht, ?_⟩
      rw [hn, if_pos rfl]
      exact (sameContents_stamped _ lsn).trans (sameContents_normalized _)
    · exact hrs
  · have hr : PageUndone ctx rs old p page := by
      rcases h with ⟨hu, rfl⟩ | h
      · exact .inl ⟨hu, by rw [hn, if_neg hp]⟩
      · exact .inr h
    refine hr.pass ?_
    rintro ⟨_, hs⟩
    rw [hi] at hs
    simp only [Option.some.injEq, PageUpdateIdentity.mk.injEq] at hs
    exact hp hs.1.symm

/-- The chain's first record: legacy appends are cut off, owned ones left. -/
theorem UndoReady.atBegin (h : UndoReady ctx begin [] s loser)
    (hlp : undoLoop (fun _ => undoBase ctx) rounds s [loser] = .ok (s', losers)) :
    ∃ loser', losers = [loser'] ∧ ChainUndone ctx begin [] s s' loser' := by
  obtain ⟨rounds', s₁, loser₁, _, ho, hrs⟩ :=
    undoLoop_single h.log h.begun h.target hlp
  have hs : ∀ p, ¬ Updates [] p := by
    rintro p ⟨_, hm, _⟩
    simp at hm
  have ha : ∀ (s₀ : Storage) {prev pl}, pl.isUndo = true →
      s₀.log = s.log → Noted s₀ s₁ loser.transactionId prev pl →
      LogGrows s.log s₁.log ∧ ∀ rec ∈ s₁.log.records,
        rec ∈ s.log.records ∨ UndoRecord ctx.transactionId rec := by
    intro s₀ prev pl hk hg hn
    refine ⟨hg ▸ hn.grows, ?_⟩
    intro rec hm
    rw [hn.records, hg] at hm
    rcases mem_append.mp hm with hm | hm
    · exact .inl hm
    · rw [mem_singleton.mp hm]
      exact .inr ⟨.inl h.transactionId, hk⟩
  cases ho with
  | passedCompensation hy | passedReserve hy =>
    simp only [beginRecord, beginPayload] at hy
    cases hr : ctx.rollbackProtocol <;> simp [hr] at hy
  | passedNew hident | compensated hident =>
    rw [beginRecord_not_update] at hident
    simp at hident
  | resumed _ _ hcleanup => simp [h.fresh.1] at hcleanup
  | @aborted start truncated _ hy htruncate hn =>
    obtain ⟨rfl, rfl⟩ := undoLoop_done rfl hrs
    rw [h.startPageCount] at htruncate
    obtain ⟨hg, hc, hpg, hh⟩ := truncateAppended_ok htruncate h.header h.extent
    have hl : ctx.rollbackProtocol = .legacyTruncate := by
      simp only [beginRecord, beginPayload] at hy
      cases hr : ctx.rollbackProtocol with
      | legacyTruncate => rfl
      | ownedAppend => simp [hr] at hy
    have hd : s'.disk = truncated.disk.sync := hn.disk
    obtain ⟨hgr, hi⟩ := ha truncated.sync rfl hg hn
    refine ⟨_, rfl, ⟨hgr, hi, ?_, ?_, ?_⟩, ?_, ?_, h.transactionId, h.protocol,
      h.startPageCount, h.beginLsn⟩
    · intro p hp
      rw [hd, page_sync, hpg, if_pos hp]
      exact .inl ⟨hs p, rfl⟩
    · rw [hd, pageCount_sync, hc]
    · rw [hd]
      exact hh
    · intro how
      rw [hl] at how
      simp at how
    · intro _
      rw [hd, pageCount_sync, hc]
  | cleanup hr _ _ _ hn =>
    obtain ⟨rfl, rfl⟩ := undoLoop_done rfl hrs
    have hd : s'.disk = s.disk.sync := hn.disk
    obtain ⟨hgr, hi⟩ := ha s.sync rfl rfl hn
    refine ⟨_, rfl, ⟨hgr, hi, ?_, ?_, ?_⟩, ?_, ?_, h.transactionId, h.protocol,
      h.startPageCount, h.beginLsn⟩
    · intro p hp
      rw [hd, page_sync]
      exact .inl ⟨hs p, rfl⟩
    · rw [hd, pageCount_sync]
      exact h.extent
    · rw [hd]
      exact h.header
    · intro _
      rw [hd]
      exact ⟨rfl, fun _ _ => rfl⟩
    · intro hl
      rw [← h.protocol, hr] at hl
      simp at hl

/-- Undoing the newest record of the chain leaves undo ready for the rest. -/
theorem UndoReady.advance {s₁ : Storage} {loser₁ : Loser}
    (h : UndoReady ctx begin (rest ++ [rec]) s loser) (hg : LogGrows s.log s₁.log)
    (hc : s₁.disk.pageCount = s.disk.pageCount)
    (hh : s₁.disk.HeaderCached)
    (ht : loser₁.undoNextLsn = rec.prevLsn) (hl : loser₁.cleanupBeginLsn = loser.cleanupBeginLsn)
    (ha : loser₁.aborted = loser.aborted) (hs : loser₁.transactionId = loser.transactionId ∧
      loser₁.rollbackProtocol = loser.rollbackProtocol ∧
      loser₁.startPageCount = loser.startPageCount ∧ loser₁.beginLsn = loser.beginLsn) :
    UndoReady ctx begin rest s₁ loser₁ := by
  obtain ⟨hi, hpt, hst, hb⟩ := hs
  obtain ⟨added, hex⟩ := hg.extends
  obtain ⟨hn, hp⟩ := linked_concat.mp h.linked
  refine ⟨hg.sound h.log, hex.subset h.begun, ?_, hn, ?_, h.existed,
    hc ▸ h.extent, hh, ht.trans hp, ?_, hi.trans h.transactionId,
    hpt.trans h.protocol, hst.trans h.startPageCount, hb.trans h.beginLsn⟩
  · intro r hr
    exact hex.subset (h.present r (mem_append_left _ hr))
  · intro r hr
    exact h.own r (mem_append_left _ hr)
  · rw [hl, ha]
    exact h.fresh

theorem ChainUndone.pass (h : ChainUndone ctx begin rest s s' loser')
    (hn : ∀ p, p < ctx.startPageCount → ¬ ∃ ex, rec.payload.pageUpdateIdentity = some ⟨p, ex⟩) :
    ChainUndone ctx begin (rest ++ [rec]) s s' loser' :=
  ⟨⟨h.undone.grows, h.undone.adds, fun p hp => (h.undone.pages p hp).pass (hn p hp),
    h.undone.extent, h.undone.header⟩, h.kept, h.cut, h.transactionId, h.protocol,
    h.startPageCount, h.beginLsn⟩

theorem Compensated.grows (h : Compensated s s' loser rec pid img) : LogGrows s.log s'.log :=
  h.noted.grows

theorem ChainUndone.compensated {s₁ : Storage} {existed : Bool}
    (h : ChainUndone ctx begin rest s₁ s' loser')
    (hm : Compensated s s₁ loser rec p (normalized st.before))
    (hi : loser.transactionId = ctx.transactionId)
    (hn : rec.payload.pageUpdateIdentity = some ⟨p, existed⟩)
    (hs : ctx.pages.find? p = some st) (hp : p < ctx.startPageCount)
    (hlt : p < s.disk.pageCount) : ChainUndone ctx begin (rest ++ [rec]) s s' loser' := by
  have hc := hm.pageCount hlt
  refine ⟨⟨hm.grows.trans h.undone.grows, ?_, ?_, h.undone.extent, h.undone.header⟩, ?_,
    h.cut, h.transactionId, h.protocol, h.startPageCount, h.beginLsn⟩
  · intro r hr
    rcases h.undone.adds r hr with hr | hr
    · have hrc := hm.noted.records
      simp only at hrc
      rw [hrc] at hr
      rcases mem_append.mp hr with hr | hr
      · exact .inl hr
      · rw [mem_singleton.mp hr]
        exact .inr ⟨.inl hi, rfl⟩
    · exact .inr hr
  · intro q hq
    exact (h.undone.pages q hq).compensated hn hs hm.pages
  · intro how
    obtain ⟨hk, hg⟩ := h.kept how
    refine ⟨hk.trans hc, ?_⟩
    intro q hq
    rw [hg q hq, hm.pages, if_neg (by omega)]

/-- The walk of a live transaction's chain, newest record first. -/
theorem UndoReady.walk (h : UndoReady ctx begin rest s loser)
    (hl : undoLoop (fun _ => undoBase ctx) rounds s [loser] = .ok (s', losers)) :
    ∃ loser', losers = [loser'] ∧ ChainUndone ctx begin rest s s' loser' := by
  induction rest using reverseRecOn generalizing s loser rounds with
  | nil => exact h.atBegin hl
  | append_singleton rest rec ih =>
    have hla := lastLsnOf_concat begin rest rec
    have hm := h.present rec (by simp)
    obtain ⟨rounds', s₁, loser₁, _, ho, hl₁⟩ :=
      undoLoop_single h.log hm (h.target.trans (by rw [hla])) hl
    have how := h.own rec (by simp)
    have hsa := ho.loser
    have hps : s₁ = s → loser₁.undoNextLsn = rec.prevLsn →
        loser₁.cleanupBeginLsn = loser.cleanupBeginLsn → loser₁.aborted = loser.aborted →
        (∀ p, p < ctx.startPageCount →
          ¬ ∃ existed, rec.payload.pageUpdateIdentity = some ⟨p, existed⟩) →
        ∃ loser', losers = [loser'] ∧ ChainUndone ctx begin (rest ++ [rec]) s s' loser' := by
      rintro rfl ht hc ha hno
      obtain ⟨loser', hls, hu⟩ :=
        ih (h.advance .refl rfl h.header ht hc ha hsa) hl₁
      exact ⟨loser', hls, hu.pass hno⟩
    cases how with
    | reserve q hq =>
      have hd : rec.payload.pageUpdateIdentity = none := by rw [hq]; rfl
      cases ho with
      | passedReserve _ hx =>
        refine hps rfl hx.symm rfl rfl ?_
        rintro p _ ⟨_, hs⟩
        rw [hd] at hs
        simp at hs
      | passedCompensation hpy | aborted hpy | cleanup _ hpy =>
        rw [hq] at hpy
        simp at hpy
      | passedNew hs | compensated hs =>
        rw [hd] at hs
        simp at hs
      | resumed _ _ hc => simp [h.fresh.1] at hc
    | @update p st previous after hst hdesc =>
      have hd := hdesc.identity
      have hex := h.existed p st hst
      cases ho with
      | passedReserve hpy | passedCompensation hpy | aborted hpy
      | cleanup _ hpy =>
        rw [hpy] at hd
        simp [pageUpdateIdentity] at hd
      | resumed _ _ hc => simp [h.fresh.1] at hc
      | @passedNew q next hn hx =>
        rw [hn, Option.some.injEq, PageUpdateIdentity.mk.injEq] at hd
        obtain ⟨rfl, hnt⟩ := hd
        refine hps rfl hx.symm rfl rfl ?_
        rintro p' hp' ⟨_, hs⟩
        rw [hn, Option.some.injEq, PageUpdateIdentity.mk.injEq] at hs
        obtain ⟨rfl, _⟩ := hs
        rw [hex] at hnt
        simp [hp'] at hnt
      | @compensated _ q next img hold hi hcm hx =>
        rw [hold, Option.some.injEq, PageUpdateIdentity.mk.injEq] at hd
        obtain ⟨rfl, hy⟩ := hd
        rw [hex] at hy
        have hp : q < ctx.startPageCount := by simpa using hy.symm
        have hlt := hp.trans_le h.extent
        have hi' := compensatedPageFor_describes hdesc (fun base => undoBase_ok hst) hi
        subst hi'
        have hr : UndoReady ctx begin rest s₁
            { loser with lastLsn := s.log.nextLsn, undoNextLsn := some next } :=
          h.advance hcm.grows (hcm.pageCount hlt) (hcm.header h.header) hx.symm rfl rfl hsa
        obtain ⟨loser', hls, hu⟩ := ih hr hl₁
        exact ⟨loser', hls, hu.compensated hcm h.transactionId hold hst hp hlt⟩

end MiniDb
