import MiniDb.OwnedCleanup

/-!
What the analysis of an owned rollback's history keeps: once a BEGIN was seen,
its transaction stays in the table with the identity and extent of that BEGIN.
-/
namespace MiniDb
open ByteBlock Outcome SortedMap HistoryState LogPayload

variable {h h' : HistoryState} {rec : LogRecord} {start : Nat}

structure SameOwner (t t' : OwnedRollbackAnalysis) : Prop where
  transactionId : t'.transactionId = t.transactionId
  protocol : t'.protocol = t.protocol
  startPageCount : t'.startPageCount = t.startPageCount
  beginLsn : t'.beginLsn = t.beginLsn

theorem SameOwner.refl (t : OwnedRollbackAnalysis) : SameOwner t t := ⟨rfl, rfl, rfl, rfl⟩

theorem SameOwner.trans {a b c : OwnedRollbackAnalysis} (ha : SameOwner a b)
    (hb : SameOwner b c) : SameOwner a c :=
  ⟨hb.transactionId.trans ha.transactionId, hb.protocol.trans ha.protocol,
    hb.startPageCount.trans ha.startPageCount, hb.beginLsn.trans ha.beginLsn⟩

namespace HistoryState

theorem claim_kept {pid own : Nat} (hc : h.claim pid own = .ok h') :
    ∃ owners, h' = { h with pageOwners := owners } := by
  unfold claim at hc
  split at hc
  · simp only [ok_iff] at hc
    obtain ⟨_, _, rfl⟩ := hc
    exact ⟨h.pageOwners, rfl⟩
  · simp only [pure_ok] at hc
    exact ⟨_, hc.symm⟩

end HistoryState

/-- The record of its own transaction that a CLR or a progress record is about. -/
def LogPayload.refersTo : LogPayload → Option Nat
  | .compensation clr => some clr.compensatedUpdateLsn
  | .rollbackCleanupProgress progress => some progress.reserveLsn
  | _ => none

def reserveLsnOf (t : OwnedRollbackAnalysis) (page : Nat) : Option Nat :=
  (t.reservations.find? page).map (·.reserveLsn)

theorem reserveLsn_insert {t : OwnedRollbackAnalysis} {pg : Nat}
    {ent ent' : OwnedReservationEvidence}
    (h : t.reservations.find? pg = some ent) (hl : ent'.reserveLsn = ent.reserveLsn) (q : Nat) :
    ((t.reservations.insert pg ent').find? q).map (·.reserveLsn) = reserveLsnOf t q := by
  rw [find?_insert, reserveLsnOf]
  split
  · rename_i hq
    rw [hq, h, Option.map_some, Option.map_some, hl]
  · rfl

/-- What a record of one transaction leaves alone in the state of the walk, and
what it leaves behind when it is a CLR, an intent or a reservation. -/
structure RecordFrame (h h' : HistoryState) (t t' : OwnedRollbackAnalysis)
    (record : LogRecord) : Prop where
  transactions : h'.transactions = h.transactions
  seen : h'.seen = h.seen
  endLsn : h'.endLsn = h.endLsn
  undoNext : ∀ id, id ≠ record.transactionId → h'.undoNext.find? id = h.undoNext.find? id
  pending : h'.pendingReclaim = h.pendingReclaim ∨ ∃ payload entry,
    h'.pendingReclaim = some (record.transactionId, payload) ∧
    record.payload = .rollbackCleanupIntent payload ∧
    t'.reservations.find? payload.reclaim.page = some entry ∧
    entry.reserveLsn = payload.reserveLsn
  referred : ∀ lsn, record.payload.refersTo = some lsn →
    (∃ target ∈ h.seen, target.lsn = lsn ∧ target.transactionId = record.transactionId) ∨
    (record.payload.isOwnedRollback = true ∧
      ∃ page entry, t.reservations.find? page = some entry ∧ entry.reserveLsn = lsn)
  same : SameOwner t t'
  reserves : (∃ payload, record.payload = .pageReserve payload ∧
      reserveLsnOf t payload.pageId = none ∧ ∀ page, reserveLsnOf t' page =
        if page = payload.pageId then some record.lsn else reserveLsnOf t page) ∨
    (∀ payload, record.payload ≠ .pageReserve payload) ∧
      ∀ page, reserveLsnOf t' page = reserveLsnOf t page

namespace HistoryState

theorem onTransactionRecord_frame {t t' : OwnedRollbackAnalysis}
    (hs : h.onTransactionRecord t rec = .ok (h', t')) : RecordFrame h h' t t' rec := by
  cases hp : rec.payload with
  | pageReserve pl =>
    simp only [onTransactionRecord, hp, onReserve, ok_iff] at hs
    obtain ⟨_, ⟨_, _, hk⟩, _, hc, rfl, rfl⟩ := hs
    obtain ⟨owners, rfl⟩ := claim_kept hc
    refine ⟨rfl, rfl, rfl, fun _ _ => rfl, .inl rfl, by simp [hp, refersTo],
      ⟨rfl, rfl, rfl, rfl⟩, .inl ⟨pl, hp, ?_, fun pg => ?_⟩⟩
    · rw [reserveLsnOf, Option.map_eq_none_iff]
      by_contra hfnd
      obtain ⟨ent, he⟩ := Option.ne_none_iff_exists'.mp hfnd
      have := hk pl.pageId (mem_keys.mpr ⟨ent, he⟩)
      omega
    · rw [reserveLsnOf, find?_insert]
      split <;> rfl
  | compensation clr =>
    simp only [onTransactionRecord, hp, onCompensation, ok_iff] at hs
    obtain ⟨_, hc, _, _, _, _, rfl, rfl⟩ := hs
    refine ⟨rfl, rfl, rfl, fun id hi => by simp [hi], .inl rfl, fun lsn hl => ?_,
      ⟨rfl, rfl, rfl, rfl⟩, .inr ⟨by simp [hp], fun _ => rfl⟩⟩
    rw [hp, refersTo, Option.some.injEq] at hl
    unfold compensates at hc
    split at hc
    · rename_i original ho
      rw [hl] at ho
      exact .inl ⟨original, List.mem_of_find?_eq_some ho,
        by simpa using List.find?_some ho, (of_decide_eq_true hc).1⟩
    · simp at hc
  | rollbackCleanupIntent pl =>
    simp only [onTransactionRecord, hp, onCleanupIntent] at hs
    split at hs
    · simp at hs
    · rename_i ent he
      simp only [ok_iff] at hs
      obtain ⟨_, ⟨_, hr, _⟩, _, _, rfl, rfl⟩ := hs
      exact ⟨rfl, rfl, rfl, fun _ _ => rfl, .inr ⟨pl, { ent with intentLsn := some rec.lsn }, rfl,
        hp, by simp, hr⟩, by simp [hp, refersTo], ⟨rfl, rfl, rfl, rfl⟩,
        .inr ⟨by simp [hp], reserveLsn_insert he rfl⟩⟩
  | rollbackCleanupProgress pl =>
    simp only [onTransactionRecord, hp, ok_iff] at hs
    obtain ⟨_, hpr, rfl, rfl⟩ := hs
    unfold onCleanupProgress at hpr
    split at hpr
    · simp at hpr
    · rename_i ent he
      simp only [ok_iff] at hpr
      obtain ⟨_, ⟨_, hr, _⟩, _, _, rfl⟩ := hpr
      refine ⟨rfl, rfl, rfl, fun _ _ => rfl, .inl rfl, fun lsn hl => ?_, ⟨rfl, rfl, rfl, rfl⟩,
        .inr ⟨by simp [hp], reserveLsn_insert he rfl⟩⟩
      rw [hp, refersTo, Option.some.injEq] at hl
      exact .inr ⟨by rw [hp]; rfl, pl.page, ent, he, hr.trans hl⟩
  | rollbackCleanupBegin pl =>
    simp only [onTransactionRecord, hp, onCleanupBegin, ok_iff] at hs
    obtain ⟨_, ⟨_, _, _, _, _, _, rfl⟩, rfl, rfl⟩ := hs
    exact ⟨rfl, rfl, rfl, fun _ _ => rfl, .inl rfl, by simp [hp, refersTo],
      ⟨rfl, rfl, rfl, rfl⟩, .inr ⟨by simp [hp], fun _ => rfl⟩⟩
  | commit | abort =>
    simp only [onTransactionRecord, hp, ok_iff] at hs
    obtain ⟨_, _, rfl, rfl⟩ := hs
    exact ⟨rfl, rfl, rfl, fun _ _ => rfl, .inl rfl, by simp [hp, refersTo],
      ⟨rfl, rfl, rfl, rfl⟩, .inr ⟨by simp [hp], fun _ => rfl⟩⟩
  | pageUpdate | pageDeltaUpdate | pageUpdateV2 | pageDeltaUpdateV2 =>
    simp only [onTransactionRecord, hp, pageUpdateIdentity, onUpdate, ok_iff] at hs
    obtain ⟨_, _, _, _, _, hc, rfl, rfl⟩ := hs
    obtain ⟨owners, rfl⟩ := claim_kept hc
    exact ⟨rfl, rfl, rfl, fun _ _ => rfl, .inl rfl, by simp [hp, refersTo],
      .refl t, .inr ⟨by simp [hp], fun _ => rfl⟩⟩
  | begin | beginOwned | checkpointBegin | checkpointEnd | fuzzyCheckpointBegin
  | fuzzyCheckpointEnd | pageReclaim =>
    simp [onTransactionRecord, hp, pageUpdateIdentity] at hs

/-- Every transaction is stored under its own id. -/
def Keyed (h : HistoryState) : Prop :=
  ∀ id t, h.transactions.find? id = some t → t.transactionId = id

/-- The transactions of `h` are in `h'` with the identity and extent they had. -/
def Keeps (h h' : HistoryState) : Prop :=
  ∀ id t, h.transactions.find? id = some t →
    ∃ t', h'.transactions.find? id = some t' ∧ SameOwner t t'

theorem Keeps.refl (h : HistoryState) : Keeps h h := fun _ t ht => ⟨t, ht, .refl t⟩

theorem keeps_of_transactions (heq : h'.transactions = h.transactions) (hk : Keyed h) :
    Keyed h' ∧ Keeps h h' := by
  refine ⟨?_, ?_⟩
  · intro id t ht
    exact hk id t (heq ▸ ht)
  · intro id t ht
    exact ⟨t, heq ▸ ht, .refl t⟩

theorem keeps_of_insert {id : Nat} {t t' : OwnedRollbackAnalysis} (hy : Keyed h)
    (ht : h.transactions.find? id = some t) (hs : SameOwner t t')
    (heq : h'.transactions = h.transactions.insert t'.transactionId t') :
    Keyed h' ∧ Keeps h h' := by
  have hi := hs.transactionId.trans (hy id t ht)
  refine ⟨?_, ?_⟩
  · intro key u hu
    rw [heq, find?_insert] at hu
    split at hu
    · rename_i hk
      cases hu
      exact hk.symm
    · exact hy key u hu
  · intro key u hu
    rw [heq, find?_insert]
    split
    · rename_i hk
      rw [hk, hi, ht] at hu
      cases hu
      exact ⟨t', rfl, hs⟩
    · exact ⟨u, hu, .refl u⟩

theorem advance_transactions (h : HistoryState) (t : OwnedRollbackAnalysis) :
    (h.advance t).transactions = h.transactions.insert t.transactionId t := by
  unfold advance
  simp only
  split <;> rfl

/-- The state with `record` read and not yet judged. -/
def read (h : HistoryState) (record : LogRecord) : HistoryState :=
  { h with endLsn := record.endLsn, seen := h.seen ++ [record] }

/-- What the walk can do with one record. -/
inductive Accepted (h : HistoryState) (record : LogRecord) : HistoryState → Prop
  | answered {owner : Nat} {expected : CleanupIntentPayload} {t : OwnedRollbackAnalysis}
      (hpending : h.pendingReclaim = some (owner, expected)) (hsystem : record.transactionId = 0)
      (hlsn : record.lsn = expected.reclaimLsn)
      (hpayload : record.payload = .pageReclaim expected.reclaim)
      (ht : h.transactions.find? owner = some t) :
      Accepted h record { (h.read record).setTransaction
        (t.noteReclaim expected.reclaim.page record.lsn) with pendingReclaim := none }
  | system (hpending : h.pendingReclaim = none) (hsystem : record.transactionId = 0)
      (hpayload : record.payload.isPageReclaim = true ∨ record.payload.isCheckpoint = true) :
      Accepted h record (h.read record)
  | begun {protocol : RollbackProtocol} {start : Nat} (hpending : h.pendingReclaim = none)
      (hid : record.transactionId ≠ 0)
      (hpayload : (record.payload = .begin start ∧ protocol = .legacyTruncate) ∨
        (record.payload = .beginOwned start ∧ protocol = .ownedAppend))
      (hnew : h.transactions.find? record.transactionId = none) :
      Accepted h record ((h.read record).setTransaction ⟨record.transactionId, protocol,
        .ownedActive, record.lsn, record.lsn, none, start, false, .empty⟩)
  | chained {t t' : OwnedRollbackAnalysis} {h' : HistoryState}
      (hpending : h.pendingReclaim = none) (hid : record.transactionId ≠ 0)
      (ht : h.transactions.find? record.transactionId = some t)
      (hlive : t.phase.terminal = false) (hprev : record.prevLsn = some t.lastLsn)
      (howned : record.payload.isOwnedRollback = false ∨ t.protocol = .ownedAppend)
      (hcleanup : t.cleanupBeginLsn = none ∨ allowedDuringCleanup record.payload = true)
      (hrecord : (h.read record).onTransactionRecord t record = .ok (h', t')) :
      Accepted h record (h'.advance { t' with lastLsn := record.lsn })

theorem validateTransactionRecordPayload_id {u : Unit}
    (h : validateTransactionRecordPayload rec = .ok u) : rec.transactionId ≠ 0 := by
  simp only [validateTransactionRecordPayload, ok_iff] at h
  exact h.choose_spec.1

theorem validateCheckpointRecord_id {u : Unit} (h : validateCheckpointRecord rec = .ok u) :
    rec.transactionId = 0 := by
  simp only [validateCheckpointRecord, ok_iff] at h
  exact h.choose_spec.1.1

theorem chainRecord_accepted (hp : h.pendingReclaim = none) (hi : rec.transactionId ≠ 0)
    (hc : (h.read rec).chainRecord rec = .ok h') : Accepted h rec h' := by
  unfold chainRecord at hc
  split at hc
  · simp at hc
  · rename_i t ht
    simp only [ok_iff, Prod.exists] at hc
    obtain ⟨_, ⟨hv, hpr, _⟩, _, how, _, hl, h₁, t₁, hr, rfl⟩ := hc
    exact .chained hp hi ht hv hpr how hl hr

theorem onBegin_accepted {prot : RollbackProtocol} (hpn : h.pendingReclaim = none)
    (hi : rec.transactionId ≠ 0) (hp : (rec.payload = .begin start ∧ prot = .legacyTruncate) ∨
      (rec.payload = .beginOwned start ∧ prot = .ownedAppend))
    (hb : (h.read rec).onBegin rec prot start = .ok h') : Accepted h rec h' := by
  simp only [onBegin, ok_iff] at hb
  obtain ⟨_, hn, rfl⟩ := hb
  exact .begun hpn hi hp (by simpa [contains, read] using hn)

theorem step_accepted (hst : h.step rec = .ok h') : rec.lsn = h.endLsn ∧ Accepted h rec h' := by
  simp only [step, ok_iff] at hst
  obtain ⟨_, ⟨_, hl, _⟩, hst⟩ := hst
  refine ⟨hl, ?_⟩
  split at hst
  · rename_i own exp hn
    simp only [answerIntent, ok_iff] at hst
    obtain ⟨_, ⟨hr, _⟩, pl, hd, _, rfl, hst⟩ := hst
    obtain ⟨hs, hp, _⟩ := decodePageReclaim_ok hd
    split at hst
    · simp at hst
    · rename_i t ht
      simp only [pure_ok] at hst
      subst hst
      exact .answered hn hs hr hp ht
  · rename_i hn
    unfold acceptRecord at hst
    split at hst
    · rename_i hp
      simp only [ok_iff] at hst
      obtain ⟨_, hd, _, _, rfl⟩ := hst
      exact .system hn (decodePageReclaim_ok hd).1 (.inl (by simp [hp, isPageReclaim]))
    iterate 4
      · rename_i hp
        simp only [ok_iff] at hst
        obtain ⟨_, hv, _, _, rfl⟩ := hst
        exact .system hn (validateCheckpointRecord_id hv)
          (.inr (by simp [hp, isCheckpoint]))
    · rename_i start hp
      simp only [bind_ok] at hst
      obtain ⟨_, hv, hst⟩ := hst
      exact onBegin_accepted hn (validateTransactionRecordPayload_id hv) (.inl ⟨hp, rfl⟩) hst
    · rename_i start hp
      simp only [bind_ok] at hst
      obtain ⟨_, hv, hst⟩ := hst
      exact onBegin_accepted hn (validateTransactionRecordPayload_id hv) (.inr ⟨hp, rfl⟩) hst
    · simp only [bind_ok] at hst
      obtain ⟨_, hv, hst⟩ := hst
      exact chainRecord_accepted hn (validateTransactionRecordPayload_id hv) hst

theorem step_keeps (hy : Keyed h) (hst : h.step rec = .ok h') : Keyed h' ∧ Keeps h h' := by
  obtain ⟨_, ha⟩ := step_accepted hst
  cases ha with
  | @answered own exp t hpend hsys hlsn hpay ht =>
    exact @keeps_of_insert h _ own t (t.noteReclaim exp.reclaim.page rec.lsn) hy ht
      ⟨rfl, rfl, rfl, rfl⟩ rfl
  | system => exact keeps_of_transactions rfl hy
  | begun hpend hid hpay hnew =>
    refine ⟨?_, ?_⟩
    · intro key u hu
      simp only [setTransaction, find?_insert] at hu
      split at hu
      · rename_i hk
        cases hu
        exact hk.symm
      · exact hy key u hu
    · intro key u hu
      have hk : key ≠ rec.transactionId := by
        rintro rfl
        rw [hnew] at hu
        simp at hu
      exact ⟨u, by simp [setTransaction, read, hk, hu], .refl u⟩
  | @chained t t₁ h₁ hpend hid ht hlive hprev howned hcleanup hrec =>
    have hf := onTransactionRecord_frame hrec
    have hs' : SameOwner t { t₁ with lastLsn := rec.lsn } :=
      ⟨hf.same.transactionId, hf.same.protocol, hf.same.startPageCount, hf.same.beginLsn⟩
    refine keeps_of_insert hy ht hs' ?_
    rw [advance_transactions, hf.transactions]
    rfl

theorem fold_keeps {rs : List LogRecord} (hk : Keyed h) (hf : rs.foldlM step h = .ok h') :
    Keyed h' ∧ Keeps h h' := by
  refine foldlM_preserves (P := fun g => Keyed g ∧ Keeps h g) ?_ ⟨hk, .refl h⟩ hf
  intro rec _ g g' hg hst
  obtain ⟨hk', hp⟩ := step_keeps hg.1 hst
  refine ⟨hk', ?_⟩
  intro id t ht
  obtain ⟨t₁, ht₁, hs₁⟩ := hg.2 id t ht
  obtain ⟨t₂, ht₂, hs₂⟩ := hp id t₁ ht₁
  exact ⟨t₂, ht₂, hs₁.trans hs₂⟩

end HistoryState

/-- A history that begins with BEGIN_OWNED knows that transaction by it. -/
theorem analyzeOwnedRollbackHistory_begin {rest : List LogRecord}
    {txs : SortedMap OwnedRollbackAnalysis} (hp : rec.payload = .beginOwned start)
    (h : analyzeOwnedRollbackHistory (rec :: rest) = .ok txs) :
    ∃ t, txs.find? rec.transactionId = some t ∧ t.startPageCount = start := by
  simp only [analyzeOwnedRollbackHistory, ok_iff, List.foldlM_cons] at h
  obtain ⟨last, ⟨fst, hf, hr⟩, rfl⟩ := h
  simp only [step, acceptRecord, hp, onBegin, ok_iff] at hf
  obtain ⟨_, _, _, _, _, _, rfl⟩ := hf
  have hy : HistoryState.Keyed (setTransaction ⟨.empty, [] ++ [rec], .empty,
      .empty, none, rec.endLsn⟩ ⟨rec.transactionId, .ownedAppend, .ownedActive, rec.lsn,
      rec.lsn, none, start, false, .empty⟩) := by
    intro id t ht
    simp only [setTransaction, find?_insert] at ht
    split at ht
    · rename_i hi
      cases ht
      exact hi.symm
    · simp at ht
  obtain ⟨_, hk⟩ := fold_keeps hy hr
  obtain ⟨t, ht, hs⟩ := hk rec.transactionId _ (by simp [setTransaction]; rfl)
  exact ⟨t, ht, hs.startPageCount⟩

/-- The owner cleanup works on started from the extent its BEGIN recorded. -/
theorem analyzeOwner_start {log : LogManager} {loser : Loser} {hi : List LogRecord}
    {txs : SortedMap OwnedRollbackAnalysis} {own : OwnedRollbackAnalysis}
    (hpl : LogPlaced log) (hm : rec ∈ log.records) (hl : rec.lsn = loser.beginLsn)
    (hid : rec.transactionId = loser.transactionId) (hp : rec.payload = .beginOwned start)
    (h : analyzeOwner log loser = .ok (hi, txs, own)) : own.startPageCount = start := by
  simp only [analyzeOwner, bind_ok] at h
  obtain ⟨hi', hh, txs', ha, h⟩ := h
  have hhd : ∃ rest, hi' = rec :: rest := by
    unfold fromBegin at hh
    split at hh
    · rename_i head rest hd
      simp only [ok_iff] at hh
      obtain ⟨_, _, rfl⟩ := hh
      have hf : head ∈ log.records :=
        (List.dropWhile_suffix _).subset (hd ▸ List.mem_cons_self)
      have hs : head.lsn = loser.beginLsn := by
        have := List.head?_dropWhile_not (fun r : LogRecord => decide (r.lsn ≠ loser.beginLsn))
          log.records
        rw [hd] at this
        simpa using this
      rw [eq_of_lsn_eq hpl.sorted hf hm (hs.trans hl.symm)]
      exact ⟨rest, rfl⟩
    · simp at hh
  obtain ⟨rest, rfl⟩ := hhd
  obtain ⟨t, ht, hst⟩ := analyzeOwnedRollbackHistory_begin hp ha
  rw [hid] at ht
  simp only [ht, ok_iff] at h
  obtain ⟨_, _, _, _, rfl⟩ := h
  exact hst

end MiniDb
