import MiniDb.OwnedHistory
import MiniDb.TransactionLog

/-!
What an accepted history says about an owned transaction. Its records come in
three parts behind BEGIN_OWNED: work, compensation and cleanup. The walk keeps a
cursor into the work, moves it back over every compensated update, and starts
cleanup only when no update of a page that existed before is left in front of
it. Cleanup then keeps the evidence of every reservation.
-/
namespace MiniDb
open ByteBlock Outcome LogPayload SortedMap List
open Option hiding filter_filter

variable {pl : LogPayload} {P : LogPayload → Bool} {lsn owner pg : Nat}
  {undoNext : Option (Option Nat)} {ent : OwnedReservationEvidence}
  {rsvs : SortedMap OwnedReservationEvidence}

def LogPayload.isCompensation : LogPayload → Bool
  | .compensation _ => true
  | _ => false

def LogPayload.isCleanupBegin : LogPayload → Bool
  | .rollbackCleanupBegin _ => true
  | _ => false

def LogPayload.isPageReserve : LogPayload → Bool
  | .pageReserve _ => true
  | _ => false

def LogPayload.isCommit : LogPayload → Bool
  | .commit => true
  | _ => false

/-- What a transaction writes while it runs. -/
def LogPayload.isWork (payload : LogPayload) : Bool :=
  payload.isPageReserve || payload.isPageUpdate

/-- An update of a page that existed when its transaction began. -/
def LogPayload.requiresUndo (payload : LogPayload) : Bool :=
  payload.pageUpdateIdentity.any (·.beforePageExisted)

theorem pageReserve_of_isWork (h : pl.isWork = true) (hi : pl.pageUpdateIdentity = none) :
    ∃ reserve, pl = .pageReserve reserve := by
  simp only [isWork, isPageUpdate, hi, isSome_none, Bool.or_false] at h
  cases pl with
  | pageReserve reserve => exact ⟨reserve, rfl⟩
  | _ => cases h

/-- The record compensates the update at `lsn`. -/
def LogPayload.compensatesLsn (lsn : Nat) : LogPayload → Bool
  | .compensation clr => clr.compensatedUpdateLsn = lsn
  | _ => false

/-- The record reports the end of cleanup for the reservation at `lsn`. -/
def LogPayload.progressesOn (lsn : Nat) : LogPayload → Bool
  | .rollbackCleanupProgress progress => progress.reserveLsn = lsn
  | _ => false

/-- `clr` undoes `update`: it restores its page and leads on to its predecessor. -/
def Compensates (clr update : LogRecord) : Prop :=
  ∃ payload, clr.payload = .compensation payload ∧
    payload.compensatedUpdateLsn = update.lsn ∧ payload.undoNextLsn = update.prevLsn ∧
    update.payload.pageUpdateIdentity = some ⟨payload.pageId, true⟩

/-- Somewhere in the history the owner announced the reclaim of its reservation,
and the very next record is that reclaim, at `reclaimLsn`. -/
structure Announced (records : List LogRecord) (owner : Nat) (reserveLsn page reclaimLsn : Nat)
    (before : List LogRecord) (after : List LogRecord) : Prop where
  split : ∃ intent reclaim payload, records = before ++ intent :: reclaim :: after ∧
    intent.transactionId = owner ∧ intent.payload = .rollbackCleanupIntent payload ∧
    payload.reserveLsn = reserveLsn ∧ payload.reclaim.page = page ∧
    reclaim.payload = .pageReclaim payload.reclaim ∧ reclaim.lsn = reclaimLsn

variable {rs : List LogRecord}

theorem Announced.concat {bef aft : List LogRecord} {reserveLsn : Nat} {reclaimLsn : Nat}
    (h : Announced rs owner reserveLsn pg reclaimLsn bef aft) (rec : LogRecord) :
    Announced (rs ++ [rec]) owner reserveLsn pg reclaimLsn bef (aft ++ [rec]) := by
  obtain ⟨intent, reclaim, pl, hs, hr⟩ := h.split
  exact ⟨intent, reclaim, pl, by simp [hs], hr⟩

/-- The parts of the records of one owned transaction. -/
structure Parts where
  begin : LogRecord
  work : List LogRecord
  clrs : List LogRecord
  cleanup : List LogRecord

def Parts.rest (parts : Parts) : List LogRecord := parts.work ++ (parts.clrs ++ parts.cleanup)

/-- The records of the transaction are its parts, linked one to the next. -/
structure Parted (seen : List LogRecord) (t : OwnedRollbackAnalysis) (parts : Parts) : Prop where
  own : ownRecords seen t.transactionId = parts.begin :: parts.rest
  begun : parts.begin.lsn = t.beginLsn ∧ parts.begin.payload.isBeginOwned = true
  linked : Linked (some t.beginLsn) parts.rest
  last : t.lastLsn = lastLsnOf t.beginLsn parts.rest
  worked : ∀ record ∈ parts.work, record.payload.isWork = true
  compensated : ∀ record ∈ parts.clrs, record.payload.isCompensation = true
  cleaned : ∀ record ∈ parts.cleanup, record.payload.isCleanupBegin = true ∨
    HistoryState.allowedDuringCleanup record.payload = true

/-- How far the undo of the work has come: `ahead` is compensated, last update
first, and the cursor stands at the end of `done`. -/
structure Cursor (undoNext : Option (Option Nat)) (t : OwnedRollbackAnalysis) (parts : Parts)
    (done ahead : List LogRecord) : Prop where
  work : parts.work = done ++ ahead
  undone : List.Forall₂ Compensates parts.clrs
    (ahead.filter (·.payload.requiresUndo)).reverse
  undoing : t.phase = .undoing → undoNext = some (some (lastLsnOf t.beginLsn done))
  active : t.phase ≠ .undoing → ahead = [] ∧ parts.clrs = []

structure Progress (undoNext : Option (Option Nat)) (t : OwnedRollbackAnalysis)
    (parts : Parts) : Prop where
  active : t.phase = .ownedActive → t.cleanupBeginLsn = none
  uncleaned : t.cleanupBeginLsn = none → parts.cleanup = [] ∧
    (t.phase = .ownedActive ∨ t.phase = .undoing) ∧ ∃ done ahead, Cursor undoNext t parts done ahead
  cleaning : t.cleanupBeginLsn ≠ none →
    List.Forall₂ Compensates parts.clrs (parts.work.filter (·.payload.requiresUndo)).reverse ∧
    ∃ first rest, parts.cleanup = first :: rest ∧ first.payload.isCleanupBegin = true

/-- What the history holds about the reservations of the transaction. -/
structure Evidence (seen : List LogRecord) (t : OwnedRollbackAnalysis) (parts : Parts) :
    Prop where
  reserved : ∀ page entry, t.reservations.find? page = some entry →
    ∃ record ∈ parts.work, record.lsn = entry.reserveLsn ∧
      ∃ payload, record.payload = .pageReserve payload ∧ payload.pageId = page
  entered : ∀ record ∈ parts.work, ∀ payload, record.payload = .pageReserve payload →
    ∃ entry, t.reservations.find? payload.pageId = some entry ∧ entry.reserveLsn = record.lsn
  open_ : ∀ page entry, t.reservations.find? page = some entry → entry.progressLsn = none →
    parts.cleanup.filter (·.payload.progressesOn entry.reserveLsn) = []
  closed : ∀ page entry, t.reservations.find? page = some entry → entry.progressLsn ≠ none →
    ∃ progress, parts.cleanup.filter (·.payload.progressesOn entry.reserveLsn) = [progress]
  reclaimed : ∀ page entry lsn, t.reservations.find? page = some entry →
    entry.reclaimLsn = some lsn →
    ∃ before after, Announced seen t.transactionId entry.reserveLsn page lsn before after
  named : ∀ record ∈ parts.cleanup, ∀ progress, record.payload = .rollbackCleanupProgress progress →
    ∀ lsn, progress.reclaimLsn = some lsn → ∃ before after,
      Announced seen t.transactionId progress.reserveLsn progress.page lsn before after ∧
      record ∈ after
  complete : t.phase = .cleanupComplete ∨ t.phase = .abortRecorded →
    ∀ page entry, t.reservations.find? page = some entry → entry.progressLsn ≠ none

/-- The whole story of one owned transaction so far. -/
structure Told (seen : List LogRecord) (undoNext : Option (Option Nat))
    (t : OwnedRollbackAnalysis) (parts : Parts) : Prop where
  parted : Parted seen t parts
  progress : Progress undoNext t parts
  evidence : Evidence seen t parts

variable {seen : List LogRecord} {t t' : OwnedRollbackAnalysis} {ps : Parts} {rec : LogRecord}

theorem Evidence.concat (h : Evidence seen t ps) (rec : LogRecord) :
    Evidence (seen ++ [rec]) t ps := by
  refine ⟨h.reserved, h.entered, h.open_, h.closed, ?_, ?_, h.complete⟩
  · intro pg ent lsn he hl
    obtain ⟨bef, aft, hn⟩ := h.reclaimed pg ent lsn he hl
    exact ⟨bef, aft ++ [rec], hn.concat rec⟩
  · intro old ho progress hp lsn hl
    obtain ⟨bef, aft, hn, ha⟩ := h.named old ho progress hp lsn hl
    exact ⟨bef, aft ++ [rec], hn.concat rec, by simp [ha]⟩

theorem forall_mem_concat {P : LogRecord → Prop} (h : ∀ old ∈ rs, P old) (hr : P rec) :
    ∀ old ∈ rs ++ [rec], P old := by
  exact forall_mem_append.mpr ⟨h, forall_mem_singleton.mpr hr⟩

/-- Entries of one reservation that are the same evidence: the reclaim of the new
one is that of the old one, or the history announces it. -/
structure SameEvidence (seen : List LogRecord) (owner page : Nat)
    (entry entry' : OwnedReservationEvidence) : Prop where
  reserveLsn : entry'.reserveLsn = entry.reserveLsn
  progressLsn : entry'.progressLsn = entry.progressLsn
  reclaimLsn : entry'.reclaimLsn = entry.reclaimLsn ∨ ∀ lsn, entry'.reclaimLsn = some lsn →
    ∃ before after, Announced seen owner entry.reserveLsn page lsn before after

/-- A transaction with the same evidence about every reservation. -/
theorem Evidence.reentered (h : Evidence seen t ps) {ent' : OwnedReservationEvidence}
    (hn : t.reservations.find? pg = some ent) (hm : SameEvidence seen t.transactionId pg ent ent')
    (hi : t'.transactionId = t.transactionId) (hs : t'.reservations = t.reservations.insert pg ent')
    (hh : t'.phase = .cleanupComplete ∨ t'.phase = .abortRecorded →
      t.phase = .cleanupComplete ∨ t.phase = .abortRecorded) : Evidence seen t' ps := by
  have hb : ∀ other fd, t'.reservations.find? other = some fd →
      ∃ old, t.reservations.find? other = some old ∧
        SameEvidence seen t.transactionId other old fd := by
    intro other fd hf
    rw [hs, find?_insert] at hf
    split at hf
    · rename_i hg
      cases hf
      subst hg
      exact ⟨ent, hn, hm⟩
    · exact ⟨fd, hf, rfl, rfl, .inl rfl⟩
  refine ⟨?_, ?_, ?_, ?_, ?_, hi ▸ h.named, ?_⟩
  · intro other fd hf
    obtain ⟨old, hd, he⟩ := hb other fd hf
    rw [he.reserveLsn]
    exact h.reserved other old hd
  · intro old hd pl hp
    obtain ⟨fd, hf, hl⟩ := h.entered old hd pl hp
    rw [hs, find?_insert]
    split
    · rename_i hg
      rw [hg, hn] at hf
      cases hf
      exact ⟨_, rfl, hm.reserveLsn.trans hl⟩
    · exact ⟨fd, hf, hl⟩
  · intro other fd hf ho
    obtain ⟨old, hd, he⟩ := hb other fd hf
    rw [he.reserveLsn]
    exact h.open_ other old hd (he.progressLsn ▸ ho)
  · intro other fd hf hso
    obtain ⟨old, hd, he⟩ := hb other fd hf
    rw [he.reserveLsn]
    exact h.closed other old hd (he.progressLsn ▸ hso)
  · intro other fd lsn hf hl
    obtain ⟨old, hd, he⟩ := hb other fd hf
    rw [hi, he.reserveLsn]
    rcases he.reclaimLsn with hr | hr
    · exact h.reclaimed other old lsn hd (hr ▸ hl)
    · exact hr lsn hl
  · intro hc other fd hf
    obtain ⟨old, hd, he⟩ := hb other fd hf
    rw [he.progressLsn]
    exact h.complete (hh hc) other old hd

/-- A cleanup record that reports no progress leaves the evidence as it is. -/
theorem Evidence.quiet (h : Evidence seen t ps)
    (hq : ∀ progress, rec.payload ≠ .rollbackCleanupProgress progress) :
    Evidence (seen ++ [rec]) t { ps with cleanup := ps.cleanup ++ [rec] } := by
  have ho := h.concat rec
  have hf : ∀ lsn, (ps.cleanup ++ [rec]).filter (·.payload.progressesOn lsn) =
      ps.cleanup.filter (·.payload.progressesOn lsn) := by
    intro lsn
    have hn : rec.payload.progressesOn lsn = false := by
      cases hp : rec.payload with
      | rollbackCleanupProgress progress => exact absurd hp (hq progress)
      | _ => rfl
    simp [filter_append, hn]
  refine ⟨ho.reserved, ho.entered, ?_, ?_, ho.reclaimed, ?_, ho.complete⟩
  · intro pg ent he hn
    rw [hf]
    exact ho.open_ pg ent he hn
  · intro pg ent he hs
    simp only [hf]
    exact ho.closed pg ent he hs
  · refine forall_mem_concat ho.named ?_
    intro progress hr
    exact absurd hr (hq progress)

/-- A record of another transaction, or of none, changes nothing in the story. -/
theorem Told.other (h : Told seen undoNext t ps) (ho : rec.transactionId ≠ t.transactionId) :
    Told (seen ++ [rec]) undoNext t ps := by
  refine ⟨⟨?_, h.parted.begun, h.parted.linked, h.parted.last, h.parted.worked,
    h.parted.compensated, h.parted.cleaned⟩, h.progress, h.evidence.concat rec⟩
  rw [ownRecords_append, h.parted.own]
  simp [ownRecords, ho]

theorem Told.noteReclaim {bef : List LogRecord} (h : Told seen undoNext t ps)
    {intent : LogRecord} {pl : CleanupIntentPayload} (hsn : seen = bef ++ [intent])
    (hi : intent.transactionId = t.transactionId) (hp : intent.payload = .rollbackCleanupIntent pl)
    (he : t.reservations.find? pl.reclaim.page = some ent) (hs : ent.reserveLsn = pl.reserveLsn)
    (hr : rec.payload = .pageReclaim pl.reclaim) (ho : rec.transactionId ≠ t.transactionId) :
    Told (seen ++ [rec]) undoNext (t.noteReclaim pl.reclaim.page rec.lsn) ps := by
  obtain ⟨hpr, hg, hv⟩ := h.other ho
  refine ⟨⟨hpr.own, hpr.begun, hpr.linked, hpr.last, hpr.worked,
    hpr.compensated, hpr.cleaned⟩, ⟨hg.active, ?_, hg.cleaning⟩, ?_⟩
  · intro hn
    obtain ⟨hcl, hh, done, ahead, hc⟩ := hg.uncleaned hn
    exact ⟨hcl, hh, done, ahead, hc.work, hc.undone, hc.undoing, hc.active⟩
  · have hm : SameEvidence (seen ++ [rec]) t.transactionId pl.reclaim.page ent
        { ent with reclaimLsn := some rec.lsn } := by
      refine ⟨rfl, rfl, .inr fun lsn hl => ⟨bef, [], ?_⟩⟩
      exact ⟨intent, rec, pl, by simp [hsn], hi, hp, hs.symm, rfl, hr, some.inj hl⟩
    exact hv.reentered he hm rfl (by simp [OwnedRollbackAnalysis.noteReclaim, he]) id

theorem linked_front {prev : Option Nat} {pre back : List LogRecord}
    (h : Linked prev (pre ++ back)) : Linked prev pre := by
  induction pre generalizing prev with
  | nil => trivial
  | cons rec pre ih => exact ⟨h.1, ih h.2⟩

/-- The next record of the transaction goes behind the last of its parts. -/
theorem Parted.extend {ps' : Parts} (h : Parted seen t ps) (hb : ps'.begin = ps.begin)
    (hr : ps'.rest = ps.rest ++ [rec]) (ho : rec.transactionId = t.transactionId)
    (hp : rec.prevLsn = some t.lastLsn) (hs : SameOwner t t') (hl : t'.lastLsn = rec.lsn)
    (hw : ∀ rec ∈ ps'.work, rec.payload.isWork = true)
    (hm : ∀ rec ∈ ps'.clrs, rec.payload.isCompensation = true)
    (hc : ∀ rec ∈ ps'.cleanup, rec.payload.isCleanupBegin = true ∨
      HistoryState.allowedDuringCleanup rec.payload = true) : Parted (seen ++ [rec]) t' ps' := by
  refine ⟨?_, ?_, ?_, ?_, hw, hm, hc⟩
  · rw [ownRecords_append, hs.transactionId, h.own, hr, hb]
    simp [ownRecords, ho]
  · rw [hs.beginLsn, hb]
    exact h.begun
  · rw [hs.beginLsn, hr, linked_concat]
    exact ⟨h.linked, by rw [hp, h.last]⟩
  · rw [hs.beginLsn, hr, lastLsnOf_concat, hl]

theorem Parted.begin_mem (h : Parted seen t ps) : ps.begin ∈ seen := by
  have hm : ps.begin ∈ ownRecords seen t.transactionId := by
    rw [h.own]
    exact mem_cons_self
  exact (mem_ownRecords.mp hm).1

theorem not_update_of_isBeginOwned (h : pl.isBeginOwned = true) : pl.pageUpdateIdentity = none := by
  cases pl with
  | beginOwned => rfl
  | _ => cases h

namespace HistoryState

variable {h h' : HistoryState}

/-- From the end of `done`, the walk skips what needs no compensation and stops at
the last update that does, or at BEGIN. -/
def StopsAt (begin : Nat) (done : List LogRecord) (target : Option Nat) : Prop :=
  ∃ kept skipped, done = kept ++ skipped ∧ target = some (lastLsnOf begin kept) ∧
    (∀ record ∈ skipped, record.payload.requiresUndo = false) ∧
    (kept = [] ∨ ∃ front update, kept = front ++ [update] ∧ update.payload.requiresUndo = true)

theorem nextRequiredUndo_ok {begin rounds : Nat} {done : List LogRecord} {tgt : Option Nat}
    (hf : ∀ rec ∈ done, h.find rec.lsn = some rec ∧ rec.transactionId = owner ∧
      rec.lsn ≠ begin ∧ rec.payload.isWork = true) (hl : Linked (some begin) done)
    (hrn : done.length < rounds)
    (ht : h.nextRequiredUndo owner begin rounds (some (lastLsnOf begin done)) = .ok tgt) :
    StopsAt begin done tgt := by
  induction done using reverseRecOn generalizing rounds with
  | nil =>
    obtain ⟨rounds, rfl⟩ := Nat.exists_eq_succ_of_ne_zero hrn.ne'
    simp only [lastLsnOf, nextRequiredUndo, if_true, Except.ok.injEq] at ht
    exact ⟨[], [], rfl, ht.symm, by simp, .inl rfl⟩
  | append_singleton pre rec ih =>
    obtain ⟨rounds, rfl⟩ := Nat.exists_eq_succ_of_ne_zero (Nat.zero_lt_of_lt hrn).ne'
    obtain ⟨hfn, ho, hb, hw⟩ := hf rec (by simp)
    obtain ⟨hl, hpr⟩ := linked_concat.mp hl
    have hs : rec.payload.requiresUndo = false →
        h.nextRequiredUndo owner begin rounds rec.prevLsn = .ok tgt →
        StopsAt begin (pre ++ [rec]) tgt := by
      intro he hx
      rw [hpr] at hx
      obtain ⟨kept, skipped, rfl, ht, hsk, hk⟩ :=
        ih (fun old hd => hf old (by simp [hd])) hl (by simp at hrn; omega) hx
      exact ⟨kept, skipped ++ [rec], by simp, ht, forall_mem_concat hsk he, hk⟩
    rw [lastLsnOf_concat] at ht
    simp only [nextRequiredUndo, some.injEq, hb, if_false, bind_some, hfn, ok_iff] at ht
    obtain ⟨_, _, ht⟩ := ht
    split at ht
    · rename_i pl hp
      exact hs (by simp [requiresUndo, hp, pageUpdateIdentity]) ht
    · rename_i hr
      split at ht
      · rename_i hn
        obtain ⟨idn, hi, hfr⟩ := hn
        refine hs ?_ ht
        rw [mem_def] at hi
        simp [requiresUndo, hi, hfr]
      · rename_i hd
        simp only [Except.ok.injEq] at ht
        refine ⟨pre ++ [rec], [], by simp, ?_, by simp, .inr ⟨pre, rec, rfl, ?_⟩⟩
        · rw [lastLsnOf_concat, ht]
        · cases hi : rec.payload.pageUpdateIdentity with
          | none =>
            obtain ⟨pl, hp⟩ := pageReserve_of_isWork hw hi
            exact absurd hp (hr pl)
          | some idn =>
            simp only [requiresUndo, hi, any_some]
            cases hex : idn.beforePageExisted with
            | true => rfl
            | false => exact absurd ⟨idn, hi, hex⟩ hd

/-- The walk has just read `record`, the next of a live owned transaction. -/
structure Reads (h : HistoryState) (seen : List LogRecord) (t : OwnedRollbackAnalysis)
    (record : LogRecord) : Prop where
  seen : h.seen = seen ++ [record]
  sorted : h.seen.Pairwise (fun a b => a.lsn < b.lsn)
  own : record.transactionId = t.transactionId
  chained : record.prevLsn = some t.lastLsn
  permitted : t.cleanupBeginLsn = none ∨ allowedDuringCleanup record.payload = true

theorem Reads.mem_of_rest (hreads : Reads h seen t rec) (hp : Parted seen t ps)
    {old : LogRecord} (ho : old ∈ ps.rest) :
    old ∈ h.seen ∧ old.transactionId = t.transactionId ∧ t.beginLsn < old.lsn := by
  have hm : old ∈ ownRecords seen t.transactionId := by
    rw [hp.own]
    exact mem_cons_of_mem _ ho
  have hs : (ownRecords h.seen t.transactionId).Pairwise (fun a b => a.lsn < b.lsn) :=
    hreads.sorted.filter _
  rw [hreads.seen, ownRecords_append, hp.own, cons_append, pairwise_cons] at hs
  obtain ⟨hn, hi⟩ := mem_ownRecords.mp hm
  refine ⟨hreads.seen ▸ mem_append_left _ hn, hi, ?_⟩
  rw [← hp.begun.1]
  exact hs.1 old (mem_append_left _ ho)

/-- The undo that has to come next, seen from the cursor. -/
theorem Reads.requiredUndo (hreads : Reads h seen t rec) (hp : Parted seen t ps)
    {done ahead : List LogRecord} (hcl : ps.cleanup = [])
    (hc : Cursor (h.undoNext.find? t.transactionId) t ps done ahead) {tgt : Option Nat}
    (ht : h.requiredUndo t rec.prevLsn = .ok tgt) : StopsAt t.beginLsn done tgt := by
  have hd : ∀ old ∈ done, old ∈ ps.work := by
    intro old hold
    rw [hc.work]
    exact mem_append_left _ hold
  have hst : (if t.phase = .undoing then (h.undoNext.find? t.transactionId).getD none
      else rec.prevLsn) = some (lastLsnOf t.beginLsn done) := by
    split
    · rename_i hu
      rw [hc.undoing hu]
      rfl
    · rename_i ha
      obtain ⟨hh, hs⟩ := hc.active ha
      have hw := hc.work
      rw [hh, append_nil] at hw
      rw [hreads.chained, hp.last, Parts.rest, hs, hcl, hw]
      simp
  simp only [HistoryState.requiredUndo, hst] at ht
  refine nextRequiredUndo_ok ?_ ?_ ?_ ht
  · intro old hold
    obtain ⟨hm, hi, hb⟩ := hreads.mem_of_rest hp (mem_append_left _ (hd old hold))
    exact ⟨find?_lsn hreads.sorted hm, hi, hb.ne', hp.worked old (hd old hold)⟩
  · have hn := hp.linked
    rw [Parts.rest, hc.work, append_assoc] at hn
    exact linked_front hn
  · have hl := length_filter_le
      (fun r : LogRecord => decide (r.transactionId = t.transactionId)) seen
    have ho : (seen.filter fun r : LogRecord =>
        decide (r.transactionId = t.transactionId)) = ps.begin :: ps.rest := hp.own
    rw [ho, Parts.rest, hc.work] at hl
    simp only [length_cons, length_append] at hl
    rw [hreads.seen]
    simp only [length_append, length_cons, length_nil]
    omega

/-- While the transaction is active its records are work and nothing else. -/
theorem told_active (ht : Told seen undoNext t ps) (ha : t.phase = .ownedActive) :
    t.cleanupBeginLsn = none ∧ ps.clrs = [] ∧ ps.cleanup = [] := by
  have hn := ht.progress.active ha
  obtain ⟨hc, _, done, ahead, hr⟩ := ht.progress.uncleaned hn
  exact ⟨hn, (hr.active (by simp [ha])).2, hc⟩

section
variable (hreads : Reads h seen t rec)
  (ht : Told seen (h.undoNext.find? t.transactionId) t ps)
include hreads ht

/-- More work of an active transaction: at most it enters a reservation of its own. -/
theorem Reads.work
    (ha : t.phase = .ownedActive) (hw : rec.payload.isWork = true)
    (hk : ∀ pg ent, t.reservations.find? pg = some ent →
      rsvs.find? pg = some ent) (hd : ∀ pg ent, rsvs.find? pg = some ent →
      t.reservations.find? pg = some ent ∨ (ent = ⟨rec.lsn, none, none, none, .pending⟩ ∧
        ∃ pl, rec.payload = .pageReserve pl ∧ pl.pageId = pg))
    (hen : ∀ pl, rec.payload = .pageReserve pl →
      ∃ ent, rsvs.find? pl.pageId = some ent ∧ ent.reserveLsn = rec.lsn) :
    Told h.seen undoNext { t with reservations := rsvs, lastLsn := rec.lsn }
      { ps with work := ps.work ++ [rec] } := by
  obtain ⟨hn, hcr, hc⟩ := told_active ht ha
  have hh : ({ t with reservations := rsvs, lastLsn := rec.lsn } :
      OwnedRollbackAnalysis).phase ≠ .undoing := by simp [ha]
  refine ⟨?_, ⟨fun _ => hn, ?_, fun hs => absurd hn hs⟩, ?_⟩
  · rw [hreads.seen]
    refine ht.parted.extend rfl ?_ hreads.own hreads.chained ⟨rfl, rfl, rfl, rfl⟩ rfl
      (forall_mem_concat ht.parted.worked hw) ht.parted.compensated ht.parted.cleaned
    simp [Parts.rest, hcr, hc]
  · intro _
    refine ⟨hc, .inl ha, ps.work ++ [rec], [], by simp, ?_,
      fun hu => absurd hu hh, fun _ => ⟨rfl, hcr⟩⟩
    simp [hcr]
  · have hv := ht.evidence
    refine ⟨?_, ?_, by simp [hc], ?_, ?_, by simp [hc], by simp [ha]⟩
    · intro pg ent he
      rcases hd pg ent he with ho | ⟨rfl, hr⟩
      · obtain ⟨old, hm, hl⟩ := hv.reserved pg ent ho
        exact ⟨old, mem_append_left _ hm, hl⟩
      · exact ⟨rec, by simp, rfl, hr⟩
    · intro old ho pl hp
      rcases mem_append.mp ho with ho | ho
      · obtain ⟨ent, he, hl⟩ := hv.entered old ho pl hp
        exact ⟨ent, hk _ ent he, hl⟩
      · rw [mem_singleton.mp ho] at hp ⊢
        exact hen pl hp
    · intro pg ent he hpr
      rcases hd pg ent he with ho | ⟨rfl, _⟩
      · obtain ⟨progress, hf⟩ := hv.closed pg ent ho hpr
        simp [hc] at hf
      · simp at hpr
    · intro pg ent lsn he hl
      rcases hd pg ent he with ho | ⟨rfl, _⟩
      · obtain ⟨bef, aft, han⟩ := hv.reclaimed pg ent lsn ho hl
        exact ⟨bef, aft ++ [rec], hreads.seen ▸ han.concat rec⟩
      · simp at hl

theorem Reads.reserve {pl : PageReserveLogPayload} (hp : rec.payload = .pageReserve pl)
    (hs : h.onReserve t rec pl = .ok (h', t')) :
    ∃ ps', Told h.seen undoNext { t' with lastLsn := rec.lsn } ps' := by
  simp only [onReserve, ok_iff] at hs
  obtain ⟨_, ⟨ha, _, hk⟩, _, _, _, rfl⟩ := hs
  have hf : ∀ ent, t.reservations.find? pl.pageId ≠ some ent := by
    intro ent he
    have := hk pl.pageId (mem_keys.mpr ⟨ent, he⟩)
    omega
  refine ⟨_, hreads.work ht ha (by simp [hp, isWork, isPageReserve]) ?_ ?_ ?_⟩
  · intro pg ent he
    have hg : pg ≠ pl.pageId := by
      rintro rfl
      exact hf ent he
    simp [hg, he]
  · intro pg ent he
    rw [find?_insert] at he
    split at he
    · rename_i hg
      exact .inr ⟨(some.inj he).symm, pl, hp, hg.symm⟩
    · exact .inl he
  · intro other ho
    rw [hp] at ho
    cases ho
    exact ⟨_, by simp; rfl, rfl⟩

theorem Reads.update {idn : PageUpdateIdentity} (hi : rec.payload.pageUpdateIdentity = some idn)
    (hs : h.onUpdate t rec idn = .ok (h', t')) :
    ∃ ps', Told h.seen undoNext { t' with lastLsn := rec.lsn } ps' := by
  simp only [onUpdate, ok_iff] at hs
  obtain ⟨_, ⟨ha, _⟩, _, _, _, _, _, rfl⟩ := hs
  refine ⟨_, hreads.work ht ha (by simp [isWork, isPageUpdate,
    hi]) (fun _ _ he => he) (fun _ _ he => .inl he) ?_⟩
  intro pl hp
  simp [hp, pageUpdateIdentity] at hi

omit ht in
/-- The update a CLR names is the last of the work that still needs one. -/
theorem Reads.compensated (hp : Parted seen t ps) {clr : CompensationLogPayload}
    {done ahead : List LogRecord} (hcl : ps.cleanup = [])
    (hr : Cursor (h.undoNext.find? t.transactionId) t ps done ahead)
    (hc : h.compensates rec clr = true)
    (hq : h.requiredUndo t rec.prevLsn = .ok (some clr.compensatedUpdateLsn)) :
    ∃ pre update skipped, done = pre ++ update :: skipped ∧
      update.lsn = clr.compensatedUpdateLsn ∧ clr.undoNextLsn = update.prevLsn ∧
      update.payload.pageUpdateIdentity = some ⟨clr.pageId, true⟩ ∧
      update.payload.requiresUndo = true ∧ ∀ rec ∈ skipped, rec.payload.requiresUndo = false := by
  obtain ⟨kept, skipped, hd, hk, hsk, hs⟩ :=
    hreads.requiredUndo hp hcl hr hq
  rw [some.injEq] at hk
  unfold compensates at hc
  split at hc
  case h_2 => simp at hc
  rename_i original ho
  obtain ⟨_, hi, hn⟩ := of_decide_eq_true hc
  obtain ⟨hl, hm⟩ : original.lsn = clr.compensatedUpdateLsn ∧ original ∈ h.seen :=
    ⟨by simpa using find?_some ho, mem_of_find?_eq_some ho⟩
  rcases hs with he | ⟨pre, update, hf, hre⟩
  · -- BEGIN is no page update, so the walk did not stop there
    have hb : ps.begin ∈ h.seen := hreads.seen ▸ mem_append_left _ hp.begin_mem
    rw [he] at hk
    rw [eq_of_lsn_eq hreads.sorted hm hb (hl.trans (hk.trans hp.begun.1.symm)),
      not_update_of_isBeginOwned hp.begun.2] at hi
    simp at hi
  · have hu : update ∈ ps.work := by simp [hr.work, hd, hf]
    obtain ⟨hsn, _, _⟩ := hreads.mem_of_rest hp (mem_append_left _ hu)
    rw [hf, lastLsnOf_concat] at hk
    have hsm := eq_of_lsn_eq hreads.sorted hm hsn (hl.trans hk)
    subst hsm
    exact ⟨pre, original, skipped, by simp [hd, hf], hl, hn.symm, hi, hre, hsk⟩

theorem Reads.compensation {clr : CompensationLogPayload} (hp : rec.payload = .compensation clr)
    (hs : h.onCompensation t rec clr = .ok (h', t')) :
    ∃ ps', Told h.seen (h'.undoNext.find? t.transactionId) { t' with lastLsn := rec.lsn }
      ps' := by
  have ho : t.cleanupBeginLsn = none := by
    simpa [hp, allowedDuringCleanup] using hreads.permitted
  obtain ⟨hc, _, done, ahead, hr⟩ := ht.progress.uncleaned ho
  simp only [onCompensation, ok_iff] at hs
  obtain ⟨_, hm, tgt, hq, _, rfl, rfl, rfl⟩ := hs
  obtain ⟨pre, update, skipped, hd, hl, hx, hi, hre, hk⟩ :=
    hreads.compensated ht.parted hc hr hm hq
  have hw : ps.work = pre ++ update :: (skipped ++ ahead) := by
    simp [hr.work, hd]
  have hn := ht.parted.linked
  rw [Parts.rest, hw, append_assoc, cons_append, ← singleton_append, ← append_assoc] at hn
  have hpr := (linked_concat.mp (linked_front hn)).2
  refine ⟨{ ps with clrs := ps.clrs ++ [rec] }, ?_, ⟨by simp, ?_, ?_⟩, ?_⟩
  · rw [hreads.seen]
    refine ht.parted.extend rfl ?_ hreads.own hreads.chained ⟨rfl, rfl, rfl, rfl⟩ rfl
      ht.parted.worked ?_ ht.parted.cleaned
    · simp [Parts.rest, hc]
    · exact forall_mem_concat ht.parted.compensated (by simp [hp, isCompensation])
  · intro _
    refine ⟨hc, .inr rfl, pre, update :: (skipped ++ ahead), hw, ?_, ?_, by simp⟩
    · have hnt : skipped.filter (·.payload.requiresUndo) = [] := by
        rw [filter_eq_nil_iff]
        intro old hold
        simp [hk old hold]
      simp only [filter_cons, hre, if_true, filter_append, hnt, nil_append, reverse_cons]
      exact rel_append hr.undone (.cons ⟨clr, hp, hl.symm, hx, hi⟩ .nil)
    · intro _
      rw [hreads.own, find?_insert, if_pos rfl, hx, hpr]
  · intro hsm
    exact absurd ho hsm
  · rw [hreads.seen]
    have he := ht.evidence.concat rec
    exact ⟨he.reserved, he.entered, he.open_, he.closed, he.reclaimed, he.named, by simp⟩

theorem Reads.cleanupBegin {pl : CleanupBeginPayload} (hp : rec.payload = .rollbackCleanupBegin pl)
    (hs : h.onCleanupBegin t rec pl = .ok t') :
    ∃ ps', Told h.seen undoNext { t' with lastLsn := rec.lsn } ps' := by
  have ho : t.cleanupBeginLsn = none := by
    simpa [hp, allowedDuringCleanup] using hreads.permitted
  obtain ⟨hl, _, done, ahead, hc⟩ := ht.progress.uncleaned ho
  simp only [onCleanupBegin, ok_iff] at hs
  obtain ⟨_, _, tgt, hq, _, rfl, rfl⟩ := hs
  obtain ⟨kept, skipped, hd, hk, hsk, hls⟩ :=
    hreads.requiredUndo ht.parted hl hc hq
  have hm : kept = [] := by
    rcases hls with hm | ⟨pre, update, hf, _⟩
    · exact hm
    · have hu : update ∈ ps.work := by simp [hc.work, hd, hf]
      obtain ⟨_, _, hb⟩ := hreads.mem_of_rest ht.parted (mem_append_left _ hu)
      rw [hf, lastLsnOf_concat, some.injEq] at hk
      omega
  have hun : ps.work.filter (·.payload.requiresUndo) = ahead.filter (·.payload.requiresUndo) := by
    rw [hc.work, hd, hm, nil_append, filter_append,
      filter_eq_nil_iff.mpr fun old hold => by simp [hsk old hold], nil_append]
  have hb : rec.payload.isCleanupBegin = true := by
    simp [hp, isCleanupBegin]
  refine ⟨{ ps with cleanup := [rec] }, ?_, ⟨?_, by simp, ?_⟩, ?_⟩
  · rw [hreads.seen]
    refine ht.parted.extend rfl (by simp [Parts.rest, hl]) hreads.own hreads.chained
      ⟨rfl, rfl, rfl, rfl⟩ rfl ht.parted.worked ht.parted.compensated ?_
    intro old hold
    rw [mem_singleton.mp hold]
    exact .inl hb
  · intro hh
    simp only at hh
    split at hh <;> simp at hh
  · intro _
    exact ⟨hun ▸ hc.undone, rec, [], rfl, hb⟩
  · rw [hreads.seen]
    have he := ht.evidence.concat rec
    refine ⟨he.reserved, he.entered, ?_, ?_, he.reclaimed, ?_, ?_⟩
    · intro pg ent _ _
      simp [hp, progressesOn]
    · intro pg ent hn hr
      obtain ⟨progress, hfl⟩ := he.closed pg ent hn hr
      simp [hl] at hfl
    · intro old hold progress hr
      rw [mem_singleton.mp hold, hp] at hr
      simp at hr
    · intro hh pg ent hn
      have hcm : t.cleanupComplete = true := by
        by_contra hincomplete
        simp [hincomplete] at hh
      have hsm := all_eq_true.mp hcm _ (find?_eq_some.mp hn)
      exact isSome_iff_ne_none.mp hsm

/-- One more record of a cleanup that has begun. -/
theorem Reads.cleanup
    (hg : t.cleanupBeginLsn ≠ none) (hl : allowedDuringCleanup rec.payload = true)
    {phase : OwnedCleanupPhase} (hp : phase ≠ .ownedActive) (he : Evidence (seen ++ [rec])
      { t with phase := phase, reservations := rsvs, lastLsn := rec.lsn }
      { ps with cleanup := ps.cleanup ++ [rec] }) :
    Told h.seen undoNext { t with phase := phase, reservations := rsvs, lastLsn := rec.lsn }
      { ps with cleanup := ps.cleanup ++ [rec] } := by
  refine ⟨?_, ⟨fun ha => absurd ha hp, fun hn => absurd hn hg, ?_⟩, hreads.seen ▸ he⟩
  · rw [hreads.seen]
    refine ht.parted.extend rfl (by simp [Parts.rest]) hreads.own hreads.chained
      ⟨rfl, rfl, rfl, rfl⟩ rfl ht.parted.worked ht.parted.compensated ?_
    exact forall_mem_concat ht.parted.cleaned (.inr hl)
  · intro _
    obtain ⟨hu, fst, rest, hf, hb⟩ := ht.progress.cleaning hg
    exact ⟨hu, fst, rest ++ [rec], by simp [hf], hb⟩

theorem Reads.abort (hp : rec.payload = .abort) (hc : t.phase = .cleanupComplete) :
    ∃ ps', Told h.seen undoNext { t with phase := .abortRecorded, lastLsn := rec.lsn }
      ps' := by
  have hb : t.cleanupBeginLsn ≠ none := by
    intro hn
    have hh := (ht.progress.uncleaned hn).2.1
    simp [hc] at hh
  refine ⟨_, hreads.cleanup ht hb (by simp [hp, allowedDuringCleanup]) (by simp) ?_⟩
  have he := ht.evidence.quiet (by simp [hp] : ∀ progress, rec.payload ≠ _)
  exact ⟨he.reserved, he.entered, he.open_, he.closed, he.reclaimed, he.named,
    fun _ => he.complete (.inl hc)⟩

theorem Reads.cleanupIntent {pl : CleanupIntentPayload}
    (hp : rec.payload = .rollbackCleanupIntent pl)
    (hs : h.onCleanupIntent t rec pl = .ok (h', t')) :
    ∃ ps', Told h.seen undoNext { t' with lastLsn := rec.lsn } ps' := by
  unfold onCleanupIntent at hs
  split at hs
  · simp at hs
  · rename_i ent he
    simp only [ok_iff] at hs
    obtain ⟨_, ⟨hb, _⟩, _, _, _, rfl⟩ := hs
    refine ⟨_, hreads.cleanup ht (isSome_iff_ne_none.mp hb)
      (by simp [hp, allowedDuringCleanup]) (by simp) ?_⟩
    have hm : SameEvidence (seen ++ [rec]) t.transactionId pl.reclaim.page ent
        { ent with intentLsn := some rec.lsn } := ⟨rfl, rfl, .inl rfl⟩
    exact (ht.evidence.quiet (by simp [hp])).reentered he hm rfl rfl (by simp)

/-- Different pages are reserved by different records. -/
theorem Reads.reserveLsn_ne {other : Nat} {ent' : OwnedReservationEvidence} (hs : other ≠ pg)
    (he : t.reservations.find? pg = some ent) (he' : t.reservations.find? other = some ent') :
    ent'.reserveLsn ≠ ent.reserveLsn := by
  intro hl
  obtain ⟨a, ha, hal, pl, hp, hg⟩ := ht.evidence.reserved pg ent he
  obtain ⟨b, hb, hbl, pl', hp', hg'⟩ :=
    ht.evidence.reserved other ent' he'
  have hm : a = b := eq_of_lsn_eq hreads.sorted
    (hreads.mem_of_rest ht.parted (mem_append_left _ ha)).1
    (hreads.mem_of_rest ht.parted (mem_append_left _ hb)).1 (hal.trans (hl.symm.trans hbl.symm))
  rw [← hm, hp] at hp'
  cases hp'
  exact hs (hg'.symm.trans hg)

omit hreads ht in
theorem progressOutcome_named {pl : CleanupProgressPayload} {out : ReservationCleanupOutcome}
    (h : h.progressOutcome t ent pl = .ok out) (hl : pl.reclaimLsn = some lsn) :
    ent.reclaimLsn = some lsn := by
  simp only [progressOutcome, hl, ok_iff] at h
  exact h.choose_spec.1.2.1

theorem Reads.cleanupProgress {pl : CleanupProgressPayload}
    (hp : rec.payload = .rollbackCleanupProgress pl) (hs : h.onCleanupProgress t rec pl = .ok t') :
    ∃ ps', Told h.seen undoNext { t' with lastLsn := rec.lsn } ps' := by
  unfold onCleanupProgress at hs
  split at hs
  · simp at hs
  rename_i ent hen
  simp only [ok_iff] at hs
  obtain ⟨_, ⟨hb, hr, hop⟩, out, ho, rfl⟩ := hs
  refine ⟨_, hreads.cleanup ht (isSome_iff_ne_none.mp hb)
    (by simp [hp, allowedDuringCleanup]) (by split <;> simp) ?_⟩
  have he := ht.evidence.concat rec
  have hfl : ∀ lsn, (ps.cleanup ++ [rec]).filter (·.payload.progressesOn lsn) =
      ps.cleanup.filter (·.payload.progressesOn lsn) ++
        if pl.reserveLsn = lsn then [rec] else [] := by
    intro lsn
    by_cases hl : pl.reserveLsn = lsn
    · simp [filter_append, hp, progressesOn, hl]
    · simp [filter_append, hp, progressesOn, hl]
  have hother : ∀ {pg fd}, pg ≠ pl.page → t.reservations.find? pg = some fd →
      (ps.cleanup ++ [rec]).filter (·.payload.progressesOn fd.reserveLsn) =
        ps.cleanup.filter (·.payload.progressesOn fd.reserveLsn) := by
    intro pg fd hg hd
    rw [hfl, if_neg (hr ▸ (hreads.reserveLsn_ne ht hg hen hd).symm), append_nil]
  refine ⟨?_, ?_, ?_, ?_, ?_, ?_, ?_⟩
  · exact forall_insert (he.reserved _ ent hen) fun pg fd _ => he.reserved pg fd
  · intro old hd reserve hrs
    obtain ⟨fd, hn, hl⟩ := he.entered old hd reserve hrs
    by_cases hg : reserve.pageId = pl.page
    · rw [hg, hen] at hn
      cases hn
      exact ⟨{ ent with outcome := out, progressLsn := some rec.lsn },
        by rw [find?_insert, if_pos hg], hl⟩
    · exact ⟨fd, by rw [find?_insert, if_neg hg]; exact hn, hl⟩
  · refine forall_insert (by simp) ?_
    intro pg fd hg hd hno
    rw [hother hg hd]
    exact he.open_ pg fd hd hno
  · refine forall_insert ?_ ?_
    · intro _
      exact ⟨rec, by rw [hfl, if_pos hr.symm, he.open_ _ ent hen hop, nil_append]⟩
    · intro pg fd hg hd hm
      rw [hother hg hd]
      exact he.closed pg fd hd hm
  · intro pg fd lsn
    refine forall_insert ?_ (fun pg fd _ => he.reclaimed pg fd lsn) pg fd
    exact he.reclaimed _ ent lsn hen
  · refine forall_mem_concat he.named ?_
    intro progress hpr lsn hl
    rw [hp] at hpr
    cases hpr
    obtain ⟨bef, aft, ha⟩ := ht.evidence.reclaimed _ ent lsn hen (progressOutcome_named ho hl)
    exact ⟨bef, aft ++ [rec], hr ▸ ha.concat rec, by simp⟩
  · intro hh pg fd hn
    have hc : ({ t with reservations := (t.reservations.insert pl.page
        { ent with outcome := out, progressLsn := some rec.lsn }) } :
        OwnedRollbackAnalysis).cleanupComplete = true := by
      by_contra hincomplete
      simp [hincomplete] at hh
    have hm := all_eq_true.mp hc _ (find?_eq_some.mp hn)
    exact isSome_iff_ne_none.mp hm

/-- The next record of a live owned transaction: it commits, or its story goes on. -/
theorem Reads.told (how : t.protocol = .ownedAppend)
    (hs : h.onTransactionRecord t rec = .ok (h', t')) :
    t'.phase = .commitRecorded ∨ ∃ ps',
      Told h.seen (h'.undoNext.find? t.transactionId) { t' with lastLsn := rec.lsn } ps' := by
  cases hp : rec.payload with
  | pageReserve pl =>
    simp only [onTransactionRecord, hp] at hs
    exact .inr (hreads.reserve ht hp hs)
  | compensation clr =>
    simp only [onTransactionRecord, hp] at hs
    exact .inr (hreads.compensation ht hp hs)
  | rollbackCleanupBegin pl =>
    simp only [onTransactionRecord, hp, ok_iff] at hs
    obtain ⟨_, hb, _, rfl⟩ := hs
    exact .inr (hreads.cleanupBegin ht hp hb)
  | rollbackCleanupIntent pl =>
    simp only [onTransactionRecord, hp] at hs
    exact .inr (hreads.cleanupIntent ht hp hs)
  | rollbackCleanupProgress pl =>
    simp only [onTransactionRecord, hp, ok_iff] at hs
    obtain ⟨_, hr, _, rfl⟩ := hs
    exact .inr (hreads.cleanupProgress ht hp hr)
  | commit =>
    simp only [onTransactionRecord, hp, ok_iff] at hs
    obtain ⟨_, _, _, rfl⟩ := hs
    exact .inl rfl
  | abort =>
    simp only [onTransactionRecord, hp, ok_iff] at hs
    obtain ⟨_, hc, _, rfl⟩ := hs
    have hc := hc.resolve_left (by simp [how])
    exact .inr (hreads.abort ht hp hc)
  | pageUpdate | pageDeltaUpdate | pageUpdateV2 | pageDeltaUpdateV2 =>
    simp only [onTransactionRecord, hp, pageUpdateIdentity] at hs
    exact .inr (hreads.update ht (by simp [hp, pageUpdateIdentity]) hs)
  | begin | beginOwned | checkpointBegin | checkpointEnd | fuzzyCheckpointBegin
  | fuzzyCheckpointEnd | pageReclaim =>
    simp [onTransactionRecord, hp, pageUpdateIdentity] at hs

end

theorem advance_eq (h : HistoryState) (t : OwnedRollbackAnalysis) :
    ∃ owners, h.advance t = { h.setTransaction t with pageOwners := owners } := by
  unfold advance
  simp only
  split
  · exact ⟨_, rfl⟩
  · exact ⟨h.pageOwners, rfl⟩

/-- What holds after every record the walk has accepted. -/
structure WalkInv (h : HistoryState) : Prop where
  placed : ∃ start, Contiguous start h.seen h.endLsn
  keyed : Keyed h
  begun : ∀ record ∈ h.seen, record.transactionId ≠ 0 →
    ∃ t, h.transactions.find? record.transactionId = some t
  referred : ∀ record ∈ h.seen, ∀ lsn, record.payload.refersTo = some lsn →
    ∃ target ∈ h.seen, target.lsn = lsn ∧ target.transactionId = record.transactionId
  told : ∀ id t, h.transactions.find? id = some t → id ≠ 0 ∧
    (t.protocol = .ownedAppend → t.phase ≠ .commitRecorded →
      ∃ parts, Told h.seen (h.undoNext.find? id) t parts)
  pending : ∀ owner payload, h.pendingReclaim = some (owner, payload) →
    ∃ before intent t entry, h.seen = before ++ [intent] ∧ intent.transactionId = owner ∧
      intent.payload = .rollbackCleanupIntent payload ∧ h.transactions.find? owner = some t ∧
      t.reservations.find? payload.reclaim.page = some entry ∧
      entry.reserveLsn = payload.reserveLsn

theorem placed_concat (hp : ∃ start, Contiguous start h.seen h.endLsn) (hl : rec.lsn = h.endLsn) :
    ∃ start, Contiguous start (h.seen ++ [rec]) rec.endLsn := by
  obtain ⟨start, hc⟩ := hp
  exact ⟨start, contiguous_append.mpr ⟨h.endLsn, hc, hl, rfl⟩⟩

section
variable (hinv : WalkInv h)
include hinv

/-- A record outside every known transaction continues all their stories. -/
theorem WalkInv.told_other {id : Nat} (ht : h.transactions.find? id = some t)
    (ho : rec.transactionId ≠ id) : id ≠ 0 ∧
    (t.protocol = .ownedAppend → t.phase ≠ .commitRecorded →
      ∃ ps, Told (h.seen ++ [rec]) (h.undoNext.find? id) t ps) := by
  obtain ⟨hi, hl⟩ := hinv.told id t ht
  refine ⟨hi, fun how hp => ?_⟩
  obtain ⟨ps, hl⟩ := hl how hp
  exact ⟨ps, hl.other (by rw [hinv.keyed id t ht]; exact ho)⟩

theorem WalkInv.referred_concat
    (hr : ∀ lsn, rec.payload.refersTo = some lsn → ∃ tgt ∈ h.seen ++ [rec],
      tgt.lsn = lsn ∧ tgt.transactionId = rec.transactionId) :
    ∀ old ∈ h.seen ++ [rec], ∀ lsn, old.payload.refersTo = some lsn →
      ∃ tgt ∈ h.seen ++ [rec], tgt.lsn = lsn ∧ tgt.transactionId = old.transactionId := by
  refine forall_mem_concat ?_ hr
  intro old ho lsn hl
  obtain ⟨tgt, hm, ht⟩ := hinv.referred old ho lsn hl
  exact ⟨tgt, mem_append_left _ hm, ht⟩

theorem WalkInv.system (hl : rec.lsn = h.endLsn) (hn : h.pendingReclaim = none)
    (hs : rec.transactionId = 0)
    (hp : rec.payload.isPageReclaim = true ∨ rec.payload.isCheckpoint = true) :
    WalkInv (h.read rec) where
  placed := placed_concat hinv.placed hl
  keyed := hinv.keyed
  begun := forall_mem_concat hinv.begun fun hi => absurd hs hi
  referred := by
      refine hinv.referred_concat ?_
      intro lsn hl
      cases hk : rec.payload <;>
        simp [hk, isPageReclaim, isCheckpoint, refersTo] at hp hl
  told := by
      intro id t ht
      refine hinv.told_other ht ?_
      rw [hs]
      exact (hinv.told id t ht).1.symm
  pending := by
      intro owner pl hm
      rw [read, hn] at hm
      cases hm

/-- The record of a transaction, or the reclaim it announced, sets what is known of
that transaction and continues the stories of the others. -/
theorem WalkInv.noted (hl : rec.lsn = h.endLsn) (hs : h'.seen = h.seen ++ [rec])
    (he : h'.endLsn = rec.endLsn) (hi : owner ≠ 0)
    (ho : rec.transactionId = owner ∨ rec.transactionId = 0)
    (hf : h'.transactions = h.transactions.insert owner t') (hk : t'.transactionId = owner)
    (hu : ∀ id, id ≠ owner → h'.undoNext.find? id = h.undoNext.find? id)
    (hr : ∀ lsn, rec.payload.refersTo = some lsn → ∃ tgt ∈ h.seen ++ [rec],
      tgt.lsn = lsn ∧ tgt.transactionId = rec.transactionId)
    (ht : t'.protocol = .ownedAppend → t'.phase ≠ .commitRecorded →
      ∃ ps, Told (h.seen ++ [rec]) (h'.undoNext.find? owner) t' ps)
    (hp : ∀ id pl, h'.pendingReclaim = some (id, pl) → ∃ ent, id = owner ∧
      rec.transactionId = owner ∧ rec.payload = .rollbackCleanupIntent pl ∧
      t'.reservations.find? pl.reclaim.page = some ent ∧ ent.reserveLsn = pl.reserveLsn) :
    WalkInv h' := by
  have hnew : h'.transactions.find? owner = some t' := by
    rw [hf, find?_insert, if_pos rfl]
  refine ⟨?_, ?_, ?_, ?_, ?_, ?_⟩
  · rw [hs, he]
    exact placed_concat hinv.placed hl
  · rw [Keyed, hf]
    exact forall_insert hk fun id u _ => hinv.keyed id u
  · rw [hs]
    refine forall_mem_concat ?_ ?_
    · intro old hold hne
      obtain ⟨u, hfu⟩ := hinv.begun old hold hne
      rw [hf, find?_insert]
      split
      · exact ⟨_, rfl⟩
      · exact ⟨u, hfu⟩
    · intro hne
      rw [ho.resolve_right hne]
      exact ⟨t', hnew⟩
  · rw [hs]
    exact hinv.referred_concat hr
  · rw [hf, hs]
    refine forall_insert ⟨hi, ht⟩ ?_
    intro id u hid hfu
    rw [hu id hid]
    refine hinv.told_other hfu ?_
    rcases ho with ho | ho
    · exact ho ▸ Ne.symm hid
    · exact ho ▸ (hinv.told id u hfu).1.symm
  · intro id pl hpn
    obtain ⟨ent, rfl, hown, hpl, hent, hres⟩ := hp id pl hpn
    exact ⟨h.seen, rec, t', ent, hs, hown, hpl, hnew, hent, hres⟩

theorem WalkInv.answered {exp : CleanupIntentPayload} (hl : rec.lsn = h.endLsn)
    (hpn : h.pendingReclaim = some (owner, exp)) (hs : rec.transactionId = 0)
    (hp : rec.payload = .pageReclaim exp.reclaim) (ht : h.transactions.find? owner = some t) :
    WalkInv { (h.read rec).setTransaction
      (t.noteReclaim exp.reclaim.page rec.lsn) with pendingReclaim := none } := by
  have hd := hinv.keyed owner t ht
  obtain ⟨hne, htl⟩ := hinv.told owner t ht
  have hf : h.transactions.insert t.transactionId (t.noteReclaim exp.reclaim.page rec.lsn) =
      h.transactions.insert owner (t.noteReclaim exp.reclaim.page rec.lsn) := by rw [hd]
  refine hinv.noted hl rfl rfl hne (.inr hs) hf hd (fun _ _ => rfl) ?_ ?_ nofun
  · intro lsn hl
    rw [hp] at hl
    cases hl
  · intro hn hh
    obtain ⟨ps, htl⟩ := htl hn hh
    obtain ⟨bef, intent, t', ent, hsn, hi, hk, ht', he, hrs⟩ := hinv.pending owner exp hpn
    rw [ht] at ht'
    cases ht'
    exact ⟨ps, htl.noteReclaim hsn (hi.trans hd.symm) hk he hrs hp
      (by rw [hs, hd]; exact hne.symm)⟩

theorem WalkInv.begin {prot : RollbackProtocol} {start : Nat} (hl : rec.lsn = h.endLsn)
    (hpn : h.pendingReclaim = none) (hi : rec.transactionId ≠ 0)
    (hp : (rec.payload = .begin start ∧ prot = .legacyTruncate) ∨
      (rec.payload = .beginOwned start ∧ prot = .ownedAppend))
    (hn : h.transactions.find? rec.transactionId = none) :
    WalkInv ((h.read rec).setTransaction ⟨rec.transactionId, prot, .ownedActive,
      rec.lsn, rec.lsn, none, start, false, .empty⟩) := by
  have ho : ownRecords h.seen rec.transactionId = [] := by
    refine filter_eq_nil_iff.mpr ?_
    intro old hd hs
    have hs := of_decide_eq_true hs
    obtain ⟨t, ht⟩ := hinv.begun old hd (hs ▸ hi)
    rw [hs, hn] at ht
    cases ht
  refine hinv.noted hl rfl rfl hi (.inl rfl) rfl rfl
    (fun _ _ => rfl) ?_ ?_ ?_
  · intro lsn hl
    rcases hp with ⟨hp, _⟩ | ⟨hp, _⟩
    · rw [hp] at hl
      cases hl
    · rw [hp] at hl
      cases hl
  · intro how _
    refine ⟨⟨rec, [], [], []⟩, ?_⟩
    have hb : rec.payload.isBeginOwned = true := by
      rcases hp with ⟨_, hg⟩ | ⟨hb, _⟩
      · rw [hg] at how
        cases how
      · simp [hb, isBeginOwned]
    refine ⟨⟨?_, ⟨rfl, hb⟩, trivial, rfl, by simp, by simp, by simp⟩,
      ⟨fun _ => rfl, fun _ => ⟨rfl, .inl rfl, [], [], rfl, by simp, by simp, by simp⟩, by simp⟩,
      ⟨by simp, by simp, by simp, by simp, by simp, by simp, by simp⟩⟩
    show ownRecords (h.seen ++ [rec]) rec.transactionId = [rec]
    rw [ownRecords_append, ho]
    simp [ownRecords]
  · intro owner pl hso
    rw [setTransaction, read, hpn] at hso
    cases hso

theorem WalkInv.chained (hl : rec.lsn = h.endLsn) (hpn : h.pendingReclaim = none)
    (hi : rec.transactionId ≠ 0) (ht : h.transactions.find? rec.transactionId = some t)
    (hv : t.phase.terminal = false) (hpr : rec.prevLsn = some t.lastLsn)
    (how : rec.payload.isOwnedRollback = false ∨ t.protocol = .ownedAppend)
    (hcl : t.cleanupBeginLsn = none ∨ allowedDuringCleanup rec.payload = true)
    (hrc : (h.read rec).onTransactionRecord t rec = .ok (h', t')) :
    WalkInv (h'.advance { t' with lastLsn := rec.lsn }) := by
  have hfr := onTransactionRecord_frame hrc
  have hsa := hfr.same
  have hk := hinv.keyed _ t ht
  have hreads : Reads (h.read rec) h.seen t rec :=
    ⟨rfl, contiguous_sorted (placed_concat hinv.placed hl).choose_spec, hk.symm, hpr, hcl⟩
  have hst : t.protocol = .ownedAppend →
      ∃ ps, Told h.seen (h.undoNext.find? t.transactionId) t ps := by
    intro how
    rw [hk]
    refine (hinv.told _ t ht).2 how ?_
    intro hc
    simp [hc, OwnedCleanupPhase.terminal] at hv
  obtain ⟨owners, ha⟩ := advance_eq h' { t' with lastLsn := rec.lsn }
  rw [ha]
  have hid := hsa.transactionId.trans hk
  have hf : h'.transactions.insert t'.transactionId { t' with lastLsn := rec.lsn } =
      h.transactions.insert rec.transactionId { t' with lastLsn := rec.lsn } := by
    rw [hid, hfr.transactions]
    rfl
  refine hinv.noted hl hfr.seen hfr.endLsn hi (.inl rfl) hf hid hfr.undoNext ?_ ?_ ?_
  · intro lsn hl
    rcases hfr.referred lsn hl with hg | ⟨hb, pg, ent, he, hr⟩
    · exact hg
    · obtain ⟨ps, htl⟩ := hst (how.resolve_left (by simp [hb]))
      obtain ⟨reserve, hm, hr', _⟩ := htl.evidence.reserved pg ent he
      obtain ⟨hn, ho, _⟩ := hreads.mem_of_rest htl.parted (mem_append_left _ hm)
      exact ⟨reserve, hn, hr'.trans hr, ho.trans hk⟩
  · intro how hh
    have how : t.protocol = .ownedAppend := hsa.protocol ▸ how
    obtain ⟨ps, htl⟩ := hst how
    rcases hreads.told htl how hrc with hc | hx
    · exact absurd hc hh
    · rw [hk] at hx
      exact hx
  · intro id pl hsm
    have hsm : h'.pendingReclaim = some (id, pl) := hsm
    rcases hfr.pending with hkp | ⟨intended, ent, hin, hp, he, hr⟩
    · rw [hkp, read, hpn] at hsm
      cases hsm
    · rw [hin] at hsm
      cases hsm
      exact ⟨ent, rfl, rfl, hp, he, hr⟩

theorem WalkInv.step (hst : h.step rec = .ok h') : WalkInv h' ∧ h'.seen = h.seen ++ [rec] := by
  obtain ⟨hl, ha⟩ := step_accepted hst
  cases ha with
  | answered hn hs _ hp ht =>
    exact ⟨hinv.answered hl hn hs hp ht, rfl⟩
  | system hn hs hp => exact ⟨hinv.system hl hn hs hp, rfl⟩
  | begun hn hid hp hnew => exact ⟨hinv.begin hl hn hid hp hnew, rfl⟩
  | @chained t t' h₁ hn hid ht hlive hprev howned hcleanup hrec =>
    refine ⟨hinv.chained hl hn hid ht hlive hprev howned hcleanup hrec, ?_⟩
    obtain ⟨owners, hd⟩ := advance_eq h₁ { t' with lastLsn := rec.lsn }
    rw [hd]
    exact (onTransactionRecord_frame hrec).seen

theorem WalkInv.run (hr : rs.foldlM HistoryState.step h = .ok h') :
    WalkInv h' ∧ h'.seen = h.seen ++ rs := by
  induction rs generalizing h with
  | nil =>
    simp only [foldlM_nil, pure_ok] at hr
    subst hr
    exact ⟨hinv, by simp⟩
  | cons rec rs ih =>
    simp only [foldlM_cons, bind_ok] at hr
    obtain ⟨next, ht, hrs⟩ := hr
    obtain ⟨hn, hs⟩ := hinv.step ht
    obtain ⟨hl, hs'⟩ := ih hn hrs
    exact ⟨hl, by rw [hs', hs]; simp⟩

end

/-- The walk before its first record. -/
theorem walkInv_start (start : Nat) : WalkInv ⟨.empty, [], .empty, .empty, none, start⟩ := by
  refine ⟨⟨_, rfl⟩, ?_, ?_, ?_, ?_, ?_⟩
  · intro id t ht
    cases ht
  · intro rec hr
    cases hr
  · intro rec hr
    cases hr
  · intro id t ht
    cases ht
  · intro owner pl hp
    cases hp

end HistoryState

/-- The history of an accepted transaction, told to its end. -/
theorem analyzeOwnedRollbackHistory_told {txs : SortedMap OwnedRollbackAnalysis}
    (h : analyzeOwnedRollbackHistory rs = .ok txs) :
    ∃ s : HistoryState, HistoryState.WalkInv s ∧ s.seen = rs ∧ s.transactions = txs := by
  simp only [analyzeOwnedRollbackHistory, ok_iff] at h
  obtain ⟨last, hr, rfl⟩ := h
  obtain ⟨hinv, hs⟩ := (HistoryState.walkInv_start _).run hr
  exact ⟨last, hinv, by simpa using hs, rfl⟩

/-- What a completed rollback of an owned transaction looks like in the log. -/
structure OwnedRollbackComplete (records : List LogRecord) (id : Nat) : Prop where
  chained : ∃ begin rest, ownRecords records id = begin :: rest ∧
    begin.payload.isBeginOwned = true ∧ Linked (some begin.lsn) rest
  undone : List.Forall₂ Compensates ((ownRecords records id).filter (·.payload.isCompensation))
    ((ownRecords records id).filter (·.payload.requiresUndo)).reverse
  once : ∀ update ∈ ownRecords records id, update.payload.requiresUndo = true →
    ∃ clr, records.filter (·.payload.compensatesLsn update.lsn) = [clr]
  progressed : ∀ reserve ∈ ownRecords records id, reserve.payload.isPageReserve = true →
    ∃ cleanup progress, records.filter (·.payload.progressesOn reserve.lsn) = [progress] ∧
      cleanup.payload.isCleanupBegin = true ∧
      List.Sublist [cleanup, progress] (ownRecords records id)
  announced : ∀ record ∈ ownRecords records id, ∀ progress,
    record.payload = .rollbackCleanupProgress progress → ∀ lsn, progress.reclaimLsn = some lsn →
    ∃ before after, record ∈ after ∧
      Announced records id progress.reserveLsn progress.page lsn before after
  ended : ∀ before record after, records = before ++ record :: after →
    record.transactionId = id →
    (record.payload.isCompensation = true ∨ record.payload.isCleanupBegin = true) →
    ∀ later ∈ after, later.transactionId = id →
      later.payload.isWork = false ∧ later.payload.isCommit = false

theorem isWork_excludes (h : pl.isWork = true) :
    pl.refersTo = none ∧ pl.isCompensation = false ∧ pl.isCleanupBegin = false := by
  cases pl with
  | pageReserve | pageUpdate | pageDeltaUpdate | pageUpdateV2 | pageDeltaUpdateV2 =>
    exact ⟨rfl, rfl, rfl⟩
  | _ => cases h

theorem isBeginOwned_excludes (h : pl.isBeginOwned = true) :
    pl.refersTo = none ∧ pl.isCompensation = false ∧
      pl.isCleanupBegin = false ∧ pl.requiresUndo = false ∧ pl.isPageReserve = false := by
  cases pl with
  | beginOwned => exact ⟨rfl, rfl, rfl, rfl, rfl⟩
  | _ => cases h

theorem isCompensation_excludes (h : pl.isCompensation = true) :
    (∀ lsn, pl.progressesOn lsn = false) ∧ pl.isWork = false ∧
      pl.isCommit = false ∧ pl.requiresUndo = false := by
  cases pl with
  | compensation => exact ⟨fun _ => rfl, rfl, rfl, rfl⟩
  | _ => cases h

theorem cleanup_excludes (h : pl.isCleanupBegin = true ∨
    HistoryState.allowedDuringCleanup pl = true) :
    (∀ lsn, pl.compensatesLsn lsn = false) ∧ pl.isWork = false ∧
      pl.isCommit = false ∧ pl.requiresUndo = false ∧ pl.isCompensation = false := by
  cases pl with
  | rollbackCleanupBegin | rollbackCleanupIntent | rollbackCleanupProgress | abort =>
    exact ⟨fun _ => rfl, rfl, rfl, rfl, rfl⟩
  | _ =>
    rcases h with h | h
    · cases h
    · cases h

theorem refersTo_of_compensatesLsn (h : pl.compensatesLsn lsn = true) : pl.refersTo = some lsn := by
  cases pl with
  | compensation clr =>
    have hl := of_decide_eq_true h
    rw [refersTo, hl]
  | _ => cases h

theorem refersTo_of_progressesOn (h : pl.progressesOn lsn = true) : pl.refersTo = some lsn := by
  cases pl with
  | rollbackCleanupProgress progress =>
    have hl := of_decide_eq_true h
    rw [refersTo, hl]
  | _ => cases h

variable {rs : List LogRecord}

theorem Parted.filter_eq (h : Parted rs t ps) (P : LogPayload → Bool)
    (hb : P ps.begin.payload = false) :
    (ownRecords rs t.transactionId).filter (P ·.payload) =
      ps.work.filter (P ·.payload) ++ (ps.clrs.filter (P ·.payload) ++
        ps.cleanup.filter (P ·.payload)) := by
  simp [h.own, Parts.rest, filter_append, hb]

theorem filter_payload_nil {list : List LogRecord} (h : ∀ rec ∈ list, P rec.payload = false) :
    list.filter (P ·.payload) = [] := by
  refine filter_eq_nil_iff.mpr ?_
  intro rec hr
  simp [h rec hr]

theorem Parted.compensations (h : Parted rs t ps) :
    (ownRecords rs t.transactionId).filter (·.payload.isCompensation) = ps.clrs := by
  rw [h.filter_eq _ (isBeginOwned_excludes h.begun.2).2.1,
    filter_payload_nil fun rec hr => (isWork_excludes (h.worked rec hr)).2.1,
    filter_eq_self.mpr h.compensated,
    filter_payload_nil fun rec hr => (cleanup_excludes (h.cleaned rec hr)).2.2.2.2]
  simp

theorem Parted.updates (h : Parted rs t ps) :
    (ownRecords rs t.transactionId).filter (·.payload.requiresUndo) =
      ps.work.filter (·.payload.requiresUndo) := by
  rw [h.filter_eq _ (isBeginOwned_excludes h.begun.2).2.2.2.1, filter_payload_nil fun rec hr =>
      (isCompensation_excludes (h.compensated rec hr)).2.2.2,
    filter_payload_nil fun rec hr => (cleanup_excludes (h.cleaned rec hr)).2.2.2.1]
  simp

theorem none_of_refersTo (hr : ∀ pl, P pl = true → pl.refersTo = some lsn)
    (hn : pl.refersTo = none) : P pl = false := by
  cases hP : P pl with
  | false => rfl
  | true => simp [hr _ hP] at hn

theorem Parted.compensating (h : Parted rs t ps) (lsn : Nat) :
    (ownRecords rs t.transactionId).filter (·.payload.compensatesLsn lsn) =
      ps.clrs.filter (·.payload.compensatesLsn lsn) := by
  have hn : ∀ {pl : LogPayload}, pl.refersTo = none →
      pl.compensatesLsn lsn = false := none_of_refersTo fun _ => refersTo_of_compensatesLsn
  rw [h.filter_eq _ (hn (isBeginOwned_excludes h.begun.2).1),
    filter_payload_nil fun rec hr => hn (isWork_excludes (h.worked rec hr)).1,
    filter_payload_nil fun rec hr => (cleanup_excludes (h.cleaned rec hr)).1 lsn]
  simp

theorem Parted.progressing (h : Parted rs t ps) (lsn : Nat) :
    (ownRecords rs t.transactionId).filter (·.payload.progressesOn lsn) =
      ps.cleanup.filter (·.payload.progressesOn lsn) := by
  have hn : ∀ {pl : LogPayload}, pl.refersTo = none →
      pl.progressesOn lsn = false := none_of_refersTo fun _ => refersTo_of_progressesOn
  rw [h.filter_eq _ (hn (isBeginOwned_excludes h.begun.2).1),
    filter_payload_nil fun rec hr => hn (isWork_excludes (h.worked rec hr)).1,
    filter_payload_nil fun rec hr =>
      (isCompensation_excludes (h.compensated rec hr)).1 lsn]
  simp

/-- Behind the first CLR or CLEANUP_BEGIN there are only more of these two parts. -/
theorem Parted.behind (h : Parted rs t ps) {bef aft : List LogRecord}
    {rec : LogRecord} (hp : rs = bef ++ rec :: aft) (ho : rec.transactionId = t.transactionId)
    (hk : rec.payload.isCompensation = true ∨ rec.payload.isCleanupBegin = true)
    {later : LogRecord} (hl : later ∈ aft) (hlt : later.transactionId = t.transactionId) :
    later ∈ ps.clrs ++ ps.cleanup := by
  have hf : rec ∉ ps.begin :: ps.work := by
    intro hm
    rcases mem_cons.mp hm with hb | hw
    · have hex := isBeginOwned_excludes h.begun.2
      rw [← hb] at hex
      simp [hex.2.1, hex.2.2.1] at hk
    · have hex := isWork_excludes (h.worked rec hw)
      simp [hex.2.1, hex.2.2] at hk
  have hs : ownRecords bef t.transactionId ++ rec :: ownRecords aft t.transactionId =
      (ps.begin :: ps.work) ++ (ps.clrs ++ ps.cleanup) := by
    have ha := h.own
    rw [hp, ownRecords_append] at ha
    simpa [ownRecords, ho, Parts.rest] using ha
  rcases append_eq_append_iff.mp hs with ⟨mid, hlf, hr⟩ | ⟨mid, _, hr⟩
  · cases mid with
    | nil =>
      rw [nil_append] at hr
      rw [← hr]
      exact mem_cons_of_mem _ (mem_ownRecords.mpr ⟨hl, hlt⟩)
    | cons head mid =>
      rw [cons_append, cons.injEq] at hr
      refine absurd ?_ hf
      rw [hlf, ← hr.1]
      simp
  · rw [hr]
    refine mem_append_right _ (mem_cons_of_mem _ ?_)
    exact mem_ownRecords.mpr ⟨hl, hlt⟩

theorem compensated_never {clrs updates : List LogRecord}
    (h : List.Forall₂ Compensates clrs updates) (hl : ∀ update ∈ updates, update.lsn ≠ lsn) :
    clrs.filter (·.payload.compensatesLsn lsn) = [] := by
  induction h with
  | nil => rfl
  | @cons clr update clrs updates hfst _ ih =>
    obtain ⟨pl, hp, hc, _⟩ := hfst
    have hd : pl.compensatedUpdateLsn ≠ lsn := by
      rw [hc]
      exact hl update (by simp)
    rw [filter_cons, if_neg (by simp [hp, compensatesLsn, hd])]
    exact ih fun other ho => hl other (mem_cons_of_mem _ ho)

/-- Each update of a list with descending LSNs is named by one of its CLRs. -/
theorem compensated_once {clrs updates : List LogRecord} (h : List.Forall₂ Compensates clrs updates)
    (hs : updates.Pairwise (fun a b => b.lsn < a.lsn)) {update : LogRecord}
    (hm : update ∈ updates) : ∃ clr, clrs.filter (·.payload.compensatesLsn update.lsn) = [clr] := by
  induction h with
  | nil => cases hm
  | @cons clr fst clrs updates hfst hrest ih =>
    obtain ⟨hb, hs⟩ := pairwise_cons.mp hs
    obtain ⟨pl, hp, hl, _⟩ := hfst
    rcases mem_cons.mp hm with hu | hu
    · subst hu
      refine ⟨clr, ?_⟩
      rw [filter_cons, if_pos (by simp [hp, compensatesLsn, hl]),
        compensated_never hrest fun other ho => (hb other ho).ne]
    · have hd : pl.compensatedUpdateLsn ≠ update.lsn := by
        rw [hl]
        exact (hb update hu).ne'
      obtain ⟨other, ho⟩ := ih hs hu
      refine ⟨other, ?_⟩
      rw [filter_cons, if_neg (by simp [hp, compensatesLsn, hd]), ho]

theorem HistoryState.WalkInv.filter_own {h : HistoryState} (hinv : h.WalkInv) {tgt : LogRecord}
    (ht : tgt ∈ h.seen) (hrf : ∀ pl, P pl = true → pl.refersTo = some tgt.lsn) :
    h.seen.filter (P ·.payload) = (ownRecords h.seen tgt.transactionId).filter (P ·.payload) := by
  obtain ⟨start, hp⟩ := hinv.placed
  rw [ownRecords, filter_filter]
  refine filter_congr ?_
  intro rec hr
  cases hP : P rec.payload with
  | false => simp
  | true =>
    obtain ⟨fd, hf, hl, hi⟩ := hinv.referred rec hr _ (hrf _ hP)
    rw [← hi, eq_of_lsn_eq (contiguous_sorted hp) hf ht hl]
    simp

theorem pageReserve_of_isPageReserve (h : pl.isPageReserve = true) :
    ∃ reserve, pl = .pageReserve reserve := by
  cases pl with
  | pageReserve reserve => exact ⟨reserve, rfl⟩
  | _ => cases h

theorem Parted.reserve_mem {t : OwnedRollbackAnalysis} {ps : Parts} (h : Parted rs t ps)
    {reserve : LogRecord} (hm : reserve ∈ ownRecords rs t.transactionId)
    (hk : reserve.payload.isPageReserve = true) : reserve ∈ ps.work := by
  have hw : reserve.payload.isWork = true := by simp [isWork, hk]
  rw [h.own, Parts.rest, mem_cons, mem_append, mem_append] at hm
  rcases hm with hb | hm | hl | hc
  · rw [hb, (isBeginOwned_excludes h.begun.2).2.2.2.2] at hk
    cases hk
  · exact hm
  · rw [(isCompensation_excludes (h.compensated _ hl)).2.1] at hw
    cases hw
  · rw [(cleanup_excludes (h.cleaned _ hc)).2.1] at hw
    cases hw

/-- Once cleanup is complete, every reservation has one progress record behind
CLEANUP_BEGIN. -/
theorem Evidence.settled {rest : List LogRecord} {t : OwnedRollbackAnalysis} {ps : Parts}
    (h : Evidence rs t ps) (ha : t.phase = .abortRecorded) {fst reserve : LogRecord}
    (hc : ps.cleanup = fst :: rest) (hs : fst.payload.isCleanupBegin = true)
    (hm : reserve ∈ ps.work) (hk : reserve.payload.isPageReserve = true) :
    ∃ progress, ps.cleanup.filter (·.payload.progressesOn reserve.lsn) = [progress] ∧
      List.Sublist [fst, progress] ps.cleanup := by
  obtain ⟨pl, hp⟩ := pageReserve_of_isPageReserve hk
  obtain ⟨ent, he, hl⟩ := h.entered reserve hm pl hp
  obtain ⟨progress, hfl⟩ := h.closed _ ent he (h.complete (Or.inr ha) _ ent he)
  rw [hl] at hfl
  have hn : progress ∈ ps.cleanup.filter (·.payload.progressesOn reserve.lsn) := by
    rw [hfl]
    exact mem_singleton_self progress
  have hf := mem_filter.mp hn
  have hb : fst.payload.progressesOn reserve.lsn = false := by
    cases hk' : fst.payload with
    | rollbackCleanupBegin => rfl
    | _ =>
      rw [hk'] at hs
      cases hs
  refine ⟨progress, hfl, ?_⟩
  rw [hc] at hf ⊢
  rcases mem_cons.mp hf.1 with hsm | hr
  · rw [hsm, hb] at hf
    cases hf.2
  · exact List.Sublist.cons_cons _ (singleton_sublist.mpr hr)

/-- An accepted history in which an owned transaction ends aborted holds its whole
rollback: every change undone once and backwards, every reservation settled once
behind CLEANUP_BEGIN with the reclaim it names, and no work after either began. -/
theorem analyzeOwnedRollbackHistory_complete {rs : List LogRecord}
    {transactions : SortedMap OwnedRollbackAnalysis} {id : Nat} {t : OwnedRollbackAnalysis}
    (h : analyzeOwnedRollbackHistory rs = .ok transactions)
    (ht : transactions.find? id = some t) (howned : t.protocol = .ownedAppend)
    (haborted : t.phase = .abortRecorded) : OwnedRollbackComplete rs id := by
  obtain ⟨state, hinv, hseen, htransactions⟩ := analyzeOwnedRollbackHistory_told h
  subst hseen
  rw [← htransactions] at ht
  obtain ⟨_, htold⟩ := hinv.told id t ht
  obtain ⟨ps, hparted, hprogress, hevidence⟩ := htold howned (by simp [haborted])
  have hid : t.transactionId = id := hinv.keyed id t ht
  subst hid
  have hbegun : t.cleanupBeginLsn ≠ none := by
    intro hnone
    have hphase := (hprogress.uncleaned hnone).2.1
    simp [haborted] at hphase
  obtain ⟨hundone, first, rest, hcleanup, hfirst⟩ := hprogress.cleaning hbegun
  obtain ⟨start, hplaced⟩ := hinv.placed
  have hsorted : (ownRecords state.seen t.transactionId).Pairwise (fun a b => a.lsn < b.lsn) :=
    (contiguous_sorted hplaced).filter _
  constructor
  · exact ⟨ps.begin, ps.rest, hparted.own, hparted.begun.2, hparted.begun.1 ▸ hparted.linked⟩
  · rw [hparted.compensations, hparted.updates]
    exact hundone
  · intro update hupdate hrequires
    obtain ⟨hseen, hown⟩ := mem_ownRecords.mp hupdate
    rw [hinv.filter_own hseen fun _ => refersTo_of_compensatesLsn, hown, hparted.compensating]
    refine compensated_once hundone ?_ ?_
    · rw [pairwise_reverse, ← hparted.updates]
      exact hsorted.filter _
    · rw [mem_reverse, ← hparted.updates]
      exact mem_filter.mpr ⟨hupdate, hrequires⟩
  · intro reserve hreserve hkind
    obtain ⟨hseen, hown⟩ := mem_ownRecords.mp hreserve
    obtain ⟨progress, hfilter, hsublist⟩ := hevidence.settled haborted hcleanup hfirst
      (hparted.reserve_mem hreserve hkind) hkind
    refine ⟨first, progress, ?_, hfirst, ?_⟩
    · rw [hinv.filter_own hseen fun _ => refersTo_of_progressesOn, hown, hparted.progressing,
        hfilter]
    · rw [hparted.own, Parts.rest]
      exact hsublist.trans ((sublist_append_right _ _).trans
        ((sublist_append_right _ _).trans (sublist_cons_self _ _)))
  · intro rec hrecord progress hpayload lsn hlsn
    have hclean : rec ∈ ps.cleanup := by
      have hmem : rec ∈ (ownRecords state.seen t.transactionId).filter
          (·.payload.progressesOn progress.reserveLsn) :=
        mem_filter.mpr ⟨hrecord, by simp [hpayload, progressesOn]⟩
      rw [hparted.progressing] at hmem
      exact (mem_filter.mp hmem).1
    obtain ⟨before, after, hannounced, hafter⟩ :=
      hevidence.named rec hclean progress hpayload lsn hlsn
    exact ⟨before, after, hafter, hannounced⟩
  · intro before rec after hsplit hown hkind later hlater hlaterOwn
    rcases mem_append.mp (hparted.behind hsplit hown hkind hlater hlaterOwn) with hclr | hclean
    · have hexcluded := isCompensation_excludes (hparted.compensated later hclr)
      exact ⟨hexcluded.2.1, hexcluded.2.2.1⟩
    · have hexcluded := cleanup_excludes (hparted.cleaned later hclean)
      exact ⟨hexcluded.2.1, hexcluded.2.2.1⟩

/-- A rollback of transaction 1, which changed page 1 and appended page 3. -/
def abortedHistory : List LogRecord :=
  [⟨1, none, .beginOwned 3, 64⟩,
   ⟨1, some 64, .pageReserve ⟨3, 3⟩, 136⟩,
   ⟨1, some 136, .pageDeltaUpdate ⟨1, true, [⟨100, 1, [0], [7]⟩]⟩, 208⟩,
   ⟨1, some 208, .pageDeltaUpdate ⟨3, false, [⟨100, 1, [0], [7]⟩]⟩, 286⟩,
   ⟨1, some 286, .compensation ⟨1, false, some 136, 208, zero⟩, 363⟩,
   ⟨1, some 363, .rollbackCleanupBegin ⟨64, 1⟩, 4547⟩,
   ⟨1, some 4547, .rollbackCleanupIntent
     ⟨136, 4739, ⟨3, invalidPageId, 4, none, none, 0⟩⟩, 4619⟩,
   ⟨0, none, .pageReclaim ⟨3, invalidPageId, 4, none, none, 0⟩, 4739⟩,
   ⟨1, some 4619, .rollbackCleanupProgress ⟨136, some 4739, 3, 4⟩, 4835⟩,
   ⟨1, some 4835, .abort, 4923⟩]

def abortedOwner (transactions : SortedMap OwnedRollbackAnalysis) : Bool :=
  (transactions.find? 1).any fun t =>
    decide (t.protocol = .ownedAppend ∧ t.phase = .abortRecorded)

theorem abortedHistory_accepted :
    satisfies (analyzeOwnedRollbackHistory abortedHistory) abortedOwner = true := by
  decide +kernel

theorem abortedHistory_complete : OwnedRollbackComplete abortedHistory 1 := by
  obtain ⟨transactions, haccepted, howner⟩ := satisfies_iff.mp abortedHistory_accepted
  unfold abortedOwner at howner
  cases ht : transactions.find? 1 with
  | none => simp [ht] at howner
  | some t =>
    rw [ht, any_some, decide_eq_true_eq] at howner
    exact analyzeOwnedRollbackHistory_complete haccepted ht howner.1 howner.2

end MiniDb
