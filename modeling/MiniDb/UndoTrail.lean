import MiniDb.CleanupSteps

/-!
The states that undo passes. Whatever undo and owned cleanup do to file and log,
and wherever they stop or fail, is a sequence of moves: a record of undo appended
or forced, one existing page or a page of a logged update written, the file
synchronised, its header read again, or the file cut at a logged legacy BEGIN.
-/
namespace MiniDb
open ByteBlock Outcome Storage List

variable {hist : List LogRecord} {losers : List Loser} {rec : LogRecord}
  {loser loser' : Loser} {ent : OwnedReservationEvidence} {own : OwnedRollbackAnalysis}
  {s s' : Storage} {α β : Type}

/-- One move of undo on file and log, for transactions that satisfy `owns`. -/
inductive UndoMove (owns : Nat → Prop) : DiskManager × LogManager → DiskManager × LogManager → Prop
  | appended {disk : DiskManager} {log log' : LogManager} {transactionId lsn : Nat}
      {prevLsn : Option Nat} {payload : LogPayload}
      (howner : owns transactionId ∨ transactionId = 0) (hkind : payload.isUndo = true)
      (h : log.append transactionId prevLsn payload = .ok (log', lsn)) :
      UndoMove owns (disk, log) (disk, log')
  | forced {disk : DiskManager} {log log' : LogManager} {lsn : Nat}
      (h : log.flushUpTo lsn = .ok log') : UndoMove owns (disk, log) (disk, log')
  | wrote {disk disk' : DiskManager} {log : LogManager} {p : Nat} {page : Page}
      (hp : p < disk.pageCount ∨ ∃ record ∈ log.records, owns record.transactionId ∧
        record.payload.pageUpdateIdentity = some ⟨p, true⟩)
      (h : disk.writePhysicalPage p page = .ok disk') : UndoMove owns (disk, log) (disk', log)
  | synced {disk : DiskManager} {log : LogManager} : UndoMove owns (disk, log) (disk.sync, log)
  | reloaded {disk disk' : DiskManager} {log : LogManager}
      (h : disk.reloadDatabaseHeader = .ok disk') : UndoMove owns (disk, log) (disk', log)
  | truncated {disk disk' : DiskManager} {log : LogManager} {count : Nat}
      (hbegin : ∃ record ∈ log.records, owns record.transactionId ∧
        ∃ start, record.payload = .begin start)
      (h : disk.truncateToPageCount count = .ok disk') : UndoMove owns (disk, log) (disk', log)

abbrev UndoMoves (owns : Nat → Prop) :
    DiskManager × LogManager → DiskManager × LogManager → Prop :=
  Relation.ReflTransGen (UndoMove owns)

section Trail

variable {owns : Nat → Prop} {base : DiskManager × LogManager}
variable {readUndoBase : DiskManager → Nat → Result Page}

/-- All states of a storage so far are moves away from `base`. -/
structure Storage.Passed (owns : Nat → Prop) (base : DiskManager × LogManager) (s : Storage) :
    Prop where
  current : UndoMoves owns base (s.disk, s.log)
  trail : ∀ x ∈ s.trail, UndoMoves owns base x

/-- All states that an attempt leaves behind, whether it returned or failed. -/
def Attempt.Passed {α : Type} (owns : Nat → Prop) (base : DiskManager × LogManager)
    (storage : α → Storage) : Attempt α → Prop
  | .ok a => (storage a).Passed owns base
  | .error failure => ∀ x ∈ failure.trail, UndoMoves owns base x

theorem Storage.Passed.attempt (h : s.Passed owns base) (r : Result α) :
    Attempt.Passed owns base (fun _ => s) (s.attempt r) := by
  cases r with
  | error e => exact h.trail
  | ok a => exact h

theorem Attempt.Passed.bind {stg : α → Storage} {stg' : β → Storage} {r : Attempt α}
    {k : α → Attempt β} (h : Attempt.Passed owns base stg r)
    (hk : ∀ a, r = .ok a → (stg a).Passed owns base → Attempt.Passed owns base stg' (k a)) :
    Attempt.Passed owns base stg' (r >>= k) := by
  cases r with
  | error failure => exact h
  | ok a => exact hk a rfl h

theorem Attempt.Passed.map {stg : α → Storage} {stg' : β → Storage} {r : Attempt α} {f : α → β}
    (h : Attempt.Passed owns base stg r)
    (hf : ∀ a, r = .ok a → (stg a).Passed owns base → (stg' (f a)).Passed owns base) :
    Attempt.Passed owns base stg' (f <$> r) := by
  cases r with
  | error failure => exact h
  | ok a => exact hf a rfl h

section
variable (h : s.Passed owns base)
include h

theorem Storage.Passed.withDisk {disk : DiskManager}
    (hm : UndoMoves owns (s.disk, s.log) (disk, s.log)) : (s.withDisk disk).Passed owns base := by
  refine ⟨h.current.trans hm, ?_⟩
  intro x hx
  rcases mem_cons.mp hx with rfl | hx
  · exact h.current.trans hm
  · exact h.trail x hx

theorem Storage.Passed.withLog {log : LogManager}
    (hm : UndoMove owns (s.disk, s.log) (s.disk, log)) : (s.withLog log).Passed owns base := by
  refine ⟨h.current.tail hm, ?_⟩
  intro x hx
  rcases mem_cons.mp hx with rfl | hx
  · exact h.current.tail hm
  · exact h.trail x hx

theorem Storage.Passed.sync : s.sync.Passed owns base :=
  h.withDisk (.single .synced)

theorem Storage.Passed.append {tid : Nat} {pv : Option Nat} {pl : LogPayload}
    (how : owns tid ∨ tid = 0) (hk : pl.isUndo = true) :
    Attempt.Passed owns base Prod.fst (s.append tid pv pl) := by
  refine (h.attempt _).bind ?_
  rintro ⟨log, lsn⟩ ha _
  rw [attempt_ok] at ha
  exact h.withLog (.appended how hk ha)

theorem Storage.Passed.flushUpTo (lsn : Nat) : Attempt.Passed owns base id (s.flushUpTo lsn) := by
  refine (h.attempt _).map ?_
  intro log hf _
  rw [attempt_ok] at hf
  exact h.withLog (.forced hf)

theorem Storage.Passed.appendForced {tid : Nat} {pv : Option Nat} {pl : LogPayload}
    (how : owns tid ∨ tid = 0) (hk : pl.isUndo = true) :
    Attempt.Passed owns base Prod.fst (s.appendForced tid pv pl) := by
  refine (h.append how hk).bind ?_
  rintro ⟨app, lsn⟩ _ ha
  refine (ha.flushUpTo lsn).bind ?_
  exact fun frc _ hf => hf

end

variable {p : Nat}

theorem Storage.Passed.writePhysicalPage (pg : Page) (h : s.Passed owns base)
    (hp : p < s.disk.pageCount ∨ ∃ rec ∈ s.log.records, owns rec.transactionId ∧
      rec.payload.pageUpdateIdentity = some ⟨p, true⟩) :
    Attempt.Passed owns base id (s.writePhysicalPage p pg) := by
  refine (h.attempt _).map ?_
  intro disk hw _
  rw [attempt_ok] at hw
  exact h.withDisk (.single (.wrote hp hw))

theorem Storage.Passed.reloadDatabaseHeader (h : s.Passed owns base) :
    Attempt.Passed owns base id s.reloadDatabaseHeader := by
  refine (h.attempt _).map ?_
  intro disk hr _
  rw [attempt_ok] at hr
  exact h.withDisk (.single (.reloaded hr))

theorem Storage.Passed.continueAt (h : s.Passed owns base) (loser : Loser) (tgt : Option Nat) :
    Attempt.Passed owns base Prod.fst (loser.continueAt s tgt) :=
  (h.attempt _).bind fun _ _ hs => hs

theorem foldlM_passed (stg : β → Storage) {step : β → α → Attempt β} {items : List α} (P : β → Prop)
    (b : β) (hb : (stg b).Passed owns base) (hP : P b)
    (hs : ∀ b, (stg b).Passed owns base → P b → ∀ a ∈ items,
      Attempt.Passed owns base stg (step b a) ∧ ∀ b', step b a = .ok b' → P b') :
    Attempt.Passed owns base stg (items.foldlM step b) ∧
      ∀ b', items.foldlM step b = .ok b' → P b' := by
  induction items generalizing b with
  | nil =>
    refine ⟨hb, ?_⟩
    intro b' ho
    simp only [foldlM_nil, pure_ok] at ho
    exact ho ▸ hP
  | cons a items ih =>
    obtain ⟨hf, hk⟩ := hs b hb hP a mem_cons_self
    have hr : ∀ b', step b a = .ok b' → (stg b').Passed owns base →
        Attempt.Passed owns base stg (items.foldlM step b') ∧
          ∀ c, items.foldlM step b' = .ok c → P c := fun b' ho hb' =>
      ih b' hb' (hk b' ho) fun c hc hPc item hit =>
        hs c hc hPc item (mem_cons_of_mem _ hit)
    rw [foldlM_cons]
    refine ⟨hf.bind fun b' ho hb' => (hr b' ho hb').1, ?_⟩
    intro c ho
    obtain ⟨b', hb', hc⟩ := bind_ok.mp ho
    rw [hb'] at hf
    exact (hr b' hb' hf).2 c hc

/-! One compensation, and one record of a chain. -/

theorem compensate_passed (img : Page) (h : s.Passed owns base) (how : owns loser.transactionId)
    (hr : rec ∈ s.log.records) (hi : rec.transactionId = loser.transactionId)
    (hn : rec.payload.pageUpdateIdentity = some ⟨p, true⟩) :
    Attempt.Passed owns base Prod.fst (compensate s loser rec p img) := by
  refine (h.attempt _).bind ?_
  intro supports _ _
  refine (h.append (.inl how) rfl).bind ?_
  rintro ⟨app, lsn⟩ ha hp
  refine (hp.flushUpTo lsn).bind ?_
  intro frc hfl hf
  refine (hf.attempt _).bind ?_
  intro pg _ _
  refine (Storage.Passed.writePhysicalPage pg hf (.inr ?_)).bind ?_
  · obtain ⟨hl, _, _⟩ := storage_append_ok ha
    obtain ⟨hl', _⟩ := storage_flushUpTo_ok hfl
    refine ⟨rec, ?_, hi ▸ how, hn⟩
    show rec ∈ frc.log.records
    rw [(flushUpTo_fields hl').1, (append_extends hl).records]
    exact mem_append_left _ hr
  · exact fun wr _ hw => hw.sync

theorem undoPageUpdate_passed {idn : PageUpdateIdentity} (h : s.Passed owns base)
    (how : owns loser.transactionId) (hr : rec ∈ s.log.records)
    (hi : rec.transactionId = loser.transactionId)
    (hn : rec.payload.pageUpdateIdentity = some idn) :
    Attempt.Passed owns base Prod.fst (undoPageUpdate s loser rec idn readUndoBase) := by
  unfold undoPageUpdate
  split
  · exact h.continueAt loser rec.prevLsn
  · rename_i hex
    obtain ⟨p, ex⟩ := idn
    refine (h.attempt _).bind ?_
    intro img _ _
    refine (compensate_passed img h how hr hi ?_).bind ?_
    · rw [hn]
      simpa using hex
    · exact fun pair _ hp => hp.continueAt pair.2 rec.prevLsn

theorem undoBegin_passed {start : Nat} (h : s.Passed owns base) (how : owns loser.transactionId)
    (hr : rec ∈ s.log.records) (hi : rec.transactionId = loser.transactionId)
    (hp : rec.payload = .begin start) : Attempt.Passed owns base Prod.fst (undoBegin s loser) := by
  have hc : Attempt.Passed owns base id (truncateAppended s loser.startPageCount) := by
    unfold truncateAppended
    split
    · refine Attempt.Passed.map ((h.attempt _).map ?_) (fun truncated _ ht => ht.sync)
      intro disk htr _
      rw [attempt_ok] at htr
      exact h.withDisk (.single (.truncated ⟨rec, hr, hi ▸ how, start, hp⟩ htr))
    · exact h
  refine hc.bind ?_
  intro truncated _ hn
  refine (hn.sync.appendForced (.inl how) rfl).bind ?_
  exact fun pair _ hpr => hpr

theorem undoOwnedBoundary_passed (h : s.Passed owns base) (how : owns loser.transactionId) :
    Attempt.Passed owns base Prod.fst (undoOwnedBoundary s loser rec) := by
  refine (h.attempt _).bind ?_
  intro _ _ _
  split
  · exact h
  · refine (h.attempt _).bind ?_
    intro _ _ _
    refine (h.sync.appendForced (.inl how) rfl).bind ?_
    exact fun pair _ hp => hp

theorem undoRecord_passed (h : s.Passed owns base) (how : owns loser.transactionId)
    (hc : rec ∈ s.log.records) :
    Attempt.Passed owns base Prod.fst (undoRecord s loser rec readUndoBase) := by
  refine (h.attempt _).bind ?_
  intro _ hr _
  rw [attempt_ok, require_ok] at hr
  split
  · exact undoOwnedBoundary_passed h how
  · exact undoOwnedBoundary_passed h how
  · exact undoOwnedBoundary_passed h how
  · exact undoOwnedBoundary_passed h how
  · rename_i start hp
    exact undoBegin_passed h how hc hr hp
  · exact h.continueAt loser _
  · exact h.continueAt loser _
  · split
    · rename_i idn hi
      exact undoPageUpdate_passed h how hc hr hi
    · exact h.trail

theorem undoPageUpdate_transactionId {idn : PageUpdateIdentity}
    (h : undoPageUpdate s loser rec idn readUndoBase = .ok (s', loser')) :
    loser'.transactionId = loser.transactionId := by
  unfold undoPageUpdate at h
  split at h
  · obtain ⟨_, _, _, rfl⟩ := continueAt_ok h
    rfl
  · simp only [bind_ok, Prod.exists] at h
    obtain ⟨_, _, mid, loser₁, hc, hn⟩ := h
    obtain ⟨_, _, _, rfl⟩ := continueAt_ok hn
    obtain ⟨_, rfl⟩ := compensate_compensated hc
    rfl

theorem undoRecord_transactionId (h : undoRecord s loser rec readUndoBase = .ok (s', loser')) :
    loser'.transactionId = loser.transactionId := by
  have hb : undoOwnedBoundary s loser rec = .ok (s', loser') →
      loser'.transactionId = loser.transactionId := by
    intro h
    simp only [undoOwnedBoundary, bind_ok] at h
    obtain ⟨_, _, h⟩ := h
    split at h
    · simp only [ok_iff] at h
      rw [← h.2]
    · simp only [ok_iff, Prod.exists] at h
      obtain ⟨_, _, _, _, _, _, rfl⟩ := h
      rfl
  simp only [undoRecord, bind_ok] at h
  obtain ⟨_, _, h⟩ := h
  split at h
  · exact hb h
  · exact hb h
  · exact hb h
  · exact hb h
  · simp only [undoBegin, ok_iff, Prod.exists] at h
    obtain ⟨_, _, _, _, _, _, rfl⟩ := h
    rfl
  · obtain ⟨_, _, _, rfl⟩ := continueAt_ok h
    rfl
  · obtain ⟨_, _, _, rfl⟩ := continueAt_ok h
    rfl
  · split at h
    · exact undoPageUpdate_transactionId h
    · simp at h

theorem topLoser_mem {tgt : Nat} (h : topLoser losers = some (loser, tgt)) : loser ∈ losers := by
  induction losers generalizing loser tgt with
  | nil => simp [topLoser] at h
  | cons fst rest ih =>
    unfold topLoser at h
    split at h
    · exact mem_cons_of_mem _ (ih h)
    · simp only [Option.some.injEq, Prod.mk.injEq] at h
      exact h.1 ▸ mem_cons_self
    · rename_i other otherTarget _ hr
      split at h
      · simp only [Option.some.injEq, Prod.mk.injEq] at h
        exact h.1 ▸ mem_cons_self
      · simp only [Option.some.injEq, Prod.mk.injEq] at h
        exact mem_cons_of_mem _ (h.1 ▸ ih hr)

theorem replaceLoser_owned {updated : Loser} (h : ∀ loser ∈ losers, owns loser.transactionId)
    (hu : owns updated.transactionId) :
    ∀ loser ∈ replaceLoser losers updated, owns loser.transactionId := by
  intro loser hm
  obtain ⟨old, ho, rfl⟩ := mem_map.mp hm
  split
  · exact hu
  · exact h old ho

theorem undoLoop_passed {rounds : Nat} (h : s.Passed owns base)
    (how : ∀ loser ∈ losers, owns loser.transactionId) :
    Attempt.Passed owns base Prod.fst (undoLoop readUndoBase rounds s losers) := by
  induction rounds generalizing s losers with
  | zero =>
    unfold undoLoop
    split
    · exact h
    · exact h.trail
  | succ rounds ih =>
    unfold undoLoop
    split
    · exact h
    · rename_i loser tgt ht
      have ho := how loser (topLoser_mem ht)
      refine (h.attempt _).bind ?_
      intro rec hr _
      rw [attempt_ok] at hr
      refine (undoRecord_passed h ho (readRecordAt_mem hr).1).bind ?_
      rintro ⟨s', loser'⟩ hu hs'
      exact ih hs' (replaceLoser_owned how (undoRecord_transactionId hu ▸ ho))

theorem undoLoop_transactionIds {rounds : Nat} {losers' : List Loser}
    (h : undoLoop readUndoBase rounds s losers = .ok (s', losers'))
    (how : ∀ loser ∈ losers, owns loser.transactionId) :
    ∀ loser ∈ losers', owns loser.transactionId := by
  induction rounds generalizing s losers with
  | zero =>
    unfold undoLoop at h
    split at h
    · simp only [ok_iff] at h
      exact h.2 ▸ how
    · simp at h
  | succ rounds ih =>
    unfold undoLoop at h
    split at h
    · simp only [ok_iff] at h
      exact h.2 ▸ how
    · rename_i loser tgt ht
      simp only [bind_ok, Prod.exists] at h
      obtain ⟨rec, _, mid, loser', hu, hr⟩ := h
      exact ih hr (replaceLoser_owned how
        (undoRecord_transactionId hu ▸ how loser (topLoser_mem ht)))

/-! Owned cleanup. -/

theorem applyReclaim_moves {pl : PageReclaimPayload} {lsn : Nat}
    {knownLaterState : Nat → Option Nat → Bool} {disk disk' : DiskManager} {log : LogManager}
    (h : applyReclaim pl lsn knownLaterState disk p = .ok disk') :
    UndoMoves owns (disk, log) (disk', log) := by
  simp only [applyReclaim, bind_ok] at h
  obtain ⟨pg, hr, cur, _, h⟩ := h
  split at h
  · simp only [pure_ok] at h
    exact h ▸ .refl
  · split at h
    · simp only [ok_iff] at h
      obtain ⟨_, _, rfl⟩ := h
      exact .refl
    · simp only [bind_ok] at h
      obtain ⟨img, _, hw⟩ := h
      cases img with
      | none =>
        simp only [writeImage, Except.ok.injEq] at hw
        exact hw ▸ .refl
      | some img =>
        exact .single (.wrote (.inl (readPhysicalPage_ok.mp hr).2.1) hw)

theorem redoPageReclaim_moves {disk disk' : DiskManager} {log : LogManager}
    {knownLaterState : Nat → Option Nat → Bool}
    (h : redoPageReclaim disk rec knownLaterState = .ok disk') :
    UndoMoves owns (disk, log) (disk', log) := by
  simp only [redoPageReclaim, bind_ok] at h
  obtain ⟨_, _, _, _, _, _, _, _, mid, hp, hh⟩ := h
  exact (applyReclaim_moves hp).trans (applyReclaim_moves hh)

theorem applyIntended_passed {intent : Nat} {pl : PageReclaimPayload} (h : s.Passed owns base) :
    Attempt.Passed owns base Prod.fst (applyIntended s intent pl) := by
  refine (h.append (.inr rfl) rfl).bind ?_
  rintro ⟨app, lsn⟩ _ ha
  refine (ha.attempt _).bind ?_
  intro _ _ _
  refine (ha.attempt _).bind ?_
  intro _ _ _
  refine (ha.flushUpTo lsn).bind ?_
  intro frc _ hf
  refine (hf.attempt _).bind ?_
  intro rec _ _
  refine (hf.attempt _).bind ?_
  intro disk hr _
  rw [attempt_ok] at hr
  exact hf.withDisk (redoPageReclaim_moves hr)

theorem reclaimReserved_passed (h : s.Passed owns base) (how : owns loser.transactionId) :
    Attempt.Passed owns base Prod.fst (reclaimReserved s loser own hist p ent) := by
  refine (h.attempt _).bind ?_
  intro physical _ _
  refine (h.attempt _).bind ?_
  intro pl _ _
  refine (h.attempt _).bind ?_
  intro exp _ _
  refine (h.appendForced (.inl how) rfl).bind ?_
  rintro ⟨noted, intent⟩ _ hn
  refine (applyIntended_passed hn).bind ?_
  exact fun pair _ hp => hp

theorem settleReservation_passed (h : s.Passed owns base) (how : owns loser.transactionId) :
    Attempt.Passed owns base Prod.fst (settleReservation s loser own hist p ent) := by
  have he : Attempt.Passed owns base Prod.fst (ensureReclaimed s loser own hist p ent) := by
    unfold ensureReclaimed
    split
    · exact reclaimReserved_passed h how
    · exact (h.attempt _).bind fun _ _ hs => hs
  unfold settleReservation
  split
  · refine he.bind ?_
    rintro ⟨reclaimed, loser', lsn⟩ _ hr
    exact (hr.sync.attempt _).bind fun _ _ hs => hs
  · exact (h.attempt _).bind fun _ _ hs => hs

theorem settleReservation_transactionId {lsn : Option Nat}
    (h : settleReservation s loser own hist p ent = .ok (s', loser', lsn)) :
    loser'.transactionId = loser.transactionId := by
  unfold settleReservation at h
  split at h
  · simp only [ok_iff, Prod.exists] at h
    obtain ⟨_, loser₁, _, he, _, _, _, rfl, _⟩ := h
    unfold ensureReclaimed at he
    split at he
    · simp only [reclaimReserved, ok_iff, Prod.exists] at he
      obtain ⟨_, _, _, _, _, _, _, _, _, _, _, _, _, rfl, _⟩ := he
      rfl
    · simp only [ok_iff] at he
      obtain ⟨_, _, _, rfl, _⟩ := he
      rfl
  · simp only [ok_iff] at h
    obtain ⟨_, _, _, rfl, _⟩ := h
    rfl

theorem finishReservation_passed {st : Storage × Loser} {rsv : Nat × OwnedReservationEvidence}
    (h : st.1.Passed owns base) (how : owns st.2.transactionId) :
    Attempt.Passed owns base Prod.fst (finishReservation own hist st rsv) ∧
      ∀ st', finishReservation own hist st rsv = .ok st' → owns st'.2.transactionId := by
  obtain ⟨s, loser⟩ := st
  obtain ⟨p, ent⟩ := rsv
  simp only [finishReservation]
  split
  · refine ⟨(h.attempt _).bind fun _ _ hs => hs, ?_⟩
    intro st' ho
    simp only [ok_iff] at ho
    obtain ⟨_, _, rfl⟩ := ho
    exact how
  · refine ⟨(settleReservation_passed h how).bind ?_, ?_⟩
    · rintro ⟨settled, loser', lsn⟩ ht he
      have hi := settleReservation_transactionId ht
      refine (he.appendForced (.inl (hi ▸ how)) rfl).bind ?_
      exact fun pair _ hp => hp
    · intro st' ho
      simp only [ok_iff, Prod.exists] at ho
      obtain ⟨_, loser', _, ht, _, _, _, rfl⟩ := ho
      rw [settleReservation_transactionId ht]
      exact how

theorem finishOwned_passed (h : s.Passed owns base) (how : owns loser.transactionId) :
    Attempt.Passed owns base id (finishOwned s loser) := by
  refine (h.attempt _).bind ?_
  intro _ _ _
  refine (h.attempt _).bind ?_
  rintro ⟨hist, txs, own⟩ _ _
  refine h.reloadDatabaseHeader.bind ?_
  intro reloaded _ hr
  refine (hr.attempt _).bind ?_
  intro _ _ _
  refine (hr.attempt _).bind ?_
  intro _ _ _
  obtain ⟨ho, hf⟩ := foldlM_passed Prod.fst (fun st : Storage × Loser =>
    owns st.2.transactionId) (reloaded, loser) hr how
    (fun st hs hi rsv _ => finishReservation_passed hs hi)
  refine ho.bind ?_
  rintro ⟨finished, loser'⟩ hk hn
  refine (hn.sync.appendForced (.inl (hf _ hk)) rfl).bind ?_
  exact fun pair _ hp => hp

/-- Every state that undo passes, however it ends, is a sequence of moves away
from where it began. -/
theorem undoTransactions_passed (h : s.Passed owns base)
    (how : ∀ loser ∈ losers, owns loser.transactionId) :
    Attempt.Passed owns base id (undoTransactions s losers readUndoBase finishOwned) := by
  have hq : ∀ loser ∈ losers.map Loser.queued, owns loser.transactionId := by
    intro loser hm
    obtain ⟨old, ho, rfl⟩ := mem_map.mp hm
    exact how old ho
  refine (undoLoop_passed h hq).bind ?_
  rintro ⟨undone, losers'⟩ hl hu
  have how' := undoLoop_transactionIds hl hq
  refine (foldlM_passed id (fun _ => True) undone hu trivial ?_).1
  intro s' hs' _ loser hm
  exact ⟨finishOwned_passed hs' (how' loser (mem_of_mem_filter hm)), fun _ _ => trivial⟩

end Trail

end MiniDb
