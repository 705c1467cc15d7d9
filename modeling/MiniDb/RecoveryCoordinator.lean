import MiniDb.Foundation.SortedMap
import MiniDb.PageDelta
import MiniDb.DiskManager
import MiniDb.LogManager

/-!
The recovery coordinator: which pages the running transaction has taken for
writing, with the image each had before, and the log records made of them when
a page is prepared. The exclusive writer lease admits one writer at a time, so
the transaction table holds at most one context, and it is the active one.
-/
namespace MiniDb
open ByteBlock Outcome

variable {log log' : LogManager} {pl : LogPayload} {formatVersion lsn pid : Nat}
  {aft pg : Page}

inductive WalUpdateMode
  | fullPage | byteRange | adaptive
  deriving DecidableEq, Repr

variable {mode : WalUpdateMode}

inductive RollbackProtocol
  | legacyTruncate | ownedAppend
  deriving DecidableEq, Repr

/-- A page the transaction has a write intent on. `latestAfter` is the cleared
image of its last record, `touchedOffsets` every byte any of its records moved. -/
structure PageState where
  beforeExisted : Bool
  before : Page
  beforePageLsn : Option Nat
  latestAfter : Option Page
  touchedOffsets : Nat → Bool
  latestLsn : Option Nat

structure PageReservation where
  reserveLsn : Nat
  materializedInRuntime : Bool
  deriving DecidableEq

structure TransactionContext where
  transactionId : Nat
  rollbackProtocol : RollbackProtocol
  startPageCount : Nat
  beginLsn : Option Nat
  lastLsn : Option Nat
  reservations : SortedMap PageReservation
  pages : SortedMap PageState
  safeBoundary : Bool

variable {ctx ctx' : TransactionContext}

/-- The state of a page at its first write intent. -/
def intentState (startPageCount pageId : Nat) (before : Page) : Result PageState :=
  if pageId < startPageCount then
    (⟨true, before, ·, none, fun _ => false, none⟩) <$> readPersistentPageLsn before
  else .ok ⟨false, zero, none, none, fun _ => false, none⟩

namespace TransactionContext

def start (transactionId startPageCount : Nat) (protocol : RollbackProtocol) :
    TransactionContext :=
  ⟨transactionId, protocol, startPageCount, none, none, .empty, .empty, true⟩

def setPage (context : TransactionContext) (pageId : Nat) (state : PageState) :
    TransactionContext :=
  { context with pages := context.pages.insert pageId state }

def notePageWriteIntent (context : TransactionContext) (pageId : Nat) (before : Page) :
    Result TransactionContext := do
  require (pageId ≠ invalidPageId) (.invalidArgument "Write intent has invalid PageId")
  let context := { context with safeBoundary := false }
  if context.pages.contains pageId then return context
  else context.setPage pageId <$> intentState context.startPageCount pageId before

def beginPayload (context : TransactionContext) : LogPayload :=
  match context.rollbackProtocol with
  | .ownedAppend => .beginOwned context.startPageCount
  | .legacyTruncate => .begin context.startPageCount

def ensureBeginLogged (context : TransactionContext) (log : LogManager) :
    Result (TransactionContext × LogManager) := do
  if context.beginLsn.isSome then return (context, log)
  let (log, lsn) ← log.append context.transactionId none context.beginPayload
  return ({ context with beginLsn := some lsn, lastLsn := some lsn }, log)

def appendTransactionRecord (context : TransactionContext) (log : LogManager)
    (payload : LogPayload) : Result (TransactionContext × LogManager × Nat) := do
  let (context, log) ← context.ensureBeginLogged log
  let (log, lsn) ← log.append context.transactionId context.lastLsn payload
  return ({ context with lastLsn := some lsn }, log, lsn)

def setReservation (context : TransactionContext) (pageId : Nat)
    (reservation : PageReservation) : TransactionContext :=
  { context with reservations := context.reservations.insert pageId reservation }

/-- The reservation of the next page, appended to the log unless it is there. -/
def reservePage (context : TransactionContext) (log : LogManager) (expectedPageId : Nat) :
    Result (TransactionContext × LogManager × Nat) :=
  match context.reservations.find? expectedPageId with
  | none => do
      require (∀ key ∈ context.reservations.keys, key < expectedPageId)
        (.logicError "Out-of-order physical page reservation")
      let (context, log, lsn) ← context.appendTransactionRecord log
        (.pageReserve ⟨expectedPageId, expectedPageId⟩)
      return (context.setReservation expectedPageId ⟨lsn, false⟩, log, lsn)
  | some reservation => do
      require (reservation.materializedInRuntime = false)
        (.logicError "Physical page reservation already materialized")
      return (context, log, reservation.reserveLsn)

def prepareForPhysicalPageAppend (context : TransactionContext) (log : LogManager)
    (expectedPageId : Nat) : Result (TransactionContext × LogManager × Nat) := do
  require (expectedPageId ≠ invalidPageId ∧ expectedPageId ≠ 0 ∧
    context.startPageCount ≤ expectedPageId)
    (.logicError "Invalid next physical page reservation")
  let (context, log) ← { context with safeBoundary := false }.ensureBeginLogged log
  context.reservePage log expectedPageId

def notePhysicalPageAppend (context : TransactionContext) (log : LogManager) (pageId : Nat) :
    Result TransactionContext :=
  match context.reservations.find? pageId with
  | some reservation => do
      require (reservation.materializedInRuntime = false ∧ log.IsDurable reservation.reserveLsn)
        (.logicError "Append confirmation lacks matching durable reservation")
      return context.setReservation pageId { reservation with materializedInRuntime := true }
  | none => .error (.logicError "Append confirmation lacks matching durable reservation")

end TransactionContext

/-- The record that carries the images whole: version 2 with cleared images and
the PageLSN of before, version 1 with the images as they are. -/
def fullPayload (aware : Bool) (pageId : Nat) (state : PageState)
    (normalizedBefore normalizedAfter after : Page) : LogPayload :=
  if aware then
    .pageUpdateV2 ⟨pageId, state.beforeExisted, state.beforePageLsn, normalizedBefore,
      normalizedAfter⟩
  else .pageUpdate ⟨pageId, state.beforeExisted, state.before, after⟩

def deltaPayload (aware : Bool) (pageId : Nat) (state : PageState)
    (normalizedBefore normalizedAfter after : Page) : LogPayload :=
  if aware then
    .pageDeltaUpdateV2 ⟨pageId, state.beforeExisted, state.beforePageLsn,
      computePageDelta normalizedBefore normalizedAfter state.touchedOffsets⟩
  else
    .pageDeltaUpdate ⟨pageId, state.beforeExisted,
      computePageDelta state.before after state.touchedOffsets⟩

def updatePayload (mode : WalUpdateMode) (aware : Bool) (pageId : Nat) (state : PageState)
    (normalizedBefore normalizedAfter after : Page) : LogPayload :=
  let full := fullPayload aware pageId state normalizedBefore normalizedAfter after
  let delta := deltaPayload aware pageId state normalizedBefore normalizedAfter after
  match mode with
  | .fullPage => full
  | .byteRange => delta
  | .adaptive => if delta.size < full.size then delta else full

/-- `supportsPersistentPageLsn` and, if it does, `clearPersistentPageLsn`. -/
def clearIfSupported (page : Page) : Result (Bool × Page) := do
  let supports ← supportsPersistentPageLsn page
  (supports, ·) <$> (if supports then clearPersistentPageLsn page else .ok page)

/-- What `preparePageForWrite` leaves: context and log, the image with its
PageLSN, and the LSN of the record that covers it. -/
structure PreparedPage where
  context : TransactionContext
  log : LogManager
  page : Page
  lsn : Option Nat

variable {prep : PreparedPage}

def writeLsnIfSupported (supports : Bool) (page : Page) (lsn : Nat) : Result Page :=
  if supports then writePersistentPageLsn page (some lsn) else .ok page

/-- The image of a page whose contents need no new record. Without a record of
this transaction the slot stays as the writer left it. -/
def restampPage (supports : Bool) (after : Page) : Option Nat → Result Page
  | some lsn => writeLsnIfSupported supports after lsn
  | none => .ok after

def PageState.touch (state : PageState) (comparison normalizedAfter : Page) : PageState :=
  let touched (offset : Nat) :=
    state.touchedOffsets offset || byteAt comparison offset != byteAt normalizedAfter offset
  { state with touchedOffsets := touched }

def PageState.recorded (state : PageState) (normalizedAfter : Page) (lsn : Nat) : PageState :=
  { state with latestAfter := some normalizedAfter, latestLsn := some lsn }

def isPageLsnAware (formatVersion pageId : Nat) (afterSupportsPageLsn : Bool)
    (normalizedAfter : Page) : Bool :=
  let migratingPageZero := decide (pageId = 0 ∧ readUint32 normalizedAfter 8 = 2)
  afterSupportsPageLsn && (decide (formatVersion = 2) || migratingPageZero)

namespace TransactionContext

/-- The logging half of `preparePageForWrite`, once the contents are known to differ. -/
def logPageUpdate (context : TransactionContext) (log : LogManager) (mode : WalUpdateMode)
    (aware : Bool) (pageId : Nat) (state : PageState)
    (normalizedBefore normalizedAfter after : Page) : Result PreparedPage := do
  let payload := updatePayload mode aware pageId state normalizedBefore normalizedAfter after
  let (context, log, lsn) ← context.appendTransactionRecord log payload
  let page ← writeLsnIfSupported aware after lsn
  return ⟨context.setPage pageId (state.recorded normalizedAfter lsn), log, page, some lsn⟩

def preparePageForWrite (context : TransactionContext) (log : LogManager)
    (mode : WalUpdateMode) (formatVersion : Nat) (pageId : Nat) (after : Page) :
    Result PreparedPage :=
  match context.pages.find? pageId with
  | none => .ok ⟨context, log, after, none⟩
  | some state => do
      let (afterSupportsPageLsn, normalizedAfter) ← clearIfSupported after
      let (_, normalizedBefore) ← clearIfSupported state.before
      let comparison := state.latestAfter.getD normalizedBefore
      if comparison = normalizedAfter then
        (⟨context, log, ·, state.latestLsn⟩) <$>
          restampPage afterSupportsPageLsn after state.latestLsn
      else
        context.logPageUpdate log mode
          (isPageLsnAware formatVersion pageId afterSupportsPageLsn normalizedAfter) pageId
          (state.touch comparison normalizedAfter) normalizedBefore normalizedAfter after

end TransactionContext

/-! What each of these functions did when it returned normally. -/

theorem clearIfSupported_ok {result : Bool × Page} :
    clearIfSupported pg = .ok result ↔
      Recognised pg ∧ result = ((pageLsnSlot pg).isSome, normalized pg) := by
  simp only [clearIfSupported, bind_ok, supportsPersistentPageLsn_ok, map_ok]
  constructor
  · rintro ⟨supports, ⟨hr, rfl⟩, cleared, hc, rfl⟩
    refine ⟨hr, ?_⟩
    cases hs : pageLsnSlot pg with
    | none =>
      simp only [hs, Option.isSome_none, Bool.false_eq_true, if_false, Except.ok.injEq] at hc
      subst hc
      simp [normalized, hs]
    | some offset =>
      simp only [hs, Option.isSome_some, if_true, clearPersistentPageLsn_ok] at hc
      simp [hc.2]
  · rintro ⟨hr, rfl⟩
    refine ⟨_, ⟨hr, rfl⟩, normalized pg, ?_, rfl⟩
    cases hs : pageLsnSlot pg with
    | none => simp [normalized, hs]
    | some offset => simp [clearPersistentPageLsn_ok, hr]

theorem writeLsnIfSupported_ok {supports : Bool} {res : Page}
    (h : writeLsnIfSupported supports pg lsn = .ok res) :
    (supports = true ∧ (pageLsnSlot pg).isSome ∧ lsn ≠ 0 ∧ res = stamped pg lsn) ∨
      (supports = false ∧ res = pg) := by
  unfold writeLsnIfSupported at h
  split at h
  · rename_i hs
    exact .inl ⟨hs, writePersistentPageLsn_ok.mp h⟩
  · rename_i hs
    simp only [Except.ok.injEq] at h
    exact .inr ⟨by simpa using hs, h.symm⟩

/-- Restamping a page with the support it has is stamping it. -/
theorem restampPage_ok {res : Page} {lsn : Option Nat}
    (h : restampPage (pageLsnSlot pg).isSome pg lsn = .ok res) :
    res = lsn.elim pg (stamped pg) := by
  cases lsn with
  | none =>
    simp only [restampPage, Except.ok.injEq] at h
    exact h.symm
  | some lsn =>
    rcases writeLsnIfSupported_ok h with ⟨_, _, _, hr⟩ | ⟨hs, hr⟩
    · exact hr
    · rw [hr]
      exact (stamped_of_no_slot (by simpa using hs) lsn).symm

namespace TransactionContext

/-- The context after its BEGIN went to the log at `lsn`. -/
def begun (context : TransactionContext) (lsn : Nat) : TransactionContext :=
  { context with beginLsn := some lsn, lastLsn := some lsn }

def beginRecord (context : TransactionContext) (lsn : Nat) : LogRecord :=
  ⟨context.transactionId, none, context.beginPayload, lsn⟩

theorem ensureBeginLogged_ok (h : ctx.ensureBeginLogged log = .ok (ctx', log')) :
    (ctx.beginLsn.isSome ∧ ctx' = ctx ∧ log' = log) ∨
      (ctx.beginLsn = none ∧ ctx' = ctx.begun log.nextLsn ∧
        log.append ctx.transactionId none ctx.beginPayload = .ok (log', log.nextLsn)) := by
  simp only [ensureBeginLogged] at h
  split at h
  · rename_i hb
    simp only [ok_iff] at h
    exact .inl ⟨hb, h.1.symm, h.2.symm⟩
  · rename_i hb
    simp only [ok_iff, Prod.exists] at h
    obtain ⟨log'', lsn, ha, rfl, rfl⟩ := h
    have hl := (append_ok ha).1
    subst hl
    exact .inr ⟨by simpa using hb, rfl, ha⟩

theorem appendTransactionRecord_ok
    (h : ctx.appendTransactionRecord log pl = .ok (ctx', log', lsn)) :
    ∃ begun mid, ctx.ensureBeginLogged log = .ok (begun, mid) ∧
      mid.append ctx.transactionId begun.lastLsn pl = .ok (log', lsn) ∧
      ctx' = { begun with lastLsn := some lsn } := by
  simp only [appendTransactionRecord, ok_iff, Prod.exists] at h
  obtain ⟨begun, mid, hb, log'', lsn', ha, rfl, rfl, rfl⟩ := h
  refine ⟨begun, mid, hb, ?_, rfl⟩
  rcases ensureBeginLogged_ok hb with ⟨_, rfl, _⟩ | ⟨_, rfl, _⟩
  · exact ha
  · exact ha

theorem notePageWriteIntent_ok {bef : Page} (h : ctx.notePageWriteIntent pid bef = .ok ctx') :
    (∃ s, ctx.pages.find? pid = some s ∧ ctx' = { ctx with safeBoundary := false }) ∨
    (ctx.pages.find? pid = none ∧ ∃ s, intentState ctx.startPageCount pid bef = .ok s ∧
      ctx' = ({ ctx with safeBoundary := false } : TransactionContext).setPage pid s) := by
  simp only [notePageWriteIntent, ok_iff] at h
  obtain ⟨_, _, h⟩ := h
  split at h
  · rename_i hc
    obtain ⟨s, hs⟩ := SortedMap.contains_iff.mp hc
    simp only [pure_ok] at h
    exact .inl ⟨s, hs, h.symm⟩
  · rename_i hc
    simp only [map_ok] at h
    obtain ⟨s, hs, rfl⟩ := h
    refine .inr ⟨?_, s, hs, rfl⟩
    simpa [SortedMap.contains] using hc

theorem notePageWriteIntent_touched {bef : Page} (h : ctx.notePageWriteIntent pid bef = .ok ctx') :
    ∃ s, ctx'.pages.find? pid = some s := by
  rcases notePageWriteIntent_ok h with ⟨s, hs, rfl⟩ | ⟨_, s, _, rfl⟩
  · exact ⟨s, hs⟩
  · exact ⟨s, by simp [setPage]⟩

/-- Two contexts of one transaction. -/
structure SameWriter (context context' : TransactionContext) : Prop where
  transactionId : context'.transactionId = context.transactionId
  protocol : context'.rollbackProtocol = context.rollbackProtocol
  startPageCount : context'.startPageCount = context.startPageCount

theorem SameWriter.refl (ctx : TransactionContext) : SameWriter ctx ctx := ⟨rfl, rfl, rfl⟩

theorem SameWriter.trans (h : SameWriter ctx mid) (h' : SameWriter mid ctx') :
    SameWriter ctx ctx' :=
  ⟨h'.transactionId.trans h.transactionId, h'.protocol.trans h.protocol,
    h'.startPageCount.trans h.startPageCount⟩

/-- Their write intents agree outside `pageId`. -/
structure SameTransaction (context context' : TransactionContext) (pageId : Nat) : Prop
    extends SameWriter context context' where
  pages : ∀ q, q ≠ pageId → context'.pages.find? q = context.pages.find? q

theorem SameTransaction.refl (ctx : TransactionContext) (pid : Nat) :
    SameTransaction ctx ctx pid := ⟨.refl ctx, fun _ _ => rfl⟩

theorem notePageWriteIntent_same {bef : Page}
    (h : ctx.notePageWriteIntent pid bef = .ok ctx') : SameTransaction ctx ctx' pid := by
  rcases notePageWriteIntent_ok h with ⟨_, _, rfl⟩ | ⟨_, s, _, rfl⟩
  · exact ⟨⟨rfl, rfl, rfl⟩, fun _ _ => rfl⟩
  · exact ⟨⟨rfl, rfl, rfl⟩, fun q hq => by simp [setPage, hq]⟩

/-- The transaction goes on with the same page states. -/
structure Continues (context context' : TransactionContext) : Prop
    extends SameWriter context context' where
  pages : context'.pages = context.pages

theorem Continues.sameAfter (h : Continues ctx mid) (hs : SameTransaction mid ctx' pid) :
    SameTransaction ctx ctx' pid :=
  ⟨h.toSameWriter.trans hs.toSameWriter, fun q hq => by rw [hs.pages q hq, h.pages]⟩

theorem Continues.same (h : Continues ctx ctx') (pid : Nat) : SameTransaction ctx ctx' pid :=
  h.sameAfter (.refl ctx' pid)

/-- Logging moves only the context's LSNs. -/
theorem ensureBeginLogged_keeps (h : ctx.ensureBeginLogged log = .ok (ctx', log')) :
    Continues ctx ctx' ∧ ctx'.reservations = ctx.reservations := by
  rcases ensureBeginLogged_ok h with ⟨_, rfl, _⟩ | ⟨_, rfl, _⟩
  · exact ⟨⟨.refl _, rfl⟩, rfl⟩
  · exact ⟨⟨⟨rfl, rfl, rfl⟩, rfl⟩, rfl⟩

theorem appendTransactionRecord_keeps
    (h : ctx.appendTransactionRecord log pl = .ok (ctx', log', lsn)) :
    Continues ctx ctx' ∧ ctx'.reservations = ctx.reservations := by
  obtain ⟨begun, mid, hb, _, rfl⟩ := appendTransactionRecord_ok h
  obtain ⟨⟨hw, hp⟩, hs⟩ := ensureBeginLogged_keeps hb
  exact ⟨⟨hw.trans ⟨rfl, rfl, rfl⟩, hp⟩, hs⟩

theorem ensureBeginLogged_grows (h : ctx.ensureBeginLogged log = .ok (ctx', log')) :
    LogGrows log log' := by
  rcases ensureBeginLogged_ok h with ⟨_, _, rfl⟩ | ⟨_, _, ha⟩
  · exact .refl
  · exact .single (.append ha)

theorem appendTransactionRecord_grows
    (h : ctx.appendTransactionRecord log pl = .ok (ctx', log', lsn)) : LogGrows log log' := by
  obtain ⟨begun, mid, hb, ha, _⟩ := appendTransactionRecord_ok h
  exact (ensureBeginLogged_grows hb).tail (.append ha)

/-- The three ways of `preparePageForWrite`: a page without write intent, a page
whose contents are those of its last record (or of before), and a logged change. -/
inductive PrepareOutcome (context : TransactionContext) (log : LogManager)
    (mode : WalUpdateMode) (formatVersion pageId : Nat) (after : Page) : PreparedPage → Prop
  | absent (hpage : context.pages.find? pageId = none) :
      PrepareOutcome context log mode formatVersion pageId after ⟨context, log, after, none⟩
  | unchanged {state : PageState} (hstate : context.pages.find? pageId = some state)
      (hafter : Recognised after) (hbefore : Recognised state.before)
      (hsame : state.latestAfter.getD (normalized state.before) = normalized after) :
      PrepareOutcome context log mode formatVersion pageId after
        ⟨context, log, state.latestLsn.elim after (stamped after), state.latestLsn⟩
  | logged {state : PageState} {prepared : PreparedPage}
      (hstate : context.pages.find? pageId = some state)
      (hafter : Recognised after) (hbefore : Recognised state.before)
      (hdiffers : state.latestAfter.getD (normalized state.before) ≠ normalized after)
      (hlogged : context.logPageUpdate log mode
        (isPageLsnAware formatVersion pageId (pageLsnSlot after).isSome (normalized after)) pageId
        (state.touch (state.latestAfter.getD (normalized state.before)) (normalized after))
        (normalized state.before) (normalized after) after = .ok prepared) :
      PrepareOutcome context log mode formatVersion pageId after prepared

theorem preparePageForWrite_outcome
    (h : ctx.preparePageForWrite log mode formatVersion pid aft = .ok prep) :
    PrepareOutcome ctx log mode formatVersion pid aft prep := by
  unfold preparePageForWrite at h
  split at h
  · rename_i hp
    simp only [Except.ok.injEq] at h
    exact h ▸ .absent hp
  · rename_i state hs
    simp only [bind_ok, clearIfSupported_ok] at h
    obtain ⟨_, ⟨ha, rfl⟩, _, ⟨hb, rfl⟩, h⟩ := h
    split at h
    · rename_i hm
      simp only [map_ok] at h
      obtain ⟨pg, hp, rfl⟩ := h
      rw [restampPage_ok hp]
      exact .unchanged hs ha hb hm
    · rename_i hd
      exact .logged hs ha hb hd h

theorem logPageUpdate_ok {aware : Bool} {s : PageState} {nb na : Page}
    (h : ctx.logPageUpdate log mode aware pid s nb na aft = .ok prep) :
    ∃ app log' lsn pg, ctx.appendTransactionRecord log (updatePayload mode aware pid s nb na aft) =
        .ok (app, log', lsn) ∧ writeLsnIfSupported aware aft lsn = .ok pg ∧ prep =
        ⟨app.setPage pid (s.recorded na lsn), log', pg, some lsn⟩ := by
  simp only [logPageUpdate, ok_iff, Prod.exists] at h
  obtain ⟨app, log', lsn, ha, pg, hp, hr⟩ := h
  exact ⟨app, log', lsn, pg, ha, hp, hr.symm⟩

section
variable (h : PrepareOutcome ctx log mode formatVersion pid aft prep)
include h

theorem PrepareOutcome.same : SameTransaction ctx prep.context pid := by
  cases h with
  | absent hg => exact .refl ctx pid
  | unchanged => exact .refl ctx pid
  | logged _ _ _ _ hlgd =>
    obtain ⟨app, log', lsn, pg, ha, _, rfl⟩ := logPageUpdate_ok hlgd
    obtain ⟨⟨hw, hp⟩, _⟩ := appendTransactionRecord_keeps ha
    refine ⟨hw.trans ⟨rfl, rfl, rfl⟩, ?_⟩
    intro q hq
    simp [setPage, hp, hq]

/-- A prepared page keeps the contents the writer left. -/
theorem PrepareOutcome.sameContents : SameContents prep.page aft := by
  cases h with
  | absent hp => exact .refl aft
  | @unchanged s =>
    cases s.latestLsn with
    | none => exact .refl aft
    | some lsn => exact sameContents_stamped aft lsn
  | logged _ _ _ _ hlgd =>
    obtain ⟨app, log', lsn, pg, _, hp, rfl⟩ := logPageUpdate_ok hlgd
    rcases writeLsnIfSupported_ok hp with ⟨_, _, _, rfl⟩ | ⟨_, rfl⟩
    · exact sameContents_stamped aft lsn
    · exact .refl _

theorem PrepareOutcome.grows : LogGrows log prep.log := by
  cases h with
  | absent => exact .refl
  | unchanged => exact .refl
  | logged _ _ _ _ hlgd =>
    obtain ⟨_, _, _, _, ha, _, rfl⟩ := logPageUpdate_ok hlgd
    exact appendTransactionRecord_grows ha

end

section
variable (h : ctx.reservePage log pid = .ok (ctx', log', lsn))
include h

theorem reservePage_ok :
    (ctx' = ctx ∧ log' = log ∧ ∃ rsv, ctx.reservations.find? pid = some rsv ∧
      rsv.materializedInRuntime = false ∧ rsv.reserveLsn = lsn) ∨
    ∃ app, ctx.appendTransactionRecord log (.pageReserve ⟨pid, pid⟩) =
      .ok (app, log', lsn) ∧ ctx' = app.setReservation pid ⟨lsn, false⟩ ∧
      ctx.reservations.find? pid = none := by
  unfold reservePage at h
  split at h
  · rename_i hn
    simp only [ok_iff, Prod.exists] at h
    obtain ⟨_, _, app, _, _, ha, rfl, rfl, rfl⟩ := h
    exact .inr ⟨app, ha, rfl, hn⟩
  · rename_i rsv hr
    simp only [ok_iff] at h
    obtain ⟨_, hm, rfl, rfl, rfl⟩ := h
    exact .inl ⟨rfl, rfl, rsv, hr, hm, rfl⟩

theorem reservePage_keeps : Continues ctx ctx' := by
  rcases reservePage_ok h with ⟨rfl, _⟩ | ⟨app, ha, rfl, _⟩
  · exact ⟨.refl _, rfl⟩
  · obtain ⟨⟨hw, hp⟩, _⟩ := appendTransactionRecord_keeps ha
    exact ⟨hw.trans ⟨rfl, rfl, rfl⟩, hp⟩

theorem reservePage_grows : LogGrows log log' := by
  rcases reservePage_ok h with ⟨_, rfl, _⟩ | ⟨app, ha, _, _⟩
  · exact .refl
  · exact appendTransactionRecord_grows ha

end

section
variable (h : ctx.prepareForPhysicalPageAppend log pid = .ok (ctx', log', lsn))
include h

theorem prepareForPhysicalPageAppend_ok :
    ∃ begun mid, { ctx with safeBoundary := false }.ensureBeginLogged log = .ok (begun, mid) ∧
      begun.reservePage mid pid = .ok (ctx', log', lsn) := by
  simp only [prepareForPhysicalPageAppend, bind_ok, Prod.exists] at h
  obtain ⟨_, _, begun, mid, hb, hr⟩ := h
  exact ⟨begun, mid, hb, hr⟩

theorem prepareForPhysicalPageAppend_grows : LogGrows log log' := by
  obtain ⟨begun, mid, hb, hr⟩ := prepareForPhysicalPageAppend_ok h
  exact (ensureBeginLogged_grows hb).trans (reservePage_grows hr)

/-- Afterwards the page has a reservation, not yet used, at the LSN returned. -/
theorem prepareForPhysicalPageAppend_reserved :
    ∃ rsv, ctx'.reservations.find? pid = some rsv ∧ rsv.materializedInRuntime = false ∧
      rsv.reserveLsn = lsn := by
  obtain ⟨begun, mid, _, hr⟩ := prepareForPhysicalPageAppend_ok h
  rcases reservePage_ok hr with ⟨rfl, _, hs⟩ | ⟨app, _, rfl, _⟩
  · exact hs
  · exact ⟨⟨lsn, false⟩, by simp [setReservation], rfl, rfl⟩

theorem prepareForPhysicalPageAppend_keeps : Continues ctx ctx' := by
  obtain ⟨begun, mid, hb, hr⟩ := prepareForPhysicalPageAppend_ok h
  obtain ⟨⟨hw, hp⟩, _⟩ := ensureBeginLogged_keeps hb
  obtain ⟨hw', hp'⟩ := reservePage_keeps hr
  obtain ⟨hi, hpr, hs⟩ := hw.trans hw'
  exact ⟨⟨hi, hpr, hs⟩, hp'.trans hp⟩

end

theorem notePhysicalPageAppend_keeps (h : ctx.notePhysicalPageAppend log pid = .ok ctx') :
    Continues ctx ctx' ∧ ctx'.beginLsn = ctx.beginLsn ∧ ctx'.lastLsn = ctx.lastLsn := by
  unfold notePhysicalPageAppend at h
  split at h
  · simp only [ok_iff] at h
    obtain ⟨_, _, rfl⟩ := h
    exact ⟨⟨⟨rfl, rfl, rfl⟩, rfl⟩, rfl, rfl⟩
  · simp at h

end TransactionContext

end MiniDb
