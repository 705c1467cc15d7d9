import MiniDb.StatementBoundary

/-!
Sessions of the SQL engine: the access gate, the transaction manager and the
dispatch of one statement. What the executor makes of a statement, and which of
the calls below it throw, are inputs of a call. An exception leaves the state
it was thrown in, and a request for a lease that has to wait does not return.
-/
namespace MiniDb
open Outcome

inductive AccessMode
  | readOnly | readWrite
  deriving DecidableEq

/-- A lease of the database, with the thread that acquired it. -/
structure Lease where
  mode : AccessMode
  owner : Nat
  deriving DecidableEq

structure Ownership where
  readers : Nat
  writer : Bool

structure AccessGate where
  writerActive : Bool
  activeReaders : Nat
  owners : SortedMap Ownership
  stopped : Bool

def accessCancelled : DbError := .runtimeError "Database access cancelled"

inductive Admission
  | granted (gate : AccessGate) (lease : Lease)
  | refused (error : DbError)
  | waiting

namespace AccessGate

def ownership (gate : AccessGate) (thread : Nat) : Ownership :=
  (gate.owners.find? thread).getD ⟨0, false⟩

def eligible (gate : AccessGate) (waitingWriters : Nat) : AccessMode → Bool
  | .readOnly => !gate.writerActive && waitingWriters == 0
  | .readWrite => !gate.writerActive && gate.activeReaders == 0

def grant (gate : AccessGate) (thread : Nat) : AccessMode → AccessGate
  | .readOnly => { gate with
      owners := gate.owners.insert thread
        { gate.ownership thread with readers := (gate.ownership thread).readers + 1 }
      activeReaders := gate.activeReaders + 1 }
  | .readWrite => { gate with
      owners := gate.owners.insert thread { gate.ownership thread with writer := true }
      writerActive := true }

/-- `waitingWriters` are the requests of other threads, `cancelled` the session's probe. -/
def acquire (gate : AccessGate) (mode : AccessMode) (thread waitingWriters : Nat)
    (cancelled : Bool) : Admission :=
  if ∃ owned ∈ gate.owners.find? thread,
      mode = .readWrite ∨ owned.writer = true ∨ waitingWriters ≠ 0 then
    .refused (.logicError "Database leases do not support upgrades or recursive exclusive access")
  else if gate.stopped = true ∨ cancelled = true then .refused accessCancelled
  else if gate.eligible waitingWriters mode then .granted (gate.grant thread mode) ⟨mode, thread⟩
  else .waiting

def release (gate : AccessGate) (lease : Lease) : AccessGate :=
  let owned := gate.ownership lease.owner
  let owned' : Ownership := match lease.mode with
    | .readOnly => { owned with readers := owned.readers - 1 }
    | .readWrite => { owned with writer := false }
  let owners := if owned'.readers = 0 ∧ owned'.writer = false then gate.owners.erase lease.owner
    else gate.owners.insert lease.owner owned'
  match lease.mode with
  | .readOnly => { gate with owners := owners, activeReaders := gate.activeReaders - 1 }
  | .readWrite => { gate with owners := owners, writerActive := false }

end AccessGate

/-- `INVALID_TRANSACTION_ID`, 0, stands for no writer. -/
structure SessionContext where
  explicitMode : Option AccessMode
  lease : Option Lease
  writerId : Nat
  deriving DecidableEq

/-- The session whose lease the recovery coordinator's owned transaction runs under. -/
structure WriterAuthority where
  session : Nat
  transactionId : Nat
  deriving DecidableEq

structure SqlEngine where
  storage : CheckpointManager
  recovery : Bool
  checkpoints : Bool
  authority : Option WriterAuthority
  gate : AccessGate
  sessions : SortedMap SessionContext
  failed : Bool
  stopped : Bool

/-- What a call left: it threw, returned, or still waits for a lease. -/
inductive CallResult
  | waiting
  | threw (error : DbError) (db : SqlEngine)
  | returned (db : SqlEngine)

namespace CallResult

def andThen (r : CallResult) (next : SqlEngine → CallResult) : CallResult :=
  match r with
  | .returned db => next db
  | r => r

/-- A handler that changes the state and throws the same error again. -/
def onThrow (r : CallResult) (handler : SqlEngine → SqlEngine) : CallResult :=
  match r with
  | .threw error db => .threw error (handler db)
  | r => r

/-- A handler that may throw itself, in place of the error it was called for. -/
def catching (r : CallResult) (handler : SqlEngine → CallResult) : CallResult :=
  match r with
  | .threw error db =>
    match handler db with
    | .returned db => .threw error db
    | r => r
  | r => r

end CallResult

/-- An exception of a storage call, with what the call had done until then. -/
structure Fault where
  error : DbError
  left : Engine → Engine

/-- A checkpoint taken at a boundary: `residue` is what its failed step left. -/
structure AutomaticCheckpoint where
  call : CheckpointCall
  steps : Nat
  residue : Engine → Engine

inductive SqlStatement
  | unparsed (error : DbError)
  | begin (mode : AccessMode)
  | commit
  | rollback
  | select
  | mutation
  deriving DecidableEq

structure Call where
  session : Nat
  thread : Nat
  waitingWriters : Nat
  cancelled : Bool
  statement : SqlStatement
  work : Engine → Engine
  workError : Option DbError
  openError : Option DbError
  prepareFault : Option Fault
  completionFault : Option Fault
  automatic : Option AutomaticCheckpoint

/-- `RecoveryCoordinator::beginMutation` on the bound transaction. -/
def Engine.beginMutation (e : Engine) : Engine :=
  { e with context := e.context.map fun context => { context with safeBoundary := false } }

namespace SqlEngine

def engine (db : SqlEngine) : Engine := db.storage.engine

def withEngine (db : SqlEngine) (engine : Engine) : SqlEngine :=
  { db with storage := { db.storage with engine := engine } }

def session (db : SqlEngine) (id : Nat) : SessionContext :=
  (db.sessions.find? id).getD ⟨none, none, 0⟩

def setSession (db : SqlEngine) (id : Nat) (context : SessionContext) : SqlEngine :=
  { db with sessions := db.sessions.insert id context }

/-- `failed_` is set and the gate shut down. -/
def fail (db : SqlEngine) : SqlEngine :=
  { db with failed := true, gate := { db.gate with stopped := true } }

def check (db : SqlEngine) (result : Result Unit) : CallResult :=
  match result with
  | .ok _ => .returned db
  | .error error => .threw error db

def releaseLease (db : SqlEngine) (id : Nat) : SqlEngine :=
  match (db.session id).lease with
  | none => db
  | some lease =>
    { db with gate := db.gate.release lease }.setSession id { db.session id with lease := none }

def requireSession (db : SqlEngine) : Result Unit := do
  require (db.failed = false)
    (.runtimeError "Transaction completion failed; database must be reopened")
  require (db.stopped = false) accessCancelled

def requireAuthority (db : SqlEngine) (id : Nat) : Result Unit :=
  require (∃ lease ∈ (db.session id).lease, lease.mode = .readWrite)
    (.logicError "Owned cleanup requires a bound exclusive lifecycle lease")

def requireOwnedTransaction (db : SqlEngine) (id : Nat) : Result Unit :=
  require (db.authority = some ⟨id, (db.session id).writerId⟩ ∧
      ∃ context ∈ db.engine.context, context.transactionId = (db.session id).writerId ∧
        context.rollbackProtocol = .ownedAppend)
    (.logicError "Writer session does not own the bound recovery transaction")

def requireWriter (db : SqlEngine) (id : Nat) : Result Unit := do
  require (∃ lease ∈ (db.session id).lease, lease.mode = .readWrite)
    (.logicError "Recovery mutation requires the exclusive database lease")
  if db.recovery then db.requireOwnedTransaction id else .ok ()

def bindTransaction (db : SqlEngine) (transactionId : Nat) : Result Unit := do
  require (∃ context ∈ db.engine.context, context.transactionId = transactionId)
    (.logicError "Unknown recovery transaction")
  require (∀ authority ∈ db.authority, authority.transactionId = transactionId)
    (.logicError "Owned writer authority belongs to another recovery transaction")
  require (db.engine.rollbackActive = false) (.logicError "Rollback is in progress")

def beginOwnedTransaction (db : SqlEngine) (id : Nat) (openError : Option DbError) :
    Result SqlEngine := do
  db.requireAuthority id
  require (db.engine.context.isNone ∧ db.authority.isNone)
    (.logicError "Owned writer requires an idle exclusive recovery context")
  match openError with
  | some error => .error error
  | none => do
      let e ← db.engine.beginTransaction .ownedAppend
      return { db.withEngine e with authority := some ⟨id, db.engine.nextTransactionId⟩ }.setSession
        id { db.session id with writerId := db.engine.nextTransactionId }

def finishOwnedTransaction (db : SqlEngine) (id : Nat) : Result SqlEngine := do
  require (db.authority = some ⟨id, (db.session id).writerId⟩ ∧
      (∀ context ∈ db.engine.context, context.transactionId ≠ (db.session id).writerId) ∧
      db.engine.rollbackActive = false)
    (.logicError "Cannot release unfinished owned writer authority")
  db.requireAuthority id
  return { db with authority := none }

/-- A call into the coordinator for one transaction: it may throw on its own or
be made to. -/
def attempt (db : SqlEngine) (transactionId : Nat) (fault : Option Fault)
    (run : Engine → Result Engine) : CallResult :=
  (db.check (db.bindTransaction transactionId)).andThen fun db =>
    match fault with
    | some fault => .threw fault.error (db.withEngine (fault.left db.engine))
    | none =>
      match run db.engine with
      | .ok e => .returned (db.withEngine e)
      | .error error => .threw error db

def prepareTransaction (db : SqlEngine) (id : Nat) (call : Call) : CallResult :=
  db.attempt (db.session id).writerId call.prepareFault Engine.prepareStatement

def commitTransaction (db : SqlEngine) (id : Nat) (call : Call) : CallResult :=
  (db.attempt (db.session id).writerId call.completionFault Engine.commitStatement).onThrow fail

def rollbackTransaction (db : SqlEngine) (id : Nat) (call : Call) : CallResult :=
  (db.attempt (db.session id).writerId call.completionFault Engine.rollbackStatement).onThrow fail

/-- `onStatementCommitted` and `onTransactionCompleted`: no error is passed on. -/
def automaticCheckpoint (db : SqlEngine) (call : Call) : SqlEngine :=
  match call.automatic with
  | none => db
  | some automatic =>
    if db.checkpoints then
      let storage := db.storage.attempt automatic.call automatic.steps .start
      { db with storage := { storage with engine := automatic.residue storage.engine } }
    else db

def finishWriter (db : SqlEngine) (id : Nat) : CallResult :=
  if db.recovery = false ∨ (db.session id).writerId = 0 then .returned db
  else
    match db.finishOwnedTransaction id with
    | .ok db => .returned db
    | .error error => .threw error db.fail

def clearWriter (db : SqlEngine) (id : Nat) : SqlEngine :=
  db.setSession id { db.session id with writerId := 0 }

def endExplicit (db : SqlEngine) (id : Nat) (call : Call) : CallResult :=
  if (db.session id).explicitMode = some .readWrite then
    (db.finishWriter id).andThen fun db =>
      .returned (((db.setSession id { db.session id with
        explicitMode := none, writerId := 0 }).automaticCheckpoint call).releaseLease id)
  else
    .returned ((db.setSession id { db.session id with
      explicitMode := none, writerId := 0 }).releaseLease id)

/-- Opens the writer of a session that has just acquired the exclusive lease. -/
def openWriter (db : SqlEngine) (id : Nat) (call : Call) : CallResult :=
  if db.engine.context.isSome then .threw (.logicError "SQL admits only one physical writer") db
  else
    match db.beginOwnedTransaction id call.openError with
    | .error error => .threw error db
    | .ok db => db.check (db.bindTransaction (db.session id).writerId)

/-- Waits for a lease and keeps it in the session. -/
def acquireLease (db : SqlEngine) (mode : AccessMode) (call : Call) : CallResult :=
  match db.gate.acquire mode call.thread call.waitingWriters call.cancelled with
  | .waiting => .waiting
  | .refused error => .threw error db
  | .granted gate lease =>
    .returned ({ db with gate := gate }.setSession call.session
      { db.session call.session with lease := some lease })

def begin (db : SqlEngine) (mode : AccessMode) (call : Call) : CallResult :=
  if (db.session call.session).explicitMode.isSome then
    .threw (.logicError "Nested BEGIN is not supported") db
  else if mode = .readWrite ∧ db.recovery = false then
    .threw (.logicError "READ WRITE transactions require WAL-enabled SqlEngine") db
  else
    (db.acquireLease mode call).andThen fun db =>
      (match mode with
        | .readOnly => CallResult.returned db
        | .readWrite =>
          (db.openWriter call.session call).onThrow (releaseLease · call.session)).andThen
      fun db => .returned (db.setSession call.session
        { db.session call.session with explicitMode := some mode })

def commit (db : SqlEngine) (id : Nat) (call : Call) : CallResult :=
  match (db.session id).explicitMode with
  | none => .threw (.logicError "No explicit transaction is active") db
  | some .readOnly => db.endExplicit id call
  | some .readWrite =>
    (db.check (db.requireWriter id)).andThen fun db =>
      (db.prepareTransaction id call).andThen fun db =>
        (db.commitTransaction id call).andThen fun db => db.endExplicit id call

def finishRollback (db : SqlEngine) (id : Nat) (call : Call) : CallResult :=
  if (db.session id).explicitMode = some .readOnly then db.endExplicit id call
  else
    (db.check (db.requireWriter id)).andThen fun db =>
      (db.rollbackTransaction id call).andThen fun db => db.endExplicit id call

def rollback (db : SqlEngine) (id : Nat) (call : Call) : CallResult :=
  if (db.session id).explicitMode = none then
    .threw (.logicError "No explicit transaction is active") db
  else db.finishRollback id call

/-- The lease of a statement outside an explicit transaction is in the session
before the writer is opened, and stays there if that throws. -/
def beginMutation (db : SqlEngine) (call : Call) : CallResult :=
  match (db.session call.session).explicitMode with
  | some .readOnly =>
    .threw (.logicError
      "Mutation is not permitted in a READ ONLY transaction; no lock upgrade is supported") db
  | mode =>
    (if mode = none then
      (db.acquireLease .readWrite call).andThen fun db =>
        if db.recovery then db.openWriter call.session call else .returned db
    else .returned db).andThen fun db =>
      (db.check (db.requireWriter call.session)).andThen fun db =>
        if db.recovery then
          (db.check (db.bindTransaction (db.session call.session).writerId)).andThen fun db =>
            .returned (db.withEngine db.engine.beginMutation)
        else .returned db

def completeMutation (db : SqlEngine) (id : Nat) (call : Call) : CallResult :=
  (db.check db.requireSession).andThen fun db =>
    (db.check (db.requireWriter id)).andThen fun db =>
      (if db.recovery then
        (if (db.session id).explicitMode.isSome then db.prepareTransaction id call
        else db.commitTransaction id call).andThen fun db => .returned (db.automaticCheckpoint call)
      else .returned db).andThen fun db =>
        if (db.session id).explicitMode = none then
          (db.finishWriter id).andThen fun db => .returned ((db.clearWriter id).releaseLease id)
        else .returned db

def failMutation (db : SqlEngine) (id : Nat) (call : Call) : CallResult :=
  (db.check db.requireSession).andThen fun db =>
    if (db.session id).lease = none then .returned db
    else if (db.session id).explicitMode.isSome then db.finishRollback id call
    else
      (if db.recovery ∧ db.engine.context.isSome then
        (db.check (db.requireWriter id)).andThen fun db =>
          (db.rollbackTransaction id call).andThen fun db => .returned (db.automaticCheckpoint call)
      else .returned db).andThen fun db =>
        (db.finishWriter id).andThen fun db => .returned ((db.clearWriter id).releaseLease id)

def beginRead (db : SqlEngine) (call : Call) : CallResult :=
  if (db.session call.session).explicitMode = none then db.acquireLease .readOnly call
  else .returned db

/-- `completeRead` and `failRead`. -/
def endRead (db : SqlEngine) (id : Nat) : SqlEngine :=
  if (db.session id).explicitMode = none then db.releaseLease id else db

/-- The executor runs the statement. -/
def work (db : SqlEngine) (call : Call) : CallResult :=
  match call.workError with
  | none => .returned (db.withEngine (call.work db.engine))
  | some error => .threw error (db.withEngine (call.work db.engine))

def executeSelect (db : SqlEngine) (call : Call) : CallResult :=
  (db.beginRead call).andThen fun db =>
    ((db.work call).onThrow (endRead · call.session)).andThen fun db =>
      .returned (db.endRead call.session)

/-- The mutation is begun outside the handler that ends it. -/
def executeMutation (db : SqlEngine) (call : Call) : CallResult :=
  (db.beginMutation call).andThen fun db =>
    ((db.work call).andThen (completeMutation · call.session call)).catching
      (failMutation · call.session call)

def dispatch (db : SqlEngine) (call : Call) : SqlStatement → CallResult
  | .unparsed error => .threw error db
  | .begin mode => db.begin mode call
  | .commit => db.commit call.session call
  | .rollback => db.rollback call.session call
  | .select => db.executeSelect call
  | .mutation => db.executeMutation call

/-- `SqlEngine::execute`: a text that does not parse reaches no session. -/
def execute (db : SqlEngine) (call : Call) : CallResult :=
  match call.statement with
  | .unparsed error => .threw error db
  | statement => (db.check db.requireSession).andThen fun db => db.dispatch call statement

end SqlEngine

end MiniDb
