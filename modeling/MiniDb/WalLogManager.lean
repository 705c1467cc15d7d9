import MiniDb.SegmentedWal

/-!
`LogManager` on bytes. Records are encoded into a buffer in memory, written to the
single file or to the segments when the buffer is full or a flush asks for it, and
read back from both places. `INVALID_LSN` in a field that may hold no position is
`none`. A method that throws keeps what it did before it threw.
-/
namespace MiniDb.Wal
open ByteString Outcome CrashFiles Stateful

inductive LogOpenMode
  | eagerValidated | deferredRecovery
  deriving DecidableEq

inductive WalStorageMode
  | legacySingleFile | segmented | auto
  deriving DecidableEq

structure LogConfig where
  bufferCapacity : Nat
  openMode : LogOpenMode
  storageMode : WalStorageMode
  segmentPayloadCapacity : UInt32
  deriving DecidableEq

/-- Without a segmented storage the log is the single file. -/
structure LogManager where
  config : LogConfig
  segmented : Option SegmentedWalStorage
  buffer : List UInt8
  bufferStartOffset : Nat
  nextLsn : Nat
  lastAppendedLsn : Option Nat
  durableLsn : Option Nat
  truncatedTail : Bool
  recoveryPending : Bool
  knownLsns : List Nat
  deriving DecidableEq

structure LogState where
  manager : LogManager
  world : World

abbrev LogM := EStateM DbError LogState

/-- `std::numeric_limits<off_t>::max()`. -/
def fileOffsetMax : Nat := 2 ^ 63 - 1

namespace LogManager

def blank (config : LogConfig) : LogManager where
  config := config
  segmented := none
  buffer := []
  bufferStartOffset := walHeaderSize
  nextLsn := walHeaderSize
  lastAppendedLsn := none
  durableLsn := none
  truncatedTail := false
  recoveryPending := false
  knownLsns := []

def onFiles {α : Type} (call : EStateM DbError World α) : LogM α :=
  onPart LogState.world (fun s world => { s with world }) call

def modifyManager (f : LogManager → LogManager) : LogM Unit :=
  modify fun s => { s with manager := f s.manager }

/-- A call of the storage that the log has. -/
def onSegments {α : Type} (storage : SegmentedWalStorage) (call : StorageM α) : LogM α :=
  onPart (fun s => ⟨storage, s.world⟩)
    (fun s t => ⟨{ s.manager with segmented := some t.storage }, t.world⟩) call

/-! The single file. -/

def writeBytes (offset : Nat) (bytes : List UInt8) : LogM Unit := do
  fromExcept (require (offset ≤ fileOffsetMax ∧ bytes.length ≤ fileOffsetMax - offset)
    (ioError "WAL file offset exceeds platform limits"))
  onFiles (emit (.writeLegacy offset bytes))

def syncWal : LogM Unit := onFiles (emit .syncLegacy)

/-- The bytes behind the path of the single file. -/
def legacyBytes (volume : Volume) (message : String) : Result (List UInt8) :=
  match volume.legacy.current with
  | some file => .ok file.bytes
  | none => .error (ioError (message ++ ": No such file or directory"))

def scanLegacy (volume : Volume) : Result WalScanResult := do
  let file ← legacyBytes volume "Could not open WAL file for scanning"
  scanWalFile file

/-! Writing. -/

/-- The loop of `writeBuffer` over the records of the buffer. A round takes at least
one byte or throws, so that `fuel` rounds are enough for that many bytes. -/
def writeRecords : (fuel : Nat) → (rest : List UInt8) → (lsn : Nat) → LogM Unit
  | 0, _, _ => return ()
  | fuel + 1, rest, lsn =>
    if rest = [] then return ()
    else do
      let s ← get
      match s.manager.segmented with
      | none => return ()
      | some storage => do
          let total := readUint32 rest 8
          onSegments storage (SegmentedWalStorage.appendRecord lsn (rest.take total))
          writeRecords fuel (rest.drop total) (lsn + total)

/-- The part of `writeBuffer` that writes. -/
def writePending : LogM Unit := do
  let s ← get
  if s.manager.segmented.isSome then
    writeRecords s.manager.buffer.length s.manager.buffer s.manager.bufferStartOffset
  else writeBytes s.manager.bufferStartOffset s.manager.buffer

def writeBuffer : LogM Unit := do
  let s ← get
  if s.manager.buffer = [] then return ()
  else do
    writePending
    modifyManager fun manager => { manager with
      bufferStartOffset := manager.bufferStartOffset + manager.buffer.length
      buffer := [] }

/-- A record written past the buffer. -/
def writeThrough (lsn : Nat) (encoded : List UInt8) : LogM Unit := do
  let s ← get
  match s.manager.segmented with
  | some storage => onSegments storage (SegmentedWalStorage.appendRecord lsn encoded)
  | none => writeBytes lsn encoded

/-- The part of `append` for a record that is larger than the buffer. -/
def appendDirectly (lsn : Nat) (encoded : List UInt8) : LogM Unit := do
  writeBuffer
  writeThrough lsn encoded
  modifyManager fun manager => { manager with bufferStartOffset := lsn + encoded.length }

/-- The part of `append` for a record that goes to the buffer. -/
def appendBuffered (lsn : Nat) (encoded : List UInt8) : LogM Unit := do
  let s ← get
  callIf (s.manager.config.bufferCapacity - s.manager.buffer.length < encoded.length) writeBuffer
  modifyManager fun manager => { manager with
    bufferStartOffset := if manager.buffer = [] then lsn else manager.bufferStartOffset
    buffer := manager.buffer ++ encoded }

/-- The part of `append` that places the record. -/
def placeRecord (lsn : Nat) (encoded : List UInt8) : LogM Unit := do
  let s ← get
  if s.manager.config.bufferCapacity < encoded.length then appendDirectly lsn encoded
  else appendBuffered lsn encoded

def append (record : LogRecord) : LogM Nat := do
  let s ← get
  fromExcept (require (s.manager.recoveryPending = false)
    (invalidArgument "Cannot append before deferred startup recovery completes"))
  fromExcept (require (s.manager.truncatedTail = false)
    (.walError .truncatedTail "Cannot append until the detected WAL tail is explicitly truncated"))
  let lsn := s.manager.nextLsn
  let encoded ← fromExcept (encodeWalRecord record lsn)
  fromExcept (require (isValidLsn (lsn + encoded.length))
    (invalidArgument "WAL LSN space is exhausted"))
  placeRecord lsn encoded
  modifyManager fun manager => { manager with
    nextLsn := manager.nextLsn + encoded.length
    lastAppendedLsn := some lsn
    knownLsns := lsn :: manager.knownLsns }
  return lsn

def containsLsn (s : LogState) (lsn : Nat) : Bool :=
  match s.manager.segmented with
  | some storage => decide (lsn ∈ s.manager.knownLsns) || storage.containsLsn s.world.volume lsn
  | none => decide (isValidLsn lsn ∧ lsn ∈ s.manager.knownLsns)

/-- The part of a flush that synchronises what was written. -/
def syncWritten : LogM Unit := do
  let s ← get
  match s.manager.segmented with
  | some storage => onSegments storage SegmentedWalStorage.flush
  | none => syncWal

def flushUpTo (target : Nat) : LogM Unit := do
  let s ← get
  fromExcept (require (containsLsn s target = true)
    (invalidArgument "flushUpTo target is not an appended LSN"))
  if ∃ durable ∈ s.manager.durableLsn, target ≤ durable then return ()
  else do
    writeBuffer
    syncWritten
    modifyManager fun manager => { manager with durableLsn := manager.lastAppendedLsn }

def flushAll : LogM Unit := do
  let s ← get
  match s.manager.lastAppendedLsn with
  | none => return ()
  | some lsn => flushUpTo lsn

/-! Reading. -/

/-- The loop of `scanIncludingBuffer` over the records of the buffer. -/
def decodeBuffer : (fuel : Nat) → (rest : List UInt8) → (lsn : Nat) → Result (List LogRecord)
  | 0, _, _ => return []
  | fuel + 1, rest, lsn =>
    if rest = [] then return []
    else do
      require (recordHeaderSize ≤ rest.length)
        (.logicError "LogManager buffer contains a partial record header")
      let totalLength := readUint32 rest 8
      require (totalLength ≤ rest.length)
        (.logicError "LogManager buffer contains a partial record")
      let record ← decodeWalRecord (rest.take totalLength) lsn
      let later ← decodeBuffer fuel (rest.drop totalLength) (lsn + totalLength)
      return record :: later

/-- A scan of what is on disk. -/
def scanDisk (s : LogState) : Result WalScanResult :=
  match s.manager.segmented with
  | some storage => storage.scan s.world.volume
  | none => scanLegacy s.world.volume

def scanIncludingBuffer (s : LogState) : Result WalScanResult := do
  let result ← scanDisk s
  if result.truncatedTail = true ∨ s.manager.buffer = [] then return result
  else do
    require (result.validBytes = s.manager.bufferStartOffset ∧
        result.fileBytes = s.manager.bufferStartOffset)
      (.logicError "WAL disk and in-memory buffer offsets disagree")
    let records ← decodeBuffer s.manager.buffer.length s.manager.buffer s.manager.bufferStartOffset
    return { result with
      records := result.records ++ records
      validBytes := result.validBytes + s.manager.buffer.length
      fileBytes := result.fileBytes + s.manager.buffer.length }

def scan (s : LogState) : Result WalScanResult := scanIncludingBuffer s

/-- The part of `scanFrom` for a log with a buffer. Records are in the order of their
positions, so that `std::lower_bound` drops those before the start. -/
def scanBufferedFrom (s : LogState) (startOffset : Nat) : Result WalScanResult := do
  let complete ← scanIncludingBuffer s
  require (walHeaderSize ≤ startOffset ∧ startOffset ≤ complete.validBytes)
    (invalidArgument "WAL scan offset is outside the log")
  let records := complete.records.dropWhile fun record => record.lsn < startOffset
  require
    (¬ ((∃ first ∈ records.head?, first.lsn ≠ startOffset) ∧ startOffset ≠ complete.validBytes))
    (corruptRecord "WAL scan offset is not a record boundary")
  return { complete with startOffset, records }

def scanFrom (s : LogState) (startOffset : Nat) : Result WalScanResult :=
  if s.manager.buffer ≠ [] then scanBufferedFrom s startOffset
  else
    match s.manager.segmented with
    | some storage => storage.scanFrom s.world.volume startOffset
    | none => do
        let file ← legacyBytes s.world.volume "Could not open WAL file for scanning"
        scanWalFileFrom file startOffset

/-- The part of `readRecordAt` for a record in the buffer. -/
def readBufferedAt (s : LogState) (lsn : Nat) : Result LogRecord := do
  let rest := s.manager.buffer.drop (lsn - s.manager.bufferStartOffset)
  require (recordHeaderSize ≤ rest.length)
    (corruptRecord "Referenced buffered WAL record does not exist")
  let totalLength := readUint32 rest 8
  require (totalLength ≤ rest.length)
    (corruptRecord "Referenced buffered WAL record is incomplete")
  decodeWalRecord (rest.take totalLength) lsn

/-- The part of `readRecordAt` for a record that was written. -/
def readDisk (s : LogState) (lsn : Nat) : Result LogRecord :=
  match s.manager.segmented with
  | some storage => storage.readRecordAt s.world.volume lsn
  | none => do
      let file ← legacyBytes s.world.volume "Could not open WAL file for record read"
      readWalRecordAt file lsn

def readRecordAt (s : LogState) (lsn : Nat) : Result LogRecord :=
  if s.manager.buffer ≠ [] ∧ s.manager.bufferStartOffset ≤ lsn then readBufferedAt s lsn
  else readDisk s lsn

/-! Tails and segments. -/

/-- The part of `truncateToLastValidRecord` that cuts the file. -/
def cutTail : LogM Unit := do
  let s ← get
  match s.manager.segmented with
  | some storage => onSegments storage SegmentedWalStorage.truncateActiveTail
  | none => do
      onFiles (emit (.truncateLegacy s.manager.nextLsn))
      syncWal

def truncateToLastValidRecord : LogM Unit := do
  let s ← get
  if s.manager.truncatedTail = false then return ()
  else do
    cutTail
    modifyManager fun manager => { manager with
      truncatedTail := false
      bufferStartOffset := manager.nextLsn }

def rotateSegment : LogM Unit := do
  let s ← get
  match s.manager.segmented with
  | none => return ()
  | some storage => onSegments storage SegmentedWalStorage.rotate

/-! Opening and closing. -/

/-- The manager after the log on disk was scanned. -/
def loaded (manager : LogManager) (scanned : WalScanResult) : LogManager :=
  { manager with
    nextLsn := scanned.validBytes
    bufferStartOffset := scanned.validBytes
    truncatedTail := scanned.truncatedTail
    knownLsns := scanned.records.map (·.lsn)
    lastAppendedLsn := scanned.records.getLast?.map (·.lsn)
    durableLsn := scanned.records.getLast?.map (·.lsn) }

def openSegmented (config : LogConfig) : EStateM DbError World LogManager := do
  let storage ←
    SegmentedWalStorage.create .published config.segmentPayloadCapacity.toNat true invalidLsn
  let world ← get
  let scanned ← fromExcept (storage.scan world.volume)
  let manager := { blank config with segmented := some storage }
  match config.openMode with
  | .deferredRecovery => return { manager with
      nextLsn := scanned.validBytes
      bufferStartOffset := scanned.validBytes
      truncatedTail := scanned.truncatedTail
      recoveryPending := true }
  | .eagerValidated => return loaded manager scanned

def initializeNewWal (config : LogConfig) : EStateM DbError World LogManager := do
  emit (.writeLegacy 0 encodeWalFileHeader)
  emit .syncLegacy
  return blank config

def loadExistingWalDeferred (config : LogConfig) (file : List UInt8) : Result LogManager := do
  require (walHeaderSize ≤ file.length) (corruptHeader "WAL file header is truncated")
  validateWalFileHeader (file.take walHeaderSize)
  return { blank config with
    nextLsn := file.length
    bufferStartOffset := file.length
    recoveryPending := true }

def loadExistingWal (config : LogConfig) (file : List UInt8) : Result LogManager := do
  let scanned ← scanWalFile file
  return loaded (blank config) scanned

def openLegacy (config : LogConfig) : EStateM DbError World LogManager := do
  let world ← get
  callIf (world.volume.legacy.current = none) (emit .createLegacy)
  let world ← get
  let file ← fromExcept (legacyBytes world.volume "Could not open WAL file")
  if file.length = 0 then initializeNewWal config
  else
    match config.openMode with
    | .deferredRecovery => fromExcept (loadExistingWalDeferred config file)
    | .eagerValidated => fromExcept (loadExistingWal config file)

/-- `remove_all` of a directory; what goes wrong in it is ignored. -/
def removeAll (place : Place) : EStateM DbError World Unit := do
  let world ← get
  match world.volume.directory? place with
  | none => return ()
  | some directory => do
      directory.listSegments.forM fun entry => emit (.removeSegment place entry.1)
      callIf (directory.manifest.current.isSome = true) (emit (.removeManifest place))
      callIf (directory.manifestTemporary.current.isSome = true)
        (emit (.removeManifestTemporary place))
      emit (.removeDirectory place)

/-- Whether the files say that the log is in segments. -/
def opensSegmented (config : LogConfig) (volume : Volume) : Bool :=
  match config.storageMode with
  | .segmented => true
  | .auto => (volume.directory? .published).isSome || volume.legacy.current.isNone
  | .legacySingleFile => false

def openOrCreate (config : LogConfig) : EStateM DbError World LogManager := do
  let world ← get
  callIf (config.storageMode = .auto ∧ (world.volume.directory? .published).isNone = true)
    (removeAll .staging)
  if opensSegmented config world.volume then openSegmented config else openLegacy config

/-- The constructor. -/
def create (config : LogConfig) : EStateM DbError World LogManager := do
  fromExcept (require (config.bufferCapacity ≠ 0)
    (invalidArgument "WAL buffer capacity must be positive"))
  openOrCreate config

/-- The destructor: a last flush, whatever comes of it, and the end of the storage. -/
def close (manager : LogManager) : EStateM DbError World Unit := do
  let world ← get
  let s := finalState flushAll ⟨manager, world⟩
  set s.world
  match s.manager.segmented with
  | some storage => storage.close
  | none => return ()

end LogManager

end MiniDb.Wal
