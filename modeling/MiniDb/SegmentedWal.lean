import MiniDb.WalVolume

/-!
`SegmentedWalStorage`: a log kept as a directory of segment files and a manifest
that names the oldest of them. Records go to the last segment; a record that does
not fit starts a new one. Positions are 64-bit words and wrap around as they do in
the source. A method that throws keeps what it did before it threw.
-/
namespace MiniDb.Wal
open ByteString Outcome CrashFiles Stateful

/-- The difference of two 64-bit words. -/
def subWord (a b : Nat) : Nat := (a + 2 ^ 64 - b) % 2 ^ 64

def addWord (a b : Nat) : Nat := (a + b) % 2 ^ 64

structure WalSegmentInfo where
  header : WalSegmentHeader
  logicalEndLsn : Nat
  physicalBytes : Nat
  active : Bool
  deriving DecidableEq

/-- `activeDescriptor` is the segment whose file is open for writing. -/
structure SegmentedWalStorage where
  place : Place
  manifest : WalSegmentManifest
  segments : List WalSegmentInfo
  activeDescriptor : Option Nat
  logicalEnd : Nat
  lastRecordLsn : Option Nat
  durableLsn : Option Nat
  truncatedTail : Bool
  deriving DecidableEq

/-- What a method of the storage works on. -/
structure StorageState where
  storage : SegmentedWalStorage
  world : World

abbrev StorageM := EStateM DbError StorageState

def onWorld {α : Type} (call : EStateM DbError World α) : StorageM α :=
  onPart StorageState.world (fun s world => { s with world }) call

def modifyStorage (f : SegmentedWalStorage → SegmentedWalStorage) : StorageM Unit :=
  modify fun s => { s with storage := f s.storage }

def noSegments : DbError := .logicError "Segmented WAL has no segments"

namespace SegmentedWalStorage

def blank (place : Place) : SegmentedWalStorage :=
  ⟨place, ⟨16 * 1024 * 1024, 1, walHeaderSize, invalidLsn⟩, [], none, walHeaderSize, none, none,
    false⟩

/-! Writing. -/

def flush : StorageM Unit := do
  let s ← get
  match s.storage.activeDescriptor with
  | none => return ()
  | some id => do
      onWorld (emit (.syncSegment s.storage.place id))
      modifyStorage fun storage => { storage with durableLsn := storage.lastRecordLsn }

/-- A change to the last segment, `segments_.back()`. -/
def updateLast (segments : List WalSegmentInfo) (f : WalSegmentInfo → WalSegmentInfo) :
    List WalSegmentInfo :=
  match segments.getLast? with
  | none => []
  | some last => segments.dropLast ++ [f last]

/-- The part of `createSegment` that closes the segment written so far. -/
def closeActive : StorageM Unit := do
  let s ← get
  if s.storage.segments = [] then return ()
  else do
    flush
    modifyStorage fun storage => { storage with
      activeDescriptor := none
      segments := updateLast storage.segments fun last => { last with active := false } }

def nextSegmentId (segments : List WalSegmentInfo) : Nat :=
  match segments.getLast? with
  | none => 1
  | some last => addWord last.header.segmentId 1

def previousSegmentId (segments : List WalSegmentInfo) : Nat :=
  match segments.getLast? with
  | none => 0
  | some last => last.header.segmentId

/-- The header that a new segment gets. -/
def newHeader (storage : SegmentedWalStorage) (startLsn : Nat) : WalSegmentHeader where
  segmentId := nextSegmentId storage.segments
  startLsn := startLsn
  previousSegmentId := previousSegmentId storage.segments
  previousLogicalEndLsn := startLsn
  payloadCapacity := storage.manifest.payloadCapacity
  flags := 0

/-- `open` with `O_CREAT | O_EXCL`. -/
def createFile (id : Nat) : StorageM Unit := do
  let s ← get
  if (s.world.volume.segment? s.storage.place id).isSome then
    throw (ioError "Could not create WAL segment: File exists")
  else onWorld (emit (.createSegment s.storage.place id))

def writeHeader (header : WalSegmentHeader) : StorageM Unit := do
  let s ← get
  let bytes ← fromExcept (encodeWalSegmentHeader header)
  onWorld (emit (.writeSegment s.storage.place header.segmentId 0 bytes))
  onWorld (emit (.syncSegment s.storage.place header.segmentId))
  onWorld (emit (.syncDirectory s.storage.place))

def createSegment (startLsn : Nat) : StorageM Unit := do
  closeActive
  let s ← get
  let header := newHeader s.storage startLsn
  if header.segmentId = 0 then throw (invalidArgument "WAL segment ID space is exhausted")
  else do
    createFile header.segmentId
    modifyStorage fun storage => { storage with activeDescriptor := some header.segmentId }
    tryCatch (writeHeader header) fun error => do
      modifyStorage fun storage => { storage with activeDescriptor := none }
      throw error
    modifyStorage fun storage => { storage with
      segments := storage.segments ++ [⟨header, startLsn, segmentHeaderSize, true⟩]
      logicalEnd := startLsn
      truncatedTail := false }

def publishManifest : StorageM Unit := do
  let s ← get
  let bytes ← fromExcept (encodeWalSegmentManifest s.storage.manifest)
  onWorld (emit (.createManifest s.storage.place))
  onWorld (emit (.writeManifest s.storage.place bytes))
  onWorld (emit (.syncManifest s.storage.place))
  onWorld (emit (.renameManifest s.storage.place))
  onWorld (emit (.syncDirectory s.storage.place))

def rotate : StorageM Unit := do
  let s ← get
  createSegment s.storage.logicalEnd

/-- The part of `appendRecord` that makes room: a new segment unless the record fits. -/
def rotateUnlessFits (size : Nat) : StorageM Unit := do
  let s ← get
  match s.storage.segments.getLast? with
  | none => throw noSegments
  | some active =>
    let used := subWord s.storage.logicalEnd active.header.startLsn
    if subWord s.storage.manifest.payloadCapacity used < size then rotate else return ()

def writeRecord (lsn : Nat) (encoded : List UInt8) : StorageM Unit := do
  let s ← get
  match s.storage.segments.getLast? with
  | none => throw noSegments
  | some destination =>
    let localOffset := addWord segmentHeaderSize (subWord lsn destination.header.startLsn)
    match s.storage.activeDescriptor with
    | none => throw (ioError "Could not write WAL segment: Bad file descriptor")
    | some id => do
        onWorld (emit (.writeSegment s.storage.place id localOffset encoded))
        let logicalEnd := addWord s.storage.logicalEnd encoded.length
        modifyStorage fun storage => { storage with
          logicalEnd
          segments := updateLast storage.segments fun last => { last with
            logicalEndLsn := logicalEnd
            physicalBytes := localOffset + encoded.length }
          lastRecordLsn := some lsn }

def appendRecord (lsn : Nat) (encoded : List UInt8) : StorageM Unit := do
  let s ← get
  fromExcept (require (s.storage.truncatedTail = false)
    (.walError .truncatedTail "Cannot append before truncating active WAL tail"))
  fromExcept (require (lsn = s.storage.logicalEnd ∧ encoded ≠ [] ∧
      encoded.length ≤ s.storage.manifest.payloadCapacity)
    (invalidArgument "Invalid segmented WAL append boundary"))
  rotateUnlessFits encoded.length
  writeRecord lsn encoded

def truncateActiveTail : StorageM Unit := do
  let s ← get
  if s.storage.truncatedTail then
    match s.storage.segments.getLast?, s.storage.activeDescriptor with
    | some active, some id => do
        let size := addWord segmentHeaderSize
          (subWord s.storage.logicalEnd active.header.startLsn)
        onWorld (emit (.truncateSegment s.storage.place id size))
        onWorld (emit (.syncSegment s.storage.place id))
        modifyStorage fun storage => { storage with
          segments := updateLast storage.segments fun last => { last with
            physicalBytes := size
            logicalEndLsn := storage.logicalEnd }
          truncatedTail := false }
    | some _, none =>
      throw (ioError "Could not truncate active WAL segment tail: Bad file descriptor")
    | none, _ => throw noSegments
  else return ()

/-! Reading. -/

/-- The bytes of a segment file opened for reading. -/
def openSegment (storage : SegmentedWalStorage) (volume : Volume) (id : Nat) (message : String) :
    Result (List UInt8) :=
  match volume.segment? storage.place id with
  | some bytes => .ok bytes
  | none => .error (ioError (message ++ ": No such file or directory"))

def scanSegment (storage : SegmentedWalStorage) (volume : Volume) (info : WalSegmentInfo)
    (allowTruncatedTail : Bool) : Result SegmentScan := do
  let file ← storage.openSegment volume info.header.segmentId
    "Could not open WAL segment for scanning"
  scanOneSegment info.header file allowTruncatedTail

/-- The scans of all segments; only the last may end in a torn record. -/
def scanSegments (storage : SegmentedWalStorage) (volume : Volume) :
    List WalSegmentInfo → Result (List SegmentScan)
  | [] => return []
  | info :: rest => do
      let scanned ← storage.scanSegment volume info rest.isEmpty
      let later ← scanSegments storage volume rest
      return scanned :: later

/-- What one segment adds to the result of a scan. -/
def addScan (startLsn : Nat) (result : WalScanResult) (scanned : SegmentScan) : WalScanResult :=
  let result := if scanned.truncatedTail then { result with
      truncatedTail := true
      validBytes := scanned.validEnd
      fileBytes := scanned.physicalLogicalEnd } else result
  { result with
    records := result.records ++ scanned.records.filter fun record => startLsn ≤ record.lsn }

def scanImpl (storage : SegmentedWalStorage) (volume : Volume) (startLsn : Nat) :
    Result WalScanResult := do
  match storage.segments.head? with
  | none => throw noSegments
  | some oldest => do
      require (oldest.header.startLsn ≤ startLsn ∧ startLsn ≤ storage.logicalEnd)
        (invalidArgument "Required logical WAL scan start is not retained")
      let scans ← storage.scanSegments volume storage.segments
      let boundary := startLsn = storage.logicalEnd ∨
        ∃ scanned ∈ scans, ∃ record ∈ scanned.records, record.lsn = startLsn
      require boundary (corruptRecord "Logical WAL scan start is not a record boundary")
      return scans.foldl (addScan startLsn)
        ⟨[], false, storage.logicalEnd, storage.logicalEnd, startLsn⟩

def scan (storage : SegmentedWalStorage) (volume : Volume) : Result WalScanResult :=
  match storage.segments.head? with
  | none => throw noSegments
  | some oldest => storage.scanImpl volume oldest.header.startLsn

def scanFrom (storage : SegmentedWalStorage) (volume : Volume) (startLsn : Nat) :
    Result WalScanResult :=
  storage.scanImpl volume startLsn

def notRetained : DbError := corruptRecord "Referenced logical WAL record is not retained"

def readRecordAt (storage : SegmentedWalStorage) (volume : Volume) (lsn : Nat) : Result LogRecord :=
  match storage.segments.find? fun segment =>
      segment.header.startLsn ≤ lsn ∧ lsn < segment.logicalEndLsn with
  | none => throw notRetained
  | some segment => do
      let file ← storage.openSegment volume segment.header.segmentId
        "Could not open WAL segment for record read"
      let localOffset := segmentHeaderSize + (lsn - segment.header.startLsn)
      require (localOffset ≤ file.length ∧ recordHeaderSize ≤ file.length - localOffset) notRetained
      let header := slice file localOffset recordHeaderSize
      let total := readUint32 header 8
      require (total ≤ file.length - localOffset ∧ total ≤ maxRecordSize) notRetained
      decodeWalRecord (slice file localOffset total) lsn

def containsLsn (storage : SegmentedWalStorage) (volume : Volume) (lsn : Nat) : Bool :=
  isValidLsn lsn && (storage.readRecordAt volume lsn).toBool

/-! Reclaiming. -/

/-- The last segment that starts at or before `floorLsn`. -/
def floorIndex (floorLsn : Nat) : List WalSegmentInfo → Nat
  | _ :: next :: rest =>
    if next.header.startLsn ≤ floorLsn then floorIndex floorLsn (next :: rest) + 1 else 0
  | _ => 0

def unlinkSegment (info : WalSegmentInfo) : StorageM Unit := do
  let s ← get
  if (s.world.volume.segment? s.storage.place info.header.segmentId).isSome then
    onWorld (emit (.removeSegment s.storage.place info.header.segmentId))
  else throw (ioError "Could not delete obsolete WAL segment: No such file or directory")

/-- The part of `reclaimBefore` that gives up the segments before `first`: the
manifest moves past them before their files go. -/
def giveUp (removable : Nat) (first : WalSegmentInfo) : StorageM Nat := do
  let s ← get
  modifyStorage fun storage => { storage with
    manifest := { storage.manifest with firstRetainedSegmentId := first.header.segmentId } }
  publishManifest
  (s.storage.segments.take removable).forM unlinkSegment
  onWorld (emit (.syncDirectory s.storage.place))
  modifyStorage fun storage => { storage with segments := storage.segments.drop removable }
  return ((s.storage.segments.take removable).map (·.physicalBytes)).sum

def reclaimBefore (floorLsn extraSegments : Nat) : StorageM Nat := do
  let s ← get
  match s.storage.segments.head? with
  | none => return 0
  | some oldest =>
    if s.storage.segments.length ≤ 1 ∨ floorLsn < oldest.header.startLsn ∨
        s.storage.logicalEnd < floorLsn then return 0
    else
      let removable := floorIndex floorLsn s.storage.segments - extraSegments
      if removable = 0 then return 0
      else
        match s.storage.segments[removable]? with
        | none => throw noSegments
        | some first => giveUp removable first

/-! Opening. -/

/-- One segment file found in the directory, checked against the one before it. -/
def discoverSegment (manifest : WalSegmentManifest) (previous : Option WalSegmentInfo) (id : Nat)
    (file : List UInt8) (active : Bool) : Result WalSegmentInfo := do
  require (∀ info ∈ previous, info.header.segmentId < id)
    (corruptHeader "Duplicate/backwards WAL segment IDs")
  require (segmentHeaderSize ≤ file.length) (ioError "Unexpected WAL segment EOF")
  let header ← decodeWalSegmentHeader (file.take segmentHeaderSize)
  require (header.segmentId = id ∧ header.payloadCapacity = manifest.payloadCapacity)
    (corruptHeader "WAL segment filename/header identity mismatch")
  let scanned ← scanOneSegment header file active
  require (∀ info ∈ previous, info.header.segmentId < header.segmentId ∧
      header.previousSegmentId = info.header.segmentId ∧ header.startLsn = info.logicalEndLsn ∧
      header.previousLogicalEndLsn = info.logicalEndLsn)
    (corruptHeader "WAL segment chain is discontinuous")
  return ⟨header, scanned.validEnd, file.length, active⟩

def discoverChain (manifest : WalSegmentManifest) :
    Option WalSegmentInfo → List (Nat × SyncedFile) → Result (List WalSegmentInfo)
  | _, [] => return []
  | previous, (id, file) :: rest => do
      let info ← discoverSegment manifest previous id file.bytes rest.isEmpty
      let later ← discoverChain manifest (some info) rest
      return info :: later

/-- Segments before the first retained one are extra history that a reclaim had
already given up. -/
def discoverSegments (manifest : WalSegmentManifest) (directory : Directory) :
    Result (List WalSegmentInfo) := do
  let found := directory.listSegments.filter fun entry =>
    manifest.firstRetainedSegmentId ≤ entry.1
  require ((found.head?.map Prod.fst) = some manifest.firstRetainedSegmentId)
    (corruptHeader "Required first retained WAL segment is missing")
  discoverChain manifest none found

def readManifest (directory : Directory) : Result WalSegmentManifest :=
  match directory.manifest.current with
  | none => throw (ioError "Could not open segmented-WAL manifest: No such file or directory")
  | some file => do
      require (file.bytes.length = segmentHeaderSize)
        (corruptHeader "Segmented-WAL manifest size is invalid")
      decodeWalSegmentManifest file.bytes

def openExistingStore (place : Place) (volume : Volume) (directory : Directory) :
    Result SegmentedWalStorage := do
  let manifest ← readManifest directory
  let segments ← discoverSegments manifest directory
  match segments.getLast? with
  | none => throw (.logicError "Segmented WAL has no active segment")
  | some last => do
      let opened : SegmentedWalStorage := { blank place with
        manifest
        segments
        logicalEnd := last.logicalEndLsn
        activeDescriptor := some last.header.segmentId }
      let scanned ← opened.scan volume
      return { opened with
        logicalEnd := scanned.validBytes
        truncatedTail := scanned.truncatedTail
        lastRecordLsn := scanned.records.getLast?.map (·.lsn)
        durableLsn := scanned.records.getLast?.map (·.lsn) }

/-- The manifest of a new log, which starts behind a file header or at the base of a
migration. -/
def initialManifest (payloadCapacity migrationBaseLsn : Nat) : WalSegmentManifest where
  payloadCapacity := payloadCapacity
  firstRetainedSegmentId := 1
  initialLsn := if migrationBaseLsn = invalidLsn then walHeaderSize else migrationBaseLsn
  migrationBaseLsn := migrationBaseLsn

def createNewStore (payloadCapacity : Nat) (migrationBaseLsn : Nat) : StorageM Unit := do
  let s ← get
  onWorld (emit (.makeDirectory s.storage.place))
  let manifest := initialManifest payloadCapacity migrationBaseLsn
  modifyStorage fun storage => { storage with manifest }
  publishManifest
  createSegment manifest.initialLsn
  let s ← get
  if s.world.hasParent then onWorld (emit .syncParent)
  else throw (ioError "Could not open directory for durability sync: No such file or directory")

/-- A storage made by `call` on a blank one; nothing is left of it if that throws. -/
def construct (place : Place) (call : StorageM Unit) : EStateM DbError World SegmentedWalStorage :=
  fun world =>
    match call ⟨blank place, world⟩ with
    | .ok _ s => .ok s.storage s.world
    | .error e s => .error e s.world

/-- The constructor. -/
def create (place : Place) (payloadCapacity : Nat) (createIfMissing : Bool)
    (migrationBaseLsn : Nat) : EStateM DbError World SegmentedWalStorage := do
  fromExcept (require (128 ≤ payloadCapacity)
    (invalidArgument "Invalid segmented-WAL configuration"))
  let world ← get
  match world.volume.directory? place with
  | some directory => do
      let storage ← fromExcept (openExistingStore place world.volume directory)
      fromExcept (require (storage.manifest.payloadCapacity = payloadCapacity)
        (invalidArgument "Configured WAL segment capacity disagrees with manifest"))
      return storage
  | none =>
    if createIfMissing then construct place (createNewStore payloadCapacity migrationBaseLsn)
    else throw (ioError "Segmented WAL directory does not exist")

/-- The destructor: a last flush, whatever comes of it. -/
def close (storage : SegmentedWalStorage) : EStateM DbError World Unit := fun world =>
  match flush ⟨storage, world⟩ with
  | .ok _ s => .ok () s.world
  | .error _ s => .ok () s.world

end SegmentedWalStorage

end MiniDb.Wal
