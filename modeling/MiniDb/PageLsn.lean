import MiniDb.Foundation.Bytes
import MiniDb.Foundation.Outcome

/-!
Database pages and the PageLSN slot of the typed page layouts.
A page names its type by its first eight bytes; each type with a PageLSN keeps
it at its own offset, so the slot moves when a page changes type and is absent
from an untyped page. A recognised but malformed page has no slot answer at
all: every accessor fails on it.
-/
namespace MiniDb
open ByteBlock Outcome

inductive WalErrorKind
  | invalidArgument | io | durability | corruptHeader | corruptRecord | truncatedTail
  deriving DecidableEq, Repr

inductive StorageErrorKind
  | noFrameAvailable | corruptPage | invalidPage | pinnedPageRelease
  deriving DecidableEq, Repr

inductive DbError
  | logicError (message : String)
  | invalidArgument (message : String)
  | outOfRange (message : String)
  | overflowError (message : String)
  | runtimeError (message : String)
  | walError (kind : WalErrorKind) (message : String)
  | storageError (kind : StorageErrorKind) (message : String)
  deriving DecidableEq, Repr

abbrev Result := Except DbError

def pageSize : Nat := 4096

abbrev Page := Block pageSize

/-! Page ids, LSNs and transaction ids are natural numbers; their names say which. -/

def invalidPageId : Nat := 2 ^ 32 - 1

/-- `INVALID_LSN`; model code carries an absent LSN as `none`. -/
def invalidLsn : Nat := 2 ^ 64 - 1

def readUint32 (page : Page) (offset : Nat) : Nat := readLe page offset 4

def readUint64 (page : Page) (offset : Nat) : Nat := readLe page offset 8

def writeUint32 (page : Page) (offset value : Nat) : Page := writeLe page offset 4 value

def writeUint64 (page : Page) (offset value : Nat) : Page := writeLe page offset 8 value

def magicBytes (text : List Char) : List UInt8 := text.map fun c => UInt8.ofNat c.toNat

def hasMagic {n : Nat} (page : Block n) (magic : List Char) : Bool :=
  (magicBytes magic).zipIdx.all fun entry => byteAt page entry.2 == entry.1

inductive PersistentPageType
  | databaseMetadata
  | free
  | slotted
  | tupleHeapMetadata
  | indexMetadata
  | bplusLeaf
  | bplusInternal
  | catalogMetadata
  deriving DecidableEq, Repr

structure PersistentPageLsnSlot where
  pageType : PersistentPageType
  offset : Nat
  deriving DecidableEq, Repr

def requireUint32 (page : Page) (offset expected : Nat) (message : String) : Result Unit :=
  require (readUint32 page offset = expected) (.runtimeError message)

/-- The fields by which one typed layout is recognised; versions stand at
offset 8 and header sizes at offset 12 in all of them. -/
structure PageLayout where
  pageType : PersistentPageType
  magic : List Char
  version : Nat
  headerSize : Nat
  slotOffset : Nat
  versionMessage : String
  headerMessage : String

def layoutSlot (layout : PageLayout) (page : Page) : Result (Option PersistentPageLsnSlot) := do
  requireUint32 page 8 layout.version layout.versionMessage
  requireUint32 page 12 layout.headerSize layout.headerMessage
  return some ⟨layout.pageType, layout.slotOffset⟩

def databaseMagic : List Char := ['M', 'I', 'N', 'I', 'D', 'B', '+', '+']

def freeLayout : PageLayout where
  pageType := .free
  magic := ['M', 'D', 'B', 'F', 'R', 'E', 'E', 'P']
  version := 1
  headerSize := 32
  slotOffset := 20
  versionMessage := "Free page has an unsupported layout version"
  headerMessage := "Free page has an invalid header size"

def slottedLayout : PageLayout where
  pageType := .slotted
  magic := ['M', 'D', 'B', 'S', 'L', 'T', 'P', 'G']
  version := 1
  headerSize := 48
  slotOffset := 36
  versionMessage := "Slotted page has an unsupported layout version"
  headerMessage := "Slotted page has an invalid header size"

def tupleHeapMetadataLayout : PageLayout where
  pageType := .tupleHeapMetadata
  magic := ['M', 'D', 'B', 'H', 'P', 'M', 'E', 'T']
  version := 1
  headerSize := 64
  slotOffset := 32
  versionMessage := "Tuple heap metadata has an unsupported layout version"
  headerMessage := "Tuple heap metadata has an invalid header size"

def indexMetadataLayout : PageLayout where
  pageType := .indexMetadata
  magic := ['M', 'D', 'B', 'I', 'D', 'X', 'M', 'D']
  version := 1
  headerSize := 64
  slotOffset := 36
  versionMessage := "Index metadata has an unsupported layout version"
  headerMessage := "Index metadata has an invalid header size"

def bplusLeafLayout : PageLayout where
  pageType := .bplusLeaf
  magic := ['M', 'D', 'B', 'I', 'D', 'X', 'L', 'F']
  version := 2
  headerSize := 36
  slotOffset := 28
  versionMessage := "B+ leaf has an unsupported layout version"
  headerMessage := "B+ leaf has an invalid header size"

def bplusInternalLayout : PageLayout where
  pageType := .bplusInternal
  magic := ['M', 'D', 'B', 'I', 'D', 'X', 'I', 'N']
  version := 1
  headerSize := 32
  slotOffset := 24
  versionMessage := "B+ internal page has an unsupported layout version"
  headerMessage := "B+ internal page has an invalid header size"

def catalogMetadataLayout : PageLayout where
  pageType := .catalogMetadata
  magic := ['M', 'D', 'B', 'C', 'A', 'M', 'E', 'T']
  version := 1
  headerSize := 64
  slotOffset := 40
  versionMessage := "Catalog metadata has an unsupported layout version"
  headerMessage := "Catalog metadata has an invalid header size"

/-- The database header keeps its own field order, and its legacy version has
no PageLSN. -/
def databaseMetadataSlot (page : Page) : Result (Option PersistentPageLsnSlot) := do
  requireUint32 page 16 64 "Database metadata page has an invalid header size"
  let version := readUint32 page 8
  require (version = 1 ∨ version = 2)
    (.runtimeError "Database metadata page has an unsupported format version")
  if version = 1 then return none
  return some ⟨.databaseMetadata, 28⟩

/-- The legacy leaf layout has no PageLSN either; its header has another size. -/
def bplusLeafSlot (page : Page) : Result (Option PersistentPageLsnSlot) := do
  if readUint32 page 8 = 1 then
    requireUint32 page 12 32 "Legacy B+ leaf has an invalid header size"
    return none
  layoutSlot bplusLeafLayout page

def persistentPageLsnSlot (page : Page) : Result (Option PersistentPageLsnSlot) :=
  if hasMagic page databaseMagic then databaseMetadataSlot page
  else if hasMagic page freeLayout.magic then layoutSlot freeLayout page
  else if hasMagic page slottedLayout.magic then layoutSlot slottedLayout page
  else if hasMagic page tupleHeapMetadataLayout.magic then layoutSlot tupleHeapMetadataLayout page
  else if hasMagic page indexMetadataLayout.magic then layoutSlot indexMetadataLayout page
  else if hasMagic page bplusLeafLayout.magic then bplusLeafSlot page
  else if hasMagic page bplusInternalLayout.magic then layoutSlot bplusInternalLayout page
  else if hasMagic page catalogMetadataLayout.magic then layoutSlot catalogMetadataLayout page
  else .ok none

def supportsPersistentPageLsn (page : Page) : Result Bool := do
  return (← persistentPageLsnSlot page).isSome

def encodePersistentPageLsn : Option Nat → Result Nat
  | none => .ok 0
  | some lsn => do
      require (lsn ≠ 0)
        (.invalidArgument "LSN zero is reserved by the persistent PageLSN encoding")
      return lsn

def decodePersistentPageLsn (encoded : Nat) : Result (Option Nat) := do
  if encoded = 0 then return none
  require (encoded ≠ invalidLsn)
    (.runtimeError "Persistent PageLSN contains the in-memory invalid sentinel")
  return some encoded

def readPersistentPageLsn (page : Page) : Result (Option Nat) := do
  match ← persistentPageLsnSlot page with
  | none => return none
  | some slot => decodePersistentPageLsn (readUint64 page slot.offset)

def writePersistentPageLsn (page : Page) (lsn : Option Nat) : Result Page := do
  match ← persistentPageLsnSlot page with
  | none => throw (.invalidArgument "Page type does not support persistent PageLSN metadata")
  | some slot => return writeUint64 page slot.offset (← encodePersistentPageLsn lsn)

def clearPersistentPageLsn (page : Page) : Result Page := do
  match ← persistentPageLsnSlot page with
  | none => return page
  | some slot => return writeUint64 page slot.offset 0

end MiniDb
