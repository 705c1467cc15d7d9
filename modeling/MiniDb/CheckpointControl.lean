import MiniDb.LogSegments
import MiniDb.Foundation.SortedMap

/-!
The checkpoint control file: a header and two slots, each with its own
checksum. Publication overwrites the slot of the older generation, selection
takes the newest slot that agrees with the log. A slot is written byte by byte,
so that a crash can leave any first part of it in front of the old bytes.
-/
namespace MiniDb
open ByteBlock Outcome

abbrev ControlBlock := Block 64

structure CheckpointSlot where
  generation : Nat
  checkpointId : Nat
  checkpointEndLsn : Nat
  recoveryStartOffset : Nat
  databasePageCount : Nat
  nextTransactionId : Nat
  walFileSizeAtCheckpoint : Nat
  deriving DecidableEq

def ValidSlotFields (slot : CheckpointSlot) : Prop :=
  slot.generation ≠ 0 ∧ slot.checkpointId ≠ 0 ∧ slot.checkpointEndLsn ≠ invalidLsn ∧
    slot.recoveryStartOffset ≠ invalidLsn ∧ slot.databasePageCount ≠ 0 ∧
    slot.nextTransactionId ≠ 0 ∧ slot.recoveryStartOffset ≤ slot.walFileSizeAtCheckpoint

instance (slot : CheckpointSlot) : Decidable (ValidSlotFields slot) := by
  unfold ValidSlotFields; infer_instance

/-- The fields of a slot fit in their eight bytes. -/
structure SlotInRange (slot : CheckpointSlot) : Prop where
  generation : slot.generation < 2 ^ 64
  checkpointId : slot.checkpointId < 2 ^ 64
  checkpointEndLsn : slot.checkpointEndLsn < 2 ^ 64
  recoveryStartOffset : slot.recoveryStartOffset < 2 ^ 64
  databasePageCount : slot.databasePageCount < 2 ^ 64
  nextTransactionId : slot.nextTransactionId < 2 ^ 64
  walFileSizeAtCheckpoint : slot.walFileSizeAtCheckpoint < 2 ^ 64

def slotBlock (slot : CheckpointSlot) : ControlBlock :=
  let block := writeLe zero 0 8 slot.generation
  let block := writeLe block 8 8 slot.checkpointId
  let block := writeLe block 16 8 slot.checkpointEndLsn
  let block := writeLe block 24 8 slot.recoveryStartOffset
  let block := writeLe block 32 8 slot.databasePageCount
  let block := writeLe block 40 8 slot.nextTransactionId
  writeLe block 48 8 slot.walFileSizeAtCheckpoint

def slotFields (block : ControlBlock) : CheckpointSlot :=
  ⟨readLe block 0 8, readLe block 8 8, readLe block 16 8, readLe block 24 8, readLe block 32 8,
    readLe block 40 8, readLe block 48 8⟩

/-- The checksum with its own four bytes read as zero. -/
def slotChecksum (block : ControlBlock) : Nat := crc32c (writeLe block 56 4 0)

def encodeCheckpointSlot (slot : CheckpointSlot) : Result ControlBlock := do
  require (ValidSlotFields slot) (invalidArgument "Invalid checkpoint-control slot")
  return writeLe (slotBlock slot) 56 4 (slotChecksum (slotBlock slot))

def decodeCheckpointSlot (block : ControlBlock) : Result CheckpointSlot := do
  require (readLe block 60 4 = 0 ∧ readLe block 56 4 = slotChecksum block)
    (corruptRecord "Invalid checkpoint-control slot")
  require (ValidSlotFields (slotFields block))
    (corruptRecord "Malformed checkpoint-control fields")
  return slotFields block

def controlMagic : List Char := ['M', 'D', 'B', 'C', 'K', 'P', 'T', '1']

def encodeCheckpointControlHeader : ControlBlock :=
  let block := writeBytes zero 0 (magicBytes controlMagic)
  let block := writeLe block 8 4 1
  let block := writeLe block 12 4 64
  let block := writeLe block 16 4 64
  writeLe block 20 4 2

/-- `validateCheckpointControlHeader`, as a condition. -/
def IsControlHeader (block : ControlBlock) : Prop :=
  hasMagic block controlMagic ∧ readLe block 8 4 = 1 ∧ readLe block 12 4 = 64 ∧
    readLe block 16 4 = 64 ∧ readLe block 20 4 = 2 ∧ readLe block 24 40 = 0

instance (block : ControlBlock) : Decidable (IsControlHeader block) := by
  unfold IsControlHeader; infer_instance

inductive SlotIndex
  | first | second
  deriving DecidableEq

def SlotIndex.other : SlotIndex → SlotIndex
  | .first => .second
  | .second => .first

structure ControlBlocks where
  header : ControlBlock
  first : ControlBlock
  second : ControlBlock
  deriving DecidableEq

namespace ControlBlocks

def slot (blocks : ControlBlocks) : SlotIndex → ControlBlock
  | .first => blocks.first
  | .second => blocks.second

def setSlot (blocks : ControlBlocks) (index : SlotIndex) (block : ControlBlock) : ControlBlocks :=
  match index with
  | .first => { blocks with first := block }
  | .second => { blocks with second := block }

def decoded (blocks : ControlBlocks) (index : SlotIndex) : Option CheckpointSlot :=
  (decodeCheckpointSlot (blocks.slot index)).toOption

/-- The slot a publication overwrites: one that is not readable, else the older one. -/
def publishTarget (blocks : ControlBlocks) : SlotIndex :=
  match blocks.decoded .first, blocks.decoded .second with
  | none, _ => .first
  | some _, none => .second
  | some a, some b => if a.generation ≤ b.generation then .first else .second

/-- Readable slots, newest generation first; the sort keeps two equal ones in place.
An all-zero slot is not readable either, as its generation is zero. -/
def candidates (blocks : ControlBlocks) : List CheckpointSlot :=
  match blocks.decoded .first, blocks.decoded .second with
  | none, none => []
  | some a, none => [a]
  | none, some b => [b]
  | some a, some b => if a.generation < b.generation then [b, a] else [a, b]

end ControlBlocks

/-- A control file of another size than a header and two slots is not read. -/
inductive ControlFile
  | absent
  | unsized
  | sized (blocks : ControlBlocks)
  deriving DecidableEq

/-- Where a publication stands between two writes to the control file. -/
inductive PublishStage
  | opening
  | heading (old : ControlBlock) (count : Nat)
  | writing (target : SlotIndex) (old block : ControlBlock) (count : Nat)
  | synced
  deriving DecidableEq

/-- The next write of `CheckpointControl::publish`. A missing file is created and
sized first; `heading` and `writing` put one more byte of a block in the file. -/
def ControlFile.publish (slot : CheckpointSlot) (file : ControlFile) :
    PublishStage → Result (ControlFile × PublishStage)
  | .opening =>
    match file with
    | .absent => return (.unsized, .opening)
    | .unsized => return (.sized ⟨zero, zero, zero⟩, .heading zero 0)
    | .sized blocks =>
      if IsControlHeader blocks.header then do
        let block ← encodeCheckpointSlot slot
        let target := blocks.publishTarget
        return (file, .writing target (blocks.slot target) block 0)
      else return (file, .heading blocks.header 0)
  | .heading old count =>
    match file with
    | .sized blocks =>
      if count < 64 then
        return (.sized { blocks with
          header := splice old encodeCheckpointControlHeader (count + 1) },
          .heading old (count + 1))
      else return (.sized ⟨blocks.header, zero, zero⟩, .opening)
    | _ => return (file, .opening)
  | .writing target old block count =>
    match file with
    | .sized blocks =>
      if count < 64 then
        return (.sized (blocks.setSlot target (splice old block (count + 1))),
          .writing target old block (count + 1))
      else return (file, .synced)
    | _ => return (file, .opening)
  | .synced => return (file, .synced)

def crossValidateSharp (slot : CheckpointSlot) (log : LogManager) (endRecord : LogRecord)
    (ending : CheckpointEndLogPayload) : Result Bool := do
  validateCheckpointRecord endRecord
  if ending.checkpointId ≠ slot.checkpointId ∨
      ending.recoveryStartOffset ≠ slot.recoveryStartOffset ∨
      ending.databasePageCount ≠ slot.databasePageCount ∨
      ending.nextTransactionId ≠ slot.nextTransactionId ∨
      endRecord.endLsn ≠ slot.recoveryStartOffset then return false
  else do
    let beginRecord ← log.readRecordAt ending.checkpointBeginLsn
    match beginRecord.payload with
    | .checkpointBegin beginning => do
        validateCheckpointRecord beginRecord
        return decide (beginning.checkpointId = slot.checkpointId)
    | _ => return false

def crossValidateFuzzy (slot : CheckpointSlot) (log : LogManager) (endRecord : LogRecord)
    (ending : FuzzyCheckpointEndLogPayload) : Result Bool := do
  validateCheckpointRecord endRecord
  if ending.checkpointId ≠ slot.checkpointId ∨
      ending.checkpointBeginLsn ≠ slot.recoveryStartOffset ∨
      ending.databasePageCount ≠ slot.databasePageCount ∨
      ending.nextTransactionId ≠ slot.nextTransactionId ∨
      endRecord.endLsn ≠ slot.walFileSizeAtCheckpoint then return false
  else do
    let beginRecord ← log.readRecordAt ending.checkpointBeginLsn
    match beginRecord.payload with
    | .fuzzyCheckpointBegin beginning => do
        validateCheckpointRecord beginRecord
        return decide (beginning.checkpointId = slot.checkpointId)
    | _ => return false

def crossValidate (slot : CheckpointSlot) (log : LogManager) : Result Bool :=
  if slot.walFileSizeAtCheckpoint < slot.recoveryStartOffset ∨
      log.nextLsn < slot.recoveryStartOffset then .ok false
  else do
    let endRecord ← log.readRecordAt slot.checkpointEndLsn
    match endRecord.payload with
    | .checkpointEnd ending => crossValidateSharp slot log endRecord ending
    | .fuzzyCheckpointEnd ending => crossValidateFuzzy slot log endRecord ending
    | _ => return false

/-- A slot is taken if its checkpoint is in the log; a failed read rejects it. -/
def agreesWithLog (log : LogManager) (slot : CheckpointSlot) : Bool :=
  satisfies (crossValidate slot log) id

def ControlFile.select (file : ControlFile) (log : LogManager) : Option CheckpointSlot :=
  match file with
  | .sized blocks =>
    if IsControlHeader blocks.header then blocks.candidates.find? (agreesWithLog log) else none
  | _ => none

namespace Discovery

end Discovery

theorem slotChecksum_lt (block : ControlBlock) : slotChecksum block < 2 ^ 32 := by
  unfold slotChecksum crc32c
  omega

theorem slotFields_slotBlock {slot : CheckpointSlot} (h : SlotInRange slot) :
    slotFields (slotBlock slot) = slot := by
  obtain ⟨h₀, h₁, h₂, h₃, h₄, h₅, h₆⟩ := h
  cases slot
  simp only [slotFields, slotBlock, CheckpointSlot.mk.injEq]
  refine ⟨?_, ?_, ?_, ?_, ?_, ?_, ?_⟩ <;>
    (repeat rw [readLe_writeLe_outside _ (by omega)]) <;>
    rw [readLe_writeLe_same _ (by omega)] <;> exact Nat.mod_eq_of_lt (by assumption)

theorem slotFields_writeChecksum (block : ControlBlock) (checksum : Nat) :
    slotFields (writeLe block 56 4 checksum) = slotFields block := by
  simp only [slotFields, CheckpointSlot.mk.injEq]
  refine ⟨?_, ?_, ?_, ?_, ?_, ?_, ?_⟩ <;> exact readLe_writeLe_outside _ (by omega)

theorem decode_encode {slot : CheckpointSlot} {block : ControlBlock} (h : SlotInRange slot)
    (he : encodeCheckpointSlot slot = .ok block) : decodeCheckpointSlot block = .ok slot := by
  simp only [encodeCheckpointSlot, ok_iff] at he
  obtain ⟨_, hv, rfl⟩ := he
  have hf : slotFields (writeLe (slotBlock slot) 56 4 (slotChecksum (slotBlock slot))) =
      slot := (slotFields_writeChecksum _ _).trans (slotFields_slotBlock h)
  have hg : readLe (writeLe (slotBlock slot) 56 4 (slotChecksum (slotBlock slot))) 60 4 = 0 := by
    rw [readLe_writeLe_outside _ (by omega)]
    simp only [slotBlock]
    repeat rw [readLe_writeLe_outside _ (by omega)]
    decide +kernel
  have hc :
      readLe (writeLe (slotBlock slot) 56 4 (slotChecksum (slotBlock slot))) 56 4 =
        slotChecksum (writeLe (slotBlock slot) 56 4 (slotChecksum (slotBlock slot))) := by
    rw [readLe_writeLe_same _ (by omega)]
    unfold slotChecksum
    rw [writeLe_writeLe_same]
    exact Nat.mod_eq_of_lt (slotChecksum_lt (slotBlock slot))
  simp only [decodeCheckpointSlot, ok_iff]
  exact ⟨(), ⟨hg, hc⟩, (), by rw [hf]; exact hv, hf⟩

end MiniDb
