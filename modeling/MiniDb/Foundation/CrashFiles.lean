import Mathlib.Data.Option.Basic
import Mathlib.Data.List.Basic

/-!
Files and directory entries behind an operating-system cache. What a program sees
is current; a crash keeps less. Of a file it keeps the bytes that were synchronised
and any number of those written after them; of a directory entry it keeps what the
entry held when the directory was last synchronised or anything it held since.
-/
namespace CrashFiles
open List

/-- The bytes of a file, and how many of them the last synchronisation reached. -/
structure SyncedFile where
  bytes : List UInt8
  synced : Nat
  deriving DecidableEq

namespace SyncedFile

def empty : SyncedFile := ⟨[], 0⟩

/-- A positioned write; a gap before it is filled with zeros. -/
def write (file : SyncedFile) (offset : Nat) (data : List UInt8) : SyncedFile :=
  ⟨file.bytes.take offset ++ List.replicate (offset - file.bytes.length) 0 ++ data ++
    file.bytes.drop (offset + data.length), min file.synced offset⟩

def truncate (file : SyncedFile) (size : Nat) : SyncedFile :=
  ⟨file.bytes.take size, min file.synced size⟩

def sync (file : SyncedFile) : SyncedFile := ⟨file.bytes, file.bytes.length⟩

/-- A file found after a crash holds nothing that could still be lost. -/
def Survives (file file' : SyncedFile) : Prop :=
  ∃ count, file.synced ≤ count ∧ file' = (file.truncate count).sync

theorem write_end (file : SyncedFile) (data : List UInt8) :
    (file.write file.bytes.length data).bytes = file.bytes ++ data := by
  simp [write]

/-- Of a file that is synchronised to its end nothing is lost. -/
theorem Survives.of_synced {file file' : SyncedFile} (h : file.Survives file')
    (hs : file.bytes.length ≤ file.synced) : file' = file.sync := by
  obtain ⟨cnt, hc, rfl⟩ := h
  have ha := take_of_length_le (Nat.le_trans hs hc)
  simp [sync, truncate, ha]

theorem survives_sync (file : SyncedFile) : file.Survives file.sync := by
  refine ⟨max file.synced file.bytes.length, Nat.le_max_left _ _, ?_⟩
  rw [sync, sync, truncate, take_of_length_le (Nat.le_max_right _ _)]

end SyncedFile

/-- A name in a directory: what it stands for now, and what it stood for at the
last synchronisation of the directory and since. -/
structure Entry (α : Type) where
  current : Option α
  earlier : List (Option α)

namespace Entry
variable {α : Type}

def absent : Entry α := ⟨none, []⟩

/-- The name is created, removed or made to stand for something else. -/
def put (entry : Entry α) (value : Option α) : Entry α := ⟨value, entry.current :: entry.earlier⟩

/-- What the name stands for changes in place. -/
def update (entry : Entry α) (f : α → α) : Entry α := { entry with current := entry.current.map f }

def sync (entry : Entry α) : Entry α := { entry with earlier := [] }

def Survives (inner : α → α → Prop) (entry entry' : Entry α) : Prop :=
  entry'.earlier = [] ∧
    ∃ value ∈ entry.current :: entry.earlier, Option.Rel inner value entry'.current

/-- What is found when a crash loses nothing. -/
def kept (f : α → α) (entry : Entry α) : Entry α := ⟨entry.current.map f, []⟩

@[simp] theorem current_update (ent : Entry α) (f : α → α) :
    (ent.update f).current = ent.current.map f := rfl

section
variable {inner : α → α → Prop} {v : α} {ent : Entry α}

theorem survives_kept {f : α → α} (h : ∀ a, inner a (f a)) (ent : Entry α) :
    Survives inner ent (ent.kept f) := by
  refine ⟨rfl, ent.current, mem_cons_self, ?_⟩
  cases hc : ent.current with
  | none => simp [kept, hc]
  | some a => simpa [kept, hc] using h a

/-- Synchronising a name leaves less that can happen to it. -/
theorem Survives.of_sync {ent' : Entry α} (h : Survives inner ent.sync ent') :
    Survives inner ent ent' := by
  obtain ⟨he, fd, hm, hr⟩ := h
  obtain rfl := mem_singleton.mp hm
  exact ⟨he, _, mem_cons_self, hr⟩

theorem survives_absent (h : Survives inner absent ent) : ent = absent := by
  obtain ⟨he, fd, hm, hr⟩ := h
  obtain rfl := mem_singleton.mp hm
  obtain ⟨cur, ear⟩ := ent
  cases hr
  simp only at he
  rw [he, absent]

/-- A name that is synchronised stays. -/
theorem survives_synced (h : Survives inner ⟨some v, []⟩ ent) :
    ∃ v', inner v v' ∧ ent = ⟨some v', []⟩ := by
  obtain ⟨he, fd, hm, hr⟩ := h
  obtain rfl := mem_singleton.mp hm
  obtain ⟨cur, ear⟩ := ent
  cases hr with
  | some hi =>
    simp only at he
    rw [he]
    exact ⟨_, hi, rfl⟩

/-- A name that was made since may be gone. -/
theorem survives_made (h : Survives inner ⟨some v, [none]⟩ ent) :
    ent = absent ∨ ∃ v', inner v v' ∧ ent = ⟨some v', []⟩ := by
  obtain ⟨he, fd, hm, hr⟩ := h
  rcases mem_cons.mp hm with rfl | hm
  · exact .inr (survives_synced ⟨he, some v, mem_singleton.mpr rfl, hr⟩)
  · obtain rfl := mem_singleton.mp hm
    exact .inl (survives_absent ⟨he, none, mem_singleton.mpr rfl, hr⟩)

end

/-- A synchronised name of a synchronised file is found as it was. -/
theorem survives_settled {file : SyncedFile} {ent : Entry SyncedFile} (hf : file.sync = file)
    (h : Survives SyncedFile.Survives ⟨some file, []⟩ ent) : ent = ⟨some file, []⟩ := by
  obtain ⟨file', hs, rfl⟩ := survives_synced h
  have hy := Nat.le_of_eq (congrArg SyncedFile.synced hf)
  rw [hs.of_synced hy, hf]

end Entry

end CrashFiles
