import MiniDb.Foundation.CrashFiles
import MiniDb.Foundation.SortedMap
import MiniDb.Foundation.Stateful
import MiniDb.WalScan

/-!
The files of one log: the single file, the directory of segments, and the
directory in which a migration prepares it. Every change is one effect on them and
is recorded, so that the states a crash can interrupt are those after the first
effects of a call; what is found then is decided by what had been synchronised.
-/
namespace MiniDb.Wal
open CrashFiles Stateful

structure Directory where
  manifest : Entry SyncedFile
  manifestTemporary : Entry SyncedFile
  segments : SortedMap (Entry SyncedFile)

namespace Directory

def empty : Directory := ⟨.absent, .absent, .empty⟩

def segment (directory : Directory) (id : Nat) : Entry SyncedFile :=
  (directory.segments.find? id).getD .absent

def setSegment (directory : Directory) (id : Nat) (entry : Entry SyncedFile) : Directory :=
  { directory with segments := directory.segments.insert id entry }

def sync (directory : Directory) : Directory :=
  ⟨directory.manifest.sync, directory.manifestTemporary.sync,
    directory.segments.mapValues Entry.sync⟩

/-- The segment files there are, in the order of their ids. -/
def listSegments (directory : Directory) : List (Nat × SyncedFile) :=
  directory.segments.entries.filterMap fun entry => entry.2.current.map fun file => (entry.1, file)

structure Survives (directory directory' : Directory) : Prop where
  manifest : Entry.Survives SyncedFile.Survives directory.manifest directory'.manifest
  manifestTemporary : Entry.Survives SyncedFile.Survives directory.manifestTemporary
    directory'.manifestTemporary
  segments : ∀ id, Entry.Survives SyncedFile.Survives (directory.segment id) (directory'.segment id)

/-- What is found of it when a crash loses nothing. -/
def kept (directory : Directory) : Directory :=
  ⟨directory.manifest.kept SyncedFile.sync, directory.manifestTemporary.kept SyncedFile.sync,
    directory.segments.mapValues (Entry.kept SyncedFile.sync)⟩

theorem survives_kept (dir : Directory) : dir.Survives dir.kept := by
  refine
    ⟨Entry.survives_kept SyncedFile.survives_sync _, Entry.survives_kept SyncedFile.survives_sync _,
    fun id => ?_⟩
  have hs : dir.kept.segment id = (dir.segment id).kept SyncedFile.sync := by
    simp only [segment, kept, SortedMap.find?_mapValues]
    cases dir.segments.find? id <;> rfl
  rw [hs]
  exact Entry.survives_kept SyncedFile.survives_sync _

end Directory

/-- The two directories a log can have: `<path>.d` and `<path>.d.tmp`. -/
inductive Place
  | published | staging
  deriving DecidableEq

structure Volume where
  legacy : Entry SyncedFile
  published : Entry Directory
  staging : Entry Directory

namespace Volume

def empty : Volume := ⟨.absent, .absent, .absent⟩

def entry (volume : Volume) : Place → Entry Directory
  | .published => volume.published
  | .staging => volume.staging

def setEntry (volume : Volume) (place : Place) (entry : Entry Directory) : Volume :=
  match place with
  | .published => { volume with published := entry }
  | .staging => { volume with staging := entry }

def directory? (volume : Volume) (place : Place) : Option Directory := (volume.entry place).current

def updateDirectory (volume : Volume) (place : Place) (f : Directory → Directory) : Volume :=
  volume.setEntry place ((volume.entry place).update f)

/-- The bytes of a segment file, if it is there. -/
def segment? (volume : Volume) (place : Place) (id : Nat) : Option (List UInt8) :=
  (volume.directory? place).bind fun directory => (directory.segment id).current.map (·.bytes)

structure Survives (volume volume' : Volume) : Prop where
  legacy : Entry.Survives SyncedFile.Survives volume.legacy volume'.legacy
  published : Entry.Survives Directory.Survives volume.published volume'.published
  staging : Entry.Survives Directory.Survives volume.staging volume'.staging

/-- What is found of it when a crash loses nothing. -/
def kept (volume : Volume) : Volume :=
  ⟨volume.legacy.kept SyncedFile.sync, volume.published.kept Directory.kept,
    volume.staging.kept Directory.kept⟩

theorem survives_kept (volume : Volume) : volume.Survives volume.kept :=
  ⟨Entry.survives_kept SyncedFile.survives_sync _, Entry.survives_kept Directory.survives_kept _,
    Entry.survives_kept Directory.survives_kept _⟩

end Volume

inductive Effect
  | createLegacy
  | writeLegacy (offset : Nat) (bytes : List UInt8)
  | syncLegacy
  | truncateLegacy (size : Nat)
  | makeDirectory (place : Place)
  | removeDirectory (place : Place)
  | syncParent
  | createManifest (place : Place)
  | writeManifest (place : Place) (bytes : List UInt8)
  | syncManifest (place : Place)
  | renameManifest (place : Place)
  | removeManifest (place : Place)
  | removeManifestTemporary (place : Place)
  | createSegment (place : Place) (id : Nat)
  | writeSegment (place : Place) (id offset : Nat) (bytes : List UInt8)
  | syncSegment (place : Place) (id : Nat)
  | truncateSegment (place : Place) (id size : Nat)
  | removeSegment (place : Place) (id : Nat)
  | syncDirectory (place : Place)

def Directory.changeSegment (directory : Directory) (id : Nat) (f : SyncedFile → SyncedFile) :
    Directory :=
  directory.setSegment id ((directory.segment id).update f)

def Directory.putSegment (directory : Directory) (id : Nat) (file : Option SyncedFile) :
    Directory :=
  directory.setSegment id ((directory.segment id).put file)

def Volume.perform (volume : Volume) : Effect → Volume
  | .createLegacy => { volume with legacy := volume.legacy.put (some .empty) }
  | .writeLegacy offset bytes =>
    { volume with legacy := volume.legacy.update (·.write offset bytes) }
  | .syncLegacy => { volume with legacy := volume.legacy.update (·.sync) }
  | .truncateLegacy size => { volume with legacy := volume.legacy.update (·.truncate size) }
  | .makeDirectory place => volume.setEntry place ((volume.entry place).put (some .empty))
  | .removeDirectory place => volume.setEntry place ((volume.entry place).put none)
  | .syncParent => ⟨volume.legacy.sync, volume.published.sync, volume.staging.sync⟩
  | .createManifest place => volume.updateDirectory place fun directory =>
    { directory with manifestTemporary := directory.manifestTemporary.put (some .empty) }
  | .writeManifest place bytes => volume.updateDirectory place fun directory =>
    { directory with manifestTemporary := directory.manifestTemporary.update (·.write 0 bytes) }
  | .syncManifest place => volume.updateDirectory place fun directory =>
    { directory with manifestTemporary := directory.manifestTemporary.update (·.sync) }
  | .renameManifest place => volume.updateDirectory place fun directory =>
    { directory with
      manifest := directory.manifest.put directory.manifestTemporary.current
      manifestTemporary := directory.manifestTemporary.put none }
  | .removeManifest place => volume.updateDirectory place fun directory =>
    { directory with manifest := directory.manifest.put none }
  | .removeManifestTemporary place => volume.updateDirectory place fun directory =>
    { directory with manifestTemporary := directory.manifestTemporary.put none }
  | .createSegment place id => volume.updateDirectory place (·.putSegment id (some .empty))
  | .writeSegment place id offset bytes =>
    volume.updateDirectory place (·.changeSegment id (·.write offset bytes))
  | .syncSegment place id => volume.updateDirectory place (·.changeSegment id (·.sync))
  | .truncateSegment place id size =>
    volume.updateDirectory place (·.changeSegment id (·.truncate size))
  | .removeSegment place id => volume.updateDirectory place (·.putSegment id none)
  | .syncDirectory place => volume.updateDirectory place (·.sync)

/-- The files, the effects they went through, and whether the log's path names a
directory. -/
structure World where
  volume : Volume
  journal : List Effect
  hasParent : Bool

def emit (effect : Effect) : EStateM DbError World Unit :=
  modify fun world => { world with
    volume := world.volume.perform effect
    journal := world.journal ++ [effect] }

/-! Which files a call changes. -/

/-- The effect changes one directory of segments. -/
def Effect.At (place : Place) : Effect → Prop
  | .createLegacy | .writeLegacy _ _ | .syncLegacy | .truncateLegacy _ | .syncParent => False
  | .makeDirectory place' | .removeDirectory place' | .createManifest place'
  | .writeManifest place' _ | .syncManifest place' | .renameManifest place' | .removeManifest place'
  | .removeManifestTemporary place' | .createSegment place' _ | .writeSegment place' _ _ _
  | .syncSegment place' _ | .truncateSegment place' _ _ | .removeSegment place' _
  | .syncDirectory place' => place' = place

/-- What the world went through since an earlier one. -/
structure World.Emits (world world' : World) (effects : List Effect) : Prop where
  volume : world'.volume = effects.foldl Volume.perform world.volume
  journal : world'.journal = world.journal ++ effects
  hasParent : world'.hasParent = world.hasParent

theorem World.Emits.refl (w : World) : w.Emits w [] := ⟨rfl, (List.append_nil _).symm, rfl⟩

theorem World.Emits.trans {a b c : World} {fst second : List Effect} (ha : a.Emits b fst)
    (hb : b.Emits c second) : a.Emits c (fst ++ second) := by
  refine ⟨?_, ?_, hb.hasParent.trans ha.hasParent⟩
  · rw [hb.volume, ha.volume, List.foldl_append]
  · rw [hb.journal, ha.journal, List.append_assoc]

/-- Only one directory of segments was changed since an earlier world. -/
def World.Touched (place : Place) (world world' : World) : Prop :=
  ∃ effects, world.Emits world' effects ∧ ∀ effect ∈ effects, effect.At place

theorem World.Touched.refl (pl : Place) (w : World) : World.Touched pl w w :=
  ⟨[], .refl w, by simp⟩

theorem World.Touched.trans {pl : Place} {a b c : World} (hb : World.Touched pl a b)
    (hc : World.Touched pl b c) : World.Touched pl a c := by
  obtain ⟨fst, hf, ha⟩ := hb
  obtain ⟨second, hs, ha'⟩ := hc
  refine ⟨fst ++ second, hf.trans hs, ?_⟩
  intro eff hm
  rcases List.mem_append.mp hm with hm | hm
  · exact ha eff hm
  · exact ha' eff hm

/-- The single file is not changed. -/
theorem foldl_legacy {place : Place} {effs : List Effect} (h : ∀ eff ∈ effs, eff.At place)
    (vol : Volume) : (effs.foldl Volume.perform vol).legacy = vol.legacy := by
  induction effs generalizing vol with
  | nil => rfl
  | cons eff effs ih =>
    have hs : (vol.perform eff).legacy = vol.legacy := by
      have ha := h eff List.mem_cons_self
      cases eff <;> first | exact ha.elim | (cases ha; cases place <;> rfl)
    exact (ih (fun e he => h e (List.mem_cons_of_mem _ he)) _).trans hs

/-- Nothing but the one directory is changed. -/
theorem perform_staging {eff : Effect} (h : eff.At .staging) (vol : Volume) :
    (vol.perform eff).legacy = vol.legacy ∧ (vol.perform eff).published = vol.published := by
  cases eff <;> first | exact h.elim | (cases h; exact ⟨rfl, rfl⟩)

theorem foldl_staging {effs : List Effect} (h : ∀ eff ∈ effs, eff.At .staging) (vol : Volume) :
    (effs.foldl Volume.perform vol).legacy = vol.legacy ∧
      (effs.foldl Volume.perform vol).published = vol.published := by
  induction effs generalizing vol with
  | nil => exact ⟨rfl, rfl⟩
  | cons eff effs ih =>
    obtain ⟨hl, hp⟩ := perform_staging (h eff List.mem_cons_self) vol
    obtain ⟨hl', hp'⟩ := ih (fun e he => h e (List.mem_cons_of_mem _ he)) (vol.perform eff)
    exact ⟨hl'.trans hl, hp'.trans hp⟩

theorem World.Touched.staging {w w' : World} (h : World.Touched .staging w w') :
    w'.volume = { w.volume with staging := w'.volume.staging } := by
  obtain ⟨effs, he, ha⟩ := h
  obtain ⟨hl, hp⟩ := foldl_staging ha w.volume
  rw [← he.volume] at hl hp
  show _ = Volume.mk w.volume.legacy w.volume.published _
  rw [← hl, ← hp]

end MiniDb.Wal
