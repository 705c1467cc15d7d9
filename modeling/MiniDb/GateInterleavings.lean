import MiniDb.Sessions

/-!
The access gate under every interleaving. A thread runs under the mutex up to its
next wait, so what interleaves are single turns of the loop of `acquire` and the
other calls. Lease objects have places and may be moved; the gate only counts.
-/
namespace MiniDb

/-- The local variables of a call of `acquire` that waits. -/
structure WaitFrame where
  mode : AccessMode
  waiting : Bool
  deriving DecidableEq

/-- The gate with its waiting counters, the threads that wait, and the lease objects. -/
structure GateSystem where
  gate : AccessGate
  waitingReaders : Nat
  waitingWriters : Nat
  frames : SortedMap WaitFrame
  leases : SortedMap Lease

namespace GateSystem

def idle : GateSystem := ⟨⟨false, 0, .empty, false⟩, 0, 0, .empty, .empty⟩

def enterWait (s : GateSystem) : WaitFrame → GateSystem
  | ⟨.readOnly, true⟩ => { s with waitingReaders := s.waitingReaders + 1 }
  | ⟨.readWrite, true⟩ => { s with waitingWriters := s.waitingWriters + 1 }
  | ⟨_, false⟩ => s

def leaveWait (s : GateSystem) : WaitFrame → GateSystem
  | ⟨.readOnly, true⟩ => { s with waitingReaders := s.waitingReaders - 1 }
  | ⟨.readWrite, true⟩ => { s with waitingWriters := s.waitingWriters - 1 }
  | ⟨_, false⟩ => s

/-- One turn of the loop of `acquire`: the call throws, returns its lease to `place`,
or waits. -/
def turn (s : GateSystem) (thread place : Nat) (frame : WaitFrame) (cancelled : Bool) :
    GateSystem :=
  if s.gate.stopped = true ∨ cancelled = true then
    { s.leaveWait frame with frames := s.frames.erase thread }
  else if s.gate.eligible s.waitingWriters frame.mode then
    { s.leaveWait frame with
      gate := s.gate.grant thread frame.mode
      frames := s.frames.erase thread
      leases := s.leases.insert place ⟨frame.mode, thread⟩ }
  else { s with frames := s.frames.insert thread frame }

def acquire (s : GateSystem) (thread place : Nat) (mode : AccessMode) (cancelled : Bool) :
    GateSystem :=
  if ∃ owned ∈ s.gate.owners.find? thread,
      mode = .readWrite ∨ owned.writer = true ∨ s.waitingWriters ≠ 0 then s
  else
    let frame : WaitFrame := ⟨mode, !s.gate.eligible s.waitingWriters mode⟩
    (s.enterWait frame).turn thread place frame cancelled

/-- `Lease::reset`, and with it the destructor. -/
def reset (s : GateSystem) (place : Nat) : GateSystem :=
  match s.leases.find? place with
  | none => s
  | some lease => { s with gate := s.gate.release lease, leases := s.leases.erase place }

/-- Move assignment; the move constructor is the case of an empty target. -/
def move (s : GateSystem) (source target : Nat) : GateSystem :=
  if source = target then s
  else
    let s := s.reset target
    match s.leases.find? source with
    | none => s
    | some lease => { s with leases := (s.leases.erase source).insert target lease }

end GateSystem

inductive GateAction
  | acquire (thread place : Nat) (mode : AccessMode) (cancelled : Bool)
  | resume (thread place : Nat) (cancelled : Bool)
  | reset (place : Nat)
  | move (source target : Nat)
  | shutdown

namespace GateSystem

/-- A thread that waits makes no other call, and a new lease is a new object. -/
def act (s : GateSystem) : GateAction → GateSystem
  | .acquire thread place mode cancelled =>
    if s.frames.find? thread = none ∧ s.leases.find? place = none then
      s.acquire thread place mode cancelled
    else s
  | .resume thread place cancelled =>
    match s.frames.find? thread with
    | none => s
    | some frame =>
      if s.leases.find? place = none then s.turn thread place frame cancelled else s
  | .reset place => s.reset place
  | .move source target => s.move source target
  | .shutdown => { s with gate := { s.gate with stopped := true } }

def live (s : GateSystem) (mode : AccessMode) : Nat := s.leases.countValues (·.mode = mode)

def inWait (s : GateSystem) (mode : AccessMode) : Nat := s.frames.countValues (·.mode = mode)

structure Inv (s : GateSystem) : Prop where
  readers : s.gate.activeReaders = s.live .readOnly
  writers : s.gate.writerActive.toNat = s.live .readWrite
  exclusive : s.gate.writerActive = true → s.live .readOnly = 0
  flagged : ∀ thread frame, s.frames.find? thread = some frame → frame.waiting = true
  waitingReaders : s.waitingReaders = s.inWait .readOnly
  waitingWriters : s.waitingWriters = s.inWait .readWrite

variable {s : GateSystem} {thread pl : Nat} {fr : WaitFrame} {lease : Lease}
  {cancelled : Bool} {mode : AccessMode}

/-- A thread that leaves its wait, by an exception or with a lease. -/
theorem Inv.leave (h : s.Inv) (hf : s.frames.find? thread = some fr) :
    Inv { s.leaveWait fr with frames := s.frames.erase thread } := by
  have hw := h.flagged thread fr hf
  have hr := h.waitingReaders
  have hwr := h.waitingWriters
  have hl : ∀ t other, (s.frames.erase thread).find? t = some other → other.waiting = true := by
    intro t other ho
    rw [SortedMap.find?_erase] at ho
    split at ho
    · cases ho
    · exact h.flagged t other ho
  rw [inWait, SortedMap.countValues_erase hf] at hr hwr
  obtain ⟨mode, waiting⟩ := fr
  cases hw
  cases mode with
  | readOnly =>
    refine ⟨h.readers, h.writers, h.exclusive, hl, ?_, hwr⟩
    exact Nat.sub_eq_of_eq_add hr
  | readWrite =>
    refine ⟨h.readers, h.writers, h.exclusive, hl, hr, ?_⟩
    exact Nat.sub_eq_of_eq_add hwr

/-- A lease is granted only to a gate without a writer. -/
theorem Inv.grant (h : s.Inv) (he : s.gate.eligible s.waitingWriters mode = true)
    (hp : s.leases.find? pl = none) :
    Inv { s with
      gate := s.gate.grant thread mode
      leases := s.leases.insert pl ⟨mode, thread⟩ } := by
  have hr := h.readers
  have hw := h.writers
  cases mode with
  | readOnly =>
    simp only [AccessGate.eligible, Bool.and_eq_true, Bool.not_eq_true'] at he
    refine ⟨?_, ?_, fun ha =>
      absurd (he.1.symm.trans ha) (by decide), h.flagged, h.waitingReaders, h.waitingWriters⟩
    · simp [live, SortedMap.countValues_insert hp, AccessGate.grant, hr]
    · simpa [live, SortedMap.countValues_insert hp, AccessGate.grant] using hw
  | readWrite =>
    simp only [AccessGate.eligible, Bool.and_eq_true, Bool.not_eq_true', beq_iff_eq] at he
    rw [he.2] at hr
    rw [he.1] at hw
    refine ⟨?_, ?_, fun _ => ?_, h.flagged, h.waitingReaders, h.waitingWriters⟩
    · simpa [live, SortedMap.countValues_insert hp, AccessGate.grant, he.2] using hr
    · rw [live, SortedMap.countValues_insert hp]
      exact congrArg (· + 1) hw
    · rw [live, SortedMap.countValues_insert hp]
      exact hr.symm

theorem Inv.reset (h : s.Inv) (pl : Nat) : (s.reset pl).Inv := by
  unfold GateSystem.reset
  split
  · exact h
  · rename_i lease hl
    have hr := h.readers
    have hw := h.writers
    have hex := h.exclusive
    rw [live, SortedMap.countValues_erase hl] at hr hw hex
    obtain ⟨mode, own⟩ := lease
    cases mode with
    | readOnly =>
      refine ⟨Nat.sub_eq_of_eq_add hr, hw, fun ha =>
        ?_, h.flagged, h.waitingReaders, h.waitingWriters⟩
      exact absurd (hex ha) (Nat.succ_ne_zero _)
    | readWrite =>
      refine ⟨hr, ?_, fun ha => (by cases ha), h.flagged, h.waitingReaders, h.waitingWriters⟩
      -- the counter was at most one, and this lease was it
      have hle := Bool.toNat_le s.gate.writerActive
      simp only [decide_true, Bool.toNat_true] at hw
      simp only [AccessGate.release, live, Bool.toNat_false]
      omega

theorem find?_reset (s : GateSystem) (pl other : Nat) :
    (s.reset pl).leases.find? other = if other = pl then none else s.leases.find? other := by
  unfold GateSystem.reset
  split
  · rename_i hl
    split
    · rename_i ho
      rw [ho, hl]
    · rfl
  · exact SortedMap.find?_erase _ _ _

theorem live_reset (s : GateSystem) (pl : Nat) : (s.reset pl).live mode ≤ s.live mode := by
  unfold GateSystem.reset
  split
  · exact le_rfl
  · rename_i lease hl
    rw [live, live, SortedMap.countValues_erase hl]
    exact Nat.le_add_right _ _

/-- A move is a reset of its target, and then no lease more or less. -/
theorem move_cases (s : GateSystem) (source tgt : Nat) :
    s.move source tgt = s ∨ ∃ leases : SortedMap Lease,
      s.move source tgt = { s.reset tgt with leases := leases } ∧
        ∀ p, leases.countValues p = (s.reset tgt).leases.countValues p := by
  unfold GateSystem.move
  split
  · exact .inl rfl
  · refine .inr ?_
    have hn := (find?_reset s tgt tgt).trans (if_pos rfl)
    simp only
    split
    · exact ⟨_, rfl, fun _ => rfl⟩
    · rename_i lease hl
      refine ⟨_, rfl, fun p => ?_⟩
      rw [SortedMap.countValues_insert (by simp [hn]), SortedMap.countValues_erase hl]

theorem Inv.move (h : s.Inv) (source tgt : Nat) : (s.move source tgt).Inv := by
  rcases move_cases s source tgt with hm | ⟨leases, hm, hc⟩
  · rw [hm]
    exact h
  · have hr := h.reset tgt
    rw [hm]
    exact ⟨hr.readers.trans (hc _).symm, hr.writers.trans (hc _).symm,
      fun ha => (hc _).trans (hr.exclusive ha), hr.flagged, hr.waitingReaders, hr.waitingWriters⟩

theorem live_move (s : GateSystem) (source tgt : Nat) :
    (s.move source tgt).live mode ≤ s.live mode := by
  rcases move_cases s source tgt with hm | ⟨leases, hm, hc⟩
  · rw [hm]
  · rw [hm]
    exact (hc _).le.trans (live_reset s tgt)

/-- The turn of a thread that has been waiting. -/
theorem Inv.turn (h : s.Inv) (hf : s.frames.find? thread = some fr)
    (hp : s.leases.find? pl = none) : (s.turn thread pl fr cancelled).Inv := by
  unfold GateSystem.turn
  split
  · exact h.leave hf
  · split
    · rename_i he
      have hl := h.leave hf
      -- a writer that leaves its wait does not make a reader of itself
      obtain ⟨mode, waiting⟩ := fr
      cases mode <;> cases waiting <;> exact hl.grant he hp
    · have hs : s.frames.insert thread fr = s.frames := by
        refine SortedMap.ext_find fun other => ?_
        rw [SortedMap.find?_insert]
        split
        · rename_i ho
          rw [ho, hf]
        · rfl
      rw [hs]
      exact h

theorem Inv.acquire (h : s.Inv) (hf : s.frames.find? thread = none)
    (hp : s.leases.find? pl = none) : (s.acquire thread pl mode cancelled).Inv := by
  unfold GateSystem.acquire
  split
  · exact h
  · have hn := SortedMap.erase_of_absent hf
    cases he : s.gate.eligible s.waitingWriters mode with
    | true =>
      simp only [Bool.not_true, enterWait, leaveWait, GateSystem.turn, hn, he, if_true]
      split
      · exact h
      · exact h.grant he hp
    | false =>
      have hl : ∀ t other, (s.frames.insert thread ⟨mode, true⟩).find? t = some other →
          other.waiting = true := by
        intro t other ho
        rw [SortedMap.find?_insert] at ho
        split at ho
        · cases ho
          rfl
        · exact h.flagged t other ho
      have hi : ∀ kind, (s.frames.insert thread ⟨mode, true⟩).countValues (·.mode = kind) =
          s.inWait kind + (decide (mode = kind)).toNat := fun kind =>
            SortedMap.countValues_insert hf
      simp only [Bool.not_false, GateSystem.turn]
      cases mode with
      | readOnly =>
        split
        · simp only [enterWait, leaveWait, hn]
          exact h
        · rw [if_neg (by simpa [enterWait] using he)]
          refine ⟨h.readers, h.writers, h.exclusive, hl, ?_, ?_⟩
          · exact (congrArg (· + 1) h.waitingReaders).trans (hi _).symm
          · exact h.waitingWriters.trans (hi .readWrite).symm
      | readWrite =>
        split
        · simp only [enterWait, leaveWait, hn]
          exact h
        · rw [if_neg (by simpa [enterWait, AccessGate.eligible] using he)]
          refine ⟨h.readers, h.writers, h.exclusive, hl, ?_, ?_⟩
          · exact h.waitingReaders.trans (hi .readOnly).symm
          · exact (congrArg (· + 1) h.waitingWriters).trans (hi _).symm

theorem Inv.act (h : s.Inv) (action : GateAction) : (s.act action).Inv := by
  cases action with
  | acquire thread pl mode cancelled =>
    simp only [GateSystem.act]
    split
    · rename_i hn
      exact h.acquire hn.1 hn.2
    · exact h
  | resume thread pl cancelled =>
    simp only [GateSystem.act]
    split
    · exact h
    · rename_i fr hf
      split
      · rename_i hn
        exact h.turn hf hn
      · exact h
  | reset pl => exact h.reset pl
  | move source tgt => exact h.move source tgt
  | shutdown =>
    exact ⟨h.readers, h.writers, h.exclusive, h.flagged, h.waitingReaders, h.waitingWriters⟩

theorem Inv.run (h : s.Inv) (actions : List GateAction) : (actions.foldl GateSystem.act s).Inv := by
  induction actions generalizing s with
  | nil => exact h
  | cons action rest ih => exact ih (h.act action)

theorem leases_enterWait (s : GateSystem) (fr : WaitFrame) :
    (s.enterWait fr).leases = s.leases := by
  unfold GateSystem.enterWait
  split <;> rfl

theorem waitingWriters_enterWait (s : GateSystem) (fr : WaitFrame) :
    s.waitingWriters ≤ (s.enterWait fr).waitingWriters := by
  unfold GateSystem.enterWait
  split
  · exact le_rfl
  · exact Nat.le_succ _
  · exact le_rfl

/-- A turn that ends with a shared lease finds no writer waiting. -/
theorem turn_shared (hp : s.leases.find? pl = none)
    (h : s.live .readOnly < (s.turn thread pl fr cancelled).live .readOnly) :
    fr.mode = .readOnly ∧ s.waitingWriters = 0 := by
  have hl : (s.leaveWait fr).leases = s.leases := by
    unfold GateSystem.leaveWait
    split <;> rfl
  unfold GateSystem.turn at h
  split at h
  · simp [live, hl] at h
  · split at h
    · rename_i he
      rw [live, live, SortedMap.countValues_insert hp] at h
      cases hm : fr.mode with
      | readWrite => simp [hm] at h
      | readOnly =>
        simp only [hm, AccessGate.eligible, Bool.and_eq_true, beq_iff_eq] at he
        exact ⟨rfl, he.2⟩
    · exact absurd h (lt_irrefl _)

theorem act_shared {action : GateAction} (h : s.live .readOnly < (s.act action).live .readOnly) :
    s.waitingWriters = 0 := by
  cases action with
  | acquire thread pl mode cancelled =>
    simp only [GateSystem.act, GateSystem.acquire] at h
    split at h
    · rename_i hn
      split at h
      · exact absurd h (lt_irrefl _)
      · have hl : (s.enterWait ⟨mode, !s.gate.eligible s.waitingWriters mode⟩).live .readOnly =
            s.live .readOnly := by
          rw [live, leases_enterWait, live]
        rw [← hl] at h
        have hz := (turn_shared (by rw [leases_enterWait]; exact hn.2) h).2
        exact Nat.le_zero.mp (hz ▸ waitingWriters_enterWait s _)
    · exact absurd h (lt_irrefl _)
  | resume thread pl cancelled =>
    simp only [GateSystem.act] at h
    split at h
    · exact absurd h (lt_irrefl _)
    · split at h
      · rename_i hn
        exact (turn_shared hn h).2
      · exact absurd h (lt_irrefl _)
  | reset pl => exact absurd h (live_reset s pl).not_gt
  | move source tgt => exact absurd h (live_move s source tgt).not_gt
  | shutdown => exact absurd h (lt_irrefl _)

theorem idle_inv : idle.Inv := ⟨rfl, rfl, fun _ => rfl, by simp [idle], rfl, rfl⟩

theorem inWait_pos (hf : s.frames.find? thread = some fr) : 0 < s.inWait fr.mode := by
  refine List.countP_pos_iff.mpr ⟨(thread, fr), SortedMap.find?_eq_some.mp hf, ?_⟩
  exact decide_eq_true rfl

theorem live_pos (hl : s.leases.find? pl = some lease) : 0 < s.live lease.mode := by
  refine List.countP_pos_iff.mpr ⟨(pl, lease), SortedMap.find?_eq_some.mp hl, ?_⟩
  exact decide_eq_true rfl

theorem Inv.active (h : s.Inv) (hl : s.leases.find? pl = some lease)
    (hm : lease.mode = .readWrite) : s.gate.writerActive = true := by
  have hp := live_pos hl
  rw [hm, ← h.writers] at hp
  cases ha : s.gate.writerActive with
  | true => rfl
  | false => simp [ha] at hp

theorem Inv.alone (h : s.Inv) {other : Nat} {lease' : Lease} (hl : s.leases.find? pl = some lease)
    (hm : lease.mode = .readWrite) (ho : s.leases.find? other = some lease') : other = pl := by
  by_contra hne
  have ha := h.active hl hm
  cases hm' : lease'.mode with
  | readOnly => exact absurd (h.exclusive ha) (hm' ▸ live_pos ho).ne'
  | readWrite =>
    have hw := h.writers
    have ho' : (s.leases.erase pl).find? other = some lease' := by simp [hne, ho]
    rw [ha, live, SortedMap.countValues_erase hl, SortedMap.countValues_erase ho'] at hw
    simp [hm, hm'] at hw

/-- Safety of the gate: after every list of turns and calls. -/
theorem gate_safety (actions : List GateAction) :
    let s := actions.foldl GateSystem.act idle
    (∀ pl lease other lease', s.leases.find? pl = some lease → lease.mode = .readWrite →
        s.leases.find? other = some lease' → other = pl) ∧ s.gate.activeReaders = s.live .readOnly ∧
      (s.gate.writerActive = true ↔ ∃ pl lease, s.leases.find? pl = some lease ∧
        lease.mode = .readWrite) ∧
      s.waitingReaders = s.inWait .readOnly ∧ s.waitingWriters = s.inWait .readWrite ∧
      (∀ thread fr, s.frames.find? thread = some fr → fr.waiting = true ∧ 0 < s.inWait fr.mode) ∧
      ∀ action, s.live .readOnly < (s.act action).live .readOnly →
        ∀ thread fr, s.frames.find? thread = some fr → fr.mode = .readOnly := by
  intro s
  have h : s.Inv := idle_inv.run actions
  refine ⟨fun _ _ _ _ hl hm ho => h.alone hl hm ho, h.readers, ?_, h.waitingReaders,
    h.waitingWriters, fun thread fr hf => ⟨h.flagged thread fr hf, inWait_pos hf⟩, ?_⟩
  · constructor
    · intro ha
      have hw := h.writers
      rw [ha] at hw
      obtain ⟨⟨pl, lease⟩, hl, hm⟩ := List.countP_pos_iff.mp (Nat.one_pos.trans_eq hw)
      exact ⟨pl, lease, SortedMap.find?_eq_some.mpr hl, of_decide_eq_true hm⟩
    · rintro ⟨pl, lease, hl, hm⟩
      exact h.active hl hm
  · intro action hgr thread fr hf
    have hz := h.waitingWriters.symm.trans (act_shared hgr)
    cases hm : fr.mode with
    | readOnly => rfl
    | readWrite => exact absurd hz (hm ▸ inWait_pos hf).ne'

end GateSystem

end MiniDb
