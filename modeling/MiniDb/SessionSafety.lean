import MiniDb.Sessions

/-!
What a session is left with after any call. While the engine has not failed, a
session holds a lease exactly while it has an explicit transaction, and the
writer of a READ WRITE scope is the one transaction of the engine. Statements
outside a scope give their lease back, provided their writer could be opened.
-/
namespace MiniDb
open ByteBlock Outcome Engine CallResult SqlEngine Option

variable {mode : AccessMode} {call : Call} {r : CallResult} {error : DbError} {e e' : Engine}
  {extent s tid : Nat} {base : Nat → Page} {db db' db₀ mid : SqlEngine}

/-- Steps of a pool without a write-ahead log that change no page. -/
inductive PlainRead (e : Engine) : Engine → Prop
  | repinned {p : Nat} {f : Frame} (pins : Nat) (guarded : Bool)
      (hf : e.frames.find? p = some f) :
      PlainRead e (e.setFrame p { f with pinCount := pins, writeGuarded := guarded })
  | loaded {p : Nat} (hf : e.frames.find? p = none)
      (hp : p ≠ 0 ∧ p < e.disk.pageCount) :
      PlainRead e (e.installPage p (e.disk.page p) false)
  | evicted {p : Nat} {f : Frame} (hf : e.frames.find? p = some f)
      (hclean : f.dirty = false) :
      PlainRead e { e with frames := e.frames.erase p }
  | wroteBack {p : Nat} {f : Frame} (hf : e.frames.find? p = some f) :
      PlainRead e ({ e with disk := e.disk.perform (.write p f.data) }.setFrame p
        { f with dirty := false })

/-- With what a statement may change there. -/
inductive PlainEffect (e : Engine) : Engine → Prop
  | read {e' : Engine} (h : PlainRead e e') : PlainEffect e e'
  | mutated {p : Nat} {f : Frame} (data : Page) (hf : e.frames.find? p = some f) :
      PlainEffect e (e.setFrame p { f with data := data, dirty := true })
  | appended (hexists : 0 < e.disk.pageCount) :
      PlainEffect e ({ e with disk := e.disk.perform (.write e.disk.pageCount zero) }.installPage
        e.disk.pageCount zero true)
  | header {disk : DiskManager} (hcount : e.disk.pageCount ≤ disk.pageCount)
      (hpages : ∀ p, p ≠ 0 → disk.page p = e.disk.page p) :
      PlainEffect e { e with disk := disk }

/-- The frames of a pool without a log: page 0 is not among them, and what is
clean is on disk. -/
def PlainSound (e : Engine) : Prop :=
  ∀ p f, e.frames.find? p = some f → p ≠ 0 ∧ p < e.disk.pageCount ∧
    (f.dirty = false → f.data = e.disk.page p)

/-- The executor and the failures of storage calls keep to the effects of the
storage: reads to those of the pool, mutations to those of a transaction. -/
structure Call.Lawful (recovery : Bool) (call : Call) : Prop where
  reads : call.statement = .select → ∀ e,
    (recovery = true → PoolEffects e (call.work e)) ∧
      (recovery = false → Relation.ReflTransGen PlainRead e (call.work e))
  writes : call.statement = .mutation → ∀ e,
    (recovery = true → Ready e → Effects e (call.work e)) ∧
      (recovery = false → Relation.ReflTransGen PlainEffect e (call.work e))
  prepares : ∀ fault ∈ call.prepareFault, ∀ e, PoolEffects e (fault.left e)
  residue : ∀ automatic ∈ call.automatic, ∀ e, PoolEffects e (automatic.residue e)

/-- What an automatic checkpoint leaves behind is an effect of the pool. -/
abbrev Call.PoolResidue (call : Call) : Prop :=
  ∀ automatic ∈ call.automatic, ∀ e, PoolEffects e (automatic.residue e)

/-- The session has the exclusive lease. -/
abbrev SessionContext.Exclusive (context : SessionContext) : Prop :=
  ∃ lease ∈ context.lease, lease.mode = .readWrite

structure SessionContext.Consistent (context : SessionContext) : Prop where
  leased : context.lease.isSome ↔ context.explicitMode.isSome
  exclusive : context.Exclusive ↔
    context.explicitMode = some .readWrite
  writing : context.writerId ≠ 0 ↔ context.explicitMode = some .readWrite

/-! The ways a call comes back. -/

namespace CallResult

/-- The call came back, one way or the other, and left `db`. -/
def Left (r : CallResult) (db : SqlEngine) : Prop :=
  r = .returned db ∨ ∃ error, r = .threw error db

@[simp] theorem left_returned : (returned db).Left db' ↔ db = db' := by
  simp [Left]

@[simp] theorem left_threw : (threw error db).Left db' ↔ db = db' := by
  simp [Left]

@[simp] theorem andThen_eq_returned {next : SqlEngine → CallResult} :
    r.andThen next = .returned db' ↔ ∃ db, r = .returned db ∧ next db = .returned db' := by
  cases r <;> simp [andThen]

@[simp] theorem andThen_eq_threw {next : SqlEngine → CallResult} :
    r.andThen next = .threw error db' ↔
      r = .threw error db' ∨ ∃ db, r = .returned db ∧ next db = .threw error db' := by
  cases r <;> simp [andThen]

@[simp] theorem onThrow_eq_returned {handler : SqlEngine → SqlEngine} :
    r.onThrow handler = .returned db' ↔ r = .returned db' := by
  cases r <;> simp [onThrow]

@[simp] theorem onThrow_eq_threw {handler : SqlEngine → SqlEngine} :
    r.onThrow handler = .threw error db' ↔ ∃ db, r = .threw error db ∧ handler db = db' := by
  cases r with
  | threw error' db =>
    simp only [onThrow, threw.injEq]
    constructor
    · rintro ⟨rfl, rfl⟩
      exact ⟨db, ⟨rfl, rfl⟩, rfl⟩
    · rintro ⟨_, ⟨rfl, rfl⟩, rfl⟩
      exact ⟨rfl, rfl⟩
  | _ => simp [onThrow]

@[simp] theorem left_andThen {next : SqlEngine → CallResult} : (r.andThen next).Left db' ↔
    (∃ error, r = .threw error db') ∨ ∃ db, r = .returned db ∧ (next db).Left db' := by
  cases r <;> simp [Left, andThen]

end CallResult

namespace SqlEngine

@[simp] theorem check_eq_returned {res : Result Unit} :
    db.check res = .returned db' ↔ res = .ok () ∧ db = db' := by
  cases res <;> simp [check]

@[simp] theorem check_eq_threw {res : Result Unit} :
    db.check res = .threw error db' ↔ res = .error error ∧ db = db' := by
  cases res <;> simp [check]

/-! Fields of the updates. -/

@[simp] theorem session_setSession (db : SqlEngine) (s t : Nat) (context : SessionContext) :
    (db.setSession s context).session t = if t = s then context else db.session t := by
  simp only [session, setSession, SortedMap.find?_insert]
  split <;> rfl

theorem session_same (db : SqlEngine) (s : Nat) (ctx : SessionContext) :
    (db.setSession s ctx).session s = ctx := by
  rw [session_setSession, if_pos rfl]

theorem session_other {t : Nat} (db : SqlEngine) (ctx : SessionContext) (ht : t ≠ s) :
    (db.setSession s ctx).session t = db.session t := by
  rw [session_setSession, if_neg ht]

@[simp] theorem session_withEngine (db : SqlEngine) (e : Engine) (t : Nat) :
    (db.withEngine e).session t = db.session t := rfl

@[simp] theorem engine_withEngine (db : SqlEngine) (e : Engine) : (db.withEngine e).engine = e :=
  rfl

end SqlEngine

/-- The boundary mark of the running transaction is all that a mutation clears. -/
theorem Steady.beginMutation (h : Steady e) : Steady e.beginMutation := by
  cases hc : e.context with
  | none =>
    have hs : e.beginMutation = e := by
      unfold Engine.beginMutation
      rw [hc]
      cases e
      cases hc
      rfl
    rw [hs]
    exact h
  | some ctx =>
    have hc' : e.beginMutation.context = some { ctx with safeBoundary := false } := by
      simp [Engine.beginMutation, hc]
    have ho := (h.sound.owned.own ctx hc)
    refine ⟨⟨⟨⟨h.sound.ready.coherent.relog rfl rfl (.inr ⟨ctx, _, hc, hc',
      rfl, rfl⟩), h.sound.ready.log⟩, ⟨h.sound.owned.ids, ?_⟩, ?_⟩, ⟨h.ids.next, ?_⟩, h.idle⟩,
      h.settled⟩
    · intro run hr
      rw [hc'] at hr
      cases hr
      exact ⟨ho.1, ho.2.of_same ⟨⟨rfl, rfl, rfl⟩, rfl⟩ rfl rfl⟩
    · intro run hr
      rw [hc'] at hr
      cases hr
      exact h.sound.reserves ctx hc
    · intro run hr
      rw [hc'] at hr
      cases hr
      exact h.ids.running ctx hc

/-- The engine follows a transaction that began at `extent` pages which looked like `base`. -/
structure Follows (base : Nat → Page) (extent : Nat) (e : Engine) : Prop where
  views : ViewKept base e
  running : ∃ context, e.context = some context ∧ context.startPageCount = extent

theorem Follows.effects (h : Follows base extent e) (hr : Running e) (he : Effects e e') :
    Follows base extent e' := by
  obtain ⟨ctx, hc, ht⟩ := h.running
  obtain ⟨ctx', hc', hs⟩ := he.sameWriter hc
  exact ⟨h.views.effects hr.sound.ready.coherent he, ctx', hc', hs.startPageCount.trans ht⟩

theorem Follows.unmoved (h : Follows base extent e) (hu : Unmoved e e') :
    Follows base extent e' := by
  obtain ⟨ctx, hc, hs⟩ := h.running
  exact ⟨h.views.unmoved hu, ctx, hu.context.trans hc, hs⟩

theorem Follows.beginMutation (h : Follows base extent e) :
    Follows base extent e.beginMutation := by
  obtain ⟨ctx, hc, hs⟩ := h.running
  have hc' : e.beginMutation.context = some { ctx with safeBoundary := false } := by
    simp [Engine.beginMutation, hc]
  refine ⟨⟨?_, ?_⟩, _, hc', hs⟩
  · intro run p hr hp hn
    rw [hc'] at hr
    cases hr
    exact h.views.untouched ctx p hc hp hn
  · intro run p st hr hp ht
    rw [hc'] at hr
    cases hr
    exact h.views.touched ctx p st hc hp ht

theorem Follows.begin {prot : RollbackProtocol} (hb : e.beginTransaction prot = .ok e') :
    Follows e.view e.disk.pageCount e' := by
  obtain ⟨ctx, hc, _, _, hs⟩ := beginTransaction_extent hb
  exact ⟨beginTransaction_viewKept hb, ctx, hc, hs⟩

/-- What a rollback gives back of the views the transaction began with. -/
theorem Follows.rollback {e₀ : Engine} (h : Follows e₀.view e₀.disk.pageCount e) (hr : Running e)
    (hb : e.rollbackStatement = .ok e') (hs : RollbackSafe e) :
    ∀ p, p < e₀.disk.pageCount → SamePage p (e'.view p) (e₀.view p) := by
  obtain ⟨ctx, hn⟩ := rollbackStatement_run hr.sound hb
  obtain ⟨run, hc, ht⟩ := h.running
  rw [hn.start] at hc
  cases hc
  have ho : RollbackOf e₀ e e' ctx := ⟨hr.sound, h.views, ht, hn⟩
  exact ho.restores_iff.mpr hs

theorem PlainSound.setFrame {disk : DiskManager} {p : Nat} {f : Frame} (h : PlainSound e)
    (hn : e.disk.pageCount ≤ disk.pageCount) (hp : ∀ q, q ≠ p → disk.page q = e.disk.page q)
    (hf : p ≠ 0 ∧ p < disk.pageCount ∧ (f.dirty = false → f.data = disk.page p)) :
    PlainSound ({ e with disk := disk }.setFrame p f) := by
  refine SortedMap.forall_insert hf ?_
  intro q g hq hg
  obtain ⟨hz, hlt, hc⟩ := h q g hg
  exact ⟨hz, hlt.trans_le hn, fun hd => (hc hd).trans (hp q hq).symm⟩

theorem PlainRead.kept (h : PlainSound e) (hr : PlainRead e e') :
    PlainSound e' ∧ (∀ p, e'.view p = e.view p) ∧ e'.log = e.log := by
  cases hr with
  | @repinned p f pins guarded hf =>
    exact ⟨h.setFrame le_rfl (fun _ _ => rfl) (h p f hf),
      view_reframed (view_of_resident hf).symm rfl fun _ _ => rfl, rfl⟩
  | @loaded p hf hp =>
    exact ⟨h.setFrame le_rfl (fun _ _ => rfl) ⟨hp.1, hp.2, fun _ => rfl⟩,
      view_reframed (view_of_absent hf).symm rfl fun _ _ => rfl, rfl⟩
  | @evicted p f hf hc =>
    refine ⟨fun q g hg => h q g (SortedMap.find?_of_erase hg), ?_, rfl⟩
    intro q
    by_cases hq : q = p
    · rw [hq, view_of_resident hf, view_of_absent (by simp)]
      exact ((h p f hf).2.2 hc).symm
    · exact view_congr (by simp [hq]) rfl
  | @wroteBack p f hf =>
    obtain ⟨hz, _, _⟩ := h p f hf
    exact ⟨h.setFrame (by simp) (fun q hq => by simp [hq]) ⟨hz, by simp, fun _ => by simp⟩,
      view_reframed (view_of_resident hf).symm rfl fun q hq => by simp [hq], rfl⟩

theorem PlainRead.kept_all (h : PlainSound e) (hr : Relation.ReflTransGen PlainRead e e') :
    PlainSound e' ∧ (∀ p, e'.view p = e.view p) ∧ e'.log = e.log := by
  induction hr with
  | refl => exact ⟨h, fun _ => rfl, rfl⟩
  | tail _ hread ih =>
    obtain ⟨hs, hv, hl⟩ := ih
    obtain ⟨hs', hv', hl'⟩ := hread.kept hs
    exact ⟨hs', fun p => (hv' p).trans (hv p), hl'.trans hl⟩

theorem PlainEffect.kept (h : PlainSound e) (he : PlainEffect e e') : PlainSound e' := by
  cases he with
  | read hr => exact (hr.kept h).1
  | @mutated p f data hf =>
    obtain ⟨hz, hlt, _⟩ := h p f hf
    exact h.setFrame le_rfl (fun _ _ => rfl) ⟨hz, hlt, by simp⟩
  | appended hexists =>
    exact h.setFrame (by simp) (fun q hq => by simp [hq])
      ⟨Nat.pos_iff_ne_zero.mp hexists, by simp, by simp⟩
  | header hcnt hpgs =>
    intro q g hg
    obtain ⟨hz, hlt, hc⟩ := h q g hg
    refine ⟨hz, hlt.trans_le hcnt, fun hd => ?_⟩
    rw [hpgs q hz]
    exact hc hd

theorem PlainEffect.kept_all (h : PlainSound e) (he : Relation.ReflTransGen PlainEffect e e') :
    PlainSound e' := by
  induction he with
  | refl => exact h
  | tail _ heff ih => exact heff.kept ih

/-! Storage calls on behalf of a session. -/

namespace SqlEngine

theorem attempt_eq_returned {fault : Option Fault} {run : Engine → Result Engine}
    (h : db.attempt tid fault run = .returned db') :
    ∃ e, run db.engine = .ok e ∧ db' = db.withEngine e := by
  simp only [attempt, andThen_eq_returned, check_eq_returned] at h
  obtain ⟨_, ⟨_, rfl⟩, h⟩ := h
  split at h
  · cases h
  · split at h
    · rename_i e hr
      cases h
      exact ⟨e, hr, rfl⟩
    · cases h

theorem attempt_eq_threw {fault : Option Fault} {run : Engine → Result Engine}
    (h : db.attempt tid fault run = .threw error db') :
    db' = db ∨ ∃ left ∈ fault, db' = db.withEngine (left.left db.engine) := by
  simp only [attempt, andThen_eq_threw, check_eq_returned, check_eq_threw] at h
  rcases h with ⟨_, rfl⟩ | ⟨_, ⟨_, rfl⟩, h⟩
  · exact .inl rfl
  · split at h
    · rename_i left
      cases h
      exact .inr ⟨left, rfl, rfl⟩
    · split at h
      · cases h
      · cases h
        exact .inl rfl

theorem attempt_ne_waiting (db : SqlEngine) (tid : Nat) (fault : Option Fault)
    (run : Engine → Result Engine) : db.attempt tid fault run ≠ .waiting := by
  unfold attempt check
  split
  · simp only [andThen]
    split
    · simp
    · split <;> simp
  · simp [andThen]

theorem rollbackTransaction_ne_waiting (db : SqlEngine) (s : Nat) (call : Call) :
    db.rollbackTransaction s call ≠ .waiting := by
  have ha := attempt_ne_waiting db (db.session s).writerId call.completionFault
    Engine.rollbackStatement
  unfold rollbackTransaction onThrow
  split
  · simp
  · exact ha

theorem automaticCheckpoint_session (db : SqlEngine) (s : Nat) (call : Call) :
    (db.automaticCheckpoint call).session s = db.session s := by
  unfold automaticCheckpoint
  split
  · rfl
  · split <;> rfl

/-- A checkpoint at a boundary moves the storage only, and nothing one can see in it. -/
theorem automaticCheckpoint_spec (db : SqlEngine) (call : Call) (hs : Steady db.engine)
    (hr : call.PoolResidue) :
    ∃ stg, db.automaticCheckpoint call = { db with storage := stg } ∧
      Unmoved db.engine stg.engine := by
  have hl := Unmoved.refl hs.sound hs.settled
  unfold automaticCheckpoint
  split
  · exact ⟨db.storage, rfl, hl⟩
  · rename_i automatic hu
    split
    · have ha := @attempt_unmoved db.storage automatic.call .start automatic.steps
        hs.sound hs.settled hs.ids trivial
      have hp := hr automatic hu (db.storage.attempt automatic.call automatic.steps .start).engine
      exact ⟨_, rfl, ha.trans ((hs.unmoved ha).pooled hp)⟩
    · exact ⟨db.storage, rfl, hl⟩

/-- The session has the exclusive lease and the engine's transaction runs under it. -/
structure Writing (db : SqlEngine) (s : Nat) : Prop where
  recovery : db.recovery = true
  leased : (db.session s).Exclusive
  valid : (db.session s).writerId ≠ 0
  authority : db.authority = some ⟨s, (db.session s).writerId⟩
  active : db.gate.writerActive = true
  running : ∃ context ∈ db.engine.context, context.transactionId = (db.session s).writerId ∧
    context.rollbackProtocol = .ownedAppend

theorem Writing.requireWriter (h : Writing db s) : db.requireWriter s = .ok () := by
  unfold SqlEngine.requireWriter
  rw [bind_of_ok (require_of _ h.leased), if_pos h.recovery]
  exact require_of _ ⟨h.authority, h.running⟩

theorem Writing.bindTransaction (h : Writing db s) (hl : db.engine.rollbackActive = false) :
    db.bindTransaction (db.session s).writerId = .ok () := by
  obtain ⟨ctx, hc, hi, _⟩ := h.running
  unfold SqlEngine.bindTransaction
  rw [bind_of_ok (require_of _ ⟨ctx, hc, hi⟩), bind_of_ok (require_of _ ?_), require_of _ hl]
  rw [h.authority]
  rintro _ ⟨⟩
  rfl

/-- Effects of the storage leave the session its transaction. -/
theorem Writing.effects (h : Writing db s) (he : Effects db.engine e) :
    Writing (db.withEngine e) s := by
  obtain ⟨ctx, hc, hi, hp⟩ := h.running
  obtain ⟨ctx', hc', hs⟩ := he.sameWriter hc
  exact ⟨h.recovery, h.leased, h.valid, h.authority, h.active, ctx', hc',
    hs.transactionId.trans hi, hs.protocol.trans hp⟩

theorem Writing.beginMutation (h : Writing db s) :
    Writing (db.withEngine db.engine.beginMutation) s := by
  obtain ⟨ctx, hc, hw⟩ := h.running
  exact ⟨h.recovery, h.leased, h.valid, h.authority, h.active, { ctx with safeBoundary := false },
    by simp [Engine.beginMutation, mem_def.mp hc], hw⟩

/-- What a session writes under stays as it is. -/
theorem Writing.transfer (h : Writing db s) (hs : db'.session s = db.session s)
    (hr : db'.recovery = db.recovery) (ht : db'.authority = db.authority)
    (ha : db'.gate.writerActive = db.gate.writerActive)
    (hc : db'.engine.context = db.engine.context) : Writing db' s := by
  refine ⟨hr.trans h.recovery, ?_, ?_, ?_, ha.trans h.active, ?_⟩ <;> rw [hs]
  · exact h.leased
  · exact h.valid
  · exact ht.trans h.authority
  · rw [hc]
    exact h.running

theorem Writing.restore {stg : CheckpointManager} (h : Writing db s)
    (hu : Unmoved db.engine stg.engine) : Writing { db with storage := stg } s :=
  h.transfer rfl rfl rfl rfl hu.context

/-- The transaction of a session is over, its lease and id are still there. -/
structure Finishing (db : SqlEngine) (s : Nat) : Prop where
  recovery : db.recovery = true
  leased : (db.session s).Exclusive
  valid : (db.session s).writerId ≠ 0
  authority : db.authority = some ⟨s, (db.session s).writerId⟩
  engine : Ended db.engine

theorem Writing.finishing (h : Writing db s) (he : Ended e) : Finishing (db.withEngine e) s :=
  ⟨h.recovery, h.leased, h.valid, h.authority, he⟩

theorem Finishing.finishWriter (h : Finishing db s) :
    db.finishWriter s = .returned { db with authority := none } := by
  have hg : ¬ (db.recovery = false ∨ (db.session s).writerId = 0) := by
    simp [h.recovery, h.valid]
  have hf : db.finishOwnedTransaction s = .ok { db with authority := none } := by
    unfold SqlEngine.finishOwnedTransaction SqlEngine.requireAuthority
    have hn : ∀ ctx ∈ db.engine.context, ctx.transactionId ≠ (db.session s).writerId := by
      rw [h.engine.ended]
      simp
    rw [bind_of_ok (require_of _ ⟨h.authority, hn, h.engine.idle⟩),
      bind_of_ok (require_of _ h.leased)]
    rfl
  unfold SqlEngine.finishWriter
  rw [if_neg hg, hf]

theorem releaseLease_session (db : SqlEngine) (s : Nat) :
    (db.releaseLease s).session s = { db.session s with lease := none } := by
  unfold releaseLease
  split
  · rename_i hn
    cases hs : db.session s
    rw [hs] at hn
    cases hn
    rfl
  · simp

theorem releaseLease_others (db : SqlEngine) {t : Nat} (ht : t ≠ s) :
    (db.releaseLease s).session t = db.session t := by
  unfold releaseLease
  split
  · rfl
  · exact session_other _ _ ht

theorem releaseLease_fields (db : SqlEngine) (s : Nat) :
    (db.releaseLease s).storage = db.storage ∧ (db.releaseLease s).recovery = db.recovery ∧
      (db.releaseLease s).authority = db.authority ∧ (db.releaseLease s).failed = db.failed := by
  unfold releaseLease
  split <;> exact ⟨rfl, rfl, rfl, rfl⟩

theorem releaseLease_exclusive (h : (db.session s).Exclusive) :
    (db.releaseLease s).gate.writerActive = false := by
  obtain ⟨lease, hl, hm⟩ := h
  unfold releaseLease
  rw [mem_def.mp hl]
  simp [setSession, AccessGate.release, hm]

theorem releaseLease_shared (h : ¬ (db.session s).Exclusive) :
    (db.releaseLease s).gate.writerActive = db.gate.writerActive := by
  unfold releaseLease
  split
  · rfl
  · rename_i lease hl
    cases hm : lease.mode with
    | readOnly => simp [setSession, AccessGate.release, hm]
    | readWrite => exact absurd ⟨lease, hl, hm⟩ h

/-- The session is outside any scope again, and no writer is left. -/
structure WriterEnded (db db' : SqlEngine) (s : Nat) : Prop where
  others : ∀ t, t ≠ s → db'.session t = db.session t
  session : db'.session s = ⟨none, none, 0⟩
  recovery : db'.recovery = db.recovery
  failed : db'.failed = db.failed
  authority : db'.authority = none
  engine : Unmoved db.engine db'.engine

theorem WriterEnded.of_release (ho : ∀ t, t ≠ s → mid.session t = db.session t)
    (hs : { mid.session s with lease := none } = (⟨none, none, 0⟩ : SessionContext))
    (hr : mid.recovery = db.recovery) (hf : mid.failed = db.failed) (ha : mid.authority = none)
    (hu : Unmoved db.engine mid.engine) : WriterEnded db (mid.releaseLease s) s := by
  obtain ⟨hm, hr', ha', hf'⟩ := releaseLease_fields mid s
  refine ⟨?_, ?_, hr'.trans hr, hf'.trans hf, ha'.trans ha, ?_⟩
  · intro t ht
    rw [releaseLease_others _ ht, ho t ht]
  · rw [releaseLease_session, hs]
  · show Unmoved db.engine (mid.releaseLease s).storage.engine
    rw [hm]
    exact hu

theorem Finishing.endExplicit (h : Finishing db s)
    (hm : (db.session s).explicitMode = some .readWrite) (hr : call.PoolResidue) :
    ∃ db', db.endExplicit s call = .returned db' ∧ WriterEnded db db' s := by
  unfold SqlEngine.endExplicit
  rw [if_pos hm, h.finishWriter]
  refine ⟨_, rfl, ?_⟩
  obtain ⟨stg, hs, hu⟩ := automaticCheckpoint_spec ({ db with authority := none }.setSession s
      { (({ db with authority := none } : SqlEngine).session s) with
        explicitMode := none, writerId := 0 }) call h.engine.toSteady hr
  rw [hs]
  refine .of_release (fun t ht => session_other _ _ ht) ?_ rfl rfl rfl hu
  show ({ (SqlEngine.setSession _ s _).session s with lease := none } : SessionContext) = _
  rw [session_same]

/-- A writer outside a scope ends with the checkpoint that is due, then its lease. -/
theorem Finishing.endImplicit (h : Finishing db s) (hm : (db.session s).explicitMode = none)
    (hr : call.PoolResidue) :
    ∃ db', (((db.automaticCheckpoint call).finishWriter s).andThen fun db =>
        .returned ((db.clearWriter s).releaseLease s)) = .returned db' ∧ WriterEnded db db' s := by
  obtain ⟨stg, hs, hu⟩ := automaticCheckpoint_spec db call h.engine.toSteady hr
  have hf : Finishing { db with storage := stg } s :=
    ⟨h.recovery, h.leased, h.valid, h.authority, h.engine.unmoved hu⟩
  rw [hs, hf.finishWriter]
  refine ⟨_, rfl, .of_release (fun t ht => session_other _ _ ht) ?_ rfl rfl rfl hu⟩
  show ({ (setSession _ s _).session s with lease := none } : SessionContext) = _
  rw [session_same]
  show (⟨(db.session s).explicitMode, none, 0⟩ : SessionContext) = _
  rw [hm]

/-- Between calls of an engine that has not failed. -/
structure SessionInv (db : SqlEngine) : Prop where
  sessions : ∀ s, (db.session s).Consistent
  logged : db.recovery = true → Steady db.engine
  plain : db.recovery = false → PlainSound db.engine
  writer : ∀ s, (db.session s).explicitMode = some .readWrite → Writing db s
  idle : (∀ s, (db.session s).explicitMode ≠ some .readWrite) → db.authority = none

theorem SessionInv.closed (h : SessionInv db) (hm : (db.session s).explicitMode = none) :
    db.session s = ⟨none, none, 0⟩ := by
  have hc := h.sessions s
  cases hs : db.session s with
  | mk mode lease writerId =>
    rw [hs] at hm hc
    cases hm
    have hl : lease = none := by
      simpa using hc.leased
    have hw : writerId = 0 := by
      simpa using hc.writing
    rw [hl, hw]

/-- One writer at a time: the coordinator knows the session it works for. -/
theorem SessionInv.one_writer {t : Nat} (h : SessionInv db)
    (hs : (db.session s).explicitMode = some .readWrite)
    (ht : (db.session t).explicitMode = some .readWrite) : s = t := by
  have hm := (h.writer s hs).authority.symm.trans (h.writer t ht).authority
  exact congrArg WriterAuthority.session (some.inj hm)

/-- Only the storage has moved, and nothing that one can see in it. -/
structure Kept (db db' : SqlEngine) : Prop where
  sessions : ∀ t, db'.session t = db.session t
  recovery : db'.recovery = db.recovery
  authority : db'.authority = db.authority
  active : db'.gate.writerActive = db.gate.writerActive

theorem SessionInv.kept (h : SessionInv db) (hk : Kept db db')
    (hl : db.recovery = true → Unmoved db.engine db'.engine)
    (hp : db.recovery = false → PlainSound db'.engine) : SessionInv db' := by
  refine ⟨?_, ?_, ?_, ?_, ?_⟩
  · intro s
    rw [hk.sessions s]
    exact h.sessions s
  · intro hr
    rw [hk.recovery] at hr
    exact (h.logged hr).unmoved (hl hr)
  · intro hr
    rw [hk.recovery] at hr
    exact hp hr
  · intro s hm
    rw [hk.sessions s] at hm
    have hw := h.writer s hm
    exact hw.transfer (hk.sessions s) hk.recovery hk.authority hk.active (hl hw.recovery).context
  · intro hn
    rw [hk.authority]
    exact h.idle fun s => hk.sessions s ▸ hn s

/-- One session has changed and the others are as they were. -/
theorem SessionInv.of_others (h : SessionInv db) (ho : ∀ t, t ≠ s → db'.session t = db.session t)
    (hc : (db'.session s).Consistent) (hl : db'.recovery = true → Steady db'.engine)
    (hp : db'.recovery = false → PlainSound db'.engine)
    (hw : (db'.session s).explicitMode = some .readWrite → Writing db' s)
    (hwo : ∀ t, t ≠ s → (db.session t).explicitMode = some .readWrite → Writing db' t)
    (hi : (∀ t, (db'.session t).explicitMode ≠ some .readWrite) → db'.authority = none) :
    SessionInv db' := by
  refine ⟨?_, hl, hp, ?_, hi⟩
  · intro t
    by_cases ht : t = s
    · exact ht ▸ hc
    · rw [ho t ht]
      exact h.sessions t
  · intro t hm
    by_cases ht : t = s
    · subst ht
      exact hw hm
    · exact hwo t ht (ho t ht ▸ hm)

theorem closed_consistent : (⟨none, none, 0⟩ : SessionContext).Consistent :=
  ⟨by simp, by simp, by simp⟩

/-- What a call keeps: the invariant, and the origin of every scope it leaves open. -/
structure CallKept (db db' : SqlEngine) : Prop where
  inv : SessionInv db'
  follows : ∀ s base extent, (db.session s).explicitMode = some .readWrite →
    (db'.session s).explicitMode = some .readWrite → Follows base extent db.engine →
    Follows base extent db'.engine

theorem SessionInv.callKept (h : SessionInv db) (hk : Kept db db')
    (hl : db.recovery = true → Unmoved db.engine db'.engine)
    (hp : db.recovery = false → PlainSound db'.engine) : CallKept db db' := by
  refine ⟨h.kept hk hl hp, ?_⟩
  intro s base extent hm _ hf
  exact hf.unmoved (hl (h.writer s hm).recovery)

theorem SessionInv.callKept_refl (h : SessionInv db) : CallKept db db :=
  ⟨h, fun _ _ _ _ _ hf => hf⟩

/-- A call that leaves the storage as it is. -/
theorem SessionInv.callKept_same (h : SessionInv db) (hk : Kept db db')
    (he : db'.engine = db.engine) : CallKept db db' := by
  refine h.callKept hk ?_ ?_
  · intro hr
    have hs := h.logged hr
    rw [he]
    exact .refl hs.sound hs.settled
  · rw [he]
    exact h.plain

theorem SessionInv.callKept_ended (h : SessionInv db)
    (ha : ∀ t, (db.session t).explicitMode = some .readWrite → t = s)
    (ho : ∀ t, t ≠ s → mid.session t = db.session t) (hn : WriterEnded mid db' s)
    (hr : db'.recovery = true) (he : Steady mid.engine) : CallKept db db' := by
  refine ⟨h.of_others (fun t ht => (hn.others t ht).trans (ho t ht))
    (hn.session ▸ closed_consistent) (fun _ => he.unmoved hn.engine) ?_ ?_
    (fun t ht hm => absurd (ha t hm) ht) (fun _ => hn.authority), ?_⟩
  · intro hp
    cases hr.symm.trans hp
  · intro hm
    rw [hn.session] at hm
    cases hm
  · intro t base extent hm hm'
    rw [ha t hm, hn.session] at hm'
    cases hm'

/-! Leases. -/

theorem acquireLease_eq_returned (h : db.acquireLease mode call = .returned db') :
    db.gate.writerActive = false ∧ ∃ gate : AccessGate,
      gate.writerActive = decide (mode = .readWrite) ∧
      db' = { db with gate := gate }.setSession call.session
        { db.session call.session with lease := some ⟨mode, call.thread⟩ } := by
  unfold acquireLease AccessGate.acquire at h
  split at h
  · cases h
  · cases h
  · rename_i gate lease hg
    cases h
    split at hg
    · cases hg
    · split at hg
      · cases hg
      · split at hg
        · rename_i he
          cases hg
          cases mode with
          | readOnly =>
            simp only [AccessGate.eligible, Bool.and_eq_true, Bool.not_eq_true'] at he
            exact ⟨he.1, db.gate.grant call.thread .readOnly, he.1, rfl⟩
          | readWrite =>
            simp only [AccessGate.eligible, Bool.and_eq_true, Bool.not_eq_true'] at he
            exact ⟨he.1, _, rfl, rfl⟩
        · cases hg

theorem acquireLease_eq_threw (h : db.acquireLease mode call = .threw error db') : db' = db := by
  unfold acquireLease at h
  split at h <;> cases h
  rfl

/-- No scope is open for writing while another session is given a lease. -/
theorem SessionInv.none_writing (h : SessionInv db) (ha : db.gate.writerActive = false) (s : Nat) :
    (db.session s).explicitMode ≠ some .readWrite := by
  intro hm
  rw [(h.writer s hm).active] at ha
  cases ha

/-- A session gives back the lease that it took for one call. -/
theorem Kept.release (ha : db.gate.writerActive = false)
    (ho : ∀ t, t ≠ s → mid.session t = db.session t)
    (hs : { mid.session s with lease := none } = db.session s)
    (hr : mid.recovery = db.recovery) (hat : mid.authority = db.authority)
    (hgt : (mid.session s).Exclusive ∨
      mid.gate.writerActive = false) : Kept db (mid.releaseLease s) := by
  obtain ⟨_, hr', hat', _⟩ := releaseLease_fields mid s
  refine ⟨?_, hr'.trans hr, hat'.trans hat, ?_⟩
  · intro t
    by_cases ht : t = s
    · rw [ht, releaseLease_session, hs]
    · rw [releaseLease_others _ ht, ho t ht]
  · rw [ha]
    by_cases hex : (mid.session s).Exclusive
    · exact releaseLease_exclusive hex
    · rw [releaseLease_shared hex]
      exact hgt.resolve_left hex

theorem openWriter_eq_returned (h : db.openWriter s call = .returned db') :
    db.engine.context = none ∧ ∃ e, db.engine.beginTransaction .ownedAppend = .ok e ∧
      db' = { db.withEngine e with
          authority := some ⟨s, db.engine.nextTransactionId⟩ }.setSession s
        { db.session s with writerId := db.engine.nextTransactionId } := by
  unfold openWriter at h
  split at h
  · cases h
  · rename_i hi
    split at h
    · cases h
    · rename_i opened ho
      simp only [check_eq_returned] at h
      obtain ⟨_, rfl⟩ := h
      simp only [beginOwnedTransaction, bind_ok] at ho
      obtain ⟨_, _, _, _, ho⟩ := ho
      split at ho
      · cases ho
      · simp only [ok_iff] at ho
        obtain ⟨e, hb, rfl⟩ := ho
        exact ⟨by simpa using hi, e, hb, rfl⟩

/-- Binding the transaction that was just begun does not fail. -/
theorem bindTransaction_begun (hb : db.engine.beginTransaction .ownedAppend = .ok e) :
    bindTransaction ({ db.withEngine e with
        authority := some ⟨s, db.engine.nextTransactionId⟩ }.setSession s
      { db.session s with writerId := db.engine.nextTransactionId })
      db.engine.nextTransactionId = .ok () := by
  obtain ⟨ctx, hc, hd, _⟩ := beginTransaction_extent hb
  have hi : e.rollbackActive = false := by
    simp only [beginTransaction, ok_iff] at hb
    obtain ⟨_, _, _, hi, _, _, _, _, rfl⟩ := hb
    exact hi
  unfold bindTransaction
  rw [bind_of_ok (require_of _ ⟨ctx, hc, hd⟩), bind_of_ok (require_of _ ?_)]
  · exact require_of _ hi
  · rintro _ ⟨⟩
    rfl

theorem openWriter_eq_threw (h : db.openWriter s call = .threw error db') : db' = db := by
  unfold openWriter at h
  split at h
  · cases h
    rfl
  · split at h
    · cases h
      rfl
    · rename_i opened ho
      simp only [beginOwnedTransaction, bind_ok] at ho
      obtain ⟨_, _, _, _, ho⟩ := ho
      split at ho
      · cases ho
      · simp only [ok_iff] at ho
        obtain ⟨e, hb, rfl⟩ := ho
        simp [check, bindTransaction_begun hb] at h

/-- The writer that was opened under a lease just acquired. -/
theorem openWriter_writing (h : db.openWriter s call = .returned db') (hr : db.recovery = true)
    (hs : Steady db.engine) (hl : (db.session s).Exclusive) (ha : db.gate.writerActive = true) :
    Writing db' s ∧ Steady db'.engine ∧ Follows db.engine.view db.engine.disk.pageCount db'.engine ∧
      (∀ t, t ≠ s → db'.session t = db.session t) ∧
      (db'.session s).explicitMode = (db.session s).explicitMode ∧
      db'.failed = db.failed ∧ db'.stopped = db.stopped := by
  obtain ⟨_, e, hb, rfl⟩ := openWriter_eq_returned h
  obtain ⟨ctx, hc, hi, hp, _⟩ := beginTransaction_extent hb
  refine ⟨⟨hr, ?_, ?_, ?_, ha, ctx, hc, ?_⟩, Running.begin hs hb, .begin hb,
    fun t ht => session_other _ _ ht, ?_, rfl, rfl⟩ <;> rw [session_same]
  · exact hl
  · exact Nat.pos_iff_ne_zero.mp hs.ids.next
  · rfl
  · exact ⟨hi, hp⟩

/-! The statements, one at a time. -/

theorem begin_threw (h : SessionInv db) (hb : db.begin mode call = .threw error db') :
    Kept db db' ∧ db'.engine = db.engine := by
  have hs : Kept db db := ⟨fun _ => rfl, rfl, rfl, rfl⟩
  unfold begin at hb
  split at hb
  · cases hb
    exact ⟨hs, rfl⟩
  · rename_i hm
    have hm : (db.session call.session).explicitMode = none := by simpa using hm
    split at hb
    · cases hb
      exact ⟨hs, rfl⟩
    · simp only [andThen_eq_threw] at hb
      rcases hb with ha | ⟨leased, ha, ho | ⟨_, _, hl⟩⟩
      · rw [acquireLease_eq_threw ha]
        exact ⟨hs, rfl⟩
      · obtain ⟨hc, gate, hgt, rfl⟩ := acquireLease_eq_returned ha
        cases mode with
        | readOnly => cases ho
        | readWrite =>
          simp only [onThrow_eq_threw] at ho
          obtain ⟨failed, ho, rfl⟩ := ho
          rw [openWriter_eq_threw ho]
          refine ⟨.release hc (fun t ht => session_other _ _ ht) ?_ rfl rfl (.inl ?_), ?_⟩
          · rw [session_same, h.closed hm]
          · rw [session_same]
            exact ⟨_, rfl, rfl⟩
          · exact congrArg CheckpointManager.engine (releaseLease_fields _ _).1
      · cases hl

theorem begin_returned (h : SessionInv db) (hb : db.begin mode call = .returned db') :
    CallKept db db' ∧ (db'.session call.session).explicitMode = some mode ∧
      (mode = .readWrite → Follows db.engine.view db.engine.disk.pageCount db'.engine) := by
  unfold begin at hb
  split at hb
  · cases hb
  · rename_i hm
    have hm : (db.session call.session).explicitMode = none := by simpa using hm
    split at hb
    · cases hb
    · rename_i hwl
      simp only [andThen_eq_returned] at hb
      obtain ⟨leased, ha, opened, hp, hb⟩ := hb
      cases hb
      obtain ⟨hc, gate, hgt, rfl⟩ := acquireLease_eq_returned ha
      have hn := h.none_writing hc
      have hv : ∀ {db'' : SqlEngine}, SessionInv db'' → CallKept db db'' := by
        intro db'' hi
        exact ⟨hi, fun s _ _ hw => absurd hw (hn s)⟩
      cases mode with
      | readOnly =>
        cases hp
        refine ⟨hv (h.of_others (s := call.session) ?_ ?_ h.logged h.plain ?_
          (fun t _ hw => absurd hw (hn t)) fun _ => h.idle hn), by rw [session_same], by simp⟩
        · intro t ht
          rw [session_other _ _ ht, session_other _ _ ht]
          rfl
        · rw [session_same, session_same, h.closed hm]
          exact ⟨by simp, by simp, by simp⟩
        · intro hw
          rw [session_same] at hw
          cases hw
      | readWrite =>
        have hr : db.recovery = true := by simpa using hwl
        simp only [onThrow_eq_returned] at hp
        obtain ⟨hw, hs, hf, hot, hsm, _⟩ := openWriter_writing
          hp hr (h.logged hr) (by rw [session_same]; exact ⟨_, rfl, rfl⟩) hgt
        refine ⟨hv (h.of_others (s := call.session) ?_ ?_ (fun _ => hs) ?_ ?_
          (fun t _ hw => absurd hw (hn t)) ?_), by rw [session_same], fun _ => hf⟩
        · intro t ht
          rw [session_other _ _ ht, hot t ht, session_other _ _ ht]
          rfl
        · rw [session_same]
          obtain ⟨lease, hl, hex⟩ := hw.leased
          refine ⟨?_, ?_, ?_⟩
          · simp [mem_def.mp hl]
          · exact ⟨fun _ => rfl, fun _ => ⟨lease, hl, hex⟩⟩
          · exact ⟨fun _ => rfl, fun _ => hw.valid⟩
        · intro hpl
          exact absurd (hw.recovery.symm.trans hpl) (by simp)
        · intro _
          refine ⟨hw.recovery, ?_, ?_, ?_, hw.active, ?_⟩ <;> rw [session_same]
          · exact hw.leased
          · exact hw.valid
          · exact hw.authority
          · exact hw.running
        · intro ho
          exact absurd (by rw [session_same]) (ho call.session)

/-- The end of a READ ONLY scope. -/
theorem endExplicit_reader (h : SessionInv db) (hm : (db.session s).explicitMode = some .readOnly)
    (hn : (db.endExplicit s call).Left db') : CallKept db db' := by
  unfold endExplicit at hn
  rw [if_neg (by rw [hm]; simp)] at hn
  obtain rfl := left_returned.mp hn
  have hh : ¬ (db.session s).Exclusive := by
    rw [(h.sessions s).exclusive, hm]
    simp
  obtain ⟨mid, hmid⟩ : ∃ mid, db.setSession s { db.session s with
      explicitMode := none, writerId := 0 } = mid := ⟨_, rfl⟩
  rw [hmid]
  obtain ⟨hst, hr, hat, _⟩ := releaseLease_fields mid s
  have he : (mid.releaseLease s).engine = db.engine :=
    (congrArg CheckpointManager.engine hst).trans (by rw [← hmid]; rfl)
  have hr : (mid.releaseLease s).recovery = db.recovery := hr.trans (by rw [← hmid]; rfl)
  have hat : (mid.releaseLease s).authority = db.authority := hat.trans (by rw [← hmid]; rfl)
  have hs : (mid.releaseLease s).session s = ⟨none, none, 0⟩ := by
    rw [releaseLease_session, ← hmid, session_same]
  have ho : ∀ t, t ≠ s → (mid.releaseLease s).session t = db.session t := by
    intro t ht
    rw [releaseLease_others _ ht, ← hmid, session_other _ _ ht]
  have ha : (mid.releaseLease s).gate.writerActive = db.gate.writerActive := by
    rw [releaseLease_shared (by rw [← hmid, session_same]; exact hh), ← hmid]
    rfl
  refine ⟨h.of_others ho (hs ▸ closed_consistent) ?_ ?_ ?_ ?_ ?_, ?_⟩
  · rw [hr, he]
    exact h.logged
  · rw [hr, he]
    exact h.plain
  · intro hw
    rw [hs] at hw
    cases hw
  · intro t ht hw
    exact (h.writer t hw).transfer (ho t ht) hr hat ha (congrArg Engine.context he)
  · intro hno
    refine hat.trans (h.idle ?_)
    intro t
    by_cases ht : t = s
    · rw [ht, hm]
      simp
    · exact ho t ht ▸ hno t
  · intro t base extent _ _ hf
    rw [he]
    exact hf

theorem onThrow_fail (h : r.onThrow fail = .threw error db') : db'.failed = true := by
  simp only [onThrow_eq_threw] at h
  obtain ⟨_, _, rfl⟩ := h
  rfl

/-- Completing the writer of a session, whichever way its scope then ends. -/
theorem Writing.completes {run : Engine → Result Engine} (h : Writing db s)
    (hn : ∀ e, run db.engine = .ok e → Ended e) (hb : (db.attempt (db.session s).writerId
      call.completionFault run).onThrow fail = .returned db') :
    ∃ e, run db.engine = .ok e ∧ db' = db.withEngine e ∧ Ended e ∧ Finishing db' s := by
  obtain ⟨e, hr, rfl⟩ := attempt_eq_returned (onThrow_eq_returned.mp hb)
  exact ⟨e, hr, rfl, hn e hr, h.finishing (hn e hr)⟩

/-- The rollback that ends a READ WRITE scope. -/
theorem finishRollback_writer (h : Writing db s) (hr : Running db.engine)
    (hm : (db.session s).explicitMode = some .readWrite) (hs : call.PoolResidue) :
    (∃ e db', db.engine.rollbackStatement = .ok e ∧ Ended e ∧
      db.finishRollback s call = .returned db' ∧ WriterEnded (db.withEngine e) db' s) ∨
    ∃ error db', db.finishRollback s call = .threw error db' ∧ db'.failed = true := by
  have hd : db.finishRollback s call =
      (db.rollbackTransaction s call).andThen fun db => db.endExplicit s call := by
    unfold finishRollback
    rw [if_neg (by rw [hm]; simp), h.requireWriter]
    rfl
  rw [hd]
  cases hb : db.rollbackTransaction s call with
  | waiting => exact absurd hb (rollbackTransaction_ne_waiting db s call)
  | threw error db' => exact .inr ⟨error, db', rfl, onThrow_fail hb⟩
  | returned db' =>
    obtain ⟨e, hn, rfl, he, hf⟩ := h.completes (fun _ => hr.rollback) hb
    obtain ⟨last, hl, hw⟩ := hf.endExplicit hm hs
    exact .inl ⟨e, last, hn, he, hl, hw⟩

theorem SessionInv.ended_writer (h : SessionInv db)
    (hm : (db.session s).explicitMode = some .readWrite)
    (hs : Steady e) (he : WriterEnded (db.withEngine e) db' s) : CallKept db db' :=
  h.callKept_ended (fun _ ht => h.one_writer ht hm)
    (fun t _ => show (db.withEngine e).session t = db.session t from rfl) he
    (he.recovery.trans (h.writer s hm).recovery) hs

theorem Kept.withEngine (db : SqlEngine) (e : Engine) : Kept db (db.withEngine e) :=
  ⟨fun _ => rfl, rfl, rfl, rfl⟩

theorem commit_kept (h : SessionInv db) (hl : call.Lawful db.recovery)
    (hc : (db.commit s call).Left db') : db'.failed = true ∨ CallKept db db' := by
  unfold commit at hc
  split at hc
  · obtain rfl := left_threw.mp hc
    exact .inr h.callKept_refl
  · rename_i hm
    exact .inr (endExplicit_reader h hm hc)
  · rename_i hm
    have hw := h.writer s hm
    have ht := h.logged hw.recovery
    simp only [left_andThen, check_eq_returned, check_eq_threw] at hc
    rcases hc with ⟨_, _, rfl⟩ | ⟨_, ⟨_, rfl⟩, ⟨_, hp⟩ | ⟨prep, hp, hc⟩⟩
    · exact .inr h.callKept_refl
    · rcases attempt_eq_threw hp with rfl | ⟨fault, ha, rfl⟩
      · exact .inr h.callKept_refl
      · refine .inr (h.callKept (.withEngine db _) (fun _ => ?_) fun hpl => ?_)
        · exact ht.pooled (hl.prepares fault ha db.engine)
        · cases hw.recovery.symm.trans hpl
    · obtain ⟨e, hr, rfl⟩ := attempt_eq_returned hp
      obtain ⟨hpr, hef⟩ := ht.prepare hr
      rcases hc with ⟨_, hfl⟩ | ⟨committed, hcm, he⟩
      · exact .inl (onThrow_fail hfl)
      · obtain ⟨e', _, rfl, hn, hf⟩ := (hw.effects hef).completes (fun _ => hpr.commit) hcm
        obtain ⟨last, hs, hwr⟩ := hf.endExplicit hm hl.residue
        obtain rfl := left_returned.mp (hs ▸ he)
        exact .inr (h.ended_writer hm hn.toSteady hwr)

theorem rollback_kept (h : SessionInv db) (hl : call.Lawful db.recovery)
    (hr : (db.rollback s call).Left db') : db'.failed = true ∨ CallKept db db' := by
  unfold rollback at hr
  split at hr
  · obtain rfl := left_threw.mp hr
    exact .inr h.callKept_refl
  · rename_i ho
    cases hm : (db.session s).explicitMode with
    | none => exact absurd hm ho
    | some mode =>
      cases mode with
      | readOnly =>
        rw [show db.finishRollback s call = db.endExplicit s call by
          unfold finishRollback; rw [if_pos hm]] at hr
        exact .inr (endExplicit_reader h hm hr)
      | readWrite =>
        have hw := h.writer s hm
        have ht := h.logged hw.recovery
        rcases finishRollback_writer hw ht.toRunning hm hl.residue with
          ⟨e, last, _, he, hs, hwr⟩ | ⟨error, last, hs, hf⟩
        · obtain rfl := left_returned.mp (hs ▸ hr)
          exact .inr (h.ended_writer hm he.toSteady hwr)
        · obtain rfl := left_threw.mp (hs ▸ hr)
          exact .inl hf

/-- What a SELECT leaves, whether it returned or threw: every session as it was,
the pages as one sees them, and the records of the log. -/
structure ReadOnlyCall (db db' : SqlEngine) : Prop where
  kept : Kept db db'
  logged : db.recovery = true → Unmoved db.engine db'.engine
  plain : db.recovery = false → PlainSound db'.engine
  views : ∀ p, SameContents (db'.engine.view p) (db.engine.view p)
  records : db'.engine.log.records = db.engine.log.records

theorem ReadOnlyCall.refl (h : SessionInv db) : ReadOnlyCall db db := by
  refine ⟨⟨fun _ => rfl, rfl, rfl, rfl⟩, ?_, h.plain, fun _ => .refl _, rfl⟩
  intro hr
  have hs := h.logged hr
  exact .refl hs.sound hs.settled

theorem ReadOnlyCall.of_work (h : SessionInv db) (hl : call.Lawful db.recovery)
    (hs : call.statement = .select) (hk : Kept db db') (he : db'.engine = call.work db.engine) :
    ReadOnlyCall db db' := by
  obtain ⟨ho, hp⟩ := hl.reads hs db.engine
  rw [← he] at ho hp
  cases hr : db.recovery with
  | true =>
    have ht := h.logged hr
    obtain ⟨hu, hc⟩ :=
      (ho hr).unmoved ht.sound ht.settled
    exact ⟨hk, fun _ => hu, by simp [hr], hu.views, hc⟩
  | false =>
    obtain ⟨hn, hv, hg⟩ :=
      PlainRead.kept_all (h.plain hr) (hp hr)
    exact ⟨hk, by simp [hr], fun _ => hn, fun p => congrArg normalized (hv p),
      congrArg LogManager.records hg⟩

theorem work_left (h : (db.work call).Left db') : db' = db.withEngine (call.work db.engine) := by
  unfold work CallResult.Left at h
  split at h <;> simp at h <;> exact h.symm

theorem select_left (h : SessionInv db) (hl : call.Lawful db.recovery)
    (hs : call.statement = .select) (hcl : (db.executeSelect call).Left db') :
    ReadOnlyCall db db' := by
  have hc : (∃ error, db.beginRead call = .threw error db') ∨
      ∃ leased, db.beginRead call = .returned leased ∧
        db' = (leased.withEngine (call.work leased.engine)).endRead call.session := by
    simp only [executeSelect, left_andThen, onThrow_eq_returned, onThrow_eq_threw,
      left_returned] at hcl
    rcases hcl with hr | ⟨leased, hr, ⟨error, done, hw, rfl⟩ | ⟨done, hw, rfl⟩⟩
    · exact .inl hr
    · rw [work_left (.inr ⟨error, hw⟩)]
      exact .inr ⟨leased, hr, rfl⟩
    · rw [work_left (.inl hw)]
      exact .inr ⟨leased, hr, rfl⟩
  unfold beginRead at hc
  split at hc
  · rename_i hm
    rcases hc with ⟨error, ha⟩ | ⟨leased, ha, he⟩
    · rw [acquireLease_eq_threw ha]
      exact .refl h
    · obtain ⟨hac, gate, hgt, rfl⟩ := acquireLease_eq_returned ha
      unfold endRead at he
      rw [if_pos (by simpa using hm)] at he
      subst he
      refine .of_work h hl hs
        (.release hac (fun t ht => session_other _ _ ht) ?_ rfl rfl (.inr hgt)) ?_
      · rw [session_withEngine, session_same, h.closed hm]
      · exact congrArg CheckpointManager.engine (releaseLease_fields _ _).1
  · rename_i hm
    rcases hc with ⟨error, hr⟩ | ⟨leased, hr, he⟩
    · cases hr
    · cases hr
      unfold endRead at he
      rw [if_neg (by simpa using hm)] at he
      subst he
      exact .of_work h hl hs (.withEngine db _) rfl

abbrev Live (db : SqlEngine) : Prop := db.failed = false ∧ db.stopped = false

theorem requireSession_live (h : db.Live) : db.requireSession = .ok () := by
  unfold requireSession
  rw [bind_of_ok (require_of _ h.1)]
  exact require_of _ h.2

/-- In the middle of a mutation that the session `s` started from `db₀`. -/
structure Mutating (db₀ db : SqlEngine) (s : Nat) : Prop where
  writing : Writing db s
  running : Running db.engine
  others : ∀ t, t ≠ s → db.session t = db₀.session t
  mode : (db.session s).explicitMode = (db₀.session s).explicitMode
  live : db.Live

theorem Mutating.requireSession (h : Mutating db₀ db s) : db.requireSession = .ok () :=
  requireSession_live h.live

theorem Mutating.effects (h : Mutating db₀ db s) (he : Effects db.engine e) :
    Mutating db₀ (db.withEngine e) s :=
  ⟨h.writing.effects he, h.running.effects he, h.others, h.mode, h.live⟩

/-- A statement that failed is rolled back with its whole scope, or the engine fails. -/
theorem Mutating.failMutation (h : Mutating db₀ db s)
    (hm : (db.session s).explicitMode ≠ some .readOnly) (hs : call.PoolResidue) :
    (∃ e db', db.engine.rollbackStatement = .ok e ∧ Ended e ∧
      db.failMutation s call = .returned db' ∧ WriterEnded (db.withEngine e) db' s) ∨
    ∃ error db', db.failMutation s call = .threw error db' ∧ db'.failed = true := by
  have hl : (db.session s).lease ≠ none := by
    obtain ⟨lease, hl, _⟩ := h.writing.leased
    rw [mem_def.mp hl]
    simp
  unfold SqlEngine.failMutation
  rw [h.requireSession]
  simp only [check, andThen, if_neg hl]
  cases hex : (db.session s).explicitMode with
  | some mode =>
    cases mode with
    | readOnly => exact absurd hex hm
    | readWrite =>
      simp only [isSome_some, if_true]
      exact finishRollback_writer h.writing h.running hex hs
  | none =>
    obtain ⟨ctx, hc, _⟩ := h.writing.running
    simp only [isSome_none, Bool.false_eq_true, if_false, h.writing.recovery,
      mem_def.mp hc, isSome_some, and_self, if_true, h.writing.requireWriter]
    cases hb : db.rollbackTransaction s call with
    | waiting => exact absurd hb (rollbackTransaction_ne_waiting db s call)
    | threw error db' => exact .inr ⟨error, db', rfl, onThrow_fail hb⟩
    | returned db' =>
      obtain ⟨e, hr, rfl, he, hf⟩ := h.writing.completes (fun _ => h.running.rollback) hb
      obtain ⟨last, ha, hw⟩ := hf.endImplicit hex hs
      exact .inl ⟨e, last, hr, he, ha, hw⟩

/-- The storage as the rollback of a failed statement finds it. -/
def abandoned (db : SqlEngine) (call : Call) : Engine :=
  let e := call.work db.engine.beginMutation
  match call.workError, call.prepareFault with
  | none, some fault => fault.left e
  | _, _ => e

/-- The statement boundary of a mutation inside a scope. -/
theorem Mutating.completeMutation_explicit (h : Mutating db₀ db s)
    (hm : (db.session s).explicitMode = some .readWrite) :
    db.completeMutation s call =
      (db.attempt (db.session s).writerId call.prepareFault Engine.prepareStatement).andThen
        fun db => .returned (db.automaticCheckpoint call) := by
  unfold completeMutation prepareTransaction
  rw [h.requireSession]
  simp only [check, andThen, h.writing.requireWriter, h.writing.recovery, if_true, hm, isSome_some]
  cases hp : db.attempt (db.session s).writerId call.prepareFault Engine.prepareStatement with
  | waiting => rfl
  | threw error db' => rfl
  | returned db' =>
    obtain ⟨e, _, rfl⟩ := attempt_eq_returned hp
    simp only [automaticCheckpoint_session, session_withEngine, hm]
    rfl

/-- A mutation that its session ran outside a scope commits on its own. -/
theorem Mutating.completeMutation_implicit (h : Mutating db₀ db s)
    (hm : (db.session s).explicitMode = none) (hs : call.PoolResidue) :
    (∃ e db', Ended e ∧ db.completeMutation s call = .returned db' ∧
      WriterEnded (db.withEngine e) db' s) ∨
    (∃ error db', db.completeMutation s call = .threw error db' ∧ db'.failed = true) ∨
    db.completeMutation s call = .waiting := by
  unfold completeMutation
  rw [h.requireSession]
  simp only [check, andThen, h.writing.requireWriter, h.writing.recovery, if_true, hm,
    isSome_none, Bool.false_eq_true, if_false]
  cases hc : db.commitTransaction s call with
  | waiting => exact .inr (.inr rfl)
  | threw error db' => exact .inr (.inl ⟨error, db', rfl, onThrow_fail hc⟩)
  | returned db' =>
    obtain ⟨e, hr, rfl, he, hf⟩ := h.writing.completes (fun _ => h.running.commit) hc
    obtain ⟨last, hl, hw⟩ := hf.endImplicit hm hs
    refine .inl ⟨e, last, he, ?_, hw⟩
    simp only [automaticCheckpoint_session, session_withEngine, hm, if_true]
    exact hl

/-- The statement of a mutation fails: the executor throws, or the preparation of
its pages does. -/
def Fails (db : SqlEngine) (call : Call) : Prop :=
  call.workError.isSome ∨ call.prepareFault.isSome ∨
    ∃ error, (call.work db.engine.beginMutation).prepareStatement = .error error

/-- How the rollback of a failed statement left its session. -/
structure Undone (db db' : SqlEngine) (call : Call) (e : Engine) : Prop where
  fails : db.Fails call
  rollback : (db.abandoned call).rollbackStatement = .ok e
  worked : Effects db.engine.beginMutation (db.abandoned call)
  engine : Ended e
  session : WriterEnded (db.withEngine e) db' call.session

theorem executeMutation_explicit (h : SessionInv db) (hv : db.Live)
    (hl : call.Lawful db.recovery) (hsm : call.statement = .mutation)
    (hd : (db.session call.session).explicitMode = some .readWrite) :
    (∃ db', db.executeMutation call = .returned db' ∧ CallKept db db') ∨
    ∃ error db', db.executeMutation call = .threw error db' ∧
      (db'.failed = true ∨ ∃ e, Undone db db' call e) := by
  have hw := h.writer call.session hd
  have hst := h.logged hw.recovery
  have hmt := hst.beginMutation
  have hwo : Effects db.engine.beginMutation (call.work db.engine.beginMutation) :=
    (hl.writes hsm _).1 hw.recovery hmt.sound.ready
  have hsr : Mutating db (db.withEngine db.engine.beginMutation) call.session :=
    ⟨hw.beginMutation, hmt.toRunning, fun _ _ => rfl, rfl, hv⟩
  have hm : Mutating db (db.withEngine (call.work db.engine.beginMutation)) call.session :=
    hsr.effects hwo
  have ho : db.beginMutation call = .returned (db.withEngine db.engine.beginMutation) := by
    unfold beginMutation
    simp only [hd, reduceCtorEq, if_false, andThen, hw.requireWriter, check,
      hw.recovery, if_true, hw.bindTransaction hst.idle]
  have hrun : (∃ error, ((db.withEngine db.engine.beginMutation).work call).andThen
        (completeMutation · call.session call) = .threw error (db.withEngine (db.abandoned call)) ∧
        db.Fails call ∧ Effects (call.work db.engine.beginMutation) (db.abandoned call)) ∨
      ∃ e, (call.work db.engine.beginMutation).prepareStatement = .ok e ∧
        ((db.withEngine db.engine.beginMutation).work call).andThen
          (completeMutation · call.session call) =
            .returned ((db.withEngine e).automaticCheckpoint call) := by
    cases he : call.workError with
    | some error =>
      simp only [work, he, andThen, abandoned]
      exact .inl ⟨error, rfl, .inl (by simp [he]), .refl⟩
    | none =>
      simp only [work, he, andThen, engine_withEngine]
      rw [show (db.withEngine db.engine.beginMutation).withEngine
        (call.work db.engine.beginMutation) = db.withEngine (call.work db.engine.beginMutation)
        from rfl, hm.completeMutation_explicit hd, attempt,
        hm.writing.bindTransaction hm.running.idle]
      simp only [check, andThen, engine_withEngine, abandoned, he]
      cases hfa : call.prepareFault with
      | some fault =>
        exact .inl ⟨_, rfl, .inr (.inl (by simp [hfa])), (hl.prepares fault hfa _).effects⟩
      | none =>
        cases hp : (call.work db.engine.beginMutation).prepareStatement with
        | error error => exact .inl ⟨error, rfl, .inr (.inr ⟨error, hp⟩), .refl⟩
        | ok e => exact .inr ⟨e, rfl, rfl⟩
  unfold executeMutation
  rw [ho]
  simp only [andThen] at hrun ⊢
  rcases hrun with ⟨error, hr, hfs, hef⟩ | ⟨e, hp, hr⟩
  · rw [hr]
    have hlf : Mutating db (db.withEngine (db.abandoned call)) call.session := hm.effects hef
    rcases hlf.failMutation (by rw [hlf.mode, hd]; simp) hl.residue with
      ⟨e, db', hrb, hn, hfl, hwr⟩ | ⟨error', db', hfl, hde⟩
    · refine .inr ⟨error, db', ?_, .inr ⟨e, hfs, hrb, hwo.trans hef, hn, hwr⟩⟩
      simp only [catching, hfl]
    · refine .inr ⟨error', db', ?_, .inl hde⟩
      simp only [catching, hfl]
  · obtain ⟨hpr, hef⟩ := hm.running.prepare hp
    obtain ⟨stg, hs, hu⟩ := automaticCheckpoint_spec (db.withEngine e) call hpr hl.residue
    have hw' : Writing { db.withEngine e with storage := stg } call.session :=
      (hm.writing.effects hef).restore hu
    refine .inl ⟨{ db.withEngine e with storage := stg }, ?_, ⟨h.sessions,
      fun _ => hpr.unmoved hu, ?_, ?_, fun hno => absurd hd (hno call.session)⟩, ?_⟩
    · rw [hr, hs]
      rfl
    · intro hpl
      cases hw.recovery.symm.trans hpl
    · intro t ht
      rw [h.one_writer (t := call.session) ht hd]
      exact hw'
    · intro t base extent _ _ hf
      exact ((hf.beginMutation.effects hmt.toRunning hwo).effects hm.running hef).unmoved hu

/-- An autocommit mutation that is granted its lease gets the writer it asks for. -/
def Opens (db : SqlEngine) (call : Call) : Prop :=
  call.statement = .mutation → db.recovery = true →
    (db.session call.session).explicitMode = none →
    ∀ leased, db.acquireLease .readWrite call = .returned leased →
      call.openError = none ∧ ∃ e, db.engine.beginTransaction .ownedAppend = .ok e

theorem openWriter_of_opens {db : SqlEngine} {s : Nat} {call : Call} {e : Engine}
    (hl : (db.session s).Exclusive) (ha : db.authority = none) (he : call.openError = none)
    (hb : db.engine.beginTransaction .ownedAppend = .ok e) :
    ∃ db', db.openWriter s call = .returned db' := by
  have hi : db.engine.context = none := by
    have hb := hb
    simp only [beginTransaction, ok_iff] at hb
    obtain ⟨_, hn, _⟩ := hb
    simpa using hn
  unfold openWriter beginOwnedTransaction requireAuthority
  rw [if_neg (by simp [hi]), bind_of_ok (require_of _ hl),
    bind_of_ok (require_of _ (by simp [hi, ha])), he]
  simp only [hb, ok_bind]
  refine ⟨_, check_eq_returned.mpr ⟨?_, rfl⟩⟩
  rw [session_same]
  exact bindTransaction_begun hb

/-- The way of an autocommit mutation, once its writer is there. -/
theorem autocommit_left (h : SessionInv db₀)
    (ho : ∀ t, (db₀.session t).explicitMode ≠ some .readWrite)
    (hb : Mutating db₀ db call.session) (hmd : (db₀.session call.session).explicitMode = none)
    (hwo : Effects db.engine (call.work db.engine))
    (hs : call.PoolResidue)
    (hc : (((db.work call).andThen (completeMutation · call.session call)).catching
      (failMutation · call.session call)).Left db') : db'.failed = true ∨ CallKept db₀ db' := by
  have hm := hb.effects hwo
  have hmd' := hm.mode.trans hmd
  have hdn : ∀ {e : Engine} {last : SqlEngine}, Ended e →
      WriterEnded ((db.withEngine (call.work db.engine)).withEngine e) last call.session →
      CallKept db₀ last := by
    intro e last hn hl
    have hot : ∀ t, t ≠ call.session →
        ((db.withEngine (call.work db.engine)).withEngine e).session t = db₀.session t :=
      hm.others
    exact h.callKept_ended (fun t ht => absurd ht (ho t)) hot hl
      (hl.recovery.trans hm.writing.recovery) hn.toSteady
  cases he : call.workError with
  | some error =>
    simp only [work, he, andThen] at hc
    rcases hm.failMutation (by rw [hmd']; simp) hs with
      ⟨e, last, _, hn, hl, hw⟩ | ⟨error', last, hl, hd⟩
    · simp only [catching, hl, left_threw] at hc
      subst hc
      exact .inr (hdn hn hw)
    · simp only [catching, hl, left_threw] at hc
      subst hc
      exact .inl hd
  | none =>
    simp only [work, he, andThen] at hc
    rcases hm.completeMutation_implicit hmd' hs with
      ⟨e, last, hn, hl, hw⟩ | ⟨error, last, hl, hd⟩ | hwt
    · simp only [catching, hl, left_returned] at hc
      subst hc
      exact .inr (hdn hn hw)
    · -- the commit failed, and its handler finds an engine that has failed
      have hr : last.requireSession =
          .error (.runtimeError "Transaction completion failed; database must be reopened") := by
        unfold requireSession require
        rw [if_neg (by simp [hd])]
        rfl
      simp only [catching, hl, failMutation, hr, check, andThen, left_threw] at hc
      subst hc
      exact .inl hd
    · simp [catching, hwt, CallResult.Left] at hc

theorem requireWriter_plain (hp : db.recovery = false) (hl : (db.session s).Exclusive) :
    db.requireWriter s = .ok () := by
  unfold requireWriter
  rw [bind_of_ok (require_of _ hl), if_neg (by simp [hp])]

theorem finishWriter_plain (hp : db.recovery = false) : db.finishWriter s = .returned db := by
  unfold finishWriter
  rw [if_pos (.inl hp)]

/-- Without a log there is no writer to end, only a lease. -/
theorem plain_left (hv : db.Live) (hp : db.recovery = false)
    (hle : (db.session call.session).Exclusive)
    (hm : (db.session call.session).explicitMode = none)
    (hc : (((db.work call).andThen (completeMutation · call.session call)).catching
      (failMutation · call.session call)).Left db') :
    db' = ((db.withEngine (call.work db.engine)).clearWriter call.session).releaseLease
      call.session := by
  have hq : (db.withEngine (call.work db.engine)).requireSession = .ok () :=
    requireSession_live hv
  have hw : (db.withEngine (call.work db.engine)).requireWriter call.session = .ok () :=
    requireWriter_plain hp hle
  have hf : ((db.withEngine (call.work db.engine)).finishWriter call.session) =
      .returned (db.withEngine (call.work db.engine)) := finishWriter_plain hp
  have hl : (db.session call.session).lease ≠ none := by
    obtain ⟨lease, hl, _⟩ := hle
    rw [mem_def.mp hl]
    simp
  have hr : (db.withEngine (call.work db.engine)).recovery = false := hp
  cases he : call.workError with
  | some error =>
    simp only [work, he, andThen, catching, failMutation, hq, check,
      session_withEngine, if_neg hl, hm, isSome_none, Bool.false_eq_true, if_false, hr,
      false_and, hf, left_threw] at hc
    exact hc.symm
  | none =>
    simp only [work, he, andThen, catching, completeMutation, hq, check, hw,
      session_withEngine, hm, Bool.false_eq_true, if_false, if_true, hr, hf, left_returned] at hc
    exact hc.symm

theorem executeMutation_implicit (h : SessionInv db) (hv : db.Live)
    (hlw : call.Lawful db.recovery) (hsm : call.statement = .mutation)
    (hm : (db.session call.session).explicitMode = none) (hp : db.Opens call)
    (hc : (db.executeMutation call).Left db') : db'.failed = true ∨ CallKept db db' := by
  unfold executeMutation beginMutation at hc
  simp only [hm, if_true] at hc
  cases ha : db.acquireLease .readWrite call with
  | waiting => simp [CallResult.Left, ha, andThen] at hc
  | threw error last =>
    simp only [ha, andThen, left_threw] at hc
    subst hc
    rw [acquireLease_eq_threw ha]
    exact .inr h.callKept_refl
  | returned leased =>
    obtain ⟨hac, gate, hgt, hls⟩ := acquireLease_eq_returned ha
    have hn := h.none_writing hac
    have hs : leased.session call.session =
        { db.session call.session with lease := some ⟨.readWrite, call.thread⟩ } := by
      rw [hls, session_setSession, if_pos rfl]
    have hot : ∀ t, t ≠ call.session → leased.session t = db.session t := by
      intro t ht
      rw [hls, session_other _ _ ht]
      rfl
    have hle : (leased.session call.session).Exclusive := by
      rw [hs]
      exact ⟨_, rfl, rfl⟩
    have hm' : (leased.session call.session).explicitMode = none := by
      rw [hs]
      exact hm
    obtain ⟨hr, he, hat, hv', hgt'⟩ : leased.recovery = db.recovery ∧ leased.engine = db.engine ∧
        leased.authority = db.authority ∧ leased.Live ∧
        leased.gate.writerActive = true := by
      rw [hls]
      exact ⟨rfl, rfl, rfl, hv, hgt⟩
    simp only [ha, andThen] at hc
    cases hl : db.recovery with
    | true =>
      obtain ⟨her, e, hb⟩ := hp hsm hl hm leased ha
      obtain ⟨opened, ho⟩ := @openWriter_of_opens leased call.session call e hle
        (hat.trans (h.idle hn)) her (he ▸ hb)
      obtain ⟨hw, hst, _, hot', hmo, hf, hsp⟩ :=
        openWriter_writing ho (hr.trans hl) (he ▸ h.logged hl) hle hgt'
      have hg : Mutating db (opened.withEngine opened.engine.beginMutation) call.session :=
        ⟨hw.beginMutation, hst.beginMutation.toRunning, fun t ht => (hot' t ht).trans (hot t ht),
          hmo.trans (hm'.trans hm.symm), hf.trans hv'.1, hsp.trans hv'.2⟩
      simp only [hr.trans hl, if_true, ho, check, hw.requireWriter,
        hw.recovery, hw.bindTransaction hst.idle] at hc
      exact autocommit_left h hn hg hm
        ((hlw.writes hsm _).1 hl hst.beginMutation.sound.ready) hlw.residue hc
    | false =>
      simp only [hr.trans hl, Bool.false_eq_true, if_false, check,
        requireWriter_plain (hr.trans hl) hle] at hc
      have hla := plain_left hv' (hr.trans hl) hle hm' hc
      have hcr : ((leased.withEngine (call.work leased.engine)).clearWriter
          call.session).session call.session = ⟨none, some ⟨.readWrite, call.thread⟩, 0⟩ := by
        unfold clearWriter
        rw [session_same, session_withEngine, hs, h.closed hm]
      rw [hla]
      refine .inr (h.callKept (.release hac ?_ ?_ hr hat (.inl ?_)) (by simp [hl]) ?_)
      · intro t ht
        unfold clearWriter
        rw [session_other _ _ ht]
        exact hot t ht
      · rw [hcr, h.closed hm]
      · rw [hcr]
        exact ⟨_, rfl, rfl⟩
      · intro _
        have hsa : (((leased.withEngine (call.work leased.engine)).clearWriter
            call.session).releaseLease call.session).engine = call.work db.engine := by
          rw [← he]
          exact congrArg CheckpointManager.engine (releaseLease_fields _ _).1
        rw [hsa]
        exact PlainEffect.kept_all (h.plain hl) ((hlw.writes hsm _).2 hl)

theorem executeMutation_reader (hm : (db.session call.session).explicitMode = some .readOnly) :
    ∃ error, db.executeMutation call = .threw error db := by
  unfold executeMutation beginMutation
  rw [hm]
  exact ⟨_, rfl⟩

/-- What a call does to an engine that has not failed. -/
theorem dispatch_kept {statement : SqlStatement} (h : SessionInv db)
    (hv : db.Live) (hl : call.Lawful db.recovery)
    (ho : db.Opens call) (hst : call.statement = statement)
    (hc : (db.dispatch call statement).Left db') : db'.failed = true ∨ CallKept db db' := by
  cases statement with
  | unparsed error =>
    obtain rfl := left_threw.mp hc
    exact .inr h.callKept_refl
  | begin mode =>
    rcases hc with hr | ⟨error, ht⟩
    · exact .inr (begin_returned h hr).1
    · obtain ⟨hk, he⟩ := begin_threw h ht
      exact .inr (h.callKept_same hk he)
  | commit => exact commit_kept h hl hc
  | rollback => exact rollback_kept h hl hc
  | select =>
    have hd := select_left h hl hst hc
    exact .inr (h.callKept hd.kept hd.logged hd.plain)
  | mutation =>
    have hc : (db.executeMutation call).Left db' := hc
    cases hm : (db.session call.session).explicitMode with
    | none => exact executeMutation_implicit h hv hl hst hm ho hc
    | some mode =>
      cases mode with
      | readOnly =>
        obtain ⟨error, ht⟩ := executeMutation_reader hm
        obtain rfl := left_threw.mp (ht ▸ hc)
        exact .inr h.callKept_refl
      | readWrite =>
        rcases executeMutation_explicit h hv hl hst hm with
          ⟨last, hs, hk⟩ | ⟨error, last, hs, hn⟩
        · obtain rfl := left_returned.mp (hs ▸ hc)
          exact .inr hk
        · obtain rfl := left_threw.mp (hs ▸ hc)
          rcases hn with hde | ⟨e, hu⟩
          · exact .inl hde
          · exact .inr (h.ended_writer hm hu.engine.toSteady hu.session)

theorem execute_live (hv : db.Live) : db.execute call = db.dispatch call call.statement := by
  cases hs : call.statement <;> simp only [execute, hs, requireSession_live hv, check, andThen]
  rfl

/-- A call that an engine has refused leaves it as it is. -/
theorem execute_left (hc : (db.execute call).Left db') : db' = db ∨ db.Live := by
  cases hr : db.requireSession with
  | error error =>
    refine .inl ?_
    cases hs : call.statement <;> simp only [execute, hs, hr, check, andThen, left_threw] at hc
    all_goals exact hc.symm
  | ok _ =>
    simp only [requireSession, ok_iff] at hr
    obtain ⟨_, hf, ht⟩ := hr
    exact .inr ⟨hf, ht⟩

theorem execute_kept (h : SessionInv db) (hl : call.Lawful db.recovery) (ho : db.Opens call)
    (hc : (db.execute call).Left db') : db'.failed = true ∨ CallKept db db' := by
  rcases execute_left hc with rfl | hv
  · exact .inr h.callKept_refl
  · rw [execute_live hv] at hc
    exact dispatch_kept h hv hl ho rfl hc

/-- A database as it is opened: no session yet, and nothing in the pool. -/
structure Opened (db : SqlEngine) : Prop where
  sessions : db.sessions = .empty
  authority : db.authority = none
  live : db.Live
  frames : db.engine.frames = .empty
  logged : db.recovery = true → db.engine.Opened ∧ 0 < db.engine.nextTransactionId

theorem Opened.inv (h : Opened db) : SessionInv db := by
  have hs : ∀ s, db.session s = ⟨none, none, 0⟩ := by
    intro s
    simp [session, h.sessions]
  refine ⟨?_, ?_, ?_, ?_, fun _ => h.authority⟩
  · intro s
    rw [hs s]
    exact closed_consistent
  · intro hr
    obtain ⟨ho, hn⟩ := h.logged hr
    exact (Ended.of_sound (MiniDb.Opened.sound ho) ho.context ho.idle.1 hn).toSteady
  · intro _ p f hf
    rw [h.frames] at hf
    simp at hf
  · intro s hm
    rw [hs s] at hm
    cases hm

/-- What a call has to meet: an autocommit mutation gets its writer, and when a
statement of a READ WRITE scope fails its scope can be undone. -/
structure Safe (db : SqlEngine) (call : Call) : Prop where
  opens : db.Opens call
  undoable : call.statement = .mutation →
    (db.session call.session).explicitMode = some .readWrite → db.Fails call →
    RollbackSafe (db.abandoned call)

/-- A call that came back and did not mark the engine as failed. -/
def Step (db db' : SqlEngine) : Prop :=
  ∃ call : Call, call.Lawful db.recovery ∧ db.Safe call ∧ (db.execute call).Left db' ∧
    db'.failed = false

abbrev Reaches : SqlEngine → SqlEngine → Prop := Relation.ReflTransGen Step

/-- `db` is inside a READ WRITE scope that the session opened in `origin`. -/
inductive InScope (s : Nat) (origin : SqlEngine) : SqlEngine → Prop
  | opened {call : Call} {db : SqlEngine} (hsession : call.session = s)
      (hstatement : call.statement = .begin .readWrite)
      (hcall : origin.execute call = .returned db) : InScope s origin db
  | continued {db db' : SqlEngine} (h : InScope s origin db) (hstep : Step db db')
      (hmode : (db'.session s).explicitMode = some .readWrite) : InScope s origin db'

theorem Reaches.inv (h : SessionInv db) (hr : Reaches db db') : SessionInv db' := by
  induction hr with
  | refl => exact h
  | tail _ hstep ih =>
    obtain ⟨call, hl, hs, hc, hv⟩ := hstep
    rcases execute_kept ih hl hs.opens hc with hf | hk
    · rw [hv] at hf
      cases hf
    · exact hk.inv

theorem InScope.follows {origin : SqlEngine} (h : SessionInv origin) (hsc : InScope s origin db) :
    SessionInv db ∧ (db.session s).explicitMode = some .readWrite ∧
      Follows origin.engine.view origin.engine.disk.pageCount db.engine := by
  induction hsc with
  | opened hs ht hc =>
    rename_i call opened
    subst hs
    have hb : origin.begin .readWrite call = .returned opened := by
      simp only [execute, ht, andThen_eq_returned, check_eq_returned] at hc
      obtain ⟨_, ⟨_, rfl⟩, hc⟩ := hc
      exact hc
    obtain ⟨hk, hm, hf⟩ := begin_returned h hb
    exact ⟨hk.inv, hm, hf rfl⟩
  | continued _ hstep hm ih =>
    obtain ⟨hi, ho, hf⟩ := ih
    obtain ⟨call, hl, hsf, hc, hv⟩ := hstep
    rcases execute_kept hi hl hsf.opens hc with hfl | hk
    · rw [hv] at hfl
      cases hfl
    · exact ⟨hk.inv, hm, hk.follows s _ _ ho hm hf⟩

/-- A statement that may fail and leave its scope as it is. -/
def LeavesScope (db : SqlEngine) (call : Call) : Prop :=
  call.statement = .select ∨ (∃ error, call.statement = .unparsed error) ∨
    (call.statement = .mutation ∧
      (db.session call.session).explicitMode = some .readOnly)

/-- How sessions, data and log stand after a call. -/
structure SessionOutcome (start db db' : SqlEngine) (call : Call) : Prop where
  consistent : ∀ s, (db'.session s).Consistent
  undone : ∀ error, db.execute call = .threw error db' → call.statement = .mutation →
    (db.session call.session).explicitMode = some .readWrite →
    (db'.session call.session).explicitMode = none ∧
      ∀ origin, Reaches start origin → InScope call.session origin db →
        ∀ p, p < origin.engine.disk.pageCount →
          SamePage p (db'.engine.view p) (origin.engine.view p)
  untouched : ∀ error, db.execute call = .threw error db' → db.LeavesScope call →
    db'.session call.session = db.session call.session ∧
      (∀ p, SameContents (db'.engine.view p) (db.engine.view p)) ∧
      db'.engine.log.records = db.engine.log.records

theorem execute_dispatch (hv : db'.Live)
    (hc : db.execute call = .threw error db') : db.Live ∧
      db.dispatch call call.statement = .threw error db' := by
  have hl : db.Live :=
    (execute_left (.inr ⟨error, hc⟩)).elim (fun he => he ▸ hv) id
  exact ⟨hl, execute_live hl ▸ hc⟩

/-- The scope of a failed statement is gone, and its pages are as it found them. -/
theorem execute_undone {start : SqlEngine} (hsr : SessionInv start) (h : SessionInv db)
    (hl : call.Lawful db.recovery) (hsf : db.Safe call) (hv : db'.Live)
    (hc : db.execute call = .threw error db') (hs : call.statement = .mutation)
    (hm : (db.session call.session).explicitMode = some .readWrite) :
    (db'.session call.session).explicitMode = none ∧
      ∀ origin, Reaches start origin → InScope call.session origin db →
        ∀ p, p < origin.engine.disk.pageCount →
          SamePage p (db'.engine.view p) (origin.engine.view p) := by
  obtain ⟨hv', hd⟩ := execute_dispatch hv hc
  rw [hs] at hd
  have hd : db.executeMutation call = .threw error db' := hd
  rcases executeMutation_explicit h hv' hl hs hm with
    ⟨last, hls, _⟩ | ⟨_, last, hls, hn⟩
  · rw [hls] at hd
    cases hd
  · rw [hls] at hd
    cases hd
    rcases hn with he | ⟨e, hu⟩
    · rw [hv.1] at he
      cases he
    · refine ⟨by rw [hu.session.session], ?_⟩
      intro origin ho hsc p hp
      obtain ⟨_, _, hf⟩ := hsc.follows (Reaches.inv hsr ho)
      have hr := (h.logged (h.writer _ hm).recovery).beginMutation.toRunning
      have hw := (hf.beginMutation.effects hr hu.worked).rollback
        (hr.effects hu.worked) hu.rollback (hsf.undoable hs hm hu.fails) p hp
      exact ((hu.session.engine.views p).samePage p).trans hw

/-- A statement that may fail and stay in its scope moves nothing. -/
theorem execute_untouched (h : SessionInv db) (hl : call.Lawful db.recovery) (hi : db'.Live)
    (hc : db.execute call = .threw error db') (hv : db.LeavesScope call) :
    db'.session call.session = db.session call.session ∧
      (∀ p, SameContents (db'.engine.view p) (db.engine.view p)) ∧
      db'.engine.log.records = db.engine.log.records := by
  rcases hv with hs | ⟨parse, hu⟩ | ⟨hm, hmd⟩
  · obtain ⟨_, hd⟩ := execute_dispatch hi hc
    rw [hs] at hd
    have hr := select_left h hl hs (Or.inr ⟨error, hd⟩)
    exact ⟨hr.kept.sessions _, hr.views, hr.records⟩
  · simp only [execute, hu] at hc
    cases hc
    exact ⟨rfl, fun _ => .refl _, rfl⟩
  · obtain ⟨_, hd⟩ := execute_dispatch hi hc
    obtain ⟨refused, ht⟩ := executeMutation_reader hmd
    rw [hm] at hd
    have hd : db.executeMutation call = .threw error db' := hd
    rw [ht] at hd
    cases hd
    exact ⟨rfl, fun _ => .refl _, rfl⟩

/-- In every run of calls that got the writers they asked for and could be
undone, each call leaves the sessions consistent, a failed statement of a READ
WRITE scope takes the scope and its changes with it, and a failed read, a parse
error or a mutation in a READ ONLY scope leaves everything as it was. -/
theorem session_calls_kept {start db db' : SqlEngine} {call : Call} (hopened : start.Opened)
    (hreaches : Reaches start db) (hlawful : call.Lawful db.recovery) (hsafe : db.Safe call)
    (hcall : (db.execute call).Left db') (hlive : db'.Live) : SessionOutcome start db db' call := by
  have hstart := hopened.inv
  have hinv := Reaches.inv hstart hreaches
  refine ⟨?_, ?_, ?_⟩
  · rcases execute_kept hinv hlawful hsafe.opens hcall with hfailed | hkept
    · rw [hlive.1] at hfailed
      cases hfailed
    · exact hkept.inv.sessions
  · intro error hthrew hstatement hmode
    exact execute_undone hstart hinv hlawful hsafe hlive hthrew hstatement hmode
  · intro error hthrew hleaves
    exact execute_untouched hinv hlawful hlive hthrew hleaves

/-- An engine over a database of the header and one empty page. -/
def fresh (nextTransactionId : Nat) : SqlEngine where
  storage := ⟨{ Engine.create 4 .fullPage with
    disk := (Engine.create 4 .fullPage).disk.perform (.write 1 zero)
    nextTransactionId := nextTransactionId }, .absent, 1, 0, none⟩
  recovery := true
  checkpoints := false
  authority := none
  gate := ⟨false, 0, .empty, false⟩
  sessions := .empty
  failed := false
  stopped := false

theorem fresh_opened {nextTransactionId : Nat} (h : 0 < nextTransactionId) :
    (fresh nextTransactionId).Opened := by
  have hc := create_opened 4 .fullPage
  refine ⟨rfl, rfl, ⟨rfl, rfl⟩, rfl, fun _ => ⟨?_, h⟩⟩
  exact ⟨hc.frames, hc.context, hc.idle, hc.header, show 2 ≤ invalidPageId by decide, hc.log,
    fun _ hr => by cases hr⟩

/-- A call of session 1 whose statement runs `ops`, and fails afterwards or not. -/
def scriptedCall (statement : SqlStatement) (ops : List EngineOp) (workError : Option DbError) :
    Call where
  session := 1
  thread := 1
  waitingWriters := 0
  cancelled := false
  statement := statement
  work e := (e.run ops).toOption.getD e
  workError := workError
  openError := none
  prepareFault := none
  completionFault := none
  automatic := none

theorem scriptedCall_lawful {stmt : SqlStatement} {ops : List EngineOp} (workError : Option DbError)
    (hs : stmt ≠ .select) (ho : ∀ op ∈ ops, op.Inside) :
    (scriptedCall stmt ops workError).Lawful true := by
  refine ⟨fun h => absurd h hs, fun _ e => ⟨fun _ hr => ?_, by simp⟩, by simp [scriptedCall],
    by simp [scriptedCall]⟩
  show Effects e ((e.run ops).toOption.getD e)
  cases h : e.run ops with
  | error error => exact .refl
  | ok e' => exact run_effects hr ho h

/-- The exclusive lease stays with a session whose writer could not be opened. -/
theorem mutation_leaks_lease : ∃ error db', (fresh (2 ^ 64 - 1)).Opened ∧
    (scriptedCall .mutation [] none).Lawful (fresh (2 ^ 64 - 1)).recovery ∧
    (fresh (2 ^ 64 - 1)).execute (scriptedCall .mutation [] none) = .threw error db' ∧
    db'.failed = false ∧ db'.stopped = false ∧
    (db'.session 1).explicitMode = none ∧ (db'.session 1).lease = some ⟨.readWrite, 1⟩ ∧
    ¬ (db'.session 1).Consistent := by
  refine ⟨.overflowError "Transaction ID space is exhausted", _, fresh_opened (by decide),
    scriptedCall_lawful none (by decide) (by simp), rfl, rfl, rfl, rfl, rfl, ?_⟩
  intro hconsistent
  exact absurd (hconsistent.leased.mp rfl) (by decide)

/-- A writer that has logged every page it took can be undone. -/
theorem rollbackSafe_of_logged (h : e.context.all (fun context =>
    context.pages.entries.all (·.2.latestAfter.isSome)) = true) : RollbackSafe e := by
  intro ctx hc
  simp only [hc, all_some, List.all_eq_true] at h
  refine .inr fun p st hs _ hn => ?_
  have hl := h (p, st) (SortedMap.find?_eq_some.mp hs)
  simp [hn] at hl

/-- Makes page 1 the catalog root, which page 0 names, and then fails. -/
def failedUpdate : Call :=
  scriptedCall .mutation [.updateCatalogRoot 1] (some (.runtimeError "division by zero"))

/-- The engine just opened, inside a READ WRITE scope of session 1. -/
def writingScope : SqlEngine :=
  match (fresh 1).execute (scriptedCall (.begin .readWrite) [] none) with
  | .returned db => db
  | _ => fresh 1

def threwWith (check : SqlEngine → Bool) : CallResult → Bool
  | .threw _ db => check db
  | _ => false

theorem failedUpdate_threw : ∃ error db', writingScope.execute failedUpdate = .threw error db' ∧
    db'.failed = false ∧ db'.stopped = false := by
  have hr : threwWith (fun db => decide (db.failed = false ∧ db.stopped = false))
      (writingScope.execute failedUpdate) = true := by
    decide +kernel
  cases h : writingScope.execute failedUpdate with
  | threw error db' =>
    rw [h] at hr
    exact ⟨error, db', rfl, of_decide_eq_true hr⟩
  | _ =>
    rw [h] at hr
    cases hr

/-- The mutation has changed page 0 when it fails, and page 0 is as it was afterwards. -/
theorem session_calls_kept_failed_mutation : ∃ db' error,
    ¬ SamePage 0 ((writingScope.abandoned failedUpdate).view 0) ((fresh 1).engine.view 0) ∧
    writingScope.execute failedUpdate = .threw error db' ∧
    SessionOutcome (fresh 1) writingScope db' failedUpdate ∧
    SamePage 0 (db'.engine.view 0) ((fresh 1).engine.view 0) := by
  obtain ⟨error, db', hthrew, hlive⟩ := failedUpdate_threw
  have hbegin : (fresh 1).execute (scriptedCall (.begin .readWrite) [] none) =
      .returned writingScope := rfl
  have hstep : Step (fresh 1) writingScope := by
    refine ⟨_, scriptedCall_lawful none (by decide) (by simp), ⟨?_, ?_⟩, .inl hbegin, rfl⟩
    all_goals
      intro hmutation
      cases hmutation
  have hsafe : writingScope.Safe failedUpdate := by
    refine ⟨?_, fun _ _ _ => rollbackSafe_of_logged (by decide +kernel)⟩
    intro _ _ hmode
    cases hmode
  have houtcome : SessionOutcome (fresh 1) writingScope db' failedUpdate :=
    session_calls_kept (fresh_opened (by decide)) (.single hstep)
      (scriptedCall_lawful _ (by decide) (by simp [EngineOp.Inside])) hsafe
      (.inr ⟨error, hthrew⟩) hlive
  have hscope : InScope 1 (fresh 1) writingScope := by
    refine .opened ?_ ?_ hbegin <;> rfl
  refine ⟨db', error, ?_, hthrew, houtcome, ?_⟩
  · show ¬ SameHeader _ _
    unfold SameHeader
    decide +kernel
  · exact (houtcome.undone error hthrew rfl rfl).2 (fresh 1) .refl hscope 0 (by decide)

end SqlEngine

end MiniDb
