import MiniDb.PoolOperations

/-!
The pool as its client sees it: a memory of pages, changed by the writes that
returned and by nothing else. The clock of the replacer is the one thing that
can run out: a fetch that finds it at its last value may leave a frame that the
replacer does not know.
-/
namespace MiniDb
open ByteBlock Outcome Stateful Pool LruKReplacer BufferFrame

variable {n : Nat} {memory : Nat → Page} {p p' : Pool}

/-- What the client remembers of a call: the bytes of a write that returned. -/
def remember (memory : Nat → Page) (request : PoolRequest) (p : Pool) : Nat → Page :=
  match request, answer request p with
  | .write guard data, .ok _ _ => fun q => if q = guard.pageId then data else memory q
  | _, _ => memory

/-- The calls of a client, each `allowed` where it is made, and its memory. -/
inductive Served (allowed : PoolRequest → Pool → Prop) (p₀ : Pool) : Pool → (Nat → Page) → Prop
  | start : Served allowed p₀ p₀ p₀.disk.page
  | call {p : Pool} {memory : Nat → Page} (h : Served allowed p₀ p memory) (request : PoolRequest)
      (hp : allowed request p) :
      Served allowed p₀ (finalState (answer request) p) (remember memory request p)

/-- A call that records an access has a time for it. -/
def ClockLeft : PoolRequest → Pool → Prop
  | .fetchPageRead _, p | .fetchPageWrite _, p | .newPageWrite, p =>
    p.replacer.currentTimestamp < 2 ^ 64 - 1
  | _, _ => True

/-- A pool just made over a file with its header page, and idle if it has a hook. -/
def Fresh (p : Pool) : Prop :=
  ∃ disk frameCount k durability coordinator,
    Pool.create disk frameCount k durability coordinator = .ok p ∧ 0 < disk.pageCount ∧
    (durability = .hook → coordinator.context = none ∧ LogSound coordinator.log ∧
      deserializeDatabaseHeader (disk.page 0) = .ok disk.databaseHeader)

/-- What the client is told of one state of the pool. -/
structure Transparent (p : Pool) (memory : Nat → Page) : Prop where
  validated : p.validate = .ok ()
  read : ∀ guard ∈ p.guards, ∃ page, answer (.read guard) p = .ok (.bytes page) p ∧
    SameContents page (memory guard.pageId)

/-- What one call does to the frames: a page that leaves the pool leaves its
contents in the file, and a pinned frame keeps its page. -/
structure Careful (p p' : Pool) : Prop where
  evicted : ∀ (f : Nat) frame, p.frames[f]? = some frame → frame.valid = true →
    frame.dirty = true → p'.pageTable.find? frame.pageId = none →
    SameContents (p'.disk.page frame.pageId) frame.data
  pinned : ∀ (f : Nat) frame, p.frames[f]? = some frame → frame.pinCount ≠ 0 →
    ∃ frame', p'.frames[f]? = some frame' ∧ frame'.valid = true ∧ frame'.pageId = frame.pageId

/-- The state between calls. -/
structure AtRest (p : Pool) (memory : Nat → Page) : Prop where
  partition : Partition p none
  contents : Contents p
  view : ∀ q, SameContents (p.view q) (memory q)

/-! The start. -/

theorem getElem?_replicate_eq {f : Nat} {fr : BufferFrame}
    (h : (List.replicate n free)[f]? = some fr) : fr = .free :=
  List.eq_of_mem_replicate (List.mem_of_getElem? h)

theorem create_partition {disk : DiskManager} {frameCount k : Nat} {durability : Durability}
    {co : Coordinator} (h : Pool.create disk frameCount k durability co = .ok p) :
    Partition p none := by
  simp only [Pool.create, ok_iff] at h
  obtain ⟨replacer, hr, _, _, _, _, rfl⟩ := h
  obtain ⟨hs, _, he⟩ := create_sound hr
  refine ⟨hs, by rw [he, List.length_replicate, List.length_replicate], ?_,
    List.nodup_range, ?_, ?_, by simp, by simp⟩
  · intro f fr hf
    have hlt : f < frameCount := by
      simpa using (lt_of_getElem? hf)
    have hfe := getElem?_replicate_eq hf
    subst hfe
    refine ⟨fun _ => rfl, ⟨.blank, ?_, rfl, by simp [free]⟩, by simp [free], ?_⟩
    · rw [he, List.getElem?_replicate, if_pos hlt]
    · simp [pinsOn, free]
  · intro f
    rw [List.mem_range]
    constructor
    · intro hlt
      exact ⟨.free, by rw [List.getElem?_replicate, if_pos hlt], rfl⟩
    · rintro ⟨fr, hf, _⟩
      simpa using (lt_of_getElem? hf)
  · intro q f
    refine ⟨fun hn => by simp at hn, ?_⟩
    rintro ⟨fr, hf, hv, _⟩
    rw [getElem?_replicate_eq hf] at hv
    simp [free] at hv

theorem Fresh.atRest (h : Fresh p) : AtRest p p.disk.page := by
  obtain ⟨disk, frameCount, k, durability, co, hc, hh, hi⟩ := h
  have hp := create_partition hc
  simp only [Pool.create, ok_iff] at hc
  obtain ⟨replacer, _, _, _, _, _, rfl⟩ := hc
  have hn : ∀ q, (Pool.engine ⟨disk, List.replicate frameCount .free, .empty,
      List.range frameCount, replacer, durability, co, []⟩).frames.find? q = none := by
    intro q
    simp [Pool.engine]
  refine ⟨hp, ⟨?_, ?_, hh⟩, fun q => by simp [Pool.view, SameContents]⟩
  · intro hk
    obtain ⟨ht, hl, hd⟩ := hi hk
    have ha : ∀ ctx, co.context ≠ some ctx := by
      intro ctx
      rw [ht]
      simp
    refine ⟨⟨⟨?_, fun ctx hs => absurd hs (ha ctx),
      fun ctx hs => absurd hs (ha ctx), hh, hd⟩, hl⟩, ?_, fun ctx _ _ hs => absurd hs (ha ctx)⟩
    · intro q f hf
      rw [hn q] at hf
      simp at hf
    · intro q f hf
      rw [hn q] at hf
      simp at hf
  · intro _ f fr hr hv
    rw [getElem?_replicate_eq hr] at hv
    simp [free] at hv

/-! One call. -/

theorem Kept.atRest {s : Nat → Prop} (hk : Kept s none p p') (h : AtRest p memory) :
    AtRest p' memory :=
  ⟨hk.partition, hk.contents, fun q => (hk.view q).trans (h.view q)⟩

theorem Kept.careful (hk : Kept (PinnedAt p) none p p') (h : Partition p none) : Careful p p' := by
  refine ⟨?_, ?_⟩
  · intro f fr hf hv _ ha
    have hw := hk.view fr.pageId
    rw [h.view_resident hf hv] at hw
    simpa [Pool.view, ha] using hw
  · intro f fr hf hp
    exact hk.pages f fr ⟨fr, hf, hp⟩ hf (h.valid_of_pinned hf hp)

theorem Wrote.careful {q : Nat} {data : Page} (h : Partition p none)
    (hw : Wrote (fun _ => True) q data p p') : Careful p p' := by
  refine ⟨?_, ?_⟩
  · intro f fr hf hv _ ha
    obtain ⟨fr', hf', hv', hg⟩ := hw.pages f fr trivial hf hv
    rw [(hw.partition.mapped fr.pageId f).mpr ⟨fr', hf', hv', hg⟩] at ha
    simp at ha
  · intro f fr hf hp
    exact hw.pages f fr trivial hf (h.valid_of_pinned hf hp)

theorem answer_kept (h : Partition p none) (hc : Contents p) {rq : PoolRequest}
    (hl : ClockLeft rq p) (hr : ∀ gd data, rq ≠ .write gd data) :
    Always (answer rq) p (Kept (PinnedAt p) none p) := by
  have ht : ∀ call : PoolM Unit, (p.durability = .hook →
      Always call p (Kept (PinnedAt p) none p)) → Always (do
        if (← get).recoveryHook then call
        return PoolReply.done) p (Kept (PinnedAt p) none p) := by
    intro call ha
    simp only [ensures_iff]
    split
    · rename_i hh
      simp only [ensures_iff]
      exact ha (by simpa [recoveryHook] using hh)
    · exact .refl h hc
  cases rq with
  | fetchPageRead q =>
    simp only [answer, ensures_bind]
    exact fetchPage_ensures h hc q false hl
  | fetchPageWrite q =>
    simp only [answer, ensures_bind]
    exact fetchPage_ensures h hc q true hl
  | newPageWrite =>
    simp only [answer, ensures_bind]
    exact newPageWrite_ensures h hc hl
  | read gd =>
    simp only [answer, ensures_bind]
    exact (readData_ensures h gd).imp (fun _ _ hs => hs ▸ .refl h hc)
      (fun _ _ hs => hs ▸ .refl h hc)
  | write gd data => exact absurd rfl (hr gd data)
  | drop gd =>
    simp only [answer, ensures_bind]
    exact drop_ensures (PinnedAt p) h hc gd
  | flushPage q =>
    simp only [answer, ensures_bind]
    exact flushPage_ensures h hc (PinnedAt p) q
  | flushAll =>
    simp only [answer, ensures_bind]
    exact flushAll_ensures h hc (PinnedAt p)
  | begin prot =>
    exact ht _ fun hh => beginTransaction_ensures h hc (PinnedAt p) hh prot
  | prepare =>
    exact ht _ fun hh => (prepareStatement_ensures h hc hh).imp
      (fun _ _ hd => hd.1.kept h) (fun _ _ hq => hq.kept h)
  | commit => exact ht _ fun hh => commitStatement_ensures h hc (PinnedAt p) hh

theorem remember_other {rq : PoolRequest} (h : ∀ gd data, rq ≠ .write gd data) :
    remember memory rq p = memory := by
  unfold remember
  split
  · exact absurd rfl (h _ _)
  · rfl

theorem answer_write {gd : PageGuard} {data : Page} (h : gd.writable = true) :
    answer (.write gd data) p = match mutableData gd data p with
      | .ok _ p' => .ok .done p'
      | .error error p' => .error error p' := by
  simp only [answer, h, if_true, run_eq]
  cases mutableData gd data p with
  | ok => rfl
  | error => rfl

theorem AtRest.call (h : AtRest p memory) {rq : PoolRequest} (hc : ClockLeft rq p) :
    AtRest (finalState (answer rq) p) (remember memory rq p) ∧
      Careful p (finalState (answer rq) p) := by
  by_cases hwr : ∃ gd data, rq = .write gd data
  · obtain ⟨gd, data, rfl⟩ := hwr
    have hm : AtRest p memory ∧ Careful p p :=
      ⟨h, (Kept.refl h.partition h.contents).careful h.partition⟩
    cases hw : gd.writable with
    | false =>
      have hr : answer (.write gd data) p =
          .error (.logicError "Page guard no longer owns a pin") p := by
        simp only [answer, hw]
        rfl
      simp only [finalState, remember, hr]
      exact hm
    | true =>
      have he := mutableData_ensures (fun _ => True) h.partition h.contents hw data
      have hr := @answer_write p gd data hw
      unfold Ensures at he
      cases hs : mutableData gd data p with
      | error error p' =>
        rw [hs] at he hr
        subst he
        simp only [finalState, remember, hr]
        exact hm
      | ok _ p' =>
        rw [hs] at he hr
        simp only [finalState, remember, hr]
        refine ⟨⟨he.partition, he.contents, ?_⟩, he.careful h.partition⟩
        intro q
        rw [he.view q]
        split
        · exact .refl _
        · exact h.view q
  · have ho : ∀ gd data, rq ≠ .write gd data :=
      fun gd data heq => hwr ⟨gd, data, heq⟩
    have hk := (answer_kept h.partition h.contents hc ho).final
    rw [remember_other ho]
    exact ⟨hk.atRest h, hk.careful h.partition⟩

theorem AtRest.transparent (h : AtRest p memory) : Transparent p memory := by
  refine ⟨h.partition.validate_run ?_, ?_⟩
  · intro f fr hf hv
    exact h.contents.validateWalDependency_ok h.partition hf hv
  · intro gd hg
    refine ⟨p.view gd.pageId, ?_, h.view gd.pageId⟩
    simp only [answer]
    rw [run_bind (readData_run h.partition hg)]
    rfl

theorem Served.atRest {p₀ : Pool} (hf : Fresh p₀) (h : Served ClockLeft p₀ p memory) :
    AtRest p memory := by
  induction h with
  | start => exact hf.atRest
  | call _ _ hclock ih => exact (ih.call hclock).1

/-- As long as the replacer's clock lasts the pool is a transparent cache: its own
check passes, a guard reads what was last written to its page, a page leaves the
pool only once the file has its contents, and a pinned frame keeps its page. -/
theorem pool_is_transparent_cache {p₀ p : Pool} {memory : Nat → Page} (hfresh : Fresh p₀)
    (h : Served ClockLeft p₀ p memory) :
    Transparent p memory ∧
      (∀ request, ClockLeft request p → Careful p (finalState (answer request) p) ∧
        Transparent (finalState (answer request) p) (remember memory request p)) := by
  have hrest := h.atRest hfresh
  refine ⟨hrest.transparent, ?_⟩
  intro request hclock
  obtain ⟨hnext, hcareful⟩ := hrest.call hclock
  exact ⟨hcareful, hnext.transparent⟩

/-! A pool without a log over a file of three pages. -/

def smallDisk : DiskManager :=
  ⟨⟨[serializeDatabaseHeader makeCurrentDatabaseHeader, zero, zero], []⟩,
    makeCurrentDatabaseHeader, false⟩

def idleCoordinator : Coordinator :=
  ⟨⟨[], walHeaderSize, none, none, [walHeaderSize], 16777216⟩, none, 1, .fullPage, false, false⟩

def smallPool (durability : Durability) : Pool :=
  ⟨smallDisk, [.free, .free], .empty, [0, 1], ⟨1, 0, 0, [.blank, .blank], []⟩, durability,
    idleCoordinator, []⟩

theorem smallPool_fresh (durability : Durability) : Fresh (smallPool durability) := by
  refine ⟨smallDisk, 2, 1, durability, idleCoordinator, rfl, by decide, fun _ => ⟨rfl, ?_, ?_⟩⟩
  · exact (Engine.create_opened 1 .fullPage).log
  · decide +kernel

/-- The pool after page 1 was fetched and dropped, its last access at time `n`. -/
def idlePool (n : Nat) : Pool :=
  ⟨smallDisk, [⟨zero, 1, 0, false, true, none, none, false, false⟩, .free],
    SortedMap.empty.insert 1 0, [1],
    ⟨1, n, 1, [⟨[n], true, true⟩, .blank], [⟨false, n, 0⟩]⟩, .none, idleCoordinator, []⟩

def pinnedPool (n : Nat) : Pool :=
  ⟨smallDisk, [⟨zero, 1, 1, false, true, none, none, false, false⟩, .free],
    SortedMap.empty.insert 1 0, [1],
    ⟨1, n, 1, [⟨[n], true, false⟩, .blank], []⟩, .none, idleCoordinator, [⟨0, 1, false⟩]⟩

theorem pinnedPool_drop (n : Nat) :
    answer (.drop ⟨0, 1, false⟩) (pinnedPool n) = .ok .done (idlePool n) := rfl

theorem idle_pinned (n : Nat) :
    setEvictable 0 false (idlePool n).replacer =
      .ok () ⟨1, n, 1, [⟨[n], true, false⟩, .blank], []⟩ := by
  simp [setEvictable, idlePool, requireEntry, fromExcept, bind, EStateM.bind, get_eq, pure,
    EStateM.pure, eraseCandidate, candidateFor, Except.bind, setEntry, run_eq, Except.pure]

theorem idle_accessed (hn : n ≠ 2 ^ 64 - 1) :
    recordAccess 0 ⟨1, n, 1, [⟨[n], true, false⟩, .blank], []⟩ =
      .ok () (pinnedPool (n + 1)).replacer := by
  simp only [recordAccess, requireEntry, fromExcept, run_eq, List.getElem?_cons_zero,
    Bool.false_eq_true, if_false, if_neg hn]
  rfl

theorem idlePool_fetch (hn : n < 2 ^ 64 - 1) :
    answer (.fetchPageRead 1) (idlePool n) =
      .ok (.guard (some ⟨0, 1, false⟩)) (pinnedPool (n + 1)) := by
  have hp : pinResident 0 (idlePool n) = .ok () { pinnedPool (n + 1) with guards := [] } := by
    have hf : (idlePool n).frames[0]? =
        some ⟨zero, 1, 0, false, true, none, none, false, false⟩ := rfl
    unfold pinResident
    rw [run_bind (frameAt_run hf)]
    simp only [if_neg (show ¬ ((0 : Nat) = 2 ^ 32 - 1) by decide), if_true]
    rw [run_bind (onReplacer_run (idle_pinned n))]
    exact onReplacer_run (idle_accessed hn.ne)
  have hg : pinPage 1 (idlePool n) = .ok (some 0) { pinnedPool (n + 1) with guards := [] } := by
    have hr : (idlePool n).requirePage 1 = .ok () := rfl
    unfold pinPage
    simp only [run_eq, hr]
    show (pinResident 0 >>= fun _ => pure (some 0)) (idlePool n) = _
    rw [run_bind hp]
    rfl
  have ht : Pool.fetchPage 1 false (idlePool n) =
      .ok (some ⟨0, 1, false⟩) (pinnedPool (n + 1)) := by
    unfold Pool.fetchPage
    rw [run_bind hg]
    rfl
  simp only [answer]
  rw [run_bind ht]
  rfl

/-- The pool when a page was to be loaded and the clock had run out: the frame is
in use and pinned, but neither tracked nor held by a guard. -/
def exhaustedPool : Pool :=
  ⟨smallDisk, [⟨zero, 1, 0, false, true, none, none, false, false⟩,
      ⟨zero, 2, 1, false, true, none, none, false, false⟩],
    (SortedMap.empty.insert 1 0).insert 2 1, [],
    ⟨1, 2 ^ 64 - 1, 1, [⟨[2 ^ 64 - 1], true, true⟩, .blank], [⟨false, 2 ^ 64 - 1, 0⟩]⟩, .none,
    idleCoordinator, []⟩

theorem idlePool_exhausted :
    answer (.fetchPageRead 2) (idlePool (2 ^ 64 - 1)) =
      .error (.overflowError "LRU-K logical timestamp exhausted") exhaustedPool := by
  rfl

theorem exhaustedPool_validate : exhaustedPool.validate =
    .error (.logicError "Buffer frame/page-table/replacer mapping is inconsistent") := by
  rfl

theorem smallPool_fetch :
    answer (.fetchPageRead 1) (smallPool .none) =
      .ok (.guard (some ⟨0, 1, false⟩)) (pinnedPool 1) := by
  rfl

theorem idlePool_served (hn : n < 2 ^ 64 - 1) :
    ∃ memory, Served (fun _ _ => True) (smallPool .none) (idlePool (n + 1)) memory := by
  induction n with
  | zero =>
    have ht : Served (fun _ _ => True) (smallPool .none) (smallPool .none) _ := .start
    have hf := ht.call (.fetchPageRead 1) trivial
    rw [finalState, smallPool_fetch] at hf
    have hd := hf.call (.drop ⟨0, 1, false⟩) trivial
    rw [finalState, pinnedPool_drop] at hd
    exact ⟨_, hd⟩
  | succ n ih =>
    obtain ⟨_, hs⟩ := ih (by omega)
    have hf := hs.call (.fetchPageRead 1) trivial
    rw [finalState, idlePool_fetch hn] at hf
    have hd := hf.call (.drop ⟨0, 1, false⟩) trivial
    rw [finalState, pinnedPool_drop] at hd
    exact ⟨_, hd⟩

/-- A client that fetches and drops one page until the clock has run out, and then
fetches another, leaves a pool that fails its own check. -/
theorem exhausted_clock_breaks_pool :
    Fresh (smallPool .none) ∧ ∃ p memory, Served (fun _ _ => True) (smallPool .none) p memory ∧
      p.validate = .error
        (.logicError "Buffer frame/page-table/replacer mapping is inconsistent") := by
  obtain ⟨memory, hserved⟩ := @idlePool_served (2 ^ 64 - 2) (by decide)
  have hlast := hserved.call (.fetchPageRead 2) trivial
  rw [finalState, show 2 ^ 64 - 2 + 1 = 2 ^ 64 - 1 from rfl, idlePool_exhausted] at hlast
  exact ⟨smallPool_fresh .none, exhaustedPool, _, hlast, exhaustedPool_validate⟩

/-- A page made and written in a transaction of a pool with a log. -/
theorem pool_is_transparent_cache_small :
    ∃ p memory, Served ClockLeft (smallPool .hook) p memory ∧ p.guards = [⟨0, 3, true⟩] ∧
      memory 3 = writeLe zero 0 1 7 ∧ Transparent p memory := by
  have hstart : Served ClockLeft (smallPool .hook) (smallPool .hook) _ := .start
  have hbegun := hstart.call (.begin .legacyTruncate) trivial
  have hmade := hbegun.call .newPageWrite (by show _ < _; decide +kernel)
  have hwritten := hmade.call (.write ⟨0, 3, true⟩ (writeLe zero 0 1 7)) trivial
  exact ⟨_, _, hwritten, by decide +kernel, by decide +kernel,
    (pool_is_transparent_cache (smallPool_fresh .hook) hwritten).1⟩

/-- Whatever a client calls, the pins of a frame are its guards, and a guard to write is
the only guard of its page. -/
theorem guards_hold_pins {p₀ p : Pool} {memory : Nat → Page} (hfresh : Fresh p₀)
    (h : Served ClockLeft p₀ p memory) :
    (∀ (f : Nat) frame, p.frames[f]? = some frame →
      frame.pinCount = p.guards.countP (·.frameId = f)) ∧
    ∀ guard ∈ p.guards, guard.writable = true →
      p.guards.countP (·.pageId = guard.pageId) = 1 := by
  have hp := (h.atRest hfresh).partition
  refine ⟨fun f frame hf => (hp.placed f frame hf).pinned, ?_⟩
  intro guard hg hw
  rw [← hp.exclusive guard hg hw]
  -- a page is in one frame, so the guards of the page are those of the frame
  refine List.countP_congr fun other ho => ?_
  have ht := (hp.mapped _ _).mpr (hp.guarded guard hg)
  have ht' := (hp.mapped _ _).mpr (hp.guarded other ho)
  rw [decide_eq_true_iff, decide_eq_true_iff]
  constructor
  · intro hpage
    rw [hpage, ht] at ht'
    exact (Option.some.inj ht').symm
  · intro hframe
    obtain ⟨_, hf, _, hid⟩ := (hp.mapped _ _).mp ht
    obtain ⟨_, hf', _, hid'⟩ := (hp.mapped _ _).mp ht'
    rw [hframe, hf] at hf'
    cases hf'
    exact hid'.symm.trans hid

theorem guards_hold_pins_write :
    ∃ p memory, Served ClockLeft (smallPool .none) p memory ∧ p.guards = [⟨0, 1, true⟩] ∧
      p.guards.countP (·.pageId = 1) = 1 := by
  have hstart : Served ClockLeft (smallPool .none) (smallPool .none) _ := .start
  have hfetched := hstart.call (.fetchPageWrite 1) (by show _ < _; decide)
  exact ⟨_, _, hfetched, rfl, (guards_hold_pins (smallPool_fresh .none) hfetched).2
    ⟨0, 1, true⟩ (.head _) rfl⟩

end MiniDb
