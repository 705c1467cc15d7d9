import MiniDb.Operations

/-!
The records of the running transaction. They form one chain from its BEGIN to
its last record, and every update on it starts from the image the page had when
the transaction first took it for writing.
-/
namespace MiniDb
open ByteBlock Outcome Engine TransactionContext

variable {e e' : Engine} {rs : List LogRecord} {log log' : LogManager} {pl : LogPayload}
  {r : LogRecord} {P : LogRecord → Prop} {formatVersion lsn p pid tid : Nat}
  {aft : Page} {s : PageState} {ctx' : TransactionContext} {mode : WalUpdateMode}

def ownRecords (records : List LogRecord) (transactionId : Nat) : List LogRecord :=
  records.filter (·.transactionId = transactionId)

/-- Each record names the one before it. -/
def Linked : Option Nat → List LogRecord → Prop
  | _, [] => True
  | prev, record :: records => record.prevLsn = prev ∧ Linked (some record.lsn) records

def lastLsnOf : Nat → List LogRecord → Nat
  | lsn, [] => lsn
  | _, record :: records => lastLsnOf record.lsn records

theorem lastLsnOf_concat (lsn : Nat) (rs : List LogRecord) (r : LogRecord) :
    lastLsnOf lsn (rs ++ [r]) = r.lsn := by
  induction rs generalizing lsn with
  | nil => rfl
  | cons head rs ih => exact ih head.lsn

theorem linked_concat :
    Linked (some lsn) (rs ++ [r]) ↔ Linked (some lsn) rs ∧ r.prevLsn = some (lastLsnOf lsn rs) := by
  induction rs generalizing lsn with
  | nil => simp [Linked, lastLsnOf]
  | cons head rs ih =>
    simp only [List.cons_append, Linked, lastLsnOf, ih]
    exact and_assoc.symm

theorem ownRecords_append (left right : List LogRecord) (tid : Nat) :
    ownRecords (left ++ right) tid = ownRecords left tid ++ ownRecords right tid := by
  simp [ownRecords]

theorem mem_ownRecords : r ∈ ownRecords rs tid ↔ r ∈ rs ∧ r.transactionId = tid := by
  simp [ownRecords]

/-- Two states of one page that go back to the same image. -/
structure SameOrigin (state state' : PageState) : Prop where
  existed : state'.beforeExisted = state.beforeExisted
  before : state'.before = state.before
  beforePageLsn : state'.beforePageLsn = state.beforePageLsn

theorem SameOrigin.refl (s : PageState) : SameOrigin s s := ⟨rfl, rfl, rfl⟩

theorem SameOrigin.trans {a b c : PageState} (ha : SameOrigin a b) (hb : SameOrigin b c) :
    SameOrigin a c :=
  ⟨hb.existed.trans ha.existed, hb.before.trans ha.before, hb.beforePageLsn.trans ha.beforePageLsn⟩

/-- `payload` records a change of the page to `after`. `previous` is what its
record before had, or the cleared image of before: outside the touched bytes
nothing moved since. -/
structure Describes (pageId : Nat) (state : PageState) (previous after : Page)
    (payload : LogPayload) : Prop where
  recognised : Recognised after
  origin : Recognised state.before
  payload : ∃ mode aware state', SameOrigin state state' ∧
    (aware = true → (pageLsnSlot after).isSome) ∧
    (∀ i, state'.touchedOffsets i = false → byteAt previous i = byteAt (normalized after) i) ∧
    payload = updatePayload mode aware pageId state' (normalized state.before) (normalized after)
      after

theorem Describes.of_origin {s' : PageState} {prev : Page}
    (h : Describes pid s prev aft pl) (ho : SameOrigin s s') : Describes pid s' prev aft pl := by
  obtain ⟨mode, aware, touched, hs, hl, hb, hp⟩ := h.payload
  refine ⟨h.recognised, ho.before ▸ h.origin, mode, aware, touched, ?_, hl, hb, ?_⟩
  · exact ⟨hs.existed.trans ho.existed.symm, hs.before.trans ho.before.symm,
      hs.beforePageLsn.trans ho.beforePageLsn.symm⟩
  · rw [ho.before]
    exact hp

/-- The identity an update record of the page carries, whatever its encoding. -/
theorem updatePayload_identity (mode : WalUpdateMode) (aware : Bool) (pid : Nat)
    (s : PageState) (nb na aft : Page) :
    (updatePayload mode aware pid s nb na
      aft).pageUpdateIdentity = some ⟨pid, s.beforeExisted⟩ := by
  cases mode with
  | fullPage => cases aware <;> rfl
  | byteRange => cases aware <;> rfl
  | adaptive =>
    simp only [updatePayload]
    split
    · cases aware <;> rfl
    · cases aware <;> rfl

theorem Describes.identity {prev : Page} (h : Describes pid s prev aft pl) :
    pl.pageUpdateIdentity = some ⟨pid, s.beforeExisted⟩ := by
  obtain ⟨mode, aware, touched, hs, _, _, rfl⟩ := h.payload
  rw [updatePayload_identity, hs.existed]

/-- A record of the transaction after its BEGIN: a reserved page, or a change of
a page it has a write intent on. -/
inductive OwnRecord (context : TransactionContext) (record : LogRecord) : Prop
  | reserve (pageId : Nat) (h : record.payload = .pageReserve ⟨pageId, pageId⟩)
  | update {pageId : Nat} {state : PageState} {previous after : Page}
      (hstate : context.pages.find? pageId = some state)
      (h : Describes pageId state previous after record.payload)

/-- The chain of the transaction in the log. -/
structure Chained (context : TransactionContext) (records : List LogRecord)
    (P : LogRecord → Prop) : Prop where
  unbegun : context.beginLsn = none →
    context.lastLsn = none ∧ ownRecords records context.transactionId = []
  begun : ∀ begin, context.beginLsn = some begin → ∃ rest,
    ownRecords records context.transactionId = context.beginRecord begin :: rest ∧
    Linked (some begin) rest ∧ context.lastLsn = some (lastLsnOf begin rest) ∧
    ∀ record ∈ rest, P record

variable {ctx : TransactionContext}

theorem Chained.mono {Q : LogRecord → Prop} (h : Chained ctx rs P)
    (hPQ : ∀ r, P r → Q r) : Chained ctx rs Q := by
  refine ⟨h.unbegun, ?_⟩
  intro begin hb
  obtain ⟨rest, ho, hl, hs, hr⟩ := h.begun begin hb
  exact ⟨rest, ho, hl, hs, fun r hm => hPQ r (hr r hm)⟩

/-- The chain depends on a context only through its identity and its LSNs. -/
theorem Chained.of_same (h : Chained ctx rs P) (hi : ctx'.transactionId = ctx.transactionId)
    (hp : ctx'.rollbackProtocol = ctx.rollbackProtocol)
    (hs : ctx'.startPageCount = ctx.startPageCount) (hb : ctx'.beginLsn = ctx.beginLsn)
    (hl : ctx'.lastLsn = ctx.lastLsn) : Chained ctx' rs P := by
  have hr : ∀ lsn, ctx'.beginRecord lsn = ctx.beginRecord lsn := by
    intro lsn
    simp only [beginRecord, beginPayload, hi, hp, hs]
  refine ⟨?_, ?_⟩
  · rw [hb, hl, hi]
    exact h.unbegun
  · intro begin hb'
    rw [hl, hi, hr]
    exact h.begun begin (hb ▸ hb')

theorem Chained.ensureBeginLogged (h : Chained ctx log.records P)
    (hb : ctx.ensureBeginLogged log = .ok (ctx', log')) :
    Chained ctx' log'.records P ∧ ctx'.beginLsn.isSome := by
  rcases ensureBeginLogged_ok hb with
    ⟨hg, rfl, rfl⟩ | ⟨hn, rfl, ha⟩
  · exact ⟨h, hg⟩
  · obtain ⟨_, _, _, _, hr, _⟩ := append_ok ha
    refine ⟨⟨by simp [TransactionContext.begun], ?_⟩, rfl⟩
    intro begin hs
    simp only [TransactionContext.begun, Option.some.injEq] at hs
    subst hs
    refine ⟨[], ?_, trivial, rfl, by simp⟩
    rw [hr, ownRecords_append]
    simp only [TransactionContext.begun]
    rw [(h.unbegun hn).2]
    simp [ownRecords, TransactionContext.beginRecord, TransactionContext.beginPayload]

theorem Chained.appendRecord (h : Chained ctx log.records P)
    (hr : ctx.appendTransactionRecord log pl = .ok (ctx', log', lsn))
    (hP : ∀ prev, P ⟨ctx.transactionId, prev, pl, lsn⟩) :
    Chained ctx' log'.records P ∧ ctx'.beginLsn.isSome := by
  obtain ⟨begun, mid, hb, ha, rfl⟩ :=
    appendTransactionRecord_ok hr
  obtain ⟨hc, hg⟩ := h.ensureBeginLogged hb
  have hi := (ensureBeginLogged_keeps hb).1.transactionId
  obtain ⟨hl, _, _, _, hrc, _⟩ := append_ok ha
  refine ⟨⟨?_, ?_⟩, hg⟩
  · intro hn
    simp only at hn
    rw [hn] at hg
    simp at hg
  · intro begin hsm
    obtain ⟨rest, ho, hln, hs, hrs⟩ := hc.begun begin hsm
    refine ⟨rest ++ [⟨ctx.transactionId, begun.lastLsn, pl, mid.nextLsn⟩], ?_, ?_, ?_, ?_⟩
    · rw [hrc, ownRecords_append]
      simp only at ho ⊢
      rw [ho]
      simp [ownRecords, hi, beginRecord, beginPayload]
    · exact linked_concat.mpr ⟨hln, hs⟩
    · rw [lastLsnOf_concat, hl]
    · intro r hm
      rcases List.mem_append.mp hm with hm | hm
      · exact hrs r hm
      · rw [List.mem_singleton.mp hm, ← hl]
        exact hP begun.lastLsn

/-- The log holds an update of the page by the transaction. -/
def HasUpdate (records : List LogRecord) (transactionId pageId : Nat) : Prop :=
  ∃ record ∈ records, record.transactionId = transactionId ∧
    ∃ existed, record.payload.pageUpdateIdentity = some ⟨pageId, existed⟩

structure OwnLog (context : TransactionContext) (records : List LogRecord) : Prop where
  chained : Chained context records (OwnRecord context)
  logged : ∀ pageId state, context.pages.find? pageId = some state →
    (state.latestAfter.isSome ↔ HasUpdate records context.transactionId pageId)

theorem beginRecord_not_update (ctx : TransactionContext) (lsn : Nat) :
    (ctx.beginRecord lsn).payload.pageUpdateIdentity = none := by
  simp only [beginRecord, beginPayload]
  cases ctx.rollbackProtocol <;> rfl

/-- Only pages with a write intent are updated. -/
theorem OwnLog.touched (h : OwnLog ctx rs) (hu : HasUpdate rs ctx.transactionId pid) :
    ∃ s, ctx.pages.find? pid = some s := by
  obtain ⟨r, hm, hd, ex, hi⟩ := hu
  have ho : r ∈ ownRecords rs ctx.transactionId :=
    mem_ownRecords.mpr ⟨hm, hd⟩
  cases hb : ctx.beginLsn with
  | none =>
    rw [(h.chained.unbegun hb).2] at ho
    simp at ho
  | some begin =>
    obtain ⟨rest, hr, _, _, hs⟩ := h.chained.begun begin hb
    rw [hr] at ho
    rcases List.mem_cons.mp ho with rfl | ho
    · rw [beginRecord_not_update] at hi
      simp at hi
    · cases hs r ho with
      | reserve q hq =>
        rw [hq] at hi
        simp [LogPayload.pageUpdateIdentity] at hi
      | @update q s _ _ hst hdesc =>
        rw [hdesc.identity] at hi
        simp only [Option.some.injEq, PageUpdateIdentity.mk.injEq] at hi
        exact ⟨s, hi.1 ▸ hst⟩

theorem OwnRecord.of_pages (h : OwnRecord ctx r) (hp : ∀ q s, ctx.pages.find? q = some s →
      ∃ s', ctx'.pages.find? q = some s' ∧ SameOrigin s s') : OwnRecord ctx' r := by
  cases h with
  | reserve q hq => exact .reserve q hq
  | update hs hd =>
    obtain ⟨s', hs', ho⟩ := hp _ _ hs
    exact .update hs' (hd.of_origin ho)

theorem OwnRecord.same_pages (h : OwnRecord ctx r) (hp : ctx'.pages = ctx.pages) :
    OwnRecord ctx' r :=
  h.of_pages fun _ s hs => ⟨s, hp ▸ hs, .refl s⟩

/-- A context that moved nothing but its boundary mark and its reservations. -/
theorem OwnLog.of_same (h : OwnLog ctx rs) (hc : Continues ctx ctx')
    (hb : ctx'.beginLsn = ctx.beginLsn) (hl : ctx'.lastLsn = ctx.lastLsn) : OwnLog ctx' rs := by
  obtain ⟨⟨hi, hpr, hs⟩, hp⟩ := hc
  refine ⟨?_, ?_⟩
  · refine (h.chained.of_same hi hpr hs hb hl).mono ?_
    exact fun r hr => hr.same_pages hp
  · rw [hp, hi]
    exact h.logged

theorem OwnLog.intent {bef : Page} (h : OwnLog ctx rs)
    (hi : ctx.notePageWriteIntent p bef = .ok ctx') : OwnLog ctx' rs := by
  rcases notePageWriteIntent_ok hi with
    ⟨_, _, rfl⟩ | ⟨hn, fresh, hf, rfl⟩
  · exact h.of_same ⟨⟨rfl, rfl, rfl⟩, rfl⟩ rfl rfl
  · refine ⟨?_, ?_⟩
    · refine Chained.mono (h.chained.of_same rfl rfl rfl rfl rfl) ?_
      intro r hr
      refine hr.of_pages ?_
      intro q s hs
      refine ⟨s, ?_, .refl s⟩
      have hq : q ≠ p := by
        rintro rfl
        rw [hn] at hs
        simp at hs
      simp [setPage, hq, hs]
    · intro q s hs
      simp only [setPage, SortedMap.find?_insert] at hs
      split at hs
      · rename_i hq
        simp only [Option.some.injEq] at hs
        subst hs hq
        rw [(intentState_ok hf).2.2.1]
        refine ⟨by simp, ?_⟩
        intro hu
        obtain ⟨s, hs⟩ := h.touched hu
        rw [hn] at hs
        simp at hs
      · exact h.logged q s hs

theorem hasUpdate_append {left right : List LogRecord} :
    HasUpdate (left ++ right) tid pid ↔ HasUpdate left tid pid ∨ HasUpdate right tid pid := by
  simp only [HasUpdate, List.mem_append]
  constructor
  · rintro ⟨r, hm | hm, hr⟩
    · exact .inl ⟨r, hm, hr⟩
    · exact .inr ⟨r, hm, hr⟩
  · rintro (⟨r, hm, hr⟩ | ⟨r, hm, hr⟩)
    · exact ⟨r, .inl hm, hr⟩
    · exact ⟨r, .inr hm, hr⟩

theorem ensureBeginLogged_hasUpdate (h : ctx.ensureBeginLogged log = .ok (ctx', log')) :
    HasUpdate log'.records tid pid ↔ HasUpdate log.records tid pid := by
  rcases ensureBeginLogged_ok h with ⟨_, _, rfl⟩ | ⟨_, _, ha⟩
  · rfl
  · obtain ⟨_, _, _, _, hr, _⟩ := append_ok ha
    rw [hr, hasUpdate_append]
    refine or_iff_left ?_
    rintro ⟨r, hm, _, ex, hi⟩
    rw [List.mem_singleton.mp hm] at hi
    have hn := beginRecord_not_update ctx log.nextLsn
    rw [beginRecord] at hn
    rw [hn] at hi
    simp at hi

theorem appendTransactionRecord_hasUpdate
    (h : ctx.appendTransactionRecord log pl = .ok (ctx', log', lsn)) :
    HasUpdate log'.records ctx.transactionId pid ↔ HasUpdate log.records ctx.transactionId pid ∨
        ∃ ex, pl.pageUpdateIdentity = some ⟨pid, ex⟩ := by
  obtain ⟨begun, mid, hb, ha, _⟩ :=
    appendTransactionRecord_ok h
  obtain ⟨_, _, _, _, hr, _⟩ := append_ok ha
  rw [hr, hasUpdate_append, ensureBeginLogged_hasUpdate hb]
  simp [HasUpdate]

theorem isPageLsnAware_slot {supports : Bool} {na : Page}
    (h : isPageLsnAware formatVersion pid supports na) : supports = true := by
  simp only [isPageLsnAware, Bool.and_eq_true] at h
  exact h.1

theorem touch_origin (s : PageState) (cmp na : Page) :
    SameOrigin s (s.touch cmp na) := ⟨rfl, rfl, rfl⟩

theorem touch_bytes {cmp na : Page} {i : Nat} (h : (s.touch cmp na).touchedOffsets i = false) :
    byteAt cmp i = byteAt na i := by
  simp only [PageState.touch, Bool.or_eq_false_iff, bne_eq_false_iff_eq] at h
  exact h.2

/-- What the logged case of a preparation appends and records. -/
theorem logged_describes {prepared : PreparedPage} (ha : Recognised aft)
    (hb : Recognised s.before) (hl : ctx.logPageUpdate log mode
      (isPageLsnAware formatVersion p (pageLsnSlot aft).isSome (normalized aft)) p
      (s.touch (s.latestAfter.getD (normalized s.before)) (normalized aft))
      (normalized s.before) (normalized aft) aft = .ok prepared) :
    ∃ pl appended log' lsn, Describes p s s.current aft pl ∧
      ctx.appendTransactionRecord log pl = .ok (appended, log', lsn) ∧
      prepared.context = appended.setPage p ((s.touch s.current
        (normalized aft)).recorded (normalized aft) lsn) ∧
      prepared.log = log' ∧ prepared.lsn = some lsn := by
  obtain ⟨appended, log', lsn, page, hp, _, rfl⟩ :=
    logPageUpdate_ok hl
  refine ⟨_, appended, log', lsn, ?_, hp, rfl, rfl, rfl⟩
  exact ⟨ha, hb, mode, _, _, touch_origin _ _ _, isPageLsnAware_slot,
    fun i hi => touch_bytes hi, rfl⟩

theorem OwnLog.prepared {prepared : PreparedPage} (h : OwnLog ctx log.records)
    (ho : ctx.PrepareOutcome log mode formatVersion p aft prepared) :
    OwnLog prepared.context prepared.log.records := by
  cases ho with
  | absent => exact h
  | unchanged => exact h
  | @logged s _ hst haft hbef hdiffers hlgd =>
    obtain ⟨pl, appended, log', lsn, hd, ha, hc, rfl, _⟩ :=
      logged_describes haft hbef hlgd
    obtain ⟨⟨⟨hi, _, _⟩, hp⟩, _⟩ := appendTransactionRecord_keeps ha
    rw [hc]
    have hs : ∀ q old, ctx.pages.find? q = some old → ∃ new,
        (appended.setPage p ((s.touch s.current (normalized aft)).recorded
          (normalized aft) lsn)).pages.find? q = some new ∧ SameOrigin old new := by
      intro q old hl
      simp only [setPage, SortedMap.find?_insert, hp]
      split
      · rename_i hq
        subst hq
        rw [hst] at hl
        cases hl
        exact ⟨_, rfl, rfl, rfl, rfl⟩
      · exact ⟨old, hl, .refl old⟩
    have hh := (h.chained.mono (Q := OwnRecord (appended.setPage p
      ((s.touch s.current (normalized aft)).recorded (normalized aft) lsn)))
      fun r hr => hr.of_pages hs).appendRecord ha fun prev =>
        (OwnRecord.update hst hd).of_pages hs
    refine ⟨hh.1.of_same rfl rfl rfl rfl rfl, ?_⟩
    intro q new hn
    simp only [setPage, SortedMap.find?_insert, hp] at hn
    show _ ↔ HasUpdate _ appended.transactionId q
    rw [hi, appendTransactionRecord_hasUpdate ha, hd.identity]
    split at hn
    · rename_i hq
      simp only [Option.some.injEq] at hn
      subst hn hq
      simp [PageState.recorded]
    · rename_i hq
      rw [h.logged q new hn]
      simp [Ne.symm hq]

theorem OwnLog.begun (h : OwnLog ctx log.records)
    (hb : ctx.ensureBeginLogged log = .ok (ctx', log')) : OwnLog ctx' log'.records := by
  obtain ⟨⟨⟨hi, _, _⟩, hp⟩, _⟩ := ensureBeginLogged_keeps hb
  refine ⟨((h.chained.mono fun r hr => hr.same_pages hp).ensureBeginLogged hb).1, ?_⟩
  intro q s hs
  rw [ensureBeginLogged_hasUpdate hb, hi]
  exact h.logged q s (hp ▸ hs)

theorem OwnLog.reserved (h : OwnLog ctx log.records)
    (hrs : ctx.prepareForPhysicalPageAppend log p = .ok (ctx', log', lsn)) :
    OwnLog ctx' log'.records := by
  simp only [prepareForPhysicalPageAppend, bind_ok, Prod.exists] at hrs
  obtain ⟨_, _, begun, mid, hb, hv⟩ := hrs
  have hg : OwnLog begun mid.records := by
    refine OwnLog.begun ?_ hb
    exact h.of_same ⟨⟨rfl, rfl, rfl⟩, rfl⟩ rfl rfl
  rcases reservePage_ok hv with
    ⟨rfl, rfl, _⟩ | ⟨app, ha, rfl, _⟩
  · exact hg
  · obtain ⟨⟨⟨hi', _, _⟩, hp'⟩, _⟩ := appendTransactionRecord_keeps ha
    have hc := (hg.chained.mono fun r hr => hr.same_pages hp').appendRecord ha
      fun prev => @OwnRecord.reserve app _ p rfl
    have hap : OwnLog app log'.records := by
      refine ⟨hc.1, ?_⟩
      intro q s hs
      rw [hi', appendTransactionRecord_hasUpdate ha]
      rw [hg.logged q s (hp' ▸ hs)]
      simp [LogPayload.pageUpdateIdentity]
    exact hap.of_same ⟨⟨rfl, rfl, rfl⟩, rfl⟩ rfl rfl

/-- What a run keeps about the log: transaction ids are below the next one, and
the running transaction's chain is in the log. -/
structure LogOwned (e : Engine) : Prop where
  ids : ∀ record ∈ e.log.records, record.transactionId < e.nextTransactionId
  own : ∀ context, e.context = some context → context.transactionId < e.nextTransactionId ∧
    OwnLog context e.log.records

theorem LogOwned.context (h : LogOwned e) (hc : e.context = some ctx)
    (hc' : e'.context = some ctx') (hi : ctx'.transactionId = ctx.transactionId)
    (hn : e'.nextTransactionId = e.nextTransactionId) (ho : OwnLog ctx' e'.log.records)
    (hs : ∀ r ∈ e'.log.records, r ∈ e.log.records ∨
      r.transactionId = ctx.transactionId) : LogOwned e' := by
  have hlt := (h.own ctx hc).1
  refine ⟨?_, ?_⟩
  · intro r hm
    rw [hn]
    rcases hs r hm with hm | hrc
    · exact h.ids r hm
    · rw [hrc]
      exact hlt
  · intro run hr
    rw [hc'] at hr
    cases hr
    rw [hi, hn]
    exact ⟨hlt, ho⟩

/-- Every record of `log'` was in `log` or is one of the transaction. -/
def AddsOwn (transactionId : Nat) (log log' : LogManager) : Prop :=
  ∀ record ∈ log'.records, record ∈ log.records ∨ record.transactionId = transactionId

theorem AddsOwn.trans {a b c : LogManager} (ha : AddsOwn tid a b)
    (hb : AddsOwn tid b c) : AddsOwn tid a c := by
  intro r hm
  rcases hb r hm with hm | hi
  · exact ha r hm
  · exact .inr hi

theorem append_addsOwn {pv : Option Nat} (h : log.append tid pv pl = .ok (log', lsn)) :
    AddsOwn tid log log' := by
  intro r hm
  rw [(append_extends h).records] at hm
  rcases List.mem_append.mp hm with hm | hm
  · exact .inl hm
  · rw [List.mem_singleton.mp hm]
    exact .inr rfl

theorem ensureBeginLogged_addsOwn (h : ctx.ensureBeginLogged log = .ok (ctx', log')) :
    AddsOwn ctx.transactionId log log' := by
  rcases ensureBeginLogged_ok h with ⟨_, _, rfl⟩ | ⟨_, _, ha⟩
  · exact fun r hm => .inl hm
  · exact append_addsOwn ha

theorem appendTransactionRecord_addsOwn
    (h : ctx.appendTransactionRecord log pl = .ok (ctx', log', lsn)) :
    AddsOwn ctx.transactionId log log' := by
  obtain ⟨begun, mid, hb, ha, _⟩ :=
    appendTransactionRecord_ok h
  exact (ensureBeginLogged_addsOwn hb).trans (append_addsOwn ha)

theorem prepareOutcome_addsOwn {prep : PreparedPage}
    (h : ctx.PrepareOutcome log mode formatVersion p aft prep) :
    AddsOwn ctx.transactionId log prep.log := by
  cases h with
  | absent => exact fun r hm => .inl hm
  | unchanged => exact fun r hm => .inl hm
  | logged _ _ _ _ hlgd =>
    obtain ⟨_, _, _, _, ha, _, rfl⟩ := logPageUpdate_ok hlgd
    exact appendTransactionRecord_addsOwn ha

theorem prepareForPhysicalPageAppend_addsOwn
    (h : ctx.prepareForPhysicalPageAppend log p = .ok (ctx', log', lsn)) :
    AddsOwn ctx.transactionId log log' := by
  obtain ⟨begun, mid, hb, hr⟩ := prepareForPhysicalPageAppend_ok h
  have hi := (ensureBeginLogged_keeps hb).1.transactionId
  have hf := ensureBeginLogged_addsOwn hb
  rcases reservePage_ok hr with ⟨_, rfl, _⟩ | ⟨_, ha, _, _⟩
  · exact hf
  · exact hf.trans (hi ▸ appendTransactionRecord_addsOwn ha)

theorem flushUpToIfValid_records {lsn : Option Nat} (h : flushUpToIfValid log lsn = .ok log') :
    log'.records = log.records := by
  cases lsn with
  | none =>
    simp only [flushUpToIfValid, Except.ok.injEq] at h
    rw [h]
  | some lsn => exact (flushUpTo_fields h).1

theorem LogOwned.quiet (h : LogOwned e) (hr : e'.log.records = e.log.records)
    (hc : e'.context = e.context) (hn : e'.nextTransactionId = e.nextTransactionId) :
    LogOwned e' := by
  refine ⟨?_, ?_⟩
  · rw [hr, hn]
    exact h.ids
  · rw [hc, hr, hn]
    exact h.own

theorem LogOwned.effect (h : LogOwned e) (he : Effect e e') : LogOwned e' := by
  have hk : ∀ {ctx : TransactionContext}, ∀ r ∈ e.log.records,
      r ∈ e.log.records ∨ r.transactionId = ctx.transactionId :=
    fun r hm => .inl hm
  cases he with
  | mutated => exact h.quiet rfl rfl rfl
  | pool he =>
    cases he with
    | repinned | loaded | evicted | wroteBack => exact h.quiet rfl rfl rfl
    | forced lsn hlog => exact h.quiet (flushUpTo_fields hlog).1 rfl rfl
    | prepared hc _ _ hprep _ =>
      have ho := preparePageForWrite_outcome hprep
      exact h.context hc rfl ho.same.transactionId rfl
        ((h.own _ hc).2.prepared ho) (prepareOutcome_addsOwn ho)
  | intended hc _ _ hint | headerIntended hc _ hint =>
    exact h.context hc rfl (notePageWriteIntent_same hint).transactionId rfl
      ((h.own _ hc).2.intent hint) hk
  | @persisted ctx prep log disk s hdr hc _ _ hprep hlog _ =>
    have ho := preparePageForWrite_outcome hprep
    have hr := flushUpToIfValid_records hlog
    refine h.context hc rfl ho.same.transactionId rfl ?_ ?_
    · rw [hr]
      exact (h.own _ hc).2.prepared ho
    · rw [hr]
      exact prepareOutcome_addsOwn ho
  | reserved hc hrsvd =>
    exact h.context hc rfl (prepareForPhysicalPageAppend_keeps hrsvd).transactionId rfl
      ((h.own _ hc).2.reserved hrsvd) (prepareForPhysicalPageAppend_addsOwn hrsvd)
  | appended hc _ hconf hint =>
    obtain ⟨hct, hb, hl⟩ := notePhysicalPageAppend_keeps hconf
    exact h.context hc rfl (hct.sameAfter (notePageWriteIntent_same hint)).transactionId rfl
      (((h.own _ hc).2.of_same hct hb hl).intent hint) hk
  | @bounded ctx hc _ _ =>
    have hc' : e.markSafeBoundary.context = some { ctx with safeBoundary := true } := by
      simp [markSafeBoundary, hc]
    refine h.context hc hc' rfl rfl ?_ hk
    exact (h.own _ hc).2.of_same ⟨⟨rfl, rfl, rfl⟩, rfl⟩ rfl rfl

theorem LogOwned.effects (h : LogOwned e) (he : Effects e e') : LogOwned e' := by
  induction he with
  | refl => exact h
  | tail _ heff ih => exact ih.effect heff

end MiniDb
