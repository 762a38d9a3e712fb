import ZelerPlatform.Acquisition.DiscoveryPass

/-!
# Runs of workers that discover orders

Any number of workers take steps on the acquisitions of a store, each on what it has read before,
and anyone else may write to it as long as the enumeration of the pass is left alone.
-/

namespace ZelerPlatform.Acquisition

open Fallible Mongo Transition
open Imports (Texts)
open Recovery (Committed current Head Job Queue Readings Receipt beginPublication beginPublication_ok
  beginVerification beginVerification_ok current_stored id_of_sameIdentity memberships progress
  progress_ok release_ok)
open OrderRangeNode OrdersProducer

/-! ### Steps -/

/-- The answers about the acquisition are true. -/
def Tells (producer : OrdersProducer) (orders : List SourceOrder) (pass : Head) :
    OrdersEvent → Prop
  | .answered head bounds page => head.id = pass.id → Truthful producer orders bounds page
  | _ => True

section

variable {producer : OrdersProducer} {orders : List SourceOrder} {pass head acting : Head}
variable {s s' : RangeDb} {saved : Head} {receipts : List Receipt} {e : OrdersEvent}
variable {phase phase' : OrdersPhase}

/-- A transaction on this pass or on another one. -/
theorem kept_of_committed (h : Passing producer orders pass s head)
    (committed : Committed acting saved receipts s.db s'.db) (persist : Persist s.ranges s'.ranges)
    (elsewhere : ¬ SamePass acting pass → rangesOf pass s'.ranges = rangesOf pass s.ranges)
    (own : SamePass acting pass → Passing producer orders pass s acting →
      storedOf acting s = some acting → Kept producer orders pass s s' acting saved) :
    ∃ head', Kept producer orders pass s s' head head' := by
  by_cases same : SamePass acting pass
  · obtain rfl := h.current same.id committed.stored
    exact ⟨saved, own same h committed.stored⟩
  · exact Kept.of_committed h committed same (elsewhere same) persist

theorem behind_of_stored (h : storedOf acting s = some acting) :
    Behind acting s := by
  intro stored hstored
  rw [Option.some.inj (h.symm.trans hstored)]

/-- What a step of a worker does, and what the worker knows after it. -/
theorem kept_of_move (digest : ∀ text, producer.sha256 text ≠ "")
    (orders_distinct : (orders.map SourceOrder.id).Nodup) (h : Passing producer orders pass s head)
    (holds : Holds orders pass phase s) (tells : Tells producer orders pass e)
    (move : OrdersMove producer phase s e phase' s') :
    ∃ head', Kept producer orders pass s s' head head' ∧ Holds orders pass phase' s' := by
  cases move with
  | «open» going hcurrent =>
      obtain ⟨hstored, jobs, rfl⟩ := current_stored hcurrent
      exact ⟨head, .of_jobs h jobs, fun _ => ⟨behind_of_stored hstored, going⟩⟩
  | readAll hnone =>
      refine ⟨head, .of_jobs h _, fun own => ?_⟩
      obtain ⟨hbehind, hgoing⟩ := holds own
      exact ⟨hbehind, hgoing, hnone⟩
  | readRange inHand hactive =>
      refine ⟨head, .of_jobs h _, fun own => ?_⟩
      obtain ⟨hbehind, hgoing⟩ := holds own
      obtain ⟨mem, hid, -, -, -⟩ := active_ok hactive
      exact ⟨hbehind, hgoing, hid, _, mem, rfl, rfl⟩
  | divide hpage => exact ⟨head, .of_jobs h _, holds⟩
  | answer hpage =>
      refine ⟨head, .of_jobs h _, fun own => ?_⟩
      obtain ⟨hbehind, hgoing, hasked⟩ := holds own
      exact ⟨hbehind, hgoing, hasked, readPage_ok (tells (own _ _ rfl).id) hpage⟩
  | search hunseen =>
      refine ⟨head, .of_jobs h _, fun own => ?_⟩
      obtain ⟨hbehind, hgoing, hasked, hbatch⟩ := holds own
      exact ⟨hbehind, hgoing, hasked, hbatch, fun _ => hunseen⟩
  | compare verifying hcompare => exact ⟨head, .of_jobs h _, holds⟩
  | saveFirst first hsave =>
      obtain ⟨committed, hranges, -⟩ := save_ok hsave
      obtain ⟨head', hkept⟩ := kept_of_committed h committed (by rw [hranges]; exact .refl _)
        (fun _ => by rw [hranges]) fun same hacting hstored => by
          obtain ⟨-, hgoing, hasked, hbatch, hfresh⟩ := holds fun _ _ hhand => by
            cases hhand
            exact same
          exact .of_save orders_distinct hacting same hgoing hasked hbatch (hfresh hstored) hsave
      exact ⟨head', hkept, fun _ => trivial⟩
  | saveCompared hsave =>
      obtain ⟨committed, hranges, -⟩ := save_ok hsave
      obtain ⟨head', hkept⟩ := kept_of_committed h committed (by rw [hranges]; exact .refl _)
        (fun _ => by rw [hranges]) fun same hacting hstored => by
          obtain ⟨-, hgoing, hasked, hbatch, hfresh⟩ := holds fun _ _ hhand => by
            cases hhand
            exact same
          exact .of_save orders_distinct hacting same hgoing hasked hbatch (hfresh hstored) hsave
      exact ⟨head', hkept, fun _ => trivial⟩
  | savePage hpage =>
      obtain ⟨committed, range, turned, hpaged, -⟩ := page_ok hpage
      obtain ⟨-, -, hscope, -, -⟩ := active_ok hpaged.active
      have hmoved := hpaged.moved
      obtain ⟨head', hkept⟩ := kept_of_committed h committed
        (hpaged.turned.persist (by rw [hmoved]; rfl) (by rw [hmoved]; rfl))
        (fun other => hpaged.turned.elsewhere (not_inScope other hscope)
          (by rw [hmoved]; exact not_inScope other hscope))
        fun same hacting hstored => by
          obtain ⟨-, hgoing, hasked, hbatch, hfresh⟩ := holds fun _ _ hhand => by
            cases hhand
            exact same
          exact .of_page digest orders_distinct hacting same hgoing hasked hbatch (hfresh hstored)
            hpage
      exact ⟨head', hkept, fun _ => trivial⟩
  | start hstart =>
      obtain ⟨hdivides, -, -, -, ranges, first, second, hdocs, hhalved⟩ := start_ok hstart
      obtain ⟨head', hkept⟩ := kept_of_committed h hdivides.committed
        (fun range mem => hhalved.persist range (by rw [hdocs]; exact List.mem_append_left _ mem))
        (fun other => by
          rw [hhalved.elsewhere rangeInScope_rangeOf other]
          simp [rangesOf, Collection.find, hdocs, not_inScope other rangeInScope_rangeOf])
        fun same hacting _ => by
          obtain ⟨-, hgoing, -⟩ := holds fun _ _ hhand => by
            cases hhand
            exact same
          exact .of_start digest hacting same hgoing hstart
      exact ⟨head', hkept, fun _ => trivial⟩
  | split hsplit =>
      obtain ⟨hdivides, parent, first, second, hactive, hhalved⟩ := split_ok hsplit
      obtain ⟨-, -, hscope, -, -⟩ := active_ok hactive
      obtain ⟨head', hkept⟩ := kept_of_committed h hdivides.committed hhalved.persist
        (hhalved.elsewhere hscope) fun same hacting _ => by
          obtain ⟨-, hgoing, -⟩ := holds fun _ _ hhand => by
            cases hhand
            exact same
          exact .of_split digest hacting same hgoing hsplit
      exact ⟨head', hkept, fun _ => trivial⟩
  | @release _ _ _ _ _ _ _ db hhand released =>
      obtain ⟨jobs, rfl⟩ | ⟨hhanded, hpass⟩ := release_ok released
      · exact ⟨head, .of_jobs h jobs, fun _ => trivial⟩
      · obtain ⟨head', hkept⟩ : ∃ head', Kept producer orders pass s { s with db } head head' :=
          Kept.of_handedOver h hhanded rfl (.inl hpass)
        exact ⟨head', hkept, fun _ => trivial⟩
  | fail => exact ⟨head, .of_jobs h _, fun _ => trivial⟩

end

/-! ### Everyone else -/

/-- A step of somebody else keeps bounds and generation, goes back to no earlier checkpoint or
pass, and leaves an enumeration of the pass alone. -/
structure Elsewhere (pass : Head) (s s' : RangeDb) (head head' : Head) : Prop where
  stored : storedOf pass s' = some head'
  bounds : head'.dateFrom = head.dateFrom ∧ head'.dateTo = head.dateTo
  generation : head'.generation = head.generation
  later : head.passNumber ≤ head'.passNumber
  onward : Onward pass s s' head head'
  quiet : head'.passNumber = pass.passNumber → enumerating head = true ∨ enumerating head' = true →
    head' = head ∧ s'.staged pass = s.staged pass ∧
      rangesOf pass s'.ranges = rangesOf pass s.ranges

/-- What happens besides discovery: an acquisition is hydrated, handed over to a verification or
to a publication, or anything that leaves the enumeration alone. -/
inductive OrdersOutside (producer : OrdersProducer) (pass : Head) :
    RangeDb → OrdersEvent → RangeDb → Prop
  | hydrate {s job acting proposed saved receipts now db} (hydrating : enumerating acting = false)
      (hydrated : enumerating saved = false)
      (h : progress producer.queue producer.evidence job acting proposed receipts now s.db =
        .ok (saved, db)) : OrdersOutside producer pass s .outside { s with db }
  | verify {s job acting saved now db}
      (h : beginVerification producer.queue producer.evidence job acting now s.db =
        .ok (saved, db)) : OrdersOutside producer pass s .outside { s with db }
  | publish {s job acting saved now db}
      (h : beginPublication producer.queue producer.evidence job acting now s.db =
        .ok (saved, db)) : OrdersOutside producer pass s .outside { s with db }
  | elsewhere {s s'} (h : ∀ head, storedOf pass s = some head →
      ∃ head', Elsewhere pass s s' head head') : OrdersOutside producer pass s .outside s'

theorem kept_of_outside {producer : OrdersProducer} {orders : List SourceOrder} {pass head : Head}
    {s s' : RangeDb} {e : OrdersEvent} (h : Passing producer orders pass s head)
    (outside : OrdersOutside producer pass s e s') :
    ∃ head', Kept producer orders pass s s' head head' := by
  cases outside with
  | hydrate hydrating hydrated hprogress =>
      obtain ⟨rfl, committed⟩ := progress_ok hprogress
      refine kept_of_committed h committed (.refl _) (fun _ => rfl) fun same hacting _ => ?_
      obtain ⟨-, hfrom, hto, hgeneration, hpass, -⟩ := id_of_sameIdentity committed.identity
      exact .of_later hacting (storedOf_of_eq committed.heads same.id) ⟨hfrom.symm, hto.symm⟩
        hgeneration.symm hpass.le (by rw [committed.revision]; omega) (fun _ => hydrated)
        (fun _ => hydrating) (.refl _)
  | verify hverify =>
      obtain ⟨hhanded, -, hpass⟩ := beginVerification_ok hverify
      exact Kept.of_handedOver h hhanded rfl (.inl hpass)
  | publish hpublish =>
      obtain ⟨hhanded, hphase, hcursor, hphase', hpass⟩ := beginPublication_ok hpublish
      refine Kept.of_handedOver h hhanded rfl (.inr ⟨hpass, ?_, ?_⟩)
      · rw [enumerating, hphase, hcursor]
        simp
      · rw [enumerating, hphase']
        simp
  | elsewhere helsewhere =>
      obtain ⟨head', helse⟩ := helsewhere head h.stored
      refine ⟨head', ⟨⟨helse.stored, ⟨helse.bounds.1.trans h.bounds.1,
        helse.bounds.2.trans h.bounds.2⟩, helse.generation.trans h.generation,
        h.later.trans helse.later, fun hpass hgoing => ?_⟩, helse.onward, ?_⟩⟩
      · obtain ⟨rfl, hstaged, hranges⟩ := helse.quiet hpass (.inr hgoing)
        exact (h.going hpass hgoing).congr hstaged hranges
      · intro _ hgoing hpass hended
        obtain ⟨rfl, -, -⟩ := helse.quiet hpass (.inl hgoing)
        rw [hgoing] at hended
        cases hended

/-! ### Runs -/

/-- Workers named by numbers over the documents. -/
abbrev OrdersPool := Pool Nat RangeDb OrdersPhase

/-- A worker takes a step, on a true answer if it gets one, or somebody else does. -/
def OrdersStep (producer : OrdersProducer) (orders : List SourceOrder) (pass : Head) :
    OrdersPool → OrdersEvent → OrdersPool → Prop :=
  Pool.Step (fun _ phase s e phase' s' => Tells producer orders pass e ∧
    OrdersMove producer phase s e phase' s') (OrdersOutside producer pass)

/-- A pass that has just begun. -/
structure Begun (pass : Head) (pool : OrdersPool) : Prop where
  stored : storedOf pass pool.shared = some pass
  undivided : pass.activeRangeId = none
  offset : offsetOf pass = 0
  discovered : pass.discoveredCount = 0
  staged : pool.shared.staged pass = []
  ranges : rangesOf pass pool.shared.ranges = []
  idle : ∀ i, pool.control i = .idle

section

variable {producer : OrdersProducer} {orders : List SourceOrder} {pass head : Head}
variable {start pool pool' : OrdersPool} {es : List OrdersEvent} {e : OrdersEvent}

theorem Begun.passing (begun : Begun pass start) :
    Passing producer orders pass start.shared pass where
  stored := begun.stored
  bounds := ⟨rfl, rfl⟩
  generation := rfl
  later := le_rfl
  going := fun _ _ => by
    refine ⟨?_, ?_, ?_, fun _ => ⟨begun.ranges, ?_⟩, fun hdivided => absurd begun.undivided hdivided⟩
    · simp [begun.staged]
    · simp [begun.staged]
    · simp [begun.staged, begun.discovered, memberships]
    · simp [begun.staged, begun.offset]

/-- In every state reached the pass goes on as it should, and workers know what they have read. -/
theorem passing_of_run (digest : ∀ text, producer.sha256 text ≠ "")
    (orders_distinct : (orders.map SourceOrder.id).Nodup) (begun : Begun pass start)
    (run : Run (OrdersStep producer orders pass) start es pool) :
    (∃ head, Passing producer orders pass pool.shared head) ∧
    ∀ i, Holds orders pass (pool.control i) pool.shared := by
  refine Pool.invariant (I := fun s => ∃ head, Passing producer orders pass s head)
    (L := fun _ phase s => Holds orders pass phase s) ⟨pass, begun.passing⟩ ?_ ?_ ?_ ?_ ?_ run
  · intro i
    rw [begun.idle i]
    exact fun _ => trivial
  · rintro i phase s e phase' s' ⟨head, hpassing⟩ holds ⟨htells, hmove⟩
    obtain ⟨head', hkept, hholds⟩ :=
      kept_of_move digest orders_distinct hpassing holds htells hmove
    exact ⟨⟨head', hkept.passing⟩, hholds⟩
  · rintro i j phase other s e phase' s' - ⟨head, hpassing⟩ holds hother ⟨htells, hmove⟩
    obtain ⟨head', hkept, -⟩ := kept_of_move digest orders_distinct hpassing holds htells hmove
    exact hother.onward hpassing.stored hkept.passing.stored hkept.onward
  · rintro s e s' ⟨head, hpassing⟩ houtside
    obtain ⟨head', hkept⟩ := kept_of_outside hpassing houtside
    exact ⟨head', hkept.passing⟩
  · rintro j other s e s' ⟨head, hpassing⟩ hother houtside
    obtain ⟨head', hkept⟩ := kept_of_outside hpassing houtside
    exact hother.onward hpassing.stored hkept.passing.stored hkept.onward

end

/-- Whatever workers do on an acquisition at a time, whatever they repeat, and however its bounds
are divided: the step that ends the enumeration of a pass leaves the receipts of exactly the
orders that the source has, memberships for those created in the bounds and exclusions for the
others of the hours asked for, with the totals of both on the checkpoint. -/
theorem discovery_exact (producer : OrdersProducer) (digest : ∀ text, producer.sha256 text ≠ "")
    (orders : List SourceOrder) (orders_distinct : (orders.map SourceOrder.id).Nodup)
    (pass : Head) (start pool pool' : OrdersPool) (begun : Begun pass start)
    (es : List OrdersEvent) (e : OrdersEvent)
    (run : Run (OrdersStep producer orders pass) start es pool)
    (last : OrdersStep producer orders pass pool e pool') (before after : Head)
    (stored : storedOf pass pool.shared = some before)
    (same : before.passNumber = pass.passNumber) (enumerates : enumerating before = true)
    (stored' : storedOf pass pool'.shared = some after)
    (same' : after.passNumber = pass.passNumber) (ended : enumerating after = false) :
    Exact orders (rootNode pass) after (pool'.shared.staged pass) := by
  obtain ⟨⟨head, hpassing⟩, hholds⟩ := passing_of_run digest orders_distinct begun run
  obtain rfl : head = before := Option.some.inj (hpassing.stored.symm.trans stored)
  obtain ⟨head', hkept⟩ : ∃ head', Kept producer orders pass pool.shared pool'.shared head head' := by
    cases last with
    | move i hmove =>
        obtain ⟨head', hkept, -⟩ :=
          kept_of_move digest orders_distinct hpassing (hholds i) hmove.1 hmove.2
        exact ⟨head', hkept⟩
    | env houtside => exact kept_of_outside hpassing houtside
  obtain rfl : head' = after := Option.some.inj (hkept.passing.stored.symm.trans stored')
  exact hkept.ended same enumerates same' ended

/-! ### Two orders of one hour -/

theorem budget_positive : 1 ≤ (10000 : Int) := by decide

theorem two_slots : 0 < 2 := by decide

theorem no_inventory_slot : 0 ≤ min 1 2 := by decide

/-- The dates of the orders below, which were created within the first two hours. -/
def orderTexts : Texts :=
  { Imports.plainTexts with
    fromisoformat := fun text =>
      if text = "first" then some (1800000000, some 0)
      else if text = "second" then some (5400000000, some 0) else none }

def ordersProducer : OrdersProducer where
  queue := {
    maxActiveJobsPerSeller := 2, reservedInventorySlots := 0, enabledModels := [.orders],
    allowedSellers := none, policyAuthority := none, yearHistoryEnabled := true,
    positive := two_slots, reserved := no_inventory_slot }
  evidence := ⟨fun _ => true, fun _ => true, fun _ _ _ => true⟩
  sha256 text := "digest of " ++ text
  texts := orderTexts
  loads _ := []
  rangeFits _ := true
  resultBudget := 10000
  positive := budget_positive
  fingerprint _ := ""
  dumps _ := ""
  pageFits _ := true

/-- An hour and a quarter. -/
def shortPass : Head where
  id := "acquisition"
  sellerId := "1"
  readModel := .orders
  planId := "plan"
  scopeId := "orders:19700101:19700102"
  jobId := "job"
  dateFrom := 0
  dateTo := 4500000
  generation := 1
  passNumber := 1
  checkpointRevision := 0
  pageSequence := 0
  phase := .discover
  nextCursor := none
  activeRangeId := none
  sourceTotal := none
  discoveredCount := 0
  fetchedCount := 0
  publishedCount := 0
  driftRestarts := 0
  publishAfter := none
  observedFrom := none
  observedUntil := none
  createdAt := 0
  updatedAt := 0

def shortJob : Job where
  id := "job"
  sellerId := "1"
  readModel := .orders
  state := .running
  attempts := 1
  createdAt := 0
  updatedAt := 0
  availableAt := 0
  attemptToken := some "token"
  leaseUntil := some 60000
  dateFrom := some 0
  dateTo := some 4500000

def shortDb : RangeDb where
  db := ⟨⟨[shortJob], List.nodup_singleton _⟩, .empty, ⟨[shortPass], List.nodup_singleton _⟩, .empty⟩
  ranges := .empty

def shortOrders : List SourceOrder := [⟨"7", 1800000⟩, ⟨"8", 5400000⟩]

def shortPage : Value :=
  .document [("paging", .document [("total", .int 2)]),
    ("results", .array [
      .document [("id", .int 8), ("date_created", .string "second")],
      .document [("id", .int 7), ("date_created", .string "first")]])]

/-- What one worker does, and whether it ends the enumeration. -/
def shortSteps : Option (List Receipt × Bool × Head) := do
  let (_, db) ← (current ordersProducer.queue shortJob shortPass 0 shortDb.db).toOption
  let .page total receipts ← (ordersProducer.readPage shortPass none 0 shortPage).toOption | none
  let (saved, _) ← (ordersProducer.save shortJob shortPass total receipts 0 0 ⟨0, 0, 0, 0⟩
    { shortDb with db }).toOption
  return (receipts, repeats shortPass receipts db.receipts, saved)

theorem shortSteps_eq : (shortSteps.map fun steps =>
    (steps.2.1, enumerating steps.2.2, steps.2.2.discoveredCount)) = some (false, false, 1) := by
  decide +kernel

theorem ordersProducer_digest (text : String) : ordersProducer.sha256 text ≠ "" := by
  intro h
  have hlength := congrArg String.length h
  simp [ordersProducer] at hlength

theorem shortPage_truthful :
    Truthful ordersProducer shortOrders (OrdersProducer.bounds shortPass none) shortPage where
  total := by
    rintro _ _ _ ⟨⟩ ⟨⟩ ⟨⟩
    decide
  rows := by
    rintro _ _ ⟨⟩ ⟨⟩ row mem
    obtain rfl | rfl := by simpa using mem
    · rintro _ created ⟨⟩ hcreated
      have hdate : ordersProducer.date (.string "second") = .ok 5400000 := by decide +kernel
      obtain rfl := Except.ok.inj (hdate.symm.trans hcreated)
      exact ⟨⟨"8", 5400000⟩, by decide, by decide +kernel, rfl⟩
    · rintro _ created ⟨⟩ hcreated
      have hdate : ordersProducer.date (.string "first") = .ok 1800000 := by decide +kernel
      obtain rfl := Except.ok.inj (hdate.symm.trans hcreated)
      exact ⟨⟨"7", 1800000⟩, by decide, by decide +kernel, rfl⟩

/-- The documents with one worker that does something. -/
def shortPool (s : RangeDb) (phase : OrdersPhase) : OrdersPool :=
  ⟨s, Function.update (fun _ => .idle) 0 phase⟩

theorem shortPool_move {s s' : RangeDb} {phase phase' : OrdersPhase} {e : OrdersEvent}
    (h : OrdersMove ordersProducer phase s e phase' s')
    (tells : Tells ordersProducer shortOrders shortPass e) :
    OrdersStep ordersProducer shortOrders shortPass (shortPool s phase) e
      (shortPool s' phase') := by
  have control : (shortPool s phase).control 0 = phase := by
    simp [shortPool]
  have step : OrdersStep ordersProducer shortOrders shortPass (shortPool s phase) e
      ⟨s', Function.update (shortPool s phase).control 0 phase'⟩ :=
    .move 0 ⟨tells, control.symm ▸ h⟩
  rwa [shortPool, Function.update_idem] at step

theorem shortPass_begun : Begun shortPass (shortPool shortDb .idle) where
  stored := by decide +kernel
  undivided := rfl
  offset := rfl
  discovered := rfl
  staged := rfl
  ranges := rfl
  idle := fun i => by
    show Function.update (fun _ => OrdersPhase.idle) 0 .idle i = _
    rw [Function.update_eq_self_iff.mpr rfl]

/-- One worker finds both orders on one page; the second one was created after the bounds. -/
theorem discovery_exact_short : ∃ es e pool pool' after,
    Run (OrdersStep ordersProducer shortOrders shortPass) (shortPool shortDb .idle) es pool ∧
    OrdersStep ordersProducer shortOrders shortPass pool e pool' ∧
    Exact shortOrders (rootNode shortPass) after (pool'.shared.staged shortPass) ∧
    after.discoveredCount = 1 := by
  obtain ⟨steps, hsteps, hfields⟩ := Option.map_eq_some_iff.mp shortSteps_eq
  rw [shortSteps] at hsteps
  obtain ⟨⟨claimed, db⟩, hcurrent, hrest⟩ := Option.bind_eq_some_iff.mp hsteps
  obtain ⟨answer, hanswer, hpage⟩ := Option.bind_eq_some_iff.mp hrest
  cases answer with
  | divide total => cases hpage
  | page total receipts =>
      obtain ⟨⟨saved, s'⟩, hsave, hlast⟩ := Option.bind_eq_some_iff.mp hpage
      obtain rfl := Option.some.inj hlast
      obtain ⟨hunseen, hmore⟩ := Prod.mk.inj hfields
      obtain ⟨hended, hcount⟩ := Prod.mk.inj hmore
      have hcommit := Fallible.toOption_some hsave
      obtain ⟨committed, -, -⟩ := save_ok hcommit
      have hpass := (id_of_sameIdentity committed.identity).2.2.2.2.1
      -- The worker takes the checkpoint up, asks, looks for repeated orders and saves.
      have opened : OrdersMove ordersProducer .idle shortDb .worker (.opened shortJob shortPass)
          { shortDb with db } := .open (by decide) (Fallible.toOption_some hcurrent)
      have asks : OrdersMove ordersProducer (.opened shortJob shortPass) { shortDb with db } .worker
          (.asking shortJob shortPass none) { shortDb with db } := .readAll rfl
      have answered : OrdersMove ordersProducer (.asking shortJob shortPass none)
          { shortDb with db } (.answered shortPass (OrdersProducer.bounds shortPass none) shortPage)
          (.answered shortJob shortPass none total receipts 0) { shortDb with db } :=
        .answer (Fallible.toOption_some hanswer)
      have looked : OrdersMove ordersProducer (.answered shortJob shortPass none total receipts 0)
          { shortDb with db } .worker (.unseen shortJob shortPass none total receipts 0)
          { shortDb with db } := .search hunseen
      have saves : OrdersMove ordersProducer (.unseen shortJob shortPass none total receipts 0)
          { shortDb with db } .worker .idle s' := .saveFirst (by decide) hcommit
      have run := (((Run.single (shortPool_move opened trivial)).snoc
        (shortPool_move asks trivial)).snoc
        (shortPool_move answered fun _ => shortPage_truthful)).snoc (shortPool_move looked trivial)
      have ends := shortPool_move saves trivial
      have after : storedOf shortPass s' = some saved := storedOf_of_eq committed.heads rfl
      exact ⟨_, _, _, _, saved, run, ends, discovery_exact ordersProducer ordersProducer_digest
        shortOrders (by decide) shortPass _ _ _ shortPass_begun _ _ run ends shortPass saved
        committed.stored rfl (by decide) after hpass.symm hended, hcount⟩

end ZelerPlatform.Acquisition
