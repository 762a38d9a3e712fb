import ZelerPlatform.Acquisition.Enumeration
import ZelerPlatform.Recovery.Checkpoints

/-!
# What the transactions of a range store commit

A transaction replaces the checkpoint by the next one, adds receipts of its pass, and changes
ranges of its pass only: it halves one, or moves one on by a page. No range document goes away,
and none changes its bounds.
-/

namespace ZelerPlatform.Acquisition

open Fallible
open Recovery (Committed Db Head Job Phase Readings Receipt Time beginPublication beginVerification
  checkedHead_ok checkpoint_ok current_stored inScope mapError_ok memberships yieldPending_jobs)
open OrderRangeNode OrdersProducer

/-- Heads of one pass. -/
structure SamePass (head other : Head) : Prop where
  id : head.id = other.id
  generation : head.generation = other.generation
  pass : head.passNumber = other.passNumber

namespace SamePass

variable {head other : Head}

theorem rangeInScope (same : SamePass head other) : rangeInScope head = rangeInScope other := by
  funext range
  rw [Acquisition.rangeInScope, Acquisition.rangeInScope, same.id, same.generation, same.pass]

theorem inScope (same : SamePass head other) : inScope head = inScope other := by
  funext receipt
  rw [Recovery.inScope, Recovery.inScope, same.id, same.generation, same.pass]

theorem stagedOf (same : SamePass head other) : stagedOf head = stagedOf other := by
  funext receipts
  rw [Acquisition.stagedOf, Acquisition.stagedOf, same.inScope]

theorem of_rangeInScope {range : OrderRange} (h : Acquisition.rangeInScope head range = true)
    (h' : Acquisition.rangeInScope other range = true) : SamePass head other := by
  simp only [Acquisition.rangeInScope, Bool.and_eq_true, decide_eq_true_eq] at h h'
  exact ⟨h.1.1.symm.trans h'.1.1, h.1.2.symm.trans h'.1.2, h.2.symm.trans h'.2⟩

end SamePass

/-! ### Changes of the ranges -/

/-- Every range is still there, with its bounds. -/
def Persist (ranges ranges' : Ranges) : Prop :=
  ∀ range ∈ ranges.docs, ∃ range' ∈ ranges'.docs, range'.id = range.id ∧ range'.node = range.node

theorem Persist.refl (ranges : Ranges) : Persist ranges ranges :=
  fun range mem => ⟨range, mem, rfl, rfl⟩

/-- The ranges of a pass. -/
def rangesOf (pass : Head) (ranges : Ranges) : List OrderRange := ranges.find (rangeInScope pass)

/-- The ranges of a pass that are not split. -/
def openRanges (pass : Head) (ranges : Ranges) : List OrderRange :=
  (rangesOf pass ranges).filter fun range => range.state ≠ .split

/-- A range of a pass is halved: the documents with what stands in the place of it. -/
structure Halved (store : RangeStore) (head : Head) (parent : OrderRange) (total : Int)
    (first second : OrderRangeNode) (ranges ranges' : Ranges) : Prop where
  children : subdivideOrderRange store.sha256 parent.node total store.resultBudget =
    .ok [first, second]
  untouched : parent.nextOffset = 0
  docs : ∃ before after, ranges.docs = before ++ parent :: after ∧
    ranges'.docs = before ++
      { parent with state := .split, sourceTotal := some total.toNat } :: after ++
      [store.rangeOf head first, store.rangeOf head second]

/-- A range of a pass has moved on by a page. -/
def Turned (range changed : OrderRange) (ranges ranges' : Ranges) : Prop :=
  ∃ before after, ranges.docs = before ++ range :: after ∧
    ranges'.docs = before ++ changed :: after

section

variable {store : RangeStore} {job : Job} {head saved changed : Head} {s s' : RangeDb}
variable {ranges ranges' : Ranges} {range parent : OrderRange} {total next : Int}
variable {receipts : List Receipt} {observation : Option Time} {updatedAt : Time} {now : Readings}
variable {verify : Option (Collection Receipt.id → Bool → Except OrderError Unit)}

theorem active_ok (h : RangeStore.active head ranges = .ok range) :
    range ∈ ranges.docs ∧ some range.id = head.activeRangeId ∧ rangeInScope head range = true ∧
    range.state = .pending ∧ range.nextOffset = offsetOf head := by
  unfold RangeStore.active at h
  split at h
  · cases h
  · next found hfound =>
      obtain ⟨hstate, hvalid⟩ := raiseIf_ok h
      obtain ⟨-, hbounds⟩ := raiseIf_ok hvalid
      obtain ⟨-, hoffset⟩ := raiseIf_ok hbounds
      obtain ⟨hnext, hlast⟩ := raiseIf_ok hoffset
      obtain rfl := pure_ok hlast
      obtain ⟨mem, hfilter⟩ := Collection.findOne_mem hfound
      obtain ⟨hid, hscope⟩ := Bool.and_eq_true_iff.mp hfilter
      exact ⟨mem, of_decide_eq_true hid, hscope, not_not.mp (not_or.mp hstate).1,
        not_not.mp hnext⟩

/-! ### The ranges of a pass -/

theorem rangeInScope_rangeOf {node : OrderRangeNode} :
    rangeInScope head (store.rangeOf head node) = true := by
  simp [rangeInScope, RangeStore.rangeOf]

theorem not_inScope {pass : Head} (other : ¬ SamePass head pass)
    (h : rangeInScope head range = true) : rangeInScope pass range = false :=
  Bool.eq_false_iff.mpr fun h' => other (.of_rangeInScope h h')

theorem Halved.persist {first second : OrderRangeNode}
    (h : Halved store head parent total first second ranges ranges') : Persist ranges ranges' := by
  obtain ⟨before, after, hdocs, hdocs'⟩ := h.docs
  intro other mem
  rw [hdocs] at mem
  rw [hdocs']
  obtain hmem | hmem := List.mem_append.mp mem
  · exact ⟨other, by simp [hmem], rfl, rfl⟩
  · obtain rfl | hmem := List.mem_cons.mp hmem
    · exact ⟨{ other with state := .split, sourceTotal := some total.toNat }, by simp, rfl, rfl⟩
    · exact ⟨other, by simp [hmem], rfl, rfl⟩

/-- Halving a range of another pass. -/
theorem Halved.elsewhere {pass : Head} {first second : OrderRangeNode}
    (h : Halved store head parent total first second ranges ranges')
    (scope : rangeInScope head parent = true) (other : ¬ SamePass head pass) :
    rangesOf pass ranges' = rangesOf pass ranges := by
  obtain ⟨before, after, hdocs, hdocs'⟩ := h.docs
  have hparent : rangeInScope pass parent = false := not_inScope other scope
  have hparent' : rangeInScope pass
      { parent with state := .split, sourceTotal := some total.toNat } = false := hparent
  have hchild (node : OrderRangeNode) : rangeInScope pass (store.rangeOf head node) = false :=
    not_inScope other rangeInScope_rangeOf
  simp [rangesOf, Collection.find, hdocs, hdocs', hparent, hparent', hchild]

/-- Halving a range of the pass. -/
theorem Halved.openRanges {pass : Head} {first second : OrderRangeNode}
    (h : Halved store head parent total first second ranges ranges')
    (same : SamePass head pass) (scope : rangeInScope head parent = true)
    (pending : parent.state = .pending) :
    ∃ before after, openRanges pass ranges = before ++ parent :: after ∧
      openRanges pass ranges' =
        before ++ after ++ [store.rangeOf head first, store.rangeOf head second] := by
  obtain ⟨before, after, hdocs, hdocs'⟩ := h.docs
  rw [same.rangeInScope] at scope
  have hsplit : rangeInScope pass
      { parent with state := .split, sourceTotal := some total.toNat } = true := scope
  have hchild (node : OrderRangeNode) : rangeInScope pass (store.rangeOf head node) = true := by
    rw [← same.rangeInScope]
    exact rangeInScope_rangeOf
  have hfirst : (store.rangeOf head first).state = .pending := rfl
  have hsecond : (store.rangeOf head second).state = .pending := rfl
  refine ⟨(before.filter (rangeInScope pass)).filter fun range => range.state ≠ .split,
    (after.filter (rangeInScope pass)).filter fun range => range.state ≠ .split, ?_, ?_⟩
  · simp [Acquisition.openRanges, rangesOf, Collection.find, hdocs, scope, pending]
  · simp [Acquisition.openRanges, rangesOf, Collection.find, hdocs', hsplit, hchild, hfirst,
      hsecond]

theorem Turned.persist {changed : OrderRange} (h : Turned range changed ranges ranges')
    (id : changed.id = range.id) (node : changed.node = range.node) : Persist ranges ranges' := by
  obtain ⟨before, after, hdocs, hdocs'⟩ := h
  intro other mem
  rw [hdocs] at mem
  rw [hdocs']
  obtain hmem | hmem := List.mem_append.mp mem
  · exact ⟨other, by simp [hmem], rfl, rfl⟩
  · obtain rfl | hmem := List.mem_cons.mp hmem
    · exact ⟨_, by simp, id, node⟩
    · exact ⟨other, by simp [hmem], rfl, rfl⟩

theorem Turned.elsewhere {pass : Head} {changed : OrderRange}
    (h : Turned range changed ranges ranges') (scope : rangeInScope pass range = false)
    (scope' : rangeInScope pass changed = false) :
    rangesOf pass ranges' = rangesOf pass ranges := by
  obtain ⟨before, after, hdocs, hdocs'⟩ := h
  simp [rangesOf, Collection.find, hdocs, hdocs', scope, scope']

theorem Turned.openRanges {pass : Head} {changed : OrderRange}
    (h : Turned range changed ranges ranges') (scope : rangeInScope pass range = true)
    (scope' : rangeInScope pass changed = true) (whole : range.state ≠ .split)
    (whole' : changed.state ≠ .split) :
    ∃ before after, openRanges pass ranges = before ++ range :: after ∧
      openRanges pass ranges' = before ++ changed :: after := by
  obtain ⟨before, after, hdocs, hdocs'⟩ := h
  refine ⟨(before.filter (rangeInScope pass)).filter fun range => range.state ≠ .split,
    (after.filter (rangeInScope pass)).filter fun range => range.state ≠ .split, ?_, ?_⟩
  · simp [Acquisition.openRanges, rangesOf, Collection.find, hdocs, scope, whole]
  · simp [Acquisition.openRanges, rangesOf, Collection.find, hdocs', scope', whole']

/-- Where no range is next, the ranges that are not split are enumerated, and their totals are
added up. -/
theorem enumerated_of_none {pass : Head} {changed : OrderRange} (same : SamePass head pass)
    (h : RangeStore.nextRange head changed ranges = none) :
    (∀ range ∈ openRanges pass ranges, range.state = .enumerated) ∧
    RangeStore.enumeratedTotal head ranges =
      ((openRanges pass ranges).filterMap OrderRange.sourceTotal).sum := by
  unfold RangeStore.nextRange at h
  split at h
  · have hnone : (ranges.find fun range => rangeInScope head range && range.state = .pending) = [] :=
      List.argmin_eq_none.mp h
    rw [same.rangeInScope] at hnone
    have hstate (range : OrderRange) (mem : range ∈ ranges.docs)
        (scope : rangeInScope pass range = true) : range.state ≠ .pending := by
      have := List.filter_eq_nil_iff.mp hnone range mem
      simpa [scope] using this
    have henumerated (range : OrderRange) (mem : range ∈ ranges.docs)
        (scope : rangeInScope pass range = true) (whole : range.state ≠ .split) :
        range.state = .enumerated := by
      cases hcase : range.state with
      | pending => exact absurd hcase (hstate range mem scope)
      | split => exact absurd hcase whole
      | enumerated => rfl
    constructor
    · intro range mem
      obtain ⟨hof, hwhole⟩ := List.mem_filter.mp mem
      obtain ⟨hdoc, hscope⟩ := List.mem_filter.mp hof
      exact henumerated range hdoc hscope (by simpa using hwhole)
    · unfold RangeStore.enumeratedTotal openRanges rangesOf Collection.find
      rw [List.filter_filter, same.rangeInScope]
      congr 2
      refine List.filter_congr fun range mem => ?_
      cases hscope : rangeInScope pass range with
      | false => simp
      | true =>
          cases hcase : range.state with
          | pending => exact absurd hcase (hstate range mem hscope)
          | split => simp
          | enumerated => simp
  · cases h

theorem checkedRange_ok {checked : OrderRange} (h : store.checkedRange range = .ok checked) :
    checked = range ∧ range.valid = true := by
  unfold RangeStore.checkedRange at h
  obtain ⟨hvalid, hfits⟩ := raiseIf_ok h
  obtain ⟨-, hlast⟩ := raiseIf_ok hfits
  exact ⟨(pure_ok hlast).symm, not_not.mp hvalid⟩

theorem insertRange_ok (h : RangeStore.insertRange range ranges = .ok ranges') :
    ranges'.docs = ranges.docs ++ [range] := by
  unfold RangeStore.insertRange at h
  cases hinsert : ranges.insert range with
  | none =>
      rw [hinsert] at h
      cases h
  | some inserted =>
      rw [hinsert] at h
      obtain rfl := pure_ok h
      exact Collection.insert_docs hinsert

theorem splitNode_ok (mem : parent ∈ ranges.docs)
    (h : store.splitNode head parent total ranges = .ok (changed, ranges')) :
    ∃ first second, Halved store head parent total first second ranges ranges' ∧
      changed = { head with
        activeRangeId := some (store.rangeOf head first).id, nextCursor := some (.offset 0) } := by
  unfold RangeStore.splitNode at h
  obtain ⟨huntouched, hsubdivide⟩ := raiseIf_ok h
  obtain ⟨children, hchildren, hpair⟩ := bind_ok hsubdivide
  split at hpair
  · next first second =>
      obtain ⟨_, hfirst, hsecond⟩ := bind_ok hpair
      obtain ⟨rfl, -⟩ := checkedRange_ok hfirst
      obtain ⟨_, hsecond, hinserts⟩ := bind_ok hsecond
      obtain ⟨rfl, -⟩ := checkedRange_ok hsecond
      obtain ⟨ranges₁, hinsert, hrest⟩ := bind_ok hinserts
      obtain ⟨ranges₂, hinsert', hlast⟩ := bind_ok hrest
      obtain ⟨rfl, rfl⟩ := Prod.mk.inj (pure_ok hlast)
      have hdocs : ranges₂.docs = ranges.docs ++
          [store.rangeOf head first, store.rangeOf head second] := by
        rw [insertRange_ok hinsert', insertRange_ok hinsert, List.append_assoc]
        rfl
      refine ⟨first, second, ⟨mapError_ok hchildren, not_not.mp huntouched, ?_⟩, rfl⟩
      obtain ⟨before, after, hparent⟩ := List.append_of_mem mem
      refine ⟨before, after, hparent, ?_⟩
      rw [List.append_assoc, List.cons_append]
      refine Collection.docs_update_of_eq ?_ fun other _ => decide_eq_true_iff
      rw [hdocs, hparent, List.append_assoc, List.cons_append]
  · cases hpair

/-! ### Pages -/

/-- The fields of a head that say how far an enumeration is. -/
structure SameProgress (head other : Head) : Prop where
  phase : other.phase = head.phase
  activeRangeId : other.activeRangeId = head.activeRangeId
  nextCursor : other.nextCursor = head.nextCursor
  discoveredCount : other.discoveredCount = head.discoveredCount
  sourceTotal : other.sourceTotal = head.sourceTotal

theorem sameProgress_observed : SameProgress head (RangeStore.observed head receipts) := by
  unfold RangeStore.observed
  split
  · exact ⟨rfl, rfl, rfl, rfl, rfl⟩
  · exact ⟨rfl, rfl, rfl, rfl, rfl⟩

theorem samePass_observed : SamePass (RangeStore.observed head receipts) head := by
  unfold RangeStore.observed
  split
  · exact ⟨rfl, rfl, rfl⟩
  · exact ⟨rfl, rfl, rfl⟩

theorem SamePass.enumeratedTotal {other : Head} (same : SamePass head other) :
    RangeStore.enumeratedTotal head ranges = RangeStore.enumeratedTotal other ranges := by
  unfold RangeStore.enumeratedTotal
  rw [same.rangeInScope]

theorem sameProgress_observedAt : SameProgress head (RangeStore.observedAt head observation) := by
  unfold RangeStore.observedAt
  split
  · exact ⟨rfl, rfl, rfl, rfl, rfl⟩
  · exact ⟨rfl, rfl, rfl, rfl, rfl⟩

/-- What a page of a range does: the range moves on, and the next range is taken in hand. Where
none is left, the head is finished. -/
structure Paged (head : Head) (total : Int) (receipts : List Receipt) (range changed : OrderRange)
    (changedHead : Head) (ranges ranges' : Ranges) : Prop where
  active : RangeStore.active head ranges = .ok range
  nonneg : 0 ≤ total
  moved : changed = RangeStore.turned range total.toNat (range.nextOffset + receipts.length)
  turned : Turned range changed ranges ranges'
  discovered : changedHead.discoveredCount = head.discoveredCount + memberships receipts
  goesOn : ∀ part, RangeStore.nextRange head changed ranges' = some part →
    changedHead.phase = head.phase ∧ changedHead.activeRangeId = some part.id ∧
    changedHead.nextCursor = some (.offset part.nextOffset)
  finished : RangeStore.nextRange head changed ranges' = none →
    changedHead.phase = (if head.phase = .verify then .verify else .hydrate) ∧
    changedHead.activeRangeId = none ∧ changedHead.nextCursor = none ∧
    changedHead.sourceTotal = some (RangeStore.enumeratedTotal head ranges')

theorem finished_ok {done : Head} (h : RangeStore.finished head ranges = .ok done) :
    done = { head with
      phase := if head.phase = .verify then .verify else .hydrate
      sourceTotal := some (RangeStore.enumeratedTotal head ranges) } := by
  unfold RangeStore.finished at h
  obtain ⟨⟨⟩, -, hlast⟩ := bind_ok h
  exact (pure_ok hlast).symm

theorem pageAction_ok {stored : List Receipt}
    (h : store.pageAction head total next receipts verify s = .ok (changed, stored, ranges')) :
    stored = receipts ∧ ∃ range turned,
      Paged head total receipts range turned changed s.ranges ranges' ∧
      (verify.elim (pure ⟨⟩) fun verify => verify s.db.receipts
        (RangeStore.nextRange head turned ranges').isNone) = .ok ⟨⟩ := by
  unfold RangeStore.pageAction at h
  obtain ⟨range, hactive, hnonneg⟩ := bind_ok h
  obtain ⟨hnonneg, hvalid⟩ := raiseIf_ok hnonneg
  obtain ⟨-, hbudget⟩ := raiseIf_ok hvalid
  obtain ⟨-, htotal⟩ := raiseIf_ok hbudget
  obtain ⟨-, hlength⟩ := raiseIf_ok htotal
  obtain ⟨hlength, hempty⟩ := raiseIf_ok hlength
  obtain ⟨-, hchecks⟩ := raiseIf_ok hempty
  obtain ⟨⟨⟩, -, hfits⟩ := bind_ok hchecks
  obtain ⟨-, hrest⟩ := raiseIf_ok hfits
  obtain ⟨mem, -, -, -, -⟩ := active_ok hactive
  have hnext : next.toNat = range.nextOffset + receipts.length := by omega
  have hobserved : SameProgress head (RangeStore.observed head receipts) := sameProgress_observed
  dsimp only at hrest
  rw [hnext] at hrest
  have hturned : Turned range _ s.ranges (s.ranges.replace (RangeStore.turned range total.toNat
      (range.nextOffset + receipts.length))) := Collection.docs_replace_of_mem mem rfl
  split at hrest
  · next hnone =>
      obtain ⟨done, hdone, hverified⟩ := bind_ok hrest
      obtain ⟨⟨⟩, hverify, hlast⟩ := bind_ok hverified
      obtain ⟨rfl, hpair⟩ := Prod.mk.inj (pure_ok hlast)
      obtain ⟨rfl, rfl⟩ := Prod.mk.inj hpair
      obtain rfl := finished_ok hdone
      refine ⟨rfl, range, _, ⟨hactive, by omega, rfl, hturned, rfl, fun part hpart => ?_,
        fun hpart => ?_⟩, hverify⟩
      · rw [hpart] at hnone
        cases hnone
      · rw [hpart]
        refine ⟨?_, rfl, rfl, ?_⟩
        · show (if (RangeStore.observed head receipts).phase = .verify then _ else _) = _
          rw [hobserved.phase]
        · have hsame : SamePass (RangeStore.observed head receipts) head := samePass_observed
          exact congrArg some (SamePass.enumeratedTotal ⟨hsame.id, hsame.generation, hsame.pass⟩)
  · next hsome =>
      obtain ⟨done, hdone, hverified⟩ := bind_ok hrest
      obtain ⟨⟨⟩, hverify, hlast⟩ := bind_ok hverified
      obtain ⟨rfl, hpair⟩ := Prod.mk.inj (pure_ok hlast)
      obtain ⟨rfl, rfl⟩ := Prod.mk.inj hpair
      obtain rfl := pure_ok hdone
      refine ⟨rfl, range, _, ⟨hactive, by omega, rfl, hturned, rfl, fun part hpart => ?_,
        fun hpart => ?_⟩, hverify⟩
      · rw [hpart]
        exact ⟨hobserved.phase, rfl, rfl⟩
      · rw [hpart] at hsome
        exact absurd rfl hsome

/-! ### Transactions -/

theorem run_ok {action : Head → RangeStore.Action}
    (h : store.run job head action observation updatedAt now s = .ok (saved, s')) :
    ∃ jobs changed receipts, action head ⟨{ s.db with jobs }, s.ranges⟩ =
        .ok (changed, receipts, s'.ranges) ∧
      Committed head saved receipts s.db s'.db ∧ SameProgress changed saved := by
  unfold RangeStore.run at h
  obtain ⟨_, hhead, hphase⟩ := bind_ok h
  obtain ⟨rfl, -⟩ := checkedHead_ok (mapError_ok hhead)
  obtain ⟨-, hfence⟩ := raiseIf_ok hphase
  obtain ⟨⟨claimed, db₁⟩, hcurrent, hblock⟩ := bind_ok hfence
  obtain ⟨⟨changed, receipts, ranges⟩, haction, hpropose⟩ := bind_ok hblock
  obtain ⟨_, hproposed, hsave⟩ := bind_ok hpropose
  obtain ⟨rfl, -⟩ := checkedHead_ok (mapError_ok hproposed)
  obtain ⟨⟨saved', db₂⟩, hcheckpoint, hyield⟩ := bind_ok hsave
  obtain ⟨jobs, -, hlast⟩ := bind_ok hyield
  obtain ⟨rfl, rfl⟩ := Prod.mk.inj (pure_ok hlast)
  obtain ⟨hfound, jobs', rfl⟩ := current_stored (mapError_ok hcurrent)
  obtain ⟨rfl, committed⟩ := checkpoint_ok (by exact hfound) (mapError_ok hcheckpoint)
  have hprogress : SameProgress changed (RangeStore.observedAt changed observation) :=
    sameProgress_observedAt
  exact ⟨jobs', changed, receipts, haction, yieldPending_jobs ⟨hfound, committed.heads,
    committed.identity, committed.revision, committed.distinct, committed.own, committed.added⟩,
    ⟨hprogress.phase, hprogress.activeRangeId, hprogress.nextCursor, hprogress.discoveredCount,
      hprogress.sourceTotal⟩⟩

/-- What becomes of the checkpoint where bounds are halved. -/
structure Divides (head saved : Head) (s s' : RangeDb) : Prop where
  committed : Committed head saved [] s.db s'.db
  phase : saved.phase = head.phase
  inHand : saved.activeRangeId.isSome
  cursor : saved.nextCursor = some (.offset 0)
  discovered : saved.discoveredCount = head.discoveredCount

theorem divides_of {part : OrderRange}
    (committed : Committed head saved [] s.db s'.db) (progress : SameProgress changed saved)
    (hchanged : changed = { head with
      activeRangeId := some part.id, nextCursor := some (.offset 0) }) :
    Divides head saved s s' := by
  subst hchanged
  refine ⟨committed, progress.phase, ?_, progress.nextCursor, progress.discoveredCount⟩
  rw [progress.activeRangeId]
  rfl

/-- The bounds of an acquisition are divided for the first time. -/
theorem start_ok
    (h : store.start job head (some total) observation updatedAt now s = .ok (saved, s')) :
    Divides head saved s s' ∧ head.activeRangeId = none ∧ offsetOf head = 0 ∧
    (rootNode head).valid = true ∧ ∃ ranges first second,
      ranges.docs = s.ranges.docs ++ [store.rangeOf head (rootNode head)] ∧
      Halved store head (store.rangeOf head (rootNode head)) total first second ranges
        s'.ranges := by
  obtain ⟨jobs, changed, receipts, haction, committed, hprogress⟩ := run_ok h
  unfold RangeStore.startAction at haction
  obtain ⟨huntouched, hroot⟩ := raiseIf_ok haction
  obtain ⟨_, hchecked, hinsert⟩ := bind_ok hroot
  obtain ⟨rfl, hvalid⟩ := checkedRange_ok hchecked
  obtain ⟨ranges, hinserted, hsplit⟩ := bind_ok hinsert
  obtain ⟨⟨changed', ranges'⟩, hnode, hlast⟩ := bind_ok hsplit
  obtain ⟨rfl, hpair⟩ := Prod.mk.inj (pure_ok hlast)
  obtain ⟨rfl, hranges⟩ := Prod.mk.inj hpair
  have hdocs := insertRange_ok hinserted
  obtain ⟨first, second, hhalved, hchanged⟩ := splitNode_ok (by simp [hdocs]) hnode
  have hoffset : offsetOf head = 0 := by
    obtain ⟨-, -, hcursor⟩ := by simpa only [not_or, not_and, not_not] using huntouched
    unfold offsetOf
    cases hnext : head.nextCursor with
    | none => rfl
    | some cursor =>
        obtain rfl : cursor = .offset 0 := by
          rw [hnext] at hcursor
          exact Option.some.inj (hcursor (by simp))
        rfl
  refine ⟨divides_of committed hprogress hchanged, not_not.mp (not_or.mp huntouched).1, hoffset,
    ?_, ranges, first, second, hdocs, ?_⟩
  · simp only [OrderRange.valid, Bool.and_eq_true] at hvalid
    obtain ⟨⟨⟨⟨⟨-, hroot⟩, -⟩, -⟩, -⟩, -⟩ := hvalid
    exact hroot
  · rw [← hranges]
    exact hhalved

/-- The range in hand is halved. -/
theorem split_ok (h : store.split job head total observation updatedAt now s = .ok (saved, s')) :
    Divides head saved s s' ∧ ∃ parent first second,
      RangeStore.active head s.ranges = .ok parent ∧
      Halved store head parent total first second s.ranges s'.ranges := by
  obtain ⟨jobs, changed, receipts, haction, committed, hprogress⟩ := run_ok h
  unfold RangeStore.splitAction at haction
  obtain ⟨parent, hactive, hsplit⟩ := bind_ok haction
  obtain ⟨⟨changed', ranges'⟩, hnode, hlast⟩ := bind_ok hsplit
  obtain ⟨rfl, hpair⟩ := Prod.mk.inj (pure_ok hlast)
  obtain ⟨rfl, hranges⟩ := Prod.mk.inj hpair
  obtain ⟨first, second, hhalved, hchanged⟩ := splitNode_ok (active_ok hactive).1 hnode
  refine ⟨divides_of committed hprogress hchanged, parent, first, second, hactive, ?_⟩
  rw [← hranges]
  exact hhalved

/-- A page of the range in hand is saved. -/
theorem page_ok
    (h : store.page job head total next receipts verify observation updatedAt now s =
      .ok (saved, s')) :
    Committed head saved receipts s.db s'.db ∧ ∃ range turned,
      Paged head total receipts range turned saved s.ranges s'.ranges ∧
      (verify.elim (pure ⟨⟩) fun verify => verify s.db.receipts
        (RangeStore.nextRange head turned s'.ranges).isNone) = .ok ⟨⟩ := by
  unfold RangeStore.page at h
  obtain ⟨-, hverifying⟩ := raiseIf_ok h
  obtain ⟨-, hrun⟩ := raiseIf_ok hverifying
  obtain ⟨jobs, changed, stored, haction, committed, hprogress⟩ := run_ok hrun
  obtain ⟨rfl, range, turned, hpaged, hverify⟩ := pageAction_ok haction
  refine ⟨committed, range, turned, ⟨hpaged.active, hpaged.nonneg, hpaged.moved, hpaged.turned,
    hprogress.discoveredCount.trans hpaged.discovered, fun part hpart => ?_, fun hnone => ?_⟩,
    hverify⟩
  · obtain ⟨hphase, hactive, hcursor⟩ := hpaged.goesOn part hpart
    exact ⟨hprogress.phase.trans hphase, hprogress.activeRangeId.trans hactive,
      hprogress.nextCursor.trans hcursor⟩
  · obtain ⟨hphase, hactive, hcursor, htotal⟩ := hpaged.finished hnone
    exact ⟨hprogress.phase.trans hphase, hprogress.activeRangeId.trans hactive,
      hprogress.nextCursor.trans hcursor, hprogress.sourceTotal.trans htotal⟩

end

end ZelerPlatform.Acquisition
