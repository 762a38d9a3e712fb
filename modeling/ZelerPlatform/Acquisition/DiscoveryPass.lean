import ZelerPlatform.Acquisition.RangeCommits

/-!
# The enumeration of a pass

While a pass is enumerated, its receipts stand for orders of its hours, no two for one, and for as
many as the offsets say (`Going`). The answers of the source are true: each states how many orders
there are in the hours asked for and lists some of them, in any order.

A worker acts on a checkpoint it has read before. Its transaction goes through only while this is
still the stored one, so no receipt of the pass has come since, and `Going` is carried on; the
transaction that ends the enumeration leaves nothing out.
-/

namespace ZelerPlatform.Acquisition

open Fallible Mongo Transition
open Imports (pyStr)
open Recovery (Committed Db HandedOver Head Job Phase Readings Receipt Time beginPublication
  beginPublication_ok beginVerification beginVerification_ok current_stored id_of_sameIdentity
  inScope mapError_ok memberships progress progress_ok release_ok)
open OrderRangeNode OrdersProducer

/-! ### True answers -/

/-- What the row of a search says of the identity and the creation of an order is so. -/
def RowTrue (producer : OrdersProducer) (orders : List SourceOrder) (row : Value) : Prop :=
  ∀ doc created, row = .document doc → producer.date (Doc.getD doc "date_created") = .ok created →
    ∃ order ∈ orders, order.id = pyStr producer.texts (Doc.getD doc "id") ∧
      order.created = created

/-- An answer states how many orders there are in the hours, and lists orders only. -/
structure Truthful (producer : OrdersProducer) (orders : List SourceOrder)
    (bounds : OrderRangeNode) (page : Value) : Prop where
  total : ∀ doc paging total, page = .document doc → Doc.getD doc "paging" = .document paging →
    Doc.getD paging "total" = .int total → total = orders.countP bounds.asks
  rows : ∀ doc rows, page = .document doc → Doc.getD doc "results" = .array rows →
    ∀ row ∈ rows, RowTrue producer orders row

/-- The receipts that were made of an answer. -/
structure Batch (orders : List SourceOrder) (bounds : OrderRangeNode) (total : Int)
    (receipts : List Receipt) : Prop where
  total : total = orders.countP bounds.asks
  known : ∀ receipt ∈ receipts, Known orders bounds receipt
  distinct : (receipts.map Receipt.resourceId).Nodup

section

variable {producer : OrdersProducer} {orders : List SourceOrder} {head : Head}
variable {bounds : OrderRangeNode} {range : Option OrderRange} {observedAt : Time}
variable {seen : List String} {row page : Value} {receipt : Receipt} {rows : List Value}
variable {receipts : List Receipt} {total : Int}

theorem readRow_ok (true : RowTrue producer orders row)
    (h : producer.readRow head bounds observedAt seen row = .ok receipt) :
    Known orders bounds receipt ∧ receipt.resourceId ∉ seen := by
  unfold readRow at h
  split at h
  · next doc =>
      obtain ⟨-, hrepeat⟩ := raiseIf_ok h
      obtain ⟨hseen, hdate⟩ := raiseIf_ok hrepeat
      obtain ⟨created, hcreated, hseller⟩ := bind_ok hdate
      obtain ⟨-, hinside⟩ := raiseIf_ok hseller
      obtain ⟨hhours, hversion⟩ := raiseIf_ok hinside
      obtain ⟨version, -, hlast⟩ := bind_ok hversion
      obtain rfl := pure_ok hlast
      obtain ⟨order, mem, hid, rfl⟩ := true doc created rfl hcreated
      refine ⟨⟨order, mem, hid, decide_eq_true (not_not.mp hhours), ?_⟩, hseen⟩
      rfl
  · cases h

theorem readRows_ok (true : ∀ row ∈ rows, RowTrue producer orders row)
    (h : producer.readRows head bounds observedAt seen rows = .ok receipts) :
    (∀ receipt ∈ receipts, Known orders bounds receipt) ∧
    (receipts.map Receipt.resourceId).Nodup ∧
    ∀ receipt ∈ receipts, receipt.resourceId ∉ seen := by
  induction rows generalizing seen receipts with
  | nil =>
      obtain rfl := pure_ok h
      exact ⟨by simp, by simp, by simp⟩
  | cons row rows ih =>
      obtain ⟨hrow, hrows⟩ := List.forall_mem_cons.mp true
      rw [readRows] at h
      obtain ⟨receipt, hreceipt, hrows'⟩ := bind_ok h
      obtain ⟨rest, hrest, hlast⟩ := bind_ok hrows'
      obtain rfl := pure_ok hlast
      obtain ⟨hknown, hseen⟩ := readRow_ok hrow hreceipt
      obtain ⟨hall, hdistinct, hfresh⟩ := ih hrows hrest
      refine ⟨List.forall_mem_cons.mpr ⟨hknown, hall⟩, ?_, ?_⟩
      · rw [List.map_cons, List.nodup_cons]
        refine ⟨fun hmem => ?_, hdistinct⟩
        obtain ⟨other, hother, hid⟩ := List.mem_map.mp hmem
        exact hfresh other hother (List.mem_cons.mpr (.inl hid))
      · refine List.forall_mem_cons.mpr ⟨hseen, fun other hother hmem => ?_⟩
        exact hfresh other hother (List.mem_cons_of_mem _ hmem)

/-- An accepted page makes a batch. -/
theorem readPage_ok (true : Truthful producer orders (OrdersProducer.bounds head range) page)
    (h : producer.readPage head range observedAt page = .ok (.page total receipts)) :
    Batch orders (OrdersProducer.bounds head range) total receipts := by
  unfold readPage at h
  split at h
  · next doc =>
      split at h
      · next paging hpaging =>
          split at h
          · next stated htotal =>
              obtain ⟨-, hfits⟩ := raiseIf_ok h
              obtain ⟨-, hexpected⟩ := raiseIf_ok hfits
              dsimp only at hexpected
              obtain ⟨-, hresults⟩ := raiseIf_ok hexpected
              split at hresults
              · next rows hrows =>
                  obtain ⟨-, hbudget⟩ := raiseIf_ok hresults
                  split at hbudget
                  · cases pure_ok hbudget
                  · obtain ⟨-, hpage⟩ := raiseIf_ok hbudget
                    obtain ⟨read, hread, hlast⟩ := bind_ok hpage
                    obtain ⟨rfl, rfl⟩ := Answer.page.inj (pure_ok hlast)
                    obtain ⟨hknown, hdistinct, -⟩ := readRows_ok (true.rows doc rows rfl hrows) hread
                    exact ⟨true.total doc paging _ rfl hpaging htotal, hknown, hdistinct⟩
              · cases hresults
          · cases h
      · cases h
  · cases h

end

/-! ### A pass -/

/-- The stored checkpoint of the acquisition of a head. -/
def storedOf (head : Head) (s : RangeDb) : Option Head := s.db.heads.byKey head.id

/-- The receipts that stage an order of the pass. -/
def RangeDb.staged (s : RangeDb) (pass : Head) : List Receipt := stagedOf pass s.db.receipts

/-- What holds while the pass is enumerated: its receipts are of its orders, no two of one, and
stand for as many as the offsets say. -/
structure Going (producer : OrdersProducer) (orders : List SourceOrder) (pass : Head) (s : RangeDb)
    (head : Head) : Prop where
  known : ∀ receipt ∈ s.staged pass, Known orders (rootNode pass) receipt
  distinct : ((s.staged pass).map Receipt.resourceId).Nodup
  discovered : head.discoveredCount = memberships (s.staged pass)
  whole : head.activeRangeId = none → rangesOf pass s.ranges = [] ∧ (s.staged pass).length = offsetOf head
  divided : head.activeRangeId ≠ none →
    Divided producer.sha256 orders (rootNode pass) (openRanges pass s.ranges) (s.staged pass)

/-- The acquisition is in this pass or in a later one. -/
structure Passing (producer : OrdersProducer) (orders : List SourceOrder) (pass : Head)
    (s : RangeDb) (head : Head) : Prop where
  stored : storedOf pass s = some head
  bounds : head.dateFrom = pass.dateFrom ∧ head.dateTo = pass.dateTo
  generation : head.generation = pass.generation
  later : pass.passNumber ≤ head.passNumber
  going : head.passNumber = pass.passNumber → enumerating head = true →
    Going producer orders pass s head

/-- What no step takes back: a checkpoint is left alone with its receipts, or replaced by a later
one, and every range keeps its bounds. -/
structure Onward (pass : Head) (s s' : RangeDb) (head head' : Head) : Prop where
  moved : head' = head ∧ s'.staged pass = s.staged pass ∨
    head.checkpointRevision < head'.checkpointRevision
  ranges : Persist s.ranges s'.ranges

/-- What a step does as far as the pass is concerned. If it ends the enumeration, the receipts
are exactly the orders of the source. -/
structure Kept (producer : OrdersProducer) (orders : List SourceOrder) (pass : Head)
    (s s' : RangeDb) (head head' : Head) : Prop where
  passing : Passing producer orders pass s' head'
  onward : Onward pass s s' head head'
  ended : head.passNumber = pass.passNumber → enumerating head = true →
    head'.passNumber = pass.passNumber → enumerating head' = false →
    Exact orders (rootNode pass) head' (s'.staged pass)

/-! ### Workers -/

/-- The checkpoint a worker has read is the stored one or older. -/
def Behind (head : Head) (s : RangeDb) : Prop :=
  ∀ stored, storedOf head s = some stored → head.checkpointRevision ≤ stored.checkpointRevision

/-- A worker asks for all the bounds where nothing is divided, else for those of the range in
hand, which are still the same. -/
def Asked (head : Head) (s : RangeDb) : Option OrderRange → Prop
  | none => head.activeRangeId = none
  | some range => some range.id = head.activeRangeId ∧
      ∃ stored ∈ s.ranges.docs, stored.id = range.id ∧ stored.node = range.node

/-- While the checkpoint is the stored one, no receipt of the batch is there yet. -/
def Fresh (head : Head) (receipts : List Receipt) (s : RangeDb) : Prop :=
  storedOf head s = some head → repeats head receipts s.db.receipts = false

/-- What a worker knows. -/
def Knows (orders : List SourceOrder) (s : RangeDb) : OrdersPhase → Prop
  | .idle => True
  | .opened _ head => Behind head s ∧ enumerating head = true
  | .asking _ head range => Behind head s ∧ enumerating head = true ∧ Asked head s range
  | .dividing _ head range _ _ => Behind head s ∧ enumerating head = true ∧ Asked head s range
  | .answered _ head range total receipts _ =>
      Behind head s ∧ enumerating head = true ∧ Asked head s range ∧
        Batch orders (bounds head range) total receipts
  | .unseen _ head range total receipts _ =>
      Behind head s ∧ enumerating head = true ∧ Asked head s range ∧
        Batch orders (bounds head range) total receipts ∧ Fresh head receipts s
  | .compared _ head total receipts _ =>
      Behind head s ∧ enumerating head = true ∧ head.activeRangeId = none ∧
        Batch orders (rootNode head) total receipts ∧ Fresh head receipts s

/-- A worker of the pass knows what it has read. -/
def Holds (orders : List SourceOrder) (pass : Head) (phase : OrdersPhase) (s : RangeDb) : Prop :=
  (∀ job head, phase.inHand = some (job, head) → SamePass head pass) → Knows orders s phase

section

variable {producer : OrdersProducer} {orders : List SourceOrder} {pass head head' : Head}
variable {s s' : RangeDb} {phase phase' : OrdersPhase} {receipts : List Receipt}

theorem repeats_eq {stored : Collection Receipt.id} :
    repeats head receipts stored = (stagedOf head stored).any fun other =>
      other.resourceId ∈ receipts.map Receipt.resourceId := by
  unfold repeats stagedOf Collection.find Collection.matched
  rw [List.any_filter]

theorem Behind.onward (h : Behind head s) (same : SamePass head pass) {stored stored' : Head}
    (hstored : storedOf pass s = some stored) (hstored' : storedOf pass s' = some stored')
    (onward : Onward pass s s' stored stored') : Behind head s' := by
  intro current hcurrent
  have hbefore : head.checkpointRevision ≤ stored.checkpointRevision := by
    refine h stored ?_
    rw [storedOf, same.id]
    exact hstored
  have hnow : current = stored' := by
    rw [storedOf, same.id] at hcurrent
    exact Option.some.inj (hcurrent.symm.trans hstored')
  obtain ⟨hsame, -⟩ | hmore := onward.moved
  · rw [hnow, hsame]
    exact hbefore
  · rw [hnow]
    omega

theorem Fresh.onward (h : Fresh head receipts s) (behind : Behind head s)
    (same : SamePass head pass) {stored stored' : Head}
    (hstored : storedOf pass s = some stored) (hstored' : storedOf pass s' = some stored')
    (onward : Onward pass s s' stored stored') : Fresh head receipts s' := by
  intro hcurrent
  have hstoredHead : storedOf head s = some stored := by
    rw [storedOf, same.id]
    exact hstored
  have hnow : head = stored' := by
    rw [storedOf, same.id] at hcurrent
    exact Option.some.inj (hcurrent.symm.trans hstored')
  obtain ⟨hsame, hstaged⟩ | hmore := onward.moved
  · have hfresh := h (by rw [hstoredHead, hnow, hsame])
    rw [repeats_eq, same.stagedOf] at hfresh ⊢
    rw [show stagedOf pass s'.db.receipts = stagedOf pass s.db.receipts from hstaged]
    exact hfresh
  · have := behind stored hstoredHead
    rw [hnow] at this
    omega

theorem Asked.onward {range : Option OrderRange} (h : Asked head s range)
    (ranges : Persist s.ranges s'.ranges) : Asked head s' range := by
  cases range with
  | none => exact h
  | some range =>
      obtain ⟨hid, stored, mem, hsame, hnode⟩ := h
      obtain ⟨stored', mem', hid', hnode'⟩ := ranges stored mem
      exact ⟨hid, stored', mem', hid'.trans hsame, hnode'.trans hnode⟩

/-- What a worker knows, it knows after any step of the others. -/
theorem Holds.onward (h : Holds orders pass phase s) {stored stored' : Head}
    (hstored : storedOf pass s = some stored) (hstored' : storedOf pass s' = some stored')
    (onward : Onward pass s s' stored stored') : Holds orders pass phase s' := by
  intro own
  have hknows := h own
  cases phase with
  | idle => exact hknows
  | opened job head =>
      have hsame := own job head rfl
      obtain ⟨hbehind, hgoing⟩ := hknows
      exact ⟨hbehind.onward hsame hstored hstored' onward, hgoing⟩
  | asking job head range =>
      have hsame := own job head rfl
      obtain ⟨hbehind, hgoing, hasked⟩ := hknows
      exact ⟨hbehind.onward hsame hstored hstored' onward, hgoing, hasked.onward onward.ranges⟩
  | dividing job head range total observedAt =>
      have hsame := own job head rfl
      obtain ⟨hbehind, hgoing, hasked⟩ := hknows
      exact ⟨hbehind.onward hsame hstored hstored' onward, hgoing, hasked.onward onward.ranges⟩
  | answered job head range total receipts observedAt =>
      have hsame := own job head rfl
      obtain ⟨hbehind, hgoing, hasked, hbatch⟩ := hknows
      exact ⟨hbehind.onward hsame hstored hstored' onward, hgoing, hasked.onward onward.ranges,
        hbatch⟩
  | unseen job head range total receipts observedAt =>
      have hsame := own job head rfl
      obtain ⟨hbehind, hgoing, hasked, hbatch, hfresh⟩ := hknows
      exact ⟨hbehind.onward hsame hstored hstored' onward, hgoing, hasked.onward onward.ranges,
        hbatch, hfresh.onward hbehind hsame hstored hstored' onward⟩
  | compared job head total receipts observedAt =>
      have hsame := own job head rfl
      obtain ⟨hbehind, hgoing, hasked, hbatch, hfresh⟩ := hknows
      exact ⟨hbehind.onward hsame hstored hstored' onward, hgoing, hasked, hbatch,
        hfresh.onward hbehind hsame hstored hstored' onward⟩

end

/-! ### Steps that leave the pass alone -/

section

variable {producer : OrdersProducer} {orders : List SourceOrder} {pass head head' acting : Head}
variable {s s' : RangeDb} {saved : Head} {receipts : List Receipt}

theorem Going.congr (h : Going producer orders pass s head)
    (staged : s'.staged pass = s.staged pass)
    (ranges : rangesOf pass s'.ranges = rangesOf pass s.ranges) :
    Going producer orders pass s' head where
  known := by
    rw [staged]
    exact h.known
  distinct := by
    rw [staged]
    exact h.distinct
  discovered := by
    rw [staged]
    exact h.discovered
  whole := by
    rw [staged, ranges]
    exact h.whole
  divided := by
    rw [staged, openRanges, ranges]
    exact h.divided

/-- The checkpoint, the receipts and the ranges of the pass are as before. -/
theorem Kept.of_alone (h : Passing producer orders pass s head)
    (stored : storedOf pass s' = some head) (staged : s'.staged pass = s.staged pass)
    (ranges : rangesOf pass s'.ranges = rangesOf pass s.ranges)
    (persist : Persist s.ranges s'.ranges) :
    Kept producer orders pass s s' head head where
  passing := ⟨stored, h.bounds, h.generation, h.later, fun hpass hgoing =>
    (h.going hpass hgoing).congr staged ranges⟩
  onward := ⟨.inl ⟨rfl, staged⟩, persist⟩
  ended := fun _ hgoing _ hended => absurd hgoing (by rw [hended]; exact Bool.false_ne_true)

/-- Only jobs have changed. -/
theorem Kept.of_jobs (h : Passing producer orders pass s head) (jobs : Recovery.Jobs) :
    Kept producer orders pass s { s with db := { s.db with jobs } } head head :=
  .of_alone h h.stored rfl rfl (.refl _)

/-- The pass is over, or its enumeration was and is. -/
theorem Kept.of_later (h : Passing producer orders pass s head)
    (stored : storedOf pass s' = some head')
    (bounds : head'.dateFrom = head.dateFrom ∧ head'.dateTo = head.dateTo)
    (generation : head'.generation = head.generation) (later : head.passNumber ≤ head'.passNumber)
    (revision : head.checkpointRevision < head'.checkpointRevision)
    (ended : head'.passNumber = pass.passNumber → enumerating head' = false)
    (before : head'.passNumber = pass.passNumber → enumerating head = false)
    (persist : Persist s.ranges s'.ranges) : Kept producer orders pass s s' head head' where
  passing := ⟨stored, ⟨bounds.1.trans h.bounds.1, bounds.2.trans h.bounds.2⟩,
    generation.trans h.generation, h.later.trans later, fun hpass hgoing =>
      absurd hgoing (by rw [ended hpass]; exact Bool.false_ne_true)⟩
  onward := ⟨.inr revision, persist⟩
  ended := fun _ hgoing hpass _ => absurd hgoing (by rw [before hpass]; exact Bool.false_ne_true)

/-- The checkpoint a transaction has replaced was the stored one. -/
theorem Passing.current (h : Passing producer orders pass s head) (id : acting.id = pass.id)
    (stored : s.db.heads.byKey acting.id = some acting) : head = acting := by
  rw [id] at stored
  exact Option.some.inj (h.stored.symm.trans stored)

theorem storedOf_of_ne {db : Db} (heads : ∀ id, s'.db.heads.byKey id =
      if id = acting.id then some saved else db.heads.byKey id) (other : acting.id ≠ pass.id) :
    storedOf pass s' = db.heads.byKey pass.id := by
  rw [storedOf, heads, if_neg (Ne.symm other)]

theorem storedOf_of_eq {db : Db} (heads : ∀ id, s'.db.heads.byKey id =
      if id = acting.id then some saved else db.heads.byKey id) (own : acting.id = pass.id) :
    storedOf pass s' = some saved := by
  rw [storedOf, heads, if_pos own.symm]

/-- Receipts that were added to others. -/
theorem staged_append {fresh : List Receipt}
    (docs : s'.db.receipts.docs = s.db.receipts.docs ++ fresh) :
    s'.staged pass = s.staged pass ++
      fresh.filter fun receipt => inScope pass receipt && OrdersProducer.staged receipt := by
  unfold RangeDb.staged stagedOf Collection.find
  rw [docs, List.filter_append]

/-- A transaction on another pass. -/
theorem Kept.of_committed (h : Passing producer orders pass s head)
    (committed : Committed acting saved receipts s.db s'.db) (other : ¬ SamePass acting pass)
    (ranges : rangesOf pass s'.ranges = rangesOf pass s.ranges)
    (persist : Persist s.ranges s'.ranges) :
    ∃ head', Kept producer orders pass s s' head head' := by
  by_cases hid : acting.id = pass.id
  · obtain rfl := h.current hid committed.stored
    obtain ⟨-, hfrom, hto, hgeneration, hpass, -⟩ := id_of_sameIdentity committed.identity
    have hleft : saved.passNumber ≠ pass.passNumber := fun heq =>
      other ⟨hid, h.generation, hpass.trans heq⟩
    exact ⟨saved, .of_later h (storedOf_of_eq committed.heads hid) ⟨hfrom.symm, hto.symm⟩
      hgeneration.symm hpass.le (by rw [committed.revision]; omega) (fun heq => absurd heq hleft)
      (fun heq => absurd heq hleft) persist⟩
  · refine ⟨head, .of_alone h ?_ ?_ ranges persist⟩
    · exact (storedOf_of_ne committed.heads hid).trans h.stored
    · obtain ⟨fresh, hsub, hdocs, -, -⟩ := committed.added
      rw [staged_append hdocs, List.filter_eq_nil_iff.mpr, List.append_nil]
      intro receipt mem hscope
      have hown := (committed.own receipt (hsub.subset mem)).1
      simp only [inScope, Bool.and_eq_true, decide_eq_true_eq] at hscope
      exact hid (hown.symm.trans hscope.1.1.1)

/-- A transaction that hands an acquisition over, to a later pass or after an enumeration. -/
theorem Kept.of_handedOver (h : Passing producer orders pass s head)
    (handed : HandedOver acting saved s.db s'.db) (ranges : s'.ranges = s.ranges)
    (later : saved.passNumber = acting.passNumber + 1 ∨
      saved.passNumber = acting.passNumber ∧ enumerating acting = false ∧
        enumerating saved = false) :
    ∃ head', Kept producer orders pass s s' head head' := by
  have hpersist : Persist s.ranges s'.ranges := by
    rw [ranges]
    exact .refl _
  by_cases hid : acting.id = pass.id
  · obtain rfl := h.current hid handed.stored
    have hlater := h.later
    refine ⟨saved, .of_later h (storedOf_of_eq handed.heads hid) handed.bounds handed.generation
      ?_ (by rw [handed.revision]; omega) (fun heq => ?_) (fun heq => ?_) hpersist⟩
    · obtain hnext | ⟨hsame, -, -⟩ := later
      · omega
      · exact hsame.ge
    · obtain hnext | ⟨-, -, hover⟩ := later
      · omega
      · exact hover
    · obtain hnext | ⟨-, hover, -⟩ := later
      · omega
      · exact hover
  · refine ⟨head, .of_alone h ((storedOf_of_ne handed.heads hid).trans h.stored) ?_ ?_ hpersist⟩
    · rw [RangeDb.staged, handed.receipts]
      rfl
    · rw [ranges]

end

/-! ### Transactions on the pass -/

/-- A batch has been added to the receipts of the pass. -/
structure Grown (orders : List SourceOrder) (pass : Head) (s s' : RangeDb) (saved : Head)
    (receipts : List Receipt) : Prop where
  staged : s'.staged pass = s.staged pass ++ receipts
  known : ∀ receipt ∈ s'.staged pass, Known orders (rootNode pass) receipt
  distinct : ((s'.staged pass).map Receipt.resourceId).Nodup
  discovered : saved.discoveredCount = memberships (s'.staged pass)

section

variable {producer : OrdersProducer} {orders : List SourceOrder} {pass head head' acting : Head}
variable {s s' : RangeDb} {saved : Head} {receipts : List Receipt} {bounds : OrderRangeNode}

theorem staged_of_known {receipt : Receipt} (h : Known orders bounds receipt) :
    staged receipt = true := by
  obtain ⟨order, -, -, -, hkind⟩ := h
  rw [staged, hkind]
  split
  · rfl
  · rfl

theorem rootNode_eq (h : Passing producer orders pass s acting) (id : acting.id = pass.id) :
    rootNode acting = rootNode pass := by
  rw [rootNode, rootNode, id, h.bounds.1, h.bounds.2]

/-- A batch none of whose orders the pass has is added as it is. -/
theorem added_eq {stored : Collection Receipt.id} {fresh : List Receipt}
    (sublist : fresh.Sublist receipts) (distinct : (receipts.map Receipt.identity).Nodup)
    (own : ∀ receipt ∈ receipts, inScope acting receipt = true ∧ staged receipt = true)
    (unseen : repeats acting receipts stored = false)
    (covered : ∀ receipt ∈ receipts, receipt ∈ fresh ∨
      ∃ other ∈ stored.docs, other.identity = receipt.identity) : fresh = receipts := by
  refine sublist.eq_of_length_le (List.Nodup.subperm (List.Nodup.of_map _ distinct) ?_).length_le
  intro receipt mem
  refine (covered receipt mem).resolve_right ?_
  rintro ⟨other, hother, hidentity⟩
  obtain ⟨hscope, hstaged⟩ := own receipt mem
  simp only [Receipt.identity, Prod.mk.injEq] at hidentity
  obtain ⟨hacquisition, hgeneration, hpass, hkind, hresource⟩ := hidentity
  have hnot := Collection.matched_eq_false.mp unseen other hother
  have hin : inScope acting other = true := by
    rw [inScope] at hscope ⊢
    rw [hacquisition, hgeneration, hpass]
    exact hscope
  have hkind' : staged other = true := by
    rw [staged, hkind]
    exact hstaged
  rw [hin, hkind', hresource, Bool.true_and, Bool.true_and, decide_eq_false_iff_not] at hnot
  exact hnot (List.mem_map_of_mem mem)

theorem Going.grown (going : Going producer orders pass s acting)
    (committed : Committed acting saved receipts s.db s'.db) (same : SamePass acting pass)
    (unseen : repeats acting receipts s.db.receipts = false)
    (known : ∀ receipt ∈ receipts, Known orders (rootNode pass) receipt)
    (distinct : (receipts.map Receipt.resourceId).Nodup) :
    Grown orders pass s s' saved receipts := by
  have hown (receipt : Receipt) (mem : receipt ∈ receipts) :
      inScope acting receipt = true ∧ staged receipt = true := by
    obtain ⟨hid, hgeneration, hpass⟩ := committed.own receipt mem
    refine ⟨?_, staged_of_known (known receipt mem)⟩
    simp [inScope, hid, hgeneration, hpass]
  obtain ⟨fresh, hsub, hdocs, hcount, hcovered⟩ := committed.added
  obtain rfl := added_eq hsub committed.distinct hown unseen hcovered
  have hstaged : s'.staged pass = s.staged pass ++ fresh := by
    rw [staged_append hdocs]
    congr 1
    refine List.filter_eq_self.mpr fun receipt mem => ?_
    obtain ⟨hscope, hkind⟩ := hown receipt mem
    rw [← same.inScope, hscope, hkind]
    rfl
  refine ⟨hstaged, ?_, ?_, ?_⟩
  · rw [hstaged]
    intro receipt mem
    exact (List.mem_append.mp mem).elim (going.known receipt) (known receipt)
  · rw [hstaged, List.map_append]
    refine going.distinct.append distinct ?_
    rw [List.disjoint_left]
    intro id hold hnew
    obtain ⟨receipt, mem, rfl⟩ := List.mem_map.mp hold
    rw [repeats_eq, same.stagedOf] at unseen
    exact absurd (by simpa using hnew) (List.any_eq_false.mp unseen receipt mem)
  · rw [hcount, going.discovered, hstaged, memberships, memberships, memberships,
      List.countP_append]

theorem unseen_nil : repeats acting [] s.db.receipts = false := by
  rw [repeats_eq]
  simp

/-! ### Undivided bounds -/

theorem enumerating_going (h : enumerating acting = true)
    (phase : saved.phase = acting.phase) (model : saved.readModel = acting.readModel)
    (cursor : saved.nextCursor.isSome) : enumerating saved = true := by
  unfold enumerating at h ⊢
  rw [phase, model, cursor]
  revert h
  cases acting.phase with
  | verify =>
      simp only [Bool.and_true, decide_true, Bool.or_true]
      exact fun h => (Bool.and_eq_true_iff.mp h).1
  | discover => simp
  | hydrate => simp
  | publish => simp
  | completed => simp

/-- An undivided enumeration goes on just as long as its offset has not reached the total. -/
theorem undivided_cases {total : Int} {observedAt updatedAt : Time}
    (enumerates : enumerating acting = true) :
    (enumerating (undivided acting total receipts observedAt updatedAt) = true ∧
      offsetOf (undivided acting total receipts observedAt updatedAt) =
        offsetOf acting + receipts.length) ∨
    (enumerating (undivided acting total receipts observedAt updatedAt) = false ∧
      total = (offsetOf acting + receipts.length : Nat)) := by
  have hmodel : acting.readModel = .orders :=
    of_decide_eq_true (Bool.and_eq_true_iff.mp enumerates).1
  by_cases hnext : (offsetOf acting + receipts.length : Nat) = total
  · refine .inr ⟨?_, hnext.symm⟩
    have hphase : (undivided acting total receipts observedAt updatedAt).phase =
        if acting.phase = .verify then .verify else .hydrate := by
      simp only [undivided, hnext, if_true]
    have hcursor : (undivided acting total receipts observedAt updatedAt).nextCursor = none := by
      simp only [undivided, hnext, if_true]
    rw [enumerating, hphase, hcursor]
    split <;> simp
  · have hcursor : (undivided acting total receipts observedAt updatedAt).nextCursor =
        some (.offset (offsetOf acting + receipts.length)) := by
      simp only [undivided, hnext, if_false]
    have hphase : (undivided acting total receipts observedAt updatedAt).phase =
        if acting.phase = .verify then .verify else .discover := by
      simp only [undivided, hnext, if_false]
    refine .inl ⟨?_, ?_⟩
    · rw [enumerating, hphase, hcursor]
      show (decide (acting.readModel = .orders) && _) = true
      rw [hmodel]
      split <;> simp
    · rw [offsetOf, hcursor]

/-- The page that reaches the total of bounds that are not divided. -/
theorem exact_of_whole (orders_distinct : (orders.map SourceOrder.id).Nodup)
    (grown : Grown orders pass s s' saved receipts)
    (total : (s'.staged pass).length = orders.countP (rootNode pass).asks)
    (sourceTotal : saved.sourceTotal = some (orders.countP (rootNode pass).asks)) :
    Exact orders (rootNode pass) saved (s'.staged pass) := by
  have hcount : (s'.staged pass).countP (placed orders (rootNode pass)) =
      orders.countP (rootNode pass).asks := by
    rw [← total]
    exact List.countP_eq_length.mpr fun receipt mem =>
      placed_root orders_distinct (grown.known receipt mem)
  exact exact_of_complete orders_distinct grown.distinct grown.known
    (fun order mem hasks => complete_of_count grown.distinct hcount mem hasks) sourceTotal
    grown.discovered

/-- The passing after a transaction on the pass. -/
theorem Passing.committed (h : Passing producer orders pass s acting) (same : SamePass acting pass)
    (committed : Committed acting saved receipts s.db s'.db)
    (going : enumerating saved = true → Going producer orders pass s' saved) :
    Passing producer orders pass s' saved := by
  obtain ⟨-, hfrom, hto, hgeneration, hpass, -⟩ := id_of_sameIdentity committed.identity
  exact ⟨storedOf_of_eq committed.heads same.id, ⟨hfrom.symm.trans h.bounds.1,
    hto.symm.trans h.bounds.2⟩, hgeneration.symm.trans h.generation, hpass ▸ h.later,
    fun _ => going⟩

theorem Kept.of_own (h : Passing producer orders pass s acting) (same : SamePass acting pass)
    (committed : Committed acting saved receipts s.db s'.db) (persist : Persist s.ranges s'.ranges)
    (going : enumerating saved = true → Going producer orders pass s' saved)
    (ended : enumerating saved = false → Exact orders (rootNode pass) saved (s'.staged pass)) :
    Kept producer orders pass s s' acting saved where
  passing := h.committed same committed going
  onward := ⟨.inr (by rw [committed.revision]; omega), persist⟩
  ended := fun _ _ _ => ended

theorem save_ok {total : Int} {job : Job} {observedAt updatedAt : Time} {now : Readings}
    (h : producer.save job acting total receipts observedAt updatedAt now s = .ok (saved, s')) :
    Committed acting saved receipts s.db s'.db ∧ s'.ranges = s.ranges ∧
    saved = undivided acting total receipts observedAt updatedAt := by
  unfold OrdersProducer.save at h
  obtain ⟨⟨saved', db⟩, hprogress, hlast⟩ := bind_ok h
  obtain ⟨rfl, rfl⟩ := Prod.mk.inj (pure_ok hlast)
  obtain ⟨rfl, committed⟩ := progress_ok (mapError_ok hprogress)
  exact ⟨committed, rfl, rfl⟩

/-- A page of bounds that are not divided is saved. -/
theorem Kept.of_save (orders_distinct : (orders.map SourceOrder.id).Nodup)
    (h : Passing producer orders pass s acting) (same : SamePass acting pass)
    (enumerates : enumerating acting = true) (inHand : acting.activeRangeId = none)
    {total : Int} (batch : Batch orders (rootNode acting) total receipts)
    (unseen : repeats acting receipts s.db.receipts = false) {job : Job}
    {observedAt updatedAt : Time} {now : Readings}
    (saves : producer.save job acting total receipts observedAt updatedAt now s = .ok (saved, s')) :
    Kept producer orders pass s s' acting saved := by
  obtain ⟨committed, hranges, rfl⟩ := save_ok saves
  rw [rootNode_eq h same.id] at batch
  have hgoing := h.going same.pass enumerates
  have hgrown := hgoing.grown committed same unseen batch.known batch.distinct
  obtain ⟨hnone, hlength⟩ := hgoing.whole inHand
  have hpersist : Persist s.ranges s'.ranges := by
    rw [hranges]
    exact .refl _
  have hstaged : (s'.staged pass).length = offsetOf acting + receipts.length := by
    rw [hgrown.staged, List.length_append, hlength]
  have hcases : (enumerating (undivided acting total receipts observedAt updatedAt) = true ∧
        offsetOf (undivided acting total receipts observedAt updatedAt) =
          offsetOf acting + receipts.length) ∨
      (enumerating (undivided acting total receipts observedAt updatedAt) = false ∧
        total = (offsetOf acting + receipts.length : Nat)) := undivided_cases enumerates
  obtain ⟨hmore, hoffset⟩ | ⟨hended, htotal⟩ := hcases
  · refine .of_own h same committed hpersist (fun _ => ?_) fun hended => ?_
    · refine ⟨hgrown.known, hgrown.distinct, hgrown.discovered, fun _ => ⟨?_, ?_⟩,
        fun hdivided => absurd inHand hdivided⟩
      · rw [hranges]
        exact hnone
      · rw [hstaged, hoffset]
    · rw [hmore] at hended
      cases hended
  · refine .of_own h same committed hpersist (fun hmore => ?_) fun _ => ?_
    · rw [hended] at hmore
      cases hmore
    · have hcount : offsetOf acting + receipts.length = orders.countP (rootNode pass).asks := by
        rw [batch.total] at htotal
        exact_mod_cast htotal.symm
      refine exact_of_whole orders_distinct hgrown (hstaged.trans hcount) ?_
      show some total.toNat = _
      rw [batch.total, Int.toNat_natCast]

/-! ### Divided bounds -/

/-- A transaction that halves a range. -/
theorem Kept.of_divides (h : Passing producer orders pass s acting) (same : SamePass acting pass)
    (enumerates : enumerating acting = true) (divides : Divides acting saved s s')
    (persist : Persist s.ranges s'.ranges)
    (divided : s'.staged pass = s.staged pass → Divided producer.sha256 orders (rootNode pass)
      (openRanges pass s'.ranges) (s'.staged pass)) :
    Kept producer orders pass s s' acting saved := by
  have hgoing := h.going same.pass enumerates
  have hgrown := hgoing.grown divides.committed same unseen_nil (by simp) (by simp)
  obtain ⟨-, -, -, -, -, -, hmodel⟩ := id_of_sameIdentity divides.committed.identity
  have hmore : enumerating saved = true :=
    enumerating_going enumerates divides.phase hmodel.symm (by rw [divides.cursor]; rfl)
  refine .of_own h same divides.committed persist (fun _ => ?_) fun hended => ?_
  · refine ⟨hgrown.known, hgrown.distinct, hgrown.discovered, fun hnone => ?_, fun _ => ?_⟩
    · have := divides.inHand
      rw [hnone] at this
      cases this
    · exact divided (hgrown.staged.trans (List.append_nil _))
  · rw [hmore] at hended
    cases hended

/-- All the bounds are halved. -/
theorem Kept.of_start (digest : ∀ text, producer.sha256 text ≠ "")
    (h : Passing producer orders pass s acting) (same : SamePass acting pass)
    (enumerates : enumerating acting = true) {job : Job} {total : Int}
    {observation : Option Time} {updatedAt : Time} {now : Readings}
    (starts : producer.start job acting (some total) observation updatedAt now s =
      .ok (saved, s')) : Kept producer orders pass s s' acting saved := by
  obtain ⟨hdivides, hnone, hoffset, hvalid, ranges, first, second, hdocs, hhalved⟩ :=
    start_ok starts
  obtain ⟨hranges, hlength⟩ := (h.going same.pass enumerates).whole hnone
  obtain ⟨before, after, hopen, hopen'⟩ := hhalved.openRanges same rangeInScope_rangeOf rfl
  have hscope : rangeInScope pass (producer.rangeOf acting (rootNode acting)) = true := by
    rw [← same.rangeInScope]
    exact rangeInScope_rangeOf
  have hroot : openRanges pass ranges = [producer.rangeOf acting (rootNode acting)] := by
    have hold : s.ranges.docs.filter (rangeInScope pass) = [] := hranges
    have hpending : (producer.rangeOf acting (rootNode acting)).state = .pending := rfl
    simp [openRanges, rangesOf, Collection.find, hdocs, hold, hscope, hpending]
  rw [hopen] at hroot
  rw [rootNode_eq h same.id] at hvalid
  have hleaf : (rootNode pass).Leaf :=
    ⟨valid_iff.mp hvalid, within_root (valid_iff.mp hvalid) rfl⟩
  refine .of_divides h same enumerates hdivides ?_ fun hstaged => ?_
  · intro range mem
    exact hhalved.persist range (by rw [hdocs]; exact List.mem_append_left _ mem)
  · rw [hstaged, List.eq_nil_of_length_eq_zero (hlength.trans hoffset), hopen']
    refine Divided.split digest ?_ hhalved.children rfl rfl rfl rfl rfl
    rw [hroot]
    exact .whole hleaf (rootNode_eq h same.id) rfl rfl

/-- The range in hand is halved. -/
theorem Kept.of_split (digest : ∀ text, producer.sha256 text ≠ "")
    (h : Passing producer orders pass s acting) (same : SamePass acting pass)
    (enumerates : enumerating acting = true) {job : Job} {total : Int}
    {observation : Option Time} {updatedAt : Time} {now : Readings}
    (splits : producer.split job acting total observation updatedAt now s = .ok (saved, s')) :
    Kept producer orders pass s s' acting saved := by
  obtain ⟨hdivides, parent, first, second, hactive, hhalved⟩ := split_ok splits
  obtain ⟨-, hid, hscope, hpending, -⟩ := active_ok hactive
  obtain ⟨before, after, hopen, hopen'⟩ := hhalved.openRanges same hscope hpending
  have hdivided := (h.going same.pass enumerates).divided (by rw [← hid]; exact nofun)
  refine .of_divides h same enumerates hdivides hhalved.persist fun hstaged => ?_
  rw [hopen] at hdivided
  rw [hstaged, hopen']
  exact hdivided.split digest hhalved.children hhalved.untouched rfl rfl rfl rfl

/-- A page of the range in hand is saved. -/
theorem Kept.of_page (digest : ∀ text, producer.sha256 text ≠ "")
    (orders_distinct : (orders.map SourceOrder.id).Nodup)
    (h : Passing producer orders pass s acting) (same : SamePass acting pass)
    (enumerates : enumerating acting = true) {asked : OrderRange}
    (asks : Asked acting s (some asked)) {total next : Int}
    (batch : Batch orders asked.node total receipts)
    (unseen : repeats acting receipts s.db.receipts = false) {job : Job}
    {verify : Option (Collection Receipt.id → Bool → Except OrderError Unit)}
    {observation : Option Time} {updatedAt : Time} {now : Readings}
    (pages : producer.page job acting total next receipts verify observation updatedAt now s =
      .ok (saved, s')) : Kept producer orders pass s s' acting saved := by
  obtain ⟨committed, range, turned, hpaged, -⟩ := page_ok pages
  obtain ⟨mem, hid, hscope, hpending, hoffset⟩ := active_ok hpaged.active
  have hgoing := h.going same.pass enumerates
  have hdivided := hgoing.divided (by rw [← hid]; exact nofun)
  -- The range that was asked for is the one in hand.
  obtain ⟨hasked, stored, hstored, hstoredId, hnode⟩ := asks
  obtain rfl : stored = range :=
    Collection.eq_of_key hstored mem (hstoredId.trans (Option.some.inj (hasked.trans hid.symm)))
  rw [← hnode] at batch
  have hturned : turned.id = stored.id ∧ turned.node = stored.node := by
    rw [hpaged.moved]
    exact ⟨rfl, rfl⟩
  rw [same.rangeInScope] at hscope
  have hscope' : rangeInScope pass turned = true := by
    rw [hpaged.moved]
    exact hscope
  have hwhole : turned.state ≠ .split := by
    rw [hpaged.moved]
    unfold RangeStore.turned
    dsimp only
    split <;> exact nofun
  obtain ⟨before, after, hopen, hopen'⟩ :=
    hpaged.turned.openRanges hscope hscope' (by rw [hpending]; exact nofun) hwhole
  rw [hopen] at hdivided
  obtain ⟨hinstants, hhours⟩ := hdivided.parts digest
  have hleaf : stored.node ∈ (before ++ stored :: after).map OrderRange.node := by simp
  have hgrown := hgoing.grown committed same unseen
    (fun receipt hreceipt => (batch.known receipt hreceipt).of_leaf hinstants hhours hleaf)
    batch.distinct
  have hdivided' : Divided producer.sha256 orders (rootNode pass) (openRanges pass s'.ranges)
      (s'.staged pass) := by
    rw [hopen', hgrown.staged]
    refine hdivided.page digest hturned.2 (fun receipt hreceipt => ?_) ?_ fun hdone => ?_
    · exact placed_root orders_distinct (batch.known receipt hreceipt)
    · rw [hpaged.moved]
      rfl
    · have htotal : total.toNat = orders.countP stored.node.asks := by
        rw [batch.total, Int.toNat_natCast]
      rw [hpaged.moved] at hdone ⊢
      have hreached : stored.nextOffset + receipts.length = total.toNat := by
        by_contra hshort
        simp [RangeStore.turned, hshort] at hdone
      rw [← htotal, ← hreached]
      exact ⟨rfl, rfl⟩
  obtain ⟨-, -, -, -, -, -, hmodel⟩ := id_of_sameIdentity committed.identity
  cases hnext : RangeStore.nextRange acting turned s'.ranges with
  | some part =>
      obtain ⟨hphase, hactive, hcursor⟩ := hpaged.goesOn part hnext
      have hmore : enumerating saved = true :=
        enumerating_going enumerates hphase hmodel.symm (by rw [hcursor]; rfl)
      refine .of_own h same committed (hpaged.turned.persist hturned.1 hturned.2) (fun _ => ?_)
        fun hended => ?_
      · refine ⟨hgrown.known, hgrown.distinct, hgrown.discovered, fun hnone => ?_,
          fun _ => hdivided'⟩
        rw [hactive] at hnone
        cases hnone
      · rw [hmore] at hended
        cases hended
  | none =>
      obtain ⟨hphase, -, hcursor, hsourceTotal⟩ := hpaged.finished hnext
      obtain ⟨hdone, htotal⟩ := enumerated_of_none same hnext
      obtain ⟨hcomplete, hsum⟩ := hdivided'.complete digest hdone hgrown.distinct
      refine .of_own h same committed (hpaged.turned.persist hturned.1 hturned.2)
        (fun hmore => ?_) fun _ => ?_
      · rw [enumerating, hphase, hcursor] at hmore
        revert hmore
        split <;> simp
      · refine exact_of_complete orders_distinct hgrown.distinct hgrown.known hcomplete ?_
          hgrown.discovered
        rw [hsourceTotal, htotal, hsum]

end

end ZelerPlatform.Acquisition
