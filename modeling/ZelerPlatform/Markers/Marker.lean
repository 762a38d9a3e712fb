import Mathlib.Data.List.Sort
import Mathlib.Data.Prod.Lex
import ZelerPlatform.Library.Intervals
import ZelerPlatform.Library.Mongo.Value

/-!
# Freshness markers and their interval proofs

The marker of a read model records what has been acquired from the source: its own
interval and the intervals it retains. A proof is durable; its `valid_until` only says how
long the newest one may stand for the instants after its end. Instants are microseconds,
and a stored date has lost what lies below its millisecond.
-/

namespace ZelerPlatform.Markers

open Mongo.Value

inductive MarkerState
  | fresh
  | reconciled
  | stale
  | failed
  deriving DecidableEq, Repr

/-- An interval of a marker, its own or one it retains. -/
structure Proof where
  state : MarkerState
  dateFrom : Option Int
  reconciledUntil : Option Int
  validUntil : Option Int
  coverageBasis : Option String := none
  deriving DecidableEq, Repr

/-- A document of `sheets_read_model_freshness`, whose validator fixes the fields and their
types. -/
structure Marker extends Proof where
  lastEventSyncedAt : Option Int := none
  freshUntil : Int
  updatedAt : Int
  source : Option String
  revision : Option String := none
  proofFingerprint : Option String := none
  retained : Option (List Proof) := none
  deriving DecidableEq, Repr

/-! ### Stored markers -/

def Proof.stored (proof : Proof) : Proof :=
  { proof with
    dateFrom := proof.dateFrom.map floorMs
    reconciledUntil := proof.reconciledUntil.map floorMs
    validUntil := proof.validUntil.map floorMs }

def Marker.stored (marker : Marker) : Marker :=
  { marker with
    toProof := marker.toProof.stored
    lastEventSyncedAt := marker.lastEventSyncedAt.map floorMs
    freshUntil := floorMs marker.freshUntil
    updatedAt := floorMs marker.updatedAt
    retained := marker.retained.map fun proofs => proofs.map (·.stored) }

@[simp] theorem Proof.stored_stored (proof : Proof) : proof.stored.stored = proof.stored := by
  simp [Proof.stored, Option.map_map, Function.comp_def]

theorem Marker.stored_stored (marker : Marker) : marker.stored.stored = marker.stored := by
  simp [Marker.stored, Option.map_map, Function.comp_def]

/-- A marker as the collection holds it. -/
structure StoredMarker where
  marker : Marker
  stored : marker.stored = marker

def Marker.store (marker : Marker) : StoredMarker := ⟨marker.stored, marker.stored_stored⟩

@[simp] theorem Marker.store_marker (marker : Marker) : marker.store.marker = marker.stored := rfl

/-! ### Reconciled markers -/

/-- `MARKER_VALIDITY`, two refresh cycles. -/
def markerValidity : Int := 30 * 60 * 1000000

/-- `reconciled_marker`; the seller and the read model are those of the document. -/
def reconciledMarker (start stop now : Int) : Marker where
  state := .reconciled
  dateFrom := some start
  reconciledUntil := some stop
  freshUntil := stop
  updatedAt := now
  validUntil := some (now + markerValidity)
  source := some "zelerdata_read_model_reconcile"

/-! ### Merging -/

/-- A proof with all its dates. -/
structure Block where
  dateFrom : Int
  reconciledUntil : Int
  validUntil : Int
  deriving DecidableEq, Repr

/-- The proofs that `merge_interval_proofs` keeps. -/
def Proof.block? (proof : Proof) : Option Block :=
  match proof.state, proof.dateFrom, proof.reconciledUntil, proof.validUntil with
  | .reconciled, some start, some stop, some validUntil =>
      if stop < start then none else some ⟨start, stop, validUntil⟩
  | _, _, _, _ => none

def Block.proof (block : Block) : Proof where
  state := .reconciled
  dateFrom := some block.dateFrom
  reconciledUntil := some block.reconciledUntil
  validUntil := some block.validUntil

/-- Two proofs that touch are one proof. -/
def blockSpans : Spans Block Int where
  lo := Block.dateFrom
  hi := Block.reconciledUntil
  join a b := {
    dateFrom := a.dateFrom
    reconciledUntil := max a.reconciledUntil b.reconciledUntil
    validUntil := max a.validUntil b.validUntil }
  lo_join _ _ := rfl
  hi_join _ _ := rfl

/-- The order of `normalized.sort`. -/
def Block.le (a b : Block) : Prop :=
  toLex (a.dateFrom, a.reconciledUntil) ≤ toLex (b.dateFrom, b.reconciledUntil)

instance : DecidableRel Block.le := fun a b =>
  inferInstanceAs (Decidable (toLex (a.dateFrom, a.reconciledUntil) ≤
    toLex (b.dateFrom, b.reconciledUntil)))

instance : Std.Total Block.le := ⟨fun _ _ => le_total _ _⟩

instance : IsTrans Block Block.le := ⟨fun _ _ _ => le_trans⟩

/-- The proofs merged, before the oldest ones are dropped. -/
def mergedBlocks (proofs : List Proof) : List Block :=
  blockSpans.merge ((proofs.filterMap (·.block?)).insertionSort Block.le)

/-- `MAX_RETAINED_INTERVALS`. -/
def maxRetainedIntervals : Nat := 32

/-- `merge_interval_proofs`. -/
def mergeIntervalProofs (proofs : List Proof) : List Block :=
  (mergedBlocks proofs).drop ((mergedBlocks proofs).length - maxRetainedIntervals)

/-- What `merge_interval_proofs` drops. -/
def forgottenBlocks (proofs : List Proof) : List Block :=
  (mergedBlocks proofs).take ((mergedBlocks proofs).length - maxRetainedIntervals)

/-! ### Coverage of a read -/

/-- The proofs of a reconciled marker that `read_model_reconciliation_marker_covers` looks at. -/
def Marker.provenProofs (marker : Marker) : List Proof :=
  if marker.state = .reconciled then
    ({ marker.toProof with dateFrom := marker.dateFrom.or marker.lastEventSyncedAt } ::
      marker.retained.getD []).filter (·.state = .reconciled)
  else []

/-- The part of a proof inside the request. -/
def Proof.clipped (requestedFrom requestedInstant : Int) (proof : Proof) : Option (Int × Int) :=
  match proof.dateFrom, proof.reconciledUntil with
  | some start, some stop =>
      if stop < start then none
      else if max start requestedFrom ≤ min stop requestedInstant then
        some (max start requestedFrom, min stop requestedInstant)
      else none
  | _, _ => none

/-- `_live_claim_covers_instant`. -/
def Proof.liveClaim (coverageUntil readInstant : Int) (proof : Proof) : Bool :=
  proof.validUntil.any (readInstant < ·) && decide (readInstant ≤ coverageUntil + markerValidity)

/-- `_union_covers_instant`; the order of the proofs does not matter. -/
def unionCoversInstant (proofs : List Proof) (requestedFrom requestedUntil readInstant : Int)
    (allowLiveClaim : Bool) : Bool :=
  match (proofs.filterMap (·.clipped requestedFrom (min requestedUntil readInstant))).insertionSort
      fun a b => toLex a ≤ toLex b with
  | [] => false
  | first :: rest =>
      if requestedFrom < first.1 then false
      else
        match Chain.reach first.2 rest with
        | none => false
        | some coveredUntil =>
            decide (min requestedUntil readInstant ≤ coveredUntil) ||
              allowLiveClaim && proofs.any fun proof =>
                proof.reconciledUntil == some coveredUntil &&
                  proof.liveClaim coveredUntil readInstant

/-- `read_model_reconciliation_marker_covers`, without a basis or an exact interval. -/
def markerCovers (marker : Marker) (dateFrom dateTo : Option Int) (readInstant : Int)
    (allowLiveClaim : Bool) : Bool :=
  match dateFrom, dateTo with
  | some requestedFrom, some requestedUntil =>
      if readInstant < requestedFrom then false
      else unionCoversInstant marker.provenProofs requestedFrom requestedUntil readInstant
        allowLiveClaim
  | _, _ => false

/-! ### The proven set -/

/-- The instants in the blocks. -/
def Block.covered (blocks : List Block) : Set Int := blockSpans.covered blocks

/-- The instants in the proofs that carry a validity. -/
def provenBy (proofs : List Proof) : Set Int := Block.covered (proofs.filterMap (·.block?))

def Marker.proofs (marker : Marker) : List Proof := marker.toProof :: marker.retained.getD []

/-- The proven set of a marker. -/
def Marker.proven (marker : Marker) : Set Int :=
  if marker.state = .reconciled then provenBy marker.proofs else ∅

variable {proofs others : List Proof} {blocks : List Block} {t : Int}

theorem mem_covered : t ∈ Block.covered blocks ↔
    ∃ block ∈ blocks, block.dateFrom ≤ t ∧ t < block.reconciledUntil := Iff.rfl

theorem block?_eq_some {proof : Proof} {block : Block} (h : proof.block? = some block) :
    proof.state = .reconciled ∧ proof.dateFrom = some block.dateFrom ∧
      proof.reconciledUntil = some block.reconciledUntil ∧
      proof.validUntil = some block.validUntil ∧ block.dateFrom ≤ block.reconciledUntil := by
  unfold Proof.block? at h
  split at h
  · next hstate hfrom huntil hvalid =>
      split at h
      · cases h
      · next hle =>
          cases h
          exact ⟨hstate, hfrom, huntil, hvalid, not_lt.mp hle⟩
  · cases h

theorem block_proof_block? {block : Block} (h : block.dateFrom ≤ block.reconciledUntil) :
    block.proof.block? = some block := by
  simp [Proof.block?, Block.proof, not_lt.mpr h]

theorem mem_provenBy : t ∈ provenBy proofs ↔ ∃ proof ∈ proofs, ∃ block, proof.block? = some block ∧
    block.dateFrom ≤ t ∧ t < block.reconciledUntil := by
  simp only [provenBy, mem_covered, List.mem_filterMap]
  constructor
  · rintro ⟨block, ⟨proof, hproof, hblock⟩, ht⟩
    exact ⟨proof, hproof, block, hblock, ht⟩
  · rintro ⟨proof, hproof, block, hblock, ht⟩
    exact ⟨block, ⟨proof, hproof, hblock⟩, ht⟩

/-- An empty block proves nothing. -/
theorem provenBy_proof : provenBy (blocks.map Block.proof) = Block.covered blocks := by
  ext t
  simp only [mem_provenBy, List.mem_map, mem_covered]
  constructor
  · rintro ⟨proof, ⟨block, hmem, rfl⟩, other, hother, ht⟩
    obtain ⟨-, hfrom, huntil, -⟩ := block?_eq_some hother
    obtain ⟨hfrom, huntil⟩ := And.intro (Option.some.inj hfrom) (Option.some.inj huntil)
    exact ⟨block, hmem, hfrom ▸ ht.1, huntil ▸ ht.2⟩
  · rintro ⟨block, hmem, ht⟩
    exact ⟨block.proof, ⟨block, hmem, rfl⟩, block, block_proof_block? (ht.1.trans ht.2.le), ht⟩

theorem provenBy_append : provenBy (proofs ++ others) = provenBy proofs ∪ provenBy others := by
  simp only [provenBy, Block.covered, List.filterMap_append, Spans.covered_append]

theorem provenBy_cons {proof : Proof} :
    provenBy (proof :: proofs) = provenBy [proof] ∪ provenBy proofs := by
  rw [← provenBy_append, List.singleton_append]

theorem sorted_blocks : blockSpans.Sorted (blocks.insertionSort Block.le) :=
  (List.pairwise_insertionSort Block.le blocks).imp fun h => Prod.Lex.monotone_fst _ _ h

/-- Merging keeps what is proven. -/
theorem covered_mergedBlocks : Block.covered (mergedBlocks proofs) = provenBy proofs :=
  (Spans.covered_merge sorted_blocks).trans (Spans.covered_perm (List.perm_insertionSort _ _))

theorem covered_forgotten :
    Block.covered (forgottenBlocks proofs) ∪ Block.covered (mergeIntervalProofs proofs) =
      provenBy proofs := by
  rw [← covered_mergedBlocks, Block.covered, Block.covered, ← Spans.covered_append,
    forgottenBlocks, mergeIntervalProofs, List.take_append_drop]
  rfl

theorem covered_mergeIntervalProofs_subset :
    Block.covered (mergeIntervalProofs proofs) ⊆ provenBy proofs := by
  rw [← covered_forgotten]
  exact Set.subset_union_right

/-- The blocks that are dropped are older than all that stay, and there are none while there is
room. -/
theorem forgotten_older {block other : Block} (h : block ∈ forgottenBlocks proofs)
    (hother : other ∈ mergeIntervalProofs proofs) : block.reconciledUntil < other.dateFrom := by
  have hseparated : blockSpans.Separated (mergedBlocks proofs) :=
    Spans.separated_merge sorted_blocks
  rw [← List.take_append_drop ((mergedBlocks proofs).length - maxRetainedIntervals)
    (mergedBlocks proofs)] at hseparated
  exact (List.pairwise_append.mp hseparated).2.2 block h other hother

theorem forgotten_nil (h : (mergedBlocks proofs).length ≤ maxRetainedIntervals) :
    forgottenBlocks proofs = [] := by
  rw [forgottenBlocks, Nat.sub_eq_zero_of_le h, List.take_zero]

end ZelerPlatform.Markers
