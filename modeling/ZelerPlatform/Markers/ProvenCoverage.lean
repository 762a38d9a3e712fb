import ZelerPlatform.Markers.RangePublication

/-!
# What a publication leaves proven

A publication proves its range and keeps what was proven before, but for the oldest blocks
beyond the cap. The one exception is a previous proof that reaches beyond the end of the
range and is dropped all the same, because the live claim of the new marker, or a clock
that has not reached the end yet, passes for coverage.
-/

namespace ZelerPlatform.Markers

open Fallible Recovery Mongo.Value

variable {proofs others : List Proof} {marker previous : Marker} {clock : Nat → Int}
variable {start stop t : Int}

/-! ### Stored bounds -/

/-- The bounds of a proof are whole milliseconds. -/
def Proof.Aligned (proof : Proof) : Prop :=
  proof.dateFrom.map floorMs = proof.dateFrom ∧
    proof.reconciledUntil.map floorMs = proof.reconciledUntil

def Block.Aligned (block : Block) : Prop :=
  floorMs block.dateFrom = block.dateFrom ∧ floorMs block.reconciledUntil = block.reconciledUntil

theorem floorMs_micros (t : Time) : floorMs (micros t) = micros t := by
  unfold floorMs micros
  omega

theorem floorMs_max {a b : Int} (ha : floorMs a = a) (hb : floorMs b = b) :
    floorMs (max a b) = max a b := by
  obtain h | h := le_total a b
  · rw [max_eq_right h, hb]
  · rw [max_eq_left h, ha]

theorem floorMs_min {a b : Int} (ha : floorMs a = a) (hb : floorMs b = b) :
    floorMs (min a b) = min a b := by
  obtain h | h := le_total a b
  · rw [min_eq_left h, ha]
  · rw [min_eq_right h, hb]

theorem Proof.Aligned.block {proof : Proof} {block : Block} (h : proof.Aligned)
    (hblock : proof.block? = some block) : block.Aligned := by
  obtain ⟨-, hfrom, huntil, -⟩ := block?_eq_some hblock
  obtain ⟨hstart, hstop⟩ := h
  rw [hfrom] at hstart
  rw [huntil] at hstop
  exact ⟨Option.some.inj hstart, Option.some.inj hstop⟩

theorem Block.Aligned.proof {block : Block} (h : block.Aligned) : block.proof.Aligned :=
  ⟨congrArg some h.1, congrArg some h.2⟩

/-- Merging joins whole milliseconds to whole milliseconds. -/
theorem aligned_merge (h : ∀ proof ∈ proofs, proof.Aligned) :
    ∀ block ∈ mergeIntervalProofs proofs, block.Aligned := by
  intro block hblock
  have hmerged : block ∈ mergedBlocks proofs := List.mem_of_mem_drop hblock
  refine Spans.forall_mem_merge (s := blockSpans) (P := Block.Aligned) ?_ ?_ block hmerged
  · intro a b ha hb
    exact ⟨ha.1, floorMs_max ha.2 hb.2⟩
  · intro b hb
    obtain ⟨proof, hproof, hb⟩ := List.mem_filterMap.mp ((List.mem_insertionSort _).mp hb)
    exact (h proof hproof).block hb

theorem stored_block? {proof : Proof} (h : proof.Aligned) :
    proof.stored.block? = proof.block?.map fun block =>
      { block with validUntil := floorMs block.validUntil } := by
  obtain ⟨state, dateFrom, reconciledUntil, validUntil, basis⟩ := proof
  obtain ⟨hfrom, huntil⟩ := h
  simp only at hfrom huntil
  simp only [Proof.stored, hfrom, huntil, Proof.block?]
  cases state <;> cases dateFrom <;> cases reconciledUntil <;> cases validUntil <;> try rfl
  simp only [Option.map_some]
  split <;> rfl

/-- Storing proofs with whole bounds keeps what they prove. -/
theorem provenBy_stored (h : ∀ proof ∈ proofs, proof.Aligned) :
    provenBy (proofs.map (·.stored)) = provenBy proofs := by
  ext t
  simp only [mem_provenBy, List.mem_map]
  constructor
  · rintro ⟨_, ⟨proof, hproof, rfl⟩, block, hblock, ht⟩
    rw [stored_block? (h proof hproof)] at hblock
    obtain ⟨original, horiginal, rfl⟩ := Option.map_eq_some_iff.mp hblock
    exact ⟨proof, hproof, original, horiginal, ht⟩
  · rintro ⟨proof, hproof, block, hblock, ht⟩
    refine ⟨proof.stored, ⟨proof, hproof, rfl⟩,
      { block with validUntil := floorMs block.validUntil }, ?_, ht⟩
    rw [stored_block? (h proof hproof), hblock]
    rfl

theorem stored_proofs : marker.stored.proofs = marker.proofs.map (·.stored) := by
  unfold Marker.proofs Marker.stored
  cases marker.retained <;> rfl

theorem proven_stored (h : ∀ proof ∈ marker.proofs, proof.Aligned) :
    marker.stored.proven = marker.proven := by
  unfold Marker.proven
  rw [stored_proofs, provenBy_stored h]
  rfl

theorem StoredMarker.aligned (stored : StoredMarker) :
    ∀ proof ∈ stored.marker.proofs, proof.Aligned := by
  intro proof hproof
  have hfixed : stored.marker.proofs.map (·.stored) = stored.marker.proofs := by
    rw [← stored_proofs, stored.stored]
  rw [← hfixed] at hproof
  obtain ⟨original, -, rfl⟩ := List.mem_map.mp hproof
  simp [Proof.Aligned, Proof.stored, Option.map_map, Function.comp_def]

/-! ### What the new marker covers -/

/-- The marker of a range covers a request that begins in the range and, at the instant of the
read, either ends in it or may lean on the live claim. -/
theorem reconciledMarker_covers {made requestedFrom requestedUntil now : Int} {allow : Bool} :
    markerCovers (reconciledMarker start stop made) (some requestedFrom) (some requestedUntil) now
        allow = true ↔
      start ≤ requestedFrom ∧ requestedFrom ≤ stop ∧ requestedFrom ≤ min requestedUntil now ∧
        (min requestedUntil now ≤ stop ∨
          allow = true ∧ now < made + markerValidity ∧ now ≤ stop + markerValidity) := by
  have hproven : (reconciledMarker start stop made).provenProofs =
      [⟨.reconciled, some start, some stop, some (made + markerValidity), none⟩] := rfl
  simp only [markerCovers, hproven, unionCoversInstant, List.filterMap_cons, List.filterMap_nil,
    Proof.clipped, List.any_cons, List.any_nil, Bool.or_false]
  generalize hinstant : min requestedUntil now = instant
  have hnow : instant ≤ now := hinstant ▸ min_le_right _ _
  split
  · next hfuture =>
      constructor
      · intro h
        cases h
      · rintro ⟨-, -, hle, -⟩
        omega
  · by_cases hinverted : stop < start
    · rw [if_pos hinverted]
      constructor
      · intro h
        cases h
      · rintro ⟨hstart, hstop, -⟩
        omega
    · rw [if_neg hinverted]
      by_cases hclipped : max start requestedFrom ≤ min stop instant
      · simp only [if_pos hclipped, List.insertionSort_cons, List.insertionSort_nil,
          List.orderedInsert_nil, Chain.reach]
        split
        · next hlate =>
            constructor
            · intro h
              cases h
            · rintro ⟨hstart, -⟩
              omega
        · simp only [Proof.liveClaim, Bool.or_eq_true, Bool.and_eq_true, decide_eq_true_eq,
            beq_iff_eq, Option.some.injEq, Option.any_some]
          constructor
          · rintro (hreached | ⟨hallow, hstop, hvalid, hlive⟩)
            · exact ⟨by omega, by omega, by omega, .inl (by omega)⟩
            · exact ⟨by omega, by omega, by omega, .inr ⟨hallow, hvalid, by omega⟩⟩
          · rintro ⟨hstart, hstop, hle, hreached | ⟨hallow, hvalid, hlive⟩⟩
            · exact .inl (by omega)
            · by_cases hreached : instant ≤ stop
              · exact .inl (by omega)
              · exact .inr ⟨hallow, by omega, hvalid, by omega⟩
      · rw [if_neg hclipped]
        constructor
        · intro h
          cases h
        · rintro ⟨hstart, hstop, hle, -⟩
          omega

/-! ### The rules of composition -/

/-- The proofs that the new marker merges. -/
def mergedProofs (job : Job) (before : Option Marker) (start stop made : Int)
    (clock : Nat → Int) : List Proof :=
  match before.filter (·.state = .reconciled) with
  | none => []
  | some previous =>
      let marker := reconciledMarker start stop made
      if job.yearHistory then previous.retained.getD [] ++ [portion start stop marker]
      else candidates marker previous clock

/-- The proven set of a marker that may be absent. -/
def provenSet (marker : Option Marker) : Set Int := (marker.map (·.proven)).getD ∅

/-- The new marker proves the range and what the old one proved. Only the oldest of the merged
blocks are dropped, and only for lack of room. -/
structure KeepsCoverage (before : Option Marker) (start stop : Int) (merged : List Proof)
    (after : Marker) : Prop where
  exact : (mergedBlocks merged).length ≤ maxRetainedIntervals →
    after.proven = provenSet before ∪ Set.Ico start stop
  sound : after.proven ⊆ provenSet before ∪ Set.Ico start stop
  acquired : Set.Ico start stop ⊆ after.proven
  kept : provenSet before ⊆ after.proven ∪ Block.covered (forgottenBlocks merged)
  oldest : ∀ block ∈ forgottenBlocks merged, ∀ other ∈ mergeIntervalProofs merged,
    block.reconciledUntil < other.dateFrom

/-- The exactness follows from the rest. -/
theorem KeepsCoverage.of_kept {before : Option Marker} {after : Marker} {merged : List Proof}
    (sound : after.proven ⊆ provenSet before ∪ Set.Ico start stop)
    (acquired : Set.Ico start stop ⊆ after.proven)
    (kept : provenSet before ⊆ after.proven ∪ Block.covered (forgottenBlocks merged)) :
    KeepsCoverage before start stop merged after where
  exact hroom := by
    refine sound.antisymm (Set.union_subset ?_ acquired)
    rw [forgotten_nil hroom] at kept
    exact kept.trans (Set.union_subset subset_rfl (by simp [Block.covered]))
  sound := sound
  acquired := acquired
  kept := kept
  oldest _ hblock _ hother := forgotten_older hblock hother

theorem mem_candidates {proof : Proof} : proof ∈ candidates marker previous clock ↔
    ∃ k, (proof, k) ∈ previous.proofs.zipIdx ∧
      markerCovers marker proof.dateFrom proof.reconciledUntil (clock k) true = false := by
  simp [candidates]

theorem candidates_subset : candidates marker previous clock ⊆ previous.proofs := by
  intro proof hproof
  obtain ⟨k, hk, -⟩ := mem_candidates.mp hproof
  exact List.fst_mem_of_mem_zipIdx hk

/-- The new marker passes for one that covers the block: it does when the block ends in the range,
but also when the clock has not reached the end of the range, or the live claim stands for what
lies beyond. -/
def LooksCovered (start stop made now : Int) (block : Block) : Prop :=
  start ≤ block.dateFrom ∧ block.dateFrom ≤ stop ∧
    block.dateFrom ≤ min block.reconciledUntil now ∧
    (min block.reconciledUntil now ≤ stop ∨
      now < made + markerValidity ∧ now ≤ stop + markerValidity)

theorem looksCovered_iff {made now : Int} {proof : Proof} {block : Block}
    (h : proof.block? = some block) :
    markerCovers (reconciledMarker start stop made) proof.dateFrom proof.reconciledUntil now true =
      true ↔ LooksCovered start stop made now block := by
  obtain ⟨-, hfrom, huntil, -⟩ := block?_eq_some h
  rw [hfrom, huntil, reconciledMarker_covers]
  simp [LooksCovered]

/-- What a proof that looks covered has beyond the end of the range lies in one that does not. -/
def TailsKept (previous : Marker) (start stop made : Int) (clock : Nat → Int) : Prop :=
  ∀ proof k block, (proof, k) ∈ previous.proofs.zipIdx → proof.block? = some block →
    LooksCovered start stop made (clock k) block →
    ∀ t, stop ≤ t → block.dateFrom ≤ t → t < block.reconciledUntil →
      ∃ other j kept, (other, j) ∈ previous.proofs.zipIdx ∧ other.block? = some kept ∧
        ¬ LooksCovered start stop made (clock j) kept ∧
        kept.dateFrom ≤ t ∧ t < kept.reconciledUntil

theorem mem_provenBy_candidates {made : Int} :
    t ∈ provenBy (candidates (reconciledMarker start stop made) previous clock) ↔
      ∃ other j kept, (other, j) ∈ previous.proofs.zipIdx ∧ other.block? = some kept ∧
        ¬ LooksCovered start stop made (clock j) kept ∧
        kept.dateFrom ≤ t ∧ t < kept.reconciledUntil := by
  rw [mem_provenBy]
  constructor
  · rintro ⟨other, hother, kept, hkept, ht⟩
    obtain ⟨j, hj, hcovers⟩ := mem_candidates.mp hother
    refine ⟨other, j, kept, hj, hkept, fun hlooks => ?_, ht⟩
    rw [(looksCovered_iff hkept).mpr hlooks] at hcovers
    cases hcovers
  · rintro ⟨other, j, kept, hj, hkept, hlooks, ht⟩
    refine ⟨other, mem_candidates.mpr ⟨j, hj, ?_⟩, kept, hkept, ht⟩
    exact Bool.eq_false_iff.mpr fun hcovers => hlooks ((looksCovered_iff hkept).mp hcovers)

theorem proven_reconciledMarker (made : Int) :
    provenBy [(reconciledMarker start stop made).toProof] = Set.Ico start stop := by
  ext t
  simp only [mem_provenBy, List.mem_singleton, exists_eq_left, Set.mem_Ico]
  constructor
  · rintro ⟨block, hblock, ht⟩
    obtain ⟨-, hfrom, huntil, -⟩ := block?_eq_some hblock
    cases hfrom
    cases huntil
    exact ht
  · intro ht
    refine ⟨⟨start, stop, made + markerValidity⟩, ?_, ht⟩
    simp [Proof.block?, reconciledMarker, not_lt.mpr (ht.1.trans ht.2.le)]

theorem proven_of_reconciled (h : marker.state = .reconciled) :
    marker.proven = provenBy marker.proofs := if_pos h

/-- The retained blocks add what they cover. -/
theorem provenBy_retained {own : Proof} {blocks : List Block} :
    provenBy (own :: blocks.map Block.proof) = provenBy [own] ∪ Block.covered blocks := by
  rw [provenBy_cons, provenBy_proof]

section

variable {job : Job} {before : Option Marker} {made : Int}

theorem proven_rangeMarker (hbefore : before.filter (·.state = .reconciled) = some previous) :
    (rangeMarker job before (reconciledMarker start stop made) clock).proven =
      Set.Ico start stop ∪ Block.covered
        (mergeIntervalProofs (candidates (reconciledMarker start stop made) previous clock)) := by
  unfold rangeMarker
  rw [hbefore]
  dsimp only
  generalize mergeIntervalProofs _ = blocks
  split
  · rw [proven_of_reconciled rfl, ← proven_reconciledMarker made]
    exact provenBy_retained
  · next hnone =>
      obtain rfl : blocks = [] := not_not.mp (not_or.mp hnone).2
      rw [proven_of_reconciled rfl, ← proven_reconciledMarker made]
      simp [Marker.proofs, reconciledMarker, Block.covered]

/-- A range of orders or questions keeps the coverage exactly if no tail is dropped. -/
theorem rangeMarker_keeps (hbefore : before.filter (·.state = .reconciled) = some previous) :
    KeepsCoverage before start stop
        (candidates (reconciledMarker start stop made) previous clock)
        (rangeMarker job before (reconciledMarker start stop made) clock) ↔
      TailsKept previous start stop made clock := by
  have hafter : (rangeMarker job before (reconciledMarker start stop made) clock).proven = _ :=
    proven_rangeMarker hbefore
  generalize hcandidates : candidates (reconciledMarker start stop made) previous clock = kept at *
  obtain ⟨hsome, hstate⟩ := Option.filter_eq_some_iff.mp hbefore
  have hold : provenSet before = provenBy previous.proofs := by
    rw [hsome]
    exact proven_of_reconciled (of_decide_eq_true hstate)
  have hsubset : provenBy kept ⊆ provenSet before := by
    rw [hold, ← hcandidates]
    exact Spans.covered_mono (List.filterMap_subset _ candidates_subset)
  constructor
  · intro h proof k block hproof hblock hlooks t hlate hfrom huntil
    have hkept : t ∈ provenSet before := by
      rw [hold]
      have hmem : proof ∈ previous.proofs := List.fst_mem_of_mem_zipIdx hproof
      exact mem_provenBy.mpr ⟨proof, hmem, block, hblock, hfrom, huntil⟩
    rw [← mem_provenBy_candidates, hcandidates, ← covered_forgotten]
    obtain hnew | hforgotten := h.kept hkept
    · rw [hafter] at hnew
      obtain hrange | hmerged := hnew
      · exact absurd hrange.2 (not_lt.mpr hlate)
      · exact .inr hmerged
    · exact .inl hforgotten
  · intro h
    refine .of_kept ?_ ?_ ?_
    · rw [hafter]
      refine Set.union_subset Set.subset_union_right ?_
      exact fun t ht => .inl (hsubset (covered_mergeIntervalProofs_subset ht))
    · rw [hafter]
      exact Set.subset_union_left
    · intro t ht
      rw [hold, mem_provenBy] at ht
      obtain ⟨proof, hproof, block, hblock, hrange⟩ := ht
      obtain ⟨k, hget⟩ := List.mem_iff_getElem?.mp hproof
      have hk : (proof, k) ∈ previous.proofs.zipIdx := List.mk_mem_zipIdx_iff_getElem?.mpr hget
      have hin : t ∈ Set.Ico start stop ∨ t ∈ provenBy kept := by
        rw [← hcandidates, mem_provenBy_candidates]
        by_cases hlooks : LooksCovered start stop made (clock k) block
        · by_cases hlate : stop ≤ t
          · exact .inr (h proof k block hk hblock hlooks t hlate hrange.1 hrange.2)
          · exact .inl ⟨hlooks.1.trans hrange.1, not_le.mp hlate⟩
        · exact .inr ⟨proof, k, block, hk, hblock, hlooks, hrange⟩
      rw [hafter]
      obtain hrange | hmerged := hin
      · exact .inl (.inl hrange)
      · rw [← covered_forgotten] at hmerged
        obtain hforgotten | hmerged := hmerged
        · exact .inr hforgotten
        · exact .inl (.inr hmerged)

/-- A portion of the year's history always keeps the coverage. -/
theorem yearHistoryMarker_keeps {after : Marker}
    (h : yearHistoryMarker before start stop (reconciledMarker start stop made) = .ok after) :
    ∃ marker, before.filter (·.state = .reconciled) = some marker ∧
      after.proofs = marker.toProof :: (mergeIntervalProofs (marker.retained.getD [] ++
        [portion start stop (reconciledMarker start stop made)])).map Block.proof ∧
      KeepsCoverage before start stop (marker.retained.getD [] ++
        [portion start stop (reconciledMarker start stop made)]) after := by
  unfold yearHistoryMarker at h
  split at h
  · exact (throw_ok h).elim
  · next marker hbefore =>
      obtain ⟨hcontained, h⟩ := raiseIf_ok h
      obtain ⟨block, hblock, hfrom, huntil⟩ := not_not.mp hcontained
      obtain ⟨hsome, hstate⟩ := Option.filter_eq_some_iff.mp hbefore
      have hreconciled : marker.state = .reconciled := of_decide_eq_true hstate
      obtain rfl := pure_ok h
      refine ⟨marker, hbefore, rfl, ?_⟩
      generalize hmerged : marker.retained.getD [] ++
        [portion start stop (reconciledMarker start stop made)] = merged at *
      have hportion : provenBy merged =
          provenBy (marker.retained.getD []) ∪ Set.Ico start stop := by
        rw [← hmerged, provenBy_append, ← proven_reconciledMarker made]
        rfl
      have hold : provenSet before =
          provenBy [marker.toProof] ∪ provenBy (marker.retained.getD []) := by
        rw [hsome]
        exact (proven_of_reconciled hreconciled).trans provenBy_cons
      have hafter : Marker.proven { marker with
            retained := some ((mergeIntervalProofs merged).map Block.proof) } =
          provenBy [marker.toProof] ∪ Block.covered (mergeIntervalProofs merged) :=
        (if_pos hreconciled).trans provenBy_retained
      refine .of_kept ?_ ?_ ?_
      · rw [hafter, hold, Set.union_assoc, ← hportion]
        exact Set.union_subset_union_right _ covered_mergeIntervalProofs_subset
      · rw [hafter]
        exact fun t ht => .inr ⟨block, hblock, hfrom.trans ht.1, lt_of_lt_of_le ht.2 huntil⟩
      · have hretained : provenBy (marker.retained.getD []) ⊆ provenBy merged := by
          rw [hportion]
          exact Set.subset_union_left
        rw [hafter, hold]
        rintro t (hown | hkept)
        · exact .inl (.inl hown)
        · obtain hforgotten | hnew := covered_forgotten ▸ hretained hkept
          · exact .inr hforgotten
          · exact .inl (.inr hnew)

/-- The previous proofs that are dropped leave no tail behind, if the publication drops any. -/
def DropsNoTail (job : Job) (before : Option Marker) (start stop made : Int)
    (clock : Nat → Int) : Prop :=
  job.yearHistory = false → ∀ previous, before.filter (·.state = .reconciled) = some previous →
    TailsKept previous start stop made clock

theorem provenSet_of_not_reconciled (h : before.filter (·.state = .reconciled) = none) :
    provenSet before = ∅ := by
  cases before with
  | none => rfl
  | some marker =>
      refine if_neg fun hstate => ?_
      simp [Option.filter, hstate] at h

theorem keepsCoverage_congr {after after' : Marker} {merged : List Proof}
    (h : after'.proven = after.proven) :
    KeepsCoverage before start stop merged after' ↔
      KeepsCoverage before start stop merged after := by
  constructor
  · intro hkeeps
    exact .of_kept (h ▸ hkeeps.sound) (h ▸ hkeeps.acquired) (h ▸ hkeeps.kept)
  · intro hkeeps
    exact .of_kept (h ▸ hkeeps.sound) (h ▸ hkeeps.acquired) (h ▸ hkeeps.kept)

/-- The coverage is kept exactly if the publication drops no tail. -/
theorem newMarker_keeps {after : Marker}
    (hmodel : job.readModel = .orders ∨ job.readModel = .questions)
    (h : newMarker job before start stop made clock = .ok after) :
    KeepsCoverage before start stop (mergedProofs job before start stop made clock) after ↔
      DropsNoTail job before start stop made clock := by
  unfold newMarker at h
  dsimp only at h
  cases hyear : job.yearHistory with
  | true =>
      rw [if_pos hyear] at h
      obtain ⟨marker, hbefore, -, hkeeps⟩ := yearHistoryMarker_keeps h
      simp only [mergedProofs, hbefore, hyear, if_true]
      exact iff_of_true hkeeps fun hno => absurd (hyear.symm.trans hno) (by decide)
  | false =>
      rw [if_neg (by simp [hyear]), if_pos hmodel] at h
      obtain rfl := pure_ok h
      cases hbefore : before.filter (·.state = .reconciled) with
      | none =>
          have hafter : (rangeMarker job before (reconciledMarker start stop made) clock).proven =
              Set.Ico start stop := by
            unfold rangeMarker
            rw [hbefore]
            exact (proven_of_reconciled rfl).trans (proven_reconciledMarker _)
          refine iff_of_true ?_ fun _ previous hprevious => ?_
          · refine .of_kept ?_ hafter.ge ?_
            · rw [hafter]
              exact Set.subset_union_right
            · rw [provenSet_of_not_reconciled hbefore]
              exact Set.empty_subset _
          · rw [hbefore] at hprevious
            cases hprevious
      | some previous =>
          simp only [mergedProofs, hbefore, hyear]
          refine (rangeMarker_keeps hbefore).trans ?_
          constructor
          · intro htails _ other hother
            rw [hbefore] at hother
            cases hother
            exact htails
          · intro hdrops
            exact hdrops hyear previous hbefore

/-- The marker that a publication stores has whole bounds. -/
theorem newMarker_aligned {after : Marker} (hstart : floorMs start = start)
    (hstop : floorMs stop = stop)
    (hbefore : ∀ marker ∈ before, ∀ proof ∈ marker.proofs, proof.Aligned)
    (h : newMarker job before start stop made clock = .ok after) :
    ∀ proof ∈ after.proofs, proof.Aligned := by
  have hown : (reconciledMarker start stop made).toProof.Aligned :=
    ⟨congrArg some hstart, congrArg some hstop⟩
  have hblocks : ∀ {proofs : List Proof}, (∀ proof ∈ proofs, proof.Aligned) →
      ∀ proof ∈ (mergeIntervalProofs proofs).map Block.proof, proof.Aligned := by
    intro proofs hproofs proof hproof
    obtain ⟨block, hblock, rfl⟩ := List.mem_map.mp hproof
    exact (aligned_merge hproofs block hblock).proof
  unfold newMarker at h
  dsimp only at h
  split at h
  · obtain ⟨marker, hmarker, hafter, -⟩ := yearHistoryMarker_keeps h
    have hproofs := hbefore marker (Option.filter_eq_some_iff.mp hmarker).1
    rw [hafter]
    intro proof hproof
    obtain rfl | hproof := List.mem_cons.mp hproof
    · exact hproofs _ List.mem_cons_self
    · refine hblocks (fun proof hproof => ?_) proof hproof
      obtain hretained | hportion := List.mem_append.mp hproof
      · exact hproofs proof (List.mem_cons_of_mem _ hretained)
      · obtain rfl := List.mem_singleton.mp hportion
        exact hown
  · have hplain : ∀ proof ∈ (reconciledMarker start stop made).proofs, proof.Aligned := by
      intro proof hproof
      obtain rfl := List.mem_singleton.mp hproof
      exact hown
    split at h
    · obtain rfl := pure_ok h
      unfold rangeMarker
      split
      · exact hplain
      · next previous hprevious =>
          have hproofs := hbefore previous (Option.filter_eq_some_iff.mp hprevious).1
          dsimp only
          split
          · intro proof hproof
            obtain rfl | hproof := List.mem_cons.mp hproof
            · exact hown
            · refine hblocks (fun proof hproof => ?_) proof hproof
              exact hproofs proof (candidates_subset hproof)
          · exact hplain
    · obtain rfl := pure_ok h
      exact hplain

end

/-! ### The publication of an acquired range -/

theorem coverage_aligned {job : Job} {dateFrom dateTo : Time} {read : Option StoredMarker}
    {now : Int} :
    floorMs (coverage job dateFrom dateTo read now).start =
        (coverage job dateFrom dateTo read now).start ∧
      floorMs (coverage job dateFrom dateTo read now).stop =
        (coverage job dateFrom dateTo read now).stop := by
  unfold coverage
  dsimp only
  split
  · exact ⟨floorMs_micros _, floorMs_micros _⟩
  · next stored =>
      split
      · obtain ⟨hfrom, huntil⟩ := stored.aligned _ List.mem_cons_self
        constructor
        · refine floorMs_min (floorMs_micros _) ?_
          cases hstart : stored.marker.dateFrom with
          | none => exact floorMs_micros _
          | some start => exact Option.some.inj (by simpa [hstart] using hfrom)
        · refine floorMs_max (floorMs_micros _) ?_
          cases hstop : stored.marker.reconciledUntil with
          | none => exact floorMs_micros _
          | some stop => exact Option.some.inj (by simpa [hstop] using huntil)
      · exact ⟨floorMs_micros _, floorMs_micros _⟩

/-- A publication that commits stores the new marker in place of the one it was made from. -/
theorem publish_marker {job : Job} {acquired : Acquired} {resources : Resources} {made now : Int}
    {db db' : Db} (h : publish job acquired resources made clock now db = .ok db') :
    db.marker.map (·.marker) = acquired.before.map (·.marker) ∧
      ∃ after, newMarker job (acquired.before.map (·.marker)) acquired.start acquired.stop made
        clock = .ok after ∧ db'.marker = some after.store := by
  unfold publish at h
  obtain ⟨-, h⟩ := raiseIf_ok h
  obtain ⟨after, hafter, h⟩ := bind_ok h
  obtain ⟨hsame, h⟩ := raiseIf_ok h
  obtain ⟨jobs, -, h⟩ := bind_ok h
  obtain ⟨persisted, -, h⟩ := bind_ok h
  obtain ⟨rows, -, h⟩ := bind_ok h
  obtain ⟨-, -, h⟩ := bind_ok h
  obtain ⟨operation, -, h⟩ := bind_ok h
  obtain rfl := pure_ok h
  exact ⟨not_not.mp hsame, after, hafter, rfl⟩

/-- What a committed publication of orders, questions or a portion of the year's history leaves
proven. -/
theorem published_coverage_kept {job : Job} {dateFrom dateTo : Time} {read : Option StoredMarker}
    {asked : Int} {acquired : Acquired} {resources : Resources} {made now : Int} {db db' : Db}
    (hmodel : job.readModel = .orders ∨ job.readModel = .questions)
    (hacquired : coverage job dateFrom dateTo read asked = acquired)
    (h : publish job acquired resources made clock now db = .ok db') :
    ∃ after, db'.marker = some after ∧
      (KeepsCoverage (db.marker.map (·.marker)) acquired.start acquired.stop
          (mergedProofs job (db.marker.map (·.marker)) acquired.start acquired.stop made clock)
          after.marker ↔
        DropsNoTail job (db.marker.map (·.marker)) acquired.start acquired.stop made clock) := by
  obtain ⟨hsame, after, hafter, hmarker⟩ := publish_marker h
  rw [← hsame] at hafter
  refine ⟨after.store, hmarker, ?_⟩
  obtain ⟨hstart, hstop⟩ : floorMs acquired.start = acquired.start ∧
      floorMs acquired.stop = acquired.stop := hacquired ▸ coverage_aligned
  have haligned : ∀ proof ∈ after.proofs, proof.Aligned := by
    refine newMarker_aligned hstart hstop ?_ hafter
    intro marker hmem
    obtain ⟨stored, -, rfl⟩ := Option.map_eq_some_iff.mp hmem
    exact stored.aligned
  rw [Marker.store_marker, keepsCoverage_congr (proven_stored haligned)]
  exact newMarker_keeps hmodel hafter

/-! ### Two overlapping ranges -/

def minute : Int := 60 * 1000000

/-- The job of the orders created up to ten o'clock, while its worker holds it. -/
def tenOClock : Job where
  id := "orders-10:00"
  sellerId := "1"
  readModel := .orders
  state := .running
  attempts := 1
  createdAt := 36000000
  updatedAt := 36000000
  availableAt := 36000000
  attemptToken := some "token"
  leaseUntil := some 37200000
  dateFrom := some 0
  dateTo := some 36000000

/-- The operation under which the orders are written. -/
def tenOClockOperation : Devoluciones.Context where
  sellerId := "1"
  scope := "devoluciones"
  operationId := "orders-10:00"
  attemptToken := "token"
  fence := 1
  ownsLease := true
  sourceFingerprint := none
  requiredCoverageStart := none
  requiredCoverageEnd := none
  checkpoint := []
  leaseLost := false
  coverageMode := "legacy"
  coverageEpoch := 0

/-- The seller without orders, at twelve minutes past ten; orders have been proven up to the given
instant. -/
def provenUntil (until' : Int) : Db where
  jobs := { docs := [tenOClock], nodup := List.nodup_singleton _ }
  marker := some (reconciledMarker 0 until' until').store
  rows := []
  operation := some {
    id := "1:devoluciones"
    operationId := "orders-10:00"
    attemptToken := "token"
    fence := some 1
    coverageMode := none
    coverageEpoch := none
    coverageAckFence := none
    state := "running"
    leaseUntil := some (614 * minute)
    heartbeatAt := some (612 * minute)
    sourceFingerprint := none
    checkpoint := none
    startedAt := some (612 * minute)
    updatedAt := some (612 * minute)
    finishedAt := none
    errorCode := none }

def noOrders : Resources where
  ids := []
  persist := .ok
  operation := some tenOClockOperation
  unavailableFields := fun _ => []
  removedQuestionIds := []

/-- The publication of the range, at twelve minutes past ten. -/
def publishTenOClock (db : Db) : Except PublishError Db :=
  publish tenOClock (coverage tenOClock 0 36000000 db.marker (600 * minute)) noOrders
    (612 * minute) (fun _ => 612 * minute) (612 * minute) db

/-- An earlier range, proven up to ten minutes to ten, is kept. -/
theorem published_coverage_kept_earlier :
    ∃ db' after, publishTenOClock (provenUntil (590 * minute)) = .ok db' ∧
      db'.marker = some after ∧
      KeepsCoverage ((provenUntil (590 * minute)).marker.map (·.marker)) 0 (600 * minute)
        (mergedProofs tenOClock ((provenUntil (590 * minute)).marker.map (·.marker)) 0
          (600 * minute) (612 * minute) fun _ => 612 * minute) after.marker := by
  obtain ⟨db', hpublished⟩ : ∃ db', publishTenOClock (provenUntil (590 * minute)) = .ok db' :=
    ⟨_, rfl⟩
  obtain ⟨after, hafter, hkeeps⟩ := published_coverage_kept (.inl rfl) rfl hpublished
  refine ⟨db', after, hpublished, hafter, hkeeps.mpr ?_⟩
  rintro - previous hprevious proof k block hproof hblock - t hlate - hbefore
  cases hprevious
  obtain ⟨rfl, -⟩ := Prod.mk.inj (List.mem_singleton.mp hproof)
  cases hblock
  exact absurd (hlate.trans_lt hbefore) (by decide)

/-- A range that ends five minutes later was acquired first. Its last five minutes are lost. -/
theorem later_range_lost :
    ∃ db' after, publishTenOClock (provenUntil (605 * minute)) = .ok db' ∧
      db'.marker = some after ∧
      ¬ KeepsCoverage ((provenUntil (605 * minute)).marker.map (·.marker)) 0 (600 * minute)
        (mergedProofs tenOClock ((provenUntil (605 * minute)).marker.map (·.marker)) 0
          (600 * minute) (612 * minute) fun _ => 612 * minute) after.marker := by
  refine ⟨_, _, rfl, rfl, fun hkeeps => ?_⟩
  have hold : 602 * minute ∈ provenSet ((provenUntil (605 * minute)).marker.map (·.marker)) :=
    mem_provenBy.mpr ⟨_, List.mem_cons_self, _, rfl, by decide, by decide⟩
  obtain hafter | ⟨block, hblock, -⟩ := hkeeps.kept hold
  · obtain ⟨proof, hproof, block, hblock, -, hbefore⟩ := mem_provenBy.mp hafter
    obtain rfl := List.mem_singleton.mp hproof
    cases hblock
    exact absurd hbefore (by decide)
  · cases hblock

end ZelerPlatform.Markers
