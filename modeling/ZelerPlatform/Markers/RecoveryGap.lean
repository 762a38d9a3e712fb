import ZelerPlatform.Library.ClosedIntervals
import ZelerPlatform.Library.Mongo.Document
import ZelerPlatform.Library.Mongo.Python
import ZelerPlatform.Markers.Marker

/-!
# Coverage of a read and the gap to recover

A read is covered when the proven intervals of a marker leave no gap in it. Where they do, the
first gap is what is to be recovered next. The markers here are documents as a reader meets
them: texts stand for dates, and a proof may lack what the merge of a publication demands.
-/

namespace ZelerPlatform.Markers.Gaps

open Mongo

/-! ### Proofs of a document -/

/-- What a reader makes of values: `str(value or "")`, `str.casefold`, and
`datetime.fromisoformat` in UTC. -/
structure Reading where
  text : Value → String
  casefold : String → String
  instant : String → Option Int
  text_string : ∀ s, text (.string s) = s
  casefold_reconciled : casefold "reconciled" = "reconciled"

/-- `_safe_utc_datetime`. -/
def safeUtcDatetime (reading : Reading) : Value → Option Int
  | .date us => some us
  | .string s => reading.instant s
  | _ => none

/-- `_first_utc_datetime`. -/
def firstUtcDatetime (reading : Reading) (values : List Value) : Option Int :=
  values.findSome? (safeUtcDatetime reading)

/-- `_is_proven_interval`, without a basis. -/
def isProvenInterval (reading : Reading) (proof : Doc) : Bool :=
  reading.casefold (pyStrip (reading.text (proof.getD "state"))) = "reconciled"

/-- `_marker_interval_proofs`: the marker's own proof and those it retains. -/
def markerIntervalProofs (reading : Reading) (marker : Doc) : Option (List Doc) :=
  if isProvenInterval reading marker then
    match marker.get? "retained_intervals" with
    | none => some [marker]
    | some (.array retained) =>
        some (marker.filter (fun field => field.1 ≠ "retained_intervals") ::
          retained.filterMap fun
            | .document proof => some proof
            | _ => none)
    | some _ => none
  else none

/-! ### The gap -/

/-- The interval of a proof. -/
def recoveryInterval (reading : Reading) (proof : Doc) : Option (Int × Int) :=
  if isProvenInterval reading proof then
    match firstUtcDatetime reading [proof.getD "date_from", proof.getD "last_event_synced_at"],
        safeUtcDatetime reading (proof.getD "reconciled_until") with
    | some start, some stop => if start ≤ stop then some (start, stop) else none
    | _, _ => none
  else none

/-- The intervals of some proofs, sorted. -/
def sortedIntervals (reading : Reading) (proofs : List Doc) : List (Int × Int) :=
  (proofs.filterMap (recoveryInterval reading)).insertionSort fun a b => toLex a ≤ toLex b

/-- `_proven_recovery_intervals`. -/
def provenRecoveryIntervals (reading : Reading) (marker : Doc) : List (Int × Int) :=
  match markerIntervalProofs reading marker with
  | none => []
  | some proofs => sortedIntervals reading proofs

/-- `_first_recovery_gap`. -/
def firstRecoveryGap (intervals : List (Int × Int)) (start stop : Int) : Int × Int :=
  Chain.firstGap intervals start stop

/-! ### The verdict -/

/-- The part of a proof inside the request. -/
def clipped (reading : Reading) (requestedFrom requestedInstant : Int) (proof : Doc) :
    Option (Int × Int) :=
  match (safeUtcDatetime reading (proof.getD "date_from")).or
      (safeUtcDatetime reading (proof.getD "last_event_synced_at")),
      safeUtcDatetime reading (proof.getD "reconciled_until") with
  | some start, some stop =>
      if stop < start then none
      else if max start requestedFrom ≤ min stop requestedInstant then
        some (max start requestedFrom, min stop requestedInstant)
      else none
  | _, _ => none

/-- Whether the sorted intervals lead from the start to the instant without a gap. -/
def sweep (requestedFrom requestedInstant : Int) : List (Int × Int) → Bool
  | [] => false
  | first :: rest =>
      if requestedFrom < first.1 then false
      else match Chain.reach first.2 rest with
        | none => false
        | some coveredUntil => requestedInstant ≤ coveredUntil

/-- `_union_covers_instant`, without a live claim. -/
def unionCoversInstant (reading : Reading) (proofs : List Doc)
    (requestedFrom requestedInstant : Int) : Bool :=
  sweep requestedFrom requestedInstant
    ((proofs.filterMap (clipped reading requestedFrom requestedInstant)).insertionSort
      fun a b => toLex a ≤ toLex b)

/-- Whether some proofs cover a range. -/
def proofsCover (reading : Reading) (proofs : List Doc) (requestedFrom requestedInstant : Int) :
    Bool :=
  let covered := proofs.filter (isProvenInterval reading)
  if covered.isEmpty then false
  else unionCoversInstant reading covered requestedFrom requestedInstant

/-- `read_model_reconciliation_marker_covers`, without a basis, an exact interval or a live
claim. -/
def markerCovers (reading : Reading) (marker : Doc) (dateFrom dateTo readInstant : Int) : Bool :=
  match markerIntervalProofs reading marker with
  | none => false
  | some proofs =>
      if readInstant < dateFrom then false
      else proofsCover reading proofs dateFrom (min dateTo readInstant)

/-! ### Merging -/

/-- The proofs that `merge_interval_proofs` keeps. -/
def keptBlock? (proof : Doc) : Option Block :=
  match proof.getD "state", proof.getD "date_from", proof.getD "reconciled_until",
      proof.getD "valid_until" with
  | .string state, .date start, .date stop, .date validUntil =>
      if state ≠ "reconciled" ∨ stop < start then none else some ⟨start, stop, validUntil⟩
  | _, _, _, _ => none

/-- The blocks of some proofs, before the oldest ones are dropped. -/
def mergedBlocks (proofs : List Doc) : List Block :=
  blockSpans.merge ((proofs.filterMap keptBlock?).insertionSort Block.le)

/-- `merge_interval_proofs`. -/
def mergeIntervalProofs (proofs : List Doc) : List Block :=
  (mergedBlocks proofs).drop ((mergedBlocks proofs).length - maxRetainedIntervals)

/-- A merged proof, which is also what a recovery of a range adds. -/
def blockDoc (block : Block) : Doc :=
  [("state", .string "reconciled"), ("date_from", .date block.dateFrom),
    ("reconciled_until", .date block.reconciledUntil), ("valid_until", .date block.validUntil)]

/-- `timedelta(days=90)`. -/
def ninetyDays : Int := 90 * 86400000000

/-- A recovery of the first ninety days of the gap, unless there is none. -/
def recoverFirst (reading : Reading) (validUntil start stop : Int) (proofs : List Doc) :
    List Doc :=
  if proofsCover reading proofs start stop then proofs
  else
    let gap := firstRecoveryGap (sortedIntervals reading proofs) start stop
    proofs ++ [blockDoc ⟨gap.1, min gap.2 (gap.1 + ninetyDays), validUntil⟩]

/-! ### The proven instants -/

/-- The instants in the proven closed intervals; time is dense. -/
def provenInstants (reading : Reading) (proofs : List Doc) : Set ℝ :=
  {t | ∃ proof ∈ proofs, ∃ interval, recoveryInterval reading proof = some interval ∧
    (interval.1 : ℝ) ≤ t ∧ t ≤ (interval.2 : ℝ)}

variable {reading : Reading} {proofs others : List Doc} {proof : Doc} {start stop : Int} {t : ℝ}

theorem mem_provenInstants : t ∈ provenInstants reading proofs ↔ ∃ proof ∈ proofs, ∃ interval,
    recoveryInterval reading proof = some interval ∧ (interval.1 : ℝ) ≤ t ∧
      t ≤ (interval.2 : ℝ) := Iff.rfl

theorem provenInstants_append : provenInstants reading (proofs ++ others) =
    provenInstants reading proofs ∪ provenInstants reading others := by
  ext t
  simp only [mem_provenInstants, List.mem_append, Set.mem_union, or_and_right, exists_or]

theorem provenInstants_mono (h : proofs ⊆ others) :
    provenInstants reading proofs ⊆ provenInstants reading others :=
  fun _ ⟨proof, mem, ht⟩ => ⟨proof, h mem, ht⟩

theorem provenInstants_perm (h : proofs.Perm others) :
    provenInstants reading proofs = provenInstants reading others := by
  apply Set.Subset.antisymm
  · exact provenInstants_mono h.subset
  · exact provenInstants_mono h.symm.subset

/-- The intervals as pairs of instants. -/
def asInstants (intervals : List (Int × Int)) : List (ℝ × ℝ) :=
  intervals.map (Prod.map Int.cast Int.cast)

theorem mem_asInstants {intervals : List (Int × Int)} : t ∈ Chain.closed (asInstants intervals) ↔
    ∃ i ∈ intervals, (i.1 : ℝ) ≤ t ∧ t ≤ (i.2 : ℝ) := by
  simp [asInstants, Chain.closed]

theorem ascending_insertionSort (intervals : List (Int × Int)) :
    Chain.Ascending (intervals.insertionSort fun a b => toLex a ≤ toLex b) :=
  (List.pairwise_insertionSort (fun a b : Int × Int => toLex a ≤ toLex b) intervals).imp
    fun h => Prod.Lex.monotone_fst _ _ h

theorem mem_sortedIntervals {i : Int × Int} : i ∈ sortedIntervals reading proofs ↔
    ∃ proof ∈ proofs, recoveryInterval reading proof = some i := by
  rw [sortedIntervals, List.mem_insertionSort, List.mem_filterMap]

theorem closed_sortedIntervals : Chain.closed (asInstants (sortedIntervals reading proofs)) =
    provenInstants reading proofs := by
  ext t
  rw [mem_asInstants, mem_provenInstants]
  constructor
  · rintro ⟨i, mem, ht⟩
    obtain ⟨proof, hproof, hi⟩ := mem_sortedIntervals.mp mem
    exact ⟨proof, hproof, i, hi, ht⟩
  · rintro ⟨proof, hproof, i, hi, ht⟩
    exact ⟨i, mem_sortedIntervals.mpr ⟨proof, hproof, hi⟩, ht⟩

/-! ### The verdict is coverage -/

/-- The part of an interval inside a range. -/
def clip (start stop : Int) (i : Int × Int) : Option (Int × Int) :=
  if max i.1 start ≤ min i.2 stop then some (max i.1 start, min i.2 stop) else none

theorem clipped_eq (proven : isProvenInterval reading proof) :
    clipped reading start stop proof = (recoveryInterval reading proof).bind (clip start stop) := by
  rw [clipped, recoveryInterval, if_pos proven]
  have hfirst : firstUtcDatetime reading [proof.getD "date_from", proof.getD "last_event_synced_at"]
      = (safeUtcDatetime reading (proof.getD "date_from")).or
        (safeUtcDatetime reading (proof.getD "last_event_synced_at")) := by
    rw [firstUtcDatetime, List.findSome?_cons, List.findSome?_cons, List.findSome?_nil]
    cases safeUtcDatetime reading (proof.getD "date_from") with
    | some _ => rfl
    | none => cases safeUtcDatetime reading (proof.getD "last_event_synced_at") <;> rfl
  rw [hfirst]
  split
  case h_1 first last _ _ =>
      by_cases hle : first ≤ last
      · rw [if_neg (not_lt.mpr hle), if_pos hle]
        rfl
      · rw [if_pos (not_le.mp hle), if_neg hle]
        rfl
  case h_2 => rfl

/-- The clipped intervals, sorted. -/
def clippedIntervals (reading : Reading) (proofs : List Doc) (start stop : Int) :
    List (Int × Int) :=
  ((proofs.filterMap (recoveryInterval reading)).filterMap (clip start stop)).insertionSort
    fun a b => toLex a ≤ toLex b

theorem filterMap_clipped :
    (proofs.filter (isProvenInterval reading)).filterMap (clipped reading start stop) =
      (proofs.filterMap (recoveryInterval reading)).filterMap (clip start stop) := by
  rw [List.filterMap_filter, List.filterMap_filterMap]
  refine List.filterMap_congr fun proof _ => ?_
  split
  case isTrue proven => exact clipped_eq proven
  case isFalse unproven =>
      rw [recoveryInterval, if_neg unproven]
      rfl

theorem mem_clippedIntervals {i : Int × Int} : i ∈ clippedIntervals reading proofs start stop ↔
    ∃ proof ∈ proofs, ∃ interval, recoveryInterval reading proof = some interval ∧
      clip start stop interval = some i := by
  simp only [clippedIntervals, List.mem_insertionSort, List.mem_filterMap]
  constructor
  · rintro ⟨interval, ⟨proof, mem, hinterval⟩, hclip⟩
    exact ⟨proof, mem, interval, hinterval, hclip⟩
  · rintro ⟨proof, mem, interval, hinterval, hclip⟩
    exact ⟨interval, ⟨proof, mem, hinterval⟩, hclip⟩

theorem clip_eq_some {i j : Int × Int} (h : clip start stop i = some j) :
    start ≤ j.1 ∧ j.1 ≤ j.2 ∧ j.2 ≤ stop ∧ i.1 ≤ j.1 ∧ j.2 ≤ i.2 := by
  rw [clip] at h
  split at h
  case isTrue hle =>
      obtain rfl := Option.some.inj h
      exact ⟨le_max_right _ _, hle, min_le_right _ _, le_max_left _ _, min_le_left _ _⟩
  case isFalse => cases h

theorem closed_clippedIntervals : t ∈ Chain.closed
    (asInstants (clippedIntervals reading proofs start stop)) ↔
      ((start : ℝ) ≤ t ∧ t ≤ (stop : ℝ)) ∧ t ∈ provenInstants reading proofs := by
  rw [mem_asInstants, mem_provenInstants]
  constructor
  · rintro ⟨j, mem, hlo, hhi⟩
    obtain ⟨proof, hproof, i, hi, hclip⟩ := mem_clippedIntervals.mp mem
    obtain ⟨hstart, -, hstop, hleft, hright⟩ := clip_eq_some hclip
    refine ⟨⟨(Int.cast_le.mpr hstart).trans hlo, hhi.trans (Int.cast_le.mpr hstop)⟩, ?_⟩
    exact ⟨proof, hproof, i, hi, (Int.cast_le.mpr hleft).trans hlo,
      hhi.trans (Int.cast_le.mpr hright)⟩
  · rintro ⟨⟨hstart, hstop⟩, proof, hproof, i, hi, hlo, hhi⟩
    have hlower : ((max i.1 start : Int) : ℝ) ≤ t := by
      rw [Int.cast_max]
      exact max_le hlo hstart
    have hupper : t ≤ ((min i.2 stop : Int) : ℝ) := by
      rw [Int.cast_min]
      exact le_min hhi hstop
    have hclip : clip start stop i = some (max i.1 start, min i.2 stop) :=
      if_pos (Int.cast_le.mp (hlower.trans hupper))
    exact ⟨_, mem_clippedIntervals.mpr ⟨proof, hproof, i, hi, hclip⟩, hlower, hupper⟩

/-- Intervals inside a range are swept to its end exactly when they leave nothing out. -/
theorem sweep_iff {intervals : List (Int × Int)} (hlt : start ≤ stop)
    (hsorted : Chain.Ascending intervals)
    (hinside : ∀ i ∈ intervals, start ≤ i.1 ∧ i.1 ≤ i.2 ∧ i.2 ≤ stop) :
    sweep start stop intervals = true ↔ ∀ t : ℝ, (start : ℝ) ≤ t → t ≤ (stop : ℝ) →
      t ∈ Chain.closed (asInstants intervals) := by
  cases intervals with
  | nil =>
      refine ⟨fun h => (by cases h), fun h => ?_⟩
      obtain ⟨i, mem, -⟩ := h start le_rfl (Int.cast_le.mpr hlt)
      cases mem
  | cons first rest =>
      rw [sweep]
      constructor
      · intro h t hstart hstop
        by_cases hfirst : start < first.1
        · rw [if_pos hfirst] at h
          cases h
        · rw [if_neg hfirst] at h
          split at h
          case h_1 => cases h
          case h_2 coveredUntil hreach =>
              have hlo : (first.1 : ℝ) ≤ t := (Int.cast_le.mpr (not_lt.mp hfirst)).trans hstart
              refine Chain.mem_closed_cons.mpr ?_
              by_cases hin : t ≤ (first.2 : ℝ)
              · exact .inl ⟨hlo, hin⟩
              · have hreal : Chain.reach ((first.2 : Int) : ℝ) (asInstants rest) =
                    some (coveredUntil : ℝ) := by
                  rw [asInstants, Chain.reach_map Int.cast_strictMono, hreach]
                  rfl
                have hlast := hstop.trans (Int.cast_le.mpr (of_decide_eq_true h))
                exact .inr (Chain.mem_of_reach hreal (not_le.mp hin) hlast)
      · intro hclosed
        obtain ⟨hafter, hrest⟩ := List.pairwise_cons.mp hsorted
        obtain ⟨hlo, hle, -⟩ := hinside first List.mem_cons_self
        have hfirst : first.1 ≤ start := by
          obtain ⟨i, mem, hi, -⟩ := mem_asInstants.mp
            (hclosed start le_rfl (Int.cast_le.mpr hlt))
          obtain rfl | mem := List.mem_cons.mp mem
          · exact Int.cast_le.mp hi
          · exact (hafter i mem).trans (Int.cast_le.mp hi)
        have hwithin : ∀ i ∈ asInstants rest, i.1 ≤ (stop : ℝ) := by
          intro i mem
          obtain ⟨j, hj, rfl⟩ := List.mem_map.mp mem
          obtain ⟨-, hjle, hjstop⟩ := hinside j (List.mem_cons_of_mem _ hj)
          exact Int.cast_le.mpr (hjle.trans hjstop)
        have hcovered : ∀ t, ((first.2 : Int) : ℝ) < t → t ≤ (stop : ℝ) →
            t ∈ Chain.closed (asInstants rest) := by
          intro t ht hstop
          have hstart : (start : ℝ) ≤ t := (Int.cast_le.mpr (hlo.trans hle)).trans ht.le
          obtain ⟨-, hin⟩ | hmem := Chain.mem_closed_cons.mp (hclosed t hstart hstop)
          · exact absurd hin (not_le.mpr ht)
          · exact hmem
        obtain ⟨last, hreach, hlast⟩ :=
          Chain.exists_reach (Chain.Ascending.map hrest Int.cast_strictMono) hwithin hcovered
        rw [Chain.reach_map Int.cast_strictMono] at hreach
        obtain ⟨coveredUntil, hsome, rfl⟩ := Option.map_eq_some_iff.mp hreach
        rw [if_neg (not_lt.mpr hfirst), hsome]
        exact decide_eq_true (Int.cast_le.mp hlast)

theorem proofsCover_eq : proofsCover reading proofs start stop =
    sweep start stop (clippedIntervals reading proofs start stop) := by
  have hunion : unionCoversInstant reading (proofs.filter (isProvenInterval reading)) start stop =
      sweep start stop (clippedIntervals reading proofs start stop) := by
    rw [unionCoversInstant, filterMap_clipped]
    rfl
  rw [proofsCover, hunion]
  split
  case isTrue hempty =>
      rw [clippedIntervals, ← filterMap_clipped, List.isEmpty_iff.mp hempty]
      rfl
  case isFalse => rfl

/-- The readers' verdict is that every instant of the range is proven. -/
theorem proofsCover_iff (hle : start ≤ stop) : proofsCover reading proofs start stop = true ↔
    ∀ t : ℝ, (start : ℝ) ≤ t → t ≤ (stop : ℝ) → t ∈ provenInstants reading proofs := by
  have hinside : ∀ i ∈ clippedIntervals reading proofs start stop, start ≤ i.1 ∧ i.1 ≤ i.2 ∧
      i.2 ≤ stop := by
    intro i mem
    obtain ⟨proof, -, j, -, hclip⟩ := mem_clippedIntervals.mp mem
    exact ⟨(clip_eq_some hclip).1, (clip_eq_some hclip).2.1, (clip_eq_some hclip).2.2.1⟩
  have hsorted : Chain.Ascending (clippedIntervals reading proofs start stop) :=
    ascending_insertionSort _
  rw [proofsCover_eq, sweep_iff hle hsorted hinside]
  constructor
  · intro h t hstart hstop
    exact (closed_clippedIntervals.mp (h t hstart hstop)).2
  · intro h t hstart hstop
    exact closed_clippedIntervals.mpr ⟨⟨hstart, hstop⟩, h t hstart hstop⟩

theorem proofsCover_congr (h : provenInstants reading proofs = provenInstants reading others)
    (hle : start ≤ stop) :
    proofsCover reading proofs start stop = proofsCover reading others start stop := by
  rw [Bool.eq_iff_iff, proofsCover_iff hle, proofsCover_iff hle, h]

/-! ### What the gap is -/

/-- The instants of a range that no proof covers. -/
def uncovered (reading : Reading) (proofs : List Doc) (start stop : Int) : Set ℝ :=
  {t | ((start : ℝ) ≤ t ∧ t ≤ (stop : ℝ)) ∧ t ∉ provenInstants reading proofs}

/-- The gap of some proofs. -/
def gapOf (reading : Reading) (proofs : List Doc) (start stop : Int) : Int × Int :=
  firstRecoveryGap (sortedIntervals reading proofs) start stop

theorem isFirstGap_gapOf (reading : Reading) (proofs : List Doc) (start stop : Int) :
    Chain.IsFirstGap (asInstants (sortedIntervals reading proofs)) (start : ℝ) (stop : ℝ)
      (Prod.map Int.cast Int.cast (gapOf reading proofs start stop)) := by
  rw [gapOf, firstRecoveryGap, ← Chain.firstGap_map Int.cast_strictMono]
  have hsorted : Chain.Ascending (sortedIntervals reading proofs) := ascending_insertionSort _
  exact Chain.isFirstGap_firstGap (hsorted.map Int.cast_strictMono) _ _

theorem le_gapOf : start ≤ (gapOf reading proofs start stop).1 :=
  Int.cast_le.mp (isFirstGap_gapOf reading proofs start stop).le

/-- The verdict is false exactly when the gap begins before the end. -/
theorem proofsCover_eq_false_iff (hlt : start < stop) :
    proofsCover reading proofs start stop = false ↔ (gapOf reading proofs start stop).1 < stop := by
  rw [← Bool.not_eq_true, proofsCover_iff hlt.le, ← closed_sortedIntervals,
    (isFirstGap_gapOf reading proofs start stop).covered_iff (Int.cast_lt.mpr hlt), Prod.map_fst,
    Int.cast_le, not_le]

theorem recoveryInterval_blockDoc {block : Block} (h : block.dateFrom ≤ block.reconciledUntil) :
    recoveryInterval reading (blockDoc block) = some (block.dateFrom, block.reconciledUntil) := by
  have hproven : isProvenInterval reading (blockDoc block) := by
    have hstrip : pyStrip "reconciled" = "reconciled" := by decide +kernel
    have hstate : (blockDoc block).getD "state" = .string "reconciled" := rfl
    simp only [isProvenInterval, hstate, reading.text_string, hstrip,
      reading.casefold_reconciled, decide_true]
  have hfirst : firstUtcDatetime reading [(blockDoc block).getD "date_from",
      (blockDoc block).getD "last_event_synced_at"] = some block.dateFrom := rfl
  have hlast : safeUtcDatetime reading ((blockDoc block).getD "reconciled_until") =
      some block.reconciledUntil := rfl
  rw [recoveryInterval, if_pos hproven, hfirst, hlast]
  exact if_pos h

theorem mem_provenInstants_block {block : Block} (h : block.dateFrom ≤ block.reconciledUntil) :
    t ∈ provenInstants reading [blockDoc block] ↔
      (block.dateFrom : ℝ) ≤ t ∧ t ≤ (block.reconciledUntil : ℝ) := by
  simp [mem_provenInstants, recoveryInterval_blockDoc h]

/-- After a recovery of the beginning of the gap, nothing before its end is uncovered. -/
theorem covered_recovered {u validUntil : Int} (hlt : (gapOf reading proofs start stop).1 < u)
    (hstart : (start : ℝ) ≤ t) (hle : t ≤ (u : ℝ)) : t ∈ provenInstants reading
      (proofs ++ [blockDoc ⟨(gapOf reading proofs start stop).1, u, validUntil⟩]) := by
  rw [provenInstants_append]
  obtain hbefore | hafter := lt_or_ge t ((gapOf reading proofs start stop).1 : ℝ)
  · refine .inl ?_
    rw [← closed_sortedIntervals]
    exact (isFirstGap_gapOf reading proofs start stop).before t hstart hbefore
  · exact .inr ((mem_provenInstants_block hlt.le).mpr ⟨hafter, hle⟩)

/-- What a reader is told when the verdict is false. -/
structure GapFacts (reading : Reading) (proofs : List Doc) (start stop : Int) (gap : Int × Int) :
    Prop where
  nonempty : gap.1 < gap.2
  inside : start ≤ gap.1 ∧ gap.2 ≤ stop
  free : ∀ t : ℝ, (gap.1 : ℝ) < t → t < (gap.2 : ℝ) → t ∉ provenInstants reading proofs
  first : IsGLB (uncovered reading proofs start stop) (gap.1 : ℝ)
  /-- A proof of the gap, or of a beginning of it, moves the first uncovered instant on. -/
  forward : ∀ u validUntil, gap.1 < u → u ≤ gap.2 → ∀ next : ℝ,
    IsGLB (uncovered reading (proofs ++ [blockDoc ⟨gap.1, u, validUntil⟩]) start stop) next →
      (gap.1 : ℝ) < next

theorem gapFacts (hlt : start < stop) (h : proofsCover reading proofs start stop = false) :
    GapFacts reading proofs start stop (gapOf reading proofs start stop) := by
  have hgap := isFirstGap_gapOf reading proofs start stop
  have hopen := (proofsCover_eq_false_iff hlt).mp h
  have hreal : ((gapOf reading proofs start stop).1 : ℝ) < (stop : ℝ) := Int.cast_lt.mpr hopen
  obtain ⟨hnonempty, hstop, -⟩ := hgap.free hreal
  exact {
    nonempty := Int.cast_lt.mp hnonempty
    inside := ⟨le_gapOf, Int.cast_le.mp hstop⟩
    free := fun t hafter hbefore => by
      rw [← closed_sortedIntervals]
      exact hgap.not_mem hreal hafter hbefore
    first := by
      have hglb := hgap.isGLB hreal
      rw [closed_sortedIntervals] at hglb
      exact hglb
    forward := fun u validUntil hu _ next hnext => by
      refine (Int.cast_lt.mpr hu).trans_le (hnext.2 fun t ht => ?_)
      by_contra hlow
      exact ht.2 (covered_recovered hu ht.1.1 (not_le.mp hlow).le) }

/-! ### Repeated recovery -/

/-- A recovery moves the gap on. -/
theorem gapOf_recoverFirst (validUntil : Int) (hlt : start < stop)
    (h : proofsCover reading proofs start stop = false) :
    (gapOf reading proofs start stop).1 <
      (gapOf reading (recoverFirst reading validUntil start stop proofs) start stop).1 := by
  have hfacts := gapFacts hlt h
  rw [recoverFirst, if_neg (Bool.eq_false_iff.mp h)]
  have hu : (gapOf reading proofs start stop).1 <
      min (gapOf reading proofs start stop).2 ((gapOf reading proofs start stop).1 + ninetyDays) :=
    lt_min hfacts.nonempty (by rw [ninetyDays]; omega)
  refine hu.trans_le (Int.cast_le.mp ((isFirstGap_gapOf reading _ start stop).le_of_covered
    (Int.cast_le.mpr ((min_le_left _ _).trans hfacts.inside.2)) fun t hstart hle => ?_))
  rw [closed_sortedIntervals]
  exact covered_recovered hu hstart hle

/-- Recoveries of the first gap, one after the other. -/
def recoveries (reading : Reading) (start stop : Int) (proofs : List Doc)
    (validUntils : List Int) : List Doc :=
  validUntils.foldl (fun proofs validUntil => recoverFirst reading validUntil start stop proofs)
    proofs

/-- Enough recoveries cover the range. -/
theorem proofsCover_recoveries (hlt : start < stop) {validUntils : List Int}
    (enough : (stop - (gapOf reading proofs start stop).1).toNat ≤ validUntils.length) :
    proofsCover reading (recoveries reading start stop proofs validUntils) start stop = true := by
  induction validUntils generalizing proofs with
  | nil =>
      by_contra h
      have huncovered : proofsCover reading proofs start stop = false := Bool.eq_false_iff.mpr h
      have hopen := (proofsCover_eq_false_iff hlt).mp huncovered
      rw [List.length_nil, Nat.le_zero, Int.toNat_eq_zero] at enough
      omega
  | cons validUntil rest ih =>
      show proofsCover reading (recoveries reading start stop
        (recoverFirst reading validUntil start stop proofs) rest) start stop = true
      apply ih
      rw [List.length_cons] at enough
      cases h : proofsCover reading proofs start stop with
      | true =>
          have hend : ¬ (gapOf reading proofs start stop).1 < stop := by
            rw [← proofsCover_eq_false_iff hlt, h]
            decide
          rw [recoverFirst, if_pos h]
          omega
      | false =>
          have hforward := gapOf_recoverFirst validUntil hlt h
          omega

/-! ### Other markers for the same instants -/

/-- The proofs that `merge_interval_proofs` drops. -/
def unmerged (proofs : List Doc) : List Doc := proofs.filter fun proof => (keptBlock? proof).isNone

theorem keptBlock?_eq_some {block : Block} (h : keptBlock? proof = some block) :
    recoveryInterval reading proof = some (block.dateFrom, block.reconciledUntil) ∧
      block.dateFrom ≤ block.reconciledUntil := by
  rw [keptBlock?] at h
  split at h
  case h_2 => cases h
  case h_1 state first last validUntil hstate hfirst hlast _ =>
      split at h
      case isTrue => cases h
      case isFalse hkept =>
          rw [not_or, not_lt, not_not] at hkept
          obtain ⟨rfl, hle⟩ := hkept
          obtain rfl := Option.some.inj h
          have hproven : isProvenInterval reading proof := by
            have hstrip : pyStrip "reconciled" = "reconciled" := by decide +kernel
            simp only [isProvenInterval, hstate, reading.text_string, hstrip,
              reading.casefold_reconciled, decide_true]
          have hstart : firstUtcDatetime reading [proof.getD "date_from",
              proof.getD "last_event_synced_at"] = some first := by
            rw [hfirst]
            rfl
          rw [recoveryInterval, if_pos hproven, hstart, hlast]
          exact ⟨if_pos hle, hle⟩

theorem mem_closedIn {blocks : List Block} : t ∈ blockSpans.closedIn (Int.cast : Int → ℝ) blocks ↔
    ∃ block ∈ blocks, (block.dateFrom : ℝ) ≤ t ∧ t ≤ (block.reconciledUntil : ℝ) := by
  simp [Spans.closedIn, Chain.closed, blockSpans]

/-- What the proofs that are kept cover. -/
theorem provenInstants_split : provenInstants reading proofs =
    blockSpans.closedIn (Int.cast : Int → ℝ) (proofs.filterMap keptBlock?) ∪
      provenInstants reading (unmerged proofs) := by
  ext t
  rw [Set.mem_union, mem_closedIn, mem_provenInstants, mem_provenInstants]
  constructor
  · rintro ⟨proof, mem, interval, hinterval, ht⟩
    cases h : keptBlock? proof with
    | some block =>
        obtain rfl := Option.some.inj ((keptBlock?_eq_some h).1.symm.trans hinterval)
        exact .inl ⟨block, List.mem_filterMap.mpr ⟨proof, mem, h⟩, ht⟩
    | none =>
        have hmem : proof ∈ unmerged proofs := List.mem_filter.mpr ⟨mem, by rw [h]; rfl⟩
        exact .inr ⟨proof, hmem, interval, hinterval, ht⟩
  · rintro (⟨block, mem, ht⟩ | ⟨proof, mem, hproof⟩)
    · obtain ⟨proof, hproof, hblock⟩ := List.mem_filterMap.mp mem
      exact ⟨proof, hproof, _, (keptBlock?_eq_some hblock).1, ht⟩
    · exact ⟨proof, (List.mem_filter.mp mem).1, hproof⟩

theorem provenInstants_blocks {blocks : List Block}
    (h : ∀ block ∈ blocks, block.dateFrom ≤ block.reconciledUntil) :
    provenInstants reading (blocks.map blockDoc) =
      blockSpans.closedIn (Int.cast : Int → ℝ) blocks := by
  ext t
  rw [mem_closedIn, mem_provenInstants]
  constructor
  · rintro ⟨proof, mem, interval, hinterval, ht⟩
    obtain ⟨block, hblock, rfl⟩ := List.mem_map.mp mem
    obtain rfl := Option.some.inj ((recoveryInterval_blockDoc (h block hblock)).symm.trans hinterval)
    exact ⟨block, hblock, ht⟩
  · rintro ⟨block, mem, ht⟩
    exact ⟨blockDoc block, List.mem_map_of_mem mem, _, recoveryInterval_blockDoc (h block mem), ht⟩

/-- The proofs that are kept may be replaced by the merged ones. -/
theorem provenInstants_merged (fits : (mergedBlocks proofs).length ≤ maxRetainedIntervals) :
    provenInstants reading ((mergeIntervalProofs proofs).map blockDoc ++ unmerged proofs) =
      provenInstants reading proofs := by
  have hordered : ∀ block ∈ (proofs.filterMap keptBlock?).insertionSort Block.le,
      block.dateFrom ≤ block.reconciledUntil := by
    intro block mem
    obtain ⟨proof, -, hblock⟩ := List.mem_filterMap.mp ((List.mem_insertionSort Block.le).mp mem)
    have hkept : recoveryInterval reading proof = _ ∧ _ := keptBlock?_eq_some hblock
    exact hkept.2
  have hmerged : ∀ block ∈ mergedBlocks proofs, block.dateFrom ≤ block.reconciledUntil :=
    Spans.forall_mem_merge (fun _ _ ha _ => ha.trans (le_max_left _ _)) hordered
  have hall : mergeIntervalProofs proofs = mergedBlocks proofs := by
    rw [mergeIntervalProofs, Nat.sub_eq_zero_of_le fits, List.drop_zero]
  have hclosed : blockSpans.closedIn (Int.cast : Int → ℝ) (mergedBlocks proofs) =
      blockSpans.closedIn (Int.cast : Int → ℝ) (proofs.filterMap keptBlock?) := by
    rw [mergedBlocks, Spans.closedIn_merge Int.cast_strictMono sorted_blocks]
    exact Chain.closed_perm ((List.perm_insertionSort _ _).map _)
  rw [provenInstants_append, hall, provenInstants_blocks hmerged, hclosed, ← provenInstants_split]

theorem markerCovers_eq {marker : Doc} {dateFrom dateTo readInstant : Int}
    (accepted : markerIntervalProofs reading marker = some proofs)
    (begun : dateFrom < readInstant) :
    markerCovers reading marker dateFrom dateTo readInstant =
      proofsCover reading proofs dateFrom (min dateTo readInstant) := by
  rw [markerCovers, accepted]
  exact if_neg (not_lt.mpr begun.le)

theorem provenRecoveryIntervals_eq {marker : Doc}
    (accepted : markerIntervalProofs reading marker = some proofs) :
    provenRecoveryIntervals reading marker = sortedIntervals reading proofs := by
  rw [provenRecoveryIntervals, accepted]

theorem filter_set {doc : Doc} {key : String} {value : Value} :
    (doc.set key value).filter (fun field => field.1 ≠ key) =
      doc.filter fun field => field.1 ≠ key := by
  induction doc with
  | nil => simp [Doc.set]
  | cons field rest ih =>
      obtain ⟨k, v⟩ := field
      rw [Doc.set]
      by_cases h : k = key
      · simp [h]
      · rw [if_neg (by simpa using h), List.filter_cons, List.filter_cons, ih]

/-- Retaining the same proofs in another order keeps the proofs. -/
theorem markerIntervalProofs_set {marker : Doc} {retained reordered : List Value}
    (accepted : markerIntervalProofs reading marker = some proofs)
    (holds : marker.get? "retained_intervals" = some (.array retained))
    (perm : reordered.Perm retained) : ∃ others,
      markerIntervalProofs reading (marker.set "retained_intervals" (.array reordered)) =
        some others ∧ others.Perm proofs := by
  have hproven : isProvenInterval reading (marker.set "retained_intervals" (.array reordered)) =
      isProvenInterval reading marker := by
    rw [isProvenInterval, isProvenInterval, Doc.getD_set, if_neg (by decide)]
  rw [markerIntervalProofs, holds] at accepted
  rw [markerIntervalProofs, hproven, Doc.get?_set, if_pos rfl, filter_set]
  split at accepted
  case isTrue h =>
      obtain rfl := Option.some.inj accepted
      exact ⟨_, if_pos h, (perm.filterMap _).cons _⟩
  case isFalse => cases accepted

/-! ### Verdict and gap -/

/-- How the verdict of a request and the gap a reader is told agree. -/
structure Agrees (reading : Reading) (marker : Doc) (proofs : List Doc)
    (dateFrom dateTo readInstant : Int) : Prop where
  verdict : markerCovers reading marker dateFrom dateTo readInstant = true ↔
    ∀ t : ℝ, (dateFrom : ℝ) ≤ t → t ≤ ((min dateTo readInstant : Int) : ℝ) →
      t ∈ provenInstants reading proofs
  permuted : ∀ retained reordered, marker.get? "retained_intervals" = some (.array retained) →
    reordered.Perm retained →
    markerCovers reading (marker.set "retained_intervals" (.array reordered)) dateFrom dateTo
      readInstant = markerCovers reading marker dateFrom dateTo readInstant
  merged : ∀ other others, markerIntervalProofs reading other = some others →
    (mergedBlocks proofs).length ≤ maxRetainedIntervals →
    others.Perm ((mergeIntervalProofs proofs).map blockDoc ++ unmerged proofs) →
    markerCovers reading other dateFrom dateTo readInstant =
      markerCovers reading marker dateFrom dateTo readInstant
  gap : markerCovers reading marker dateFrom dateTo readInstant = false →
    GapFacts reading proofs dateFrom (min dateTo readInstant)
      (firstRecoveryGap (provenRecoveryIntervals reading marker) dateFrom
        (min dateTo readInstant))
  recovered : ∃ n, ∀ validUntils, n ≤ validUntils.length → ∀ other others,
    markerIntervalProofs reading other = some others →
    others.Perm (recoveries reading dateFrom (min dateTo readInstant) proofs validUntils) →
    markerCovers reading other dateFrom dateTo readInstant = true

theorem agrees {marker : Doc} {dateFrom dateTo readInstant : Int}
    (accepted : markerIntervalProofs reading marker = some proofs) (ordered : dateFrom < dateTo)
    (begun : dateFrom < readInstant) :
    Agrees reading marker proofs dateFrom dateTo readInstant := by
  have hlt : dateFrom < min dateTo readInstant := lt_min ordered begun
  have hcovers : markerCovers reading marker dateFrom dateTo readInstant =
      proofsCover reading proofs dateFrom (min dateTo readInstant) := markerCovers_eq accepted begun
  have hsame : ∀ other others, markerIntervalProofs reading other = some others →
      provenInstants reading others = provenInstants reading proofs →
      markerCovers reading other dateFrom dateTo readInstant =
        markerCovers reading marker dateFrom dateTo readInstant := by
    intro other others hother hinstants
    rw [markerCovers_eq hother begun, hcovers, proofsCover_congr hinstants hlt.le]
  exact {
    verdict := by rw [hcovers, proofsCover_iff hlt.le]
    permuted := by
      intro retained reordered holds perm
      obtain ⟨others, hothers, hperm⟩ := markerIntervalProofs_set accepted holds perm
      exact hsame _ others hothers (provenInstants_perm hperm)
    merged := by
      intro other others hother fits perm
      exact hsame other others hother ((provenInstants_perm perm).trans (provenInstants_merged fits))
    gap := by
      intro h
      rw [provenRecoveryIntervals_eq accepted]
      exact gapFacts hlt (hcovers ▸ h)
    recovered := by
      refine ⟨(min dateTo readInstant -
        (gapOf reading proofs dateFrom (min dateTo readInstant)).1).toNat, ?_⟩
      intro validUntils enough other others hother perm
      rw [markerCovers_eq hother begun,
        proofsCover_congr (provenInstants_perm perm) hlt.le]
      exact proofsCover_recoveries hlt enough }

/-- Texts as they are; no text is a date. -/
def plainReading : Reading where
  text
    | .string s => s
    | _ => ""
  casefold s := s
  instant _ := none
  text_string _ := rfl
  casefold_reconciled := rfl

/-- A proof that ends at ten, and one for the instants from ten on whose start is the last event
it has seen. -/
def eventMarker : Doc :=
  blockDoc ⟨0, 10, 20⟩ ++ [("retained_intervals", .array [.document
    [("state", .string "reconciled"), ("last_event_synced_at", .date 10),
      ("reconciled_until", .date 30), ("valid_until", .date 40)]])]

theorem agrees_eventMarker : markerCovers plainReading eventMarker 0 40 50 = false ∧
    ∃ proofs, markerIntervalProofs plainReading eventMarker = some proofs ∧
      Agrees plainReading eventMarker proofs 0 40 50 :=
  ⟨by decide +kernel, _, rfl, agrees rfl (by decide) (by decide)⟩

/-- Merging drops a proof that carries a `valid_until` but no `date_from`. -/
theorem merged_lastEvent_lost : ∃ marker proofs other others,
    markerIntervalProofs plainReading marker = some proofs ∧
      (mergedBlocks (proofs.filter fun proof =>
        (safeUtcDatetime plainReading (proof.getD "valid_until")).isSome)).length ≤
          maxRetainedIntervals ∧
      markerIntervalProofs plainReading other = some others ∧
      others = (mergeIntervalProofs (proofs.filter fun proof =>
        (safeUtcDatetime plainReading (proof.getD "valid_until")).isSome)).map blockDoc ++
          proofs.filter (fun proof =>
            (safeUtcDatetime plainReading (proof.getD "valid_until")).isNone) ∧
      markerCovers plainReading marker 0 30 50 = true ∧
      markerCovers plainReading other 0 30 50 = false :=
  ⟨eventMarker, _, blockDoc ⟨0, 10, 20⟩, _, rfl, by decide +kernel, rfl, by decide +kernel,
    by decide +kernel, by decide +kernel⟩

end ZelerPlatform.Markers.Gaps
