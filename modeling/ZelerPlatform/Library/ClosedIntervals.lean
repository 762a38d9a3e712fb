import ZelerPlatform.Library.Intervals

/-!
# Closed intervals of a dense order

A list of closed intervals, sorted by the lower ends, is scanned for the first gap after a start.
In a dense order the scan ends at the stop exactly when every instant from the start to the stop
lies in an interval, and the gap begins at the infimum of the instants that do not.
-/

universe u v w

namespace Chain

variable {τ : Type v} [LinearOrder τ]

/-- The instants in one of the intervals. -/
def closed (intervals : List (τ × τ)) : Set τ := {t | ∃ i ∈ intervals, i.1 ≤ t ∧ t ≤ i.2}

/-- The first part after a start that no interval covers. -/
def firstGap : List (τ × τ) → τ → τ → τ × τ
  | [], start, stop => (start, stop)
  | i :: rest, start, stop =>
      if i.2 ≤ start then firstGap rest start stop
      else if start < i.1 then (start, min stop i.1)
      else if stop ≤ max start i.2 then (max start i.2, stop)
      else firstGap rest (max start i.2) stop

/-- Sorted by the lower ends. -/
def Ascending (intervals : List (τ × τ)) : Prop := intervals.Pairwise fun i j => i.1 ≤ j.1

variable {intervals others : List (τ × τ)} {i : τ × τ} {start stop t : τ} {gap : τ × τ}

theorem mem_closed_cons :
    t ∈ closed (i :: intervals) ↔ (i.1 ≤ t ∧ t ≤ i.2) ∨ t ∈ closed intervals := by
  simp [closed]

theorem closed_append : closed (intervals ++ others) = closed intervals ∪ closed others := by
  ext t
  simp only [closed, List.mem_append, Set.mem_setOf_eq, Set.mem_union, or_and_right, exists_or]

theorem closed_mono (h : intervals ⊆ others) : closed intervals ⊆ closed others :=
  fun _ ⟨i, mem, hi⟩ => ⟨i, h mem, hi⟩

theorem closed_perm (h : intervals.Perm others) : closed intervals = closed others := by
  apply Set.Subset.antisymm
  · exact closed_mono h.subset
  · exact closed_mono h.symm.subset

/-- What the scan finds: everything before the gap is covered, and nothing in it. -/
structure IsFirstGap (intervals : List (τ × τ)) (start stop : τ) (gap : τ × τ) : Prop where
  le : start ≤ gap.1
  before : ∀ t, start ≤ t → t < gap.1 → t ∈ closed intervals
  reached : start < gap.1 → gap.1 ∈ closed intervals
  free : gap.1 < stop → gap.1 < gap.2 ∧ gap.2 ≤ stop ∧
    ∀ i ∈ intervals, i.2 ≤ gap.1 ∨ gap.2 ≤ i.1

theorem IsFirstGap.skip (h : IsFirstGap intervals start stop gap) (passed : i.2 ≤ start) :
    IsFirstGap (i :: intervals) start stop gap where
  le := h.le
  before t hstart hlt := mem_closed_cons.mpr (.inr (h.before t hstart hlt))
  reached hlt := mem_closed_cons.mpr (.inr (h.reached hlt))
  free hlt := by
    obtain ⟨hgap, hstop, hfree⟩ := h.free hlt
    exact ⟨hgap, hstop, List.forall_mem_cons.mpr ⟨.inl (passed.trans h.le), hfree⟩⟩

theorem IsFirstGap.pass (h : IsFirstGap intervals i.2 stop gap) (covers : i.1 ≤ start)
    (further : start < i.2) : IsFirstGap (i :: intervals) start stop gap where
  le := further.le.trans h.le
  before t hstart hlt := by
    by_cases hin : t ≤ i.2
    · exact mem_closed_cons.mpr (.inl ⟨covers.trans hstart, hin⟩)
    · exact mem_closed_cons.mpr (.inr (h.before t (not_le.mp hin).le hlt))
  reached _ := by
    obtain heq | hlt := h.le.eq_or_lt
    · exact mem_closed_cons.mpr (.inl ⟨heq ▸ covers.trans further.le, heq.ge⟩)
    · exact mem_closed_cons.mpr (.inr (h.reached hlt))
  free hlt := by
    obtain ⟨hgap, hstop, hfree⟩ := h.free hlt
    exact ⟨hgap, hstop, List.forall_mem_cons.mpr ⟨.inl h.le, hfree⟩⟩

theorem isFirstGap_firstGap (sorted : Ascending intervals) (start stop : τ) :
    IsFirstGap intervals start stop (firstGap intervals start stop) := by
  induction intervals generalizing start with
  | nil =>
      exact ⟨le_rfl, fun t hle hlt => absurd hlt (not_lt.mpr hle), fun h => absurd h (lt_irrefl _),
        fun hlt => ⟨hlt, le_rfl, by simp⟩⟩
  | cons i rest ih =>
      obtain ⟨hfirst, hrest⟩ := List.pairwise_cons.mp sorted
      rw [firstGap]
      split
      case isTrue hpassed => exact (ih hrest start).skip hpassed
      case isFalse hpassed =>
          split
          case isTrue hlater =>
              refine ⟨le_rfl, fun t hle hlt => absurd hlt (not_lt.mpr hle),
                fun h => absurd h (lt_irrefl _), fun hlt => ⟨lt_min hlt hlater, min_le_left _ _, ?_⟩⟩
              refine List.forall_mem_cons.mpr ⟨.inr (min_le_right _ _), fun j mem => .inr ?_⟩
              exact (min_le_right _ _).trans (hfirst j mem)
          case isFalse hlater =>
              have hmax : max start i.2 = i.2 := max_eq_right (not_le.mp hpassed).le
              rw [hmax]
              split
              case isTrue hstop =>
                  have hend : IsFirstGap rest i.2 stop (i.2, stop) :=
                    ⟨le_rfl, fun t hle hlt => absurd hlt (not_lt.mpr hle),
                      fun h => absurd h (lt_irrefl _), fun hlt => absurd hlt (not_lt.mpr hstop)⟩
                  exact hend.pass (not_lt.mp hlater) (not_le.mp hpassed)
              case isFalse =>
                  exact (ih hrest i.2).pass (not_lt.mp hlater) (not_le.mp hpassed)

section

variable [DenselyOrdered τ]

/-- Between the ends of a gap nothing is covered. -/
theorem IsFirstGap.not_mem (h : IsFirstGap intervals start stop gap) (unfinished : gap.1 < stop)
    (after : gap.1 < t) (before : t < gap.2) : t ∉ closed intervals := by
  rintro ⟨i, mem, hlo, hhi⟩
  obtain hleft | hright := (h.free unfinished).2.2 i mem
  · exact absurd (hhi.trans hleft) (not_le.mpr after)
  · exact absurd (hright.trans hlo) (not_le.mpr before)

/-- A covered beginning lies before the gap. -/
theorem IsFirstGap.le_of_covered (h : IsFirstGap intervals start stop gap) {u : τ}
    (within : u ≤ stop) (covered : ∀ t, start ≤ t → t ≤ u → t ∈ closed intervals) :
    u ≤ gap.1 := by
  by_contra hlt
  have hlt := not_le.mp hlt
  have hopen := hlt.trans_le within
  obtain ⟨hgap, -, -⟩ := h.free hopen
  obtain ⟨m, hafter, hbefore⟩ := exists_between (lt_min hlt hgap)
  have hmem := covered m (h.le.trans hafter.le) (hbefore.le.trans (min_le_left _ _))
  exact h.not_mem hopen hafter (hbefore.trans_le (min_le_right _ _)) hmem

/-- The scan ends at the stop exactly when all is covered. -/
theorem IsFirstGap.covered_iff (h : IsFirstGap intervals start stop gap) (hlt : start < stop) :
    (∀ t, start ≤ t → t ≤ stop → t ∈ closed intervals) ↔ stop ≤ gap.1 := by
  refine ⟨h.le_of_covered le_rfl, fun hstop t hle hge => ?_⟩
  obtain heq | hbefore := (hge.trans hstop).eq_or_lt
  · rw [heq]
    exact h.reached (hlt.trans_le hstop)
  · exact h.before t hle hbefore

/-- The gap begins where the instants that are not covered begin. -/
theorem IsFirstGap.isGLB (h : IsFirstGap intervals start stop gap) (unfinished : gap.1 < stop) :
    IsGLB {t | (start ≤ t ∧ t ≤ stop) ∧ t ∉ closed intervals} gap.1 := by
  constructor
  · rintro t ⟨⟨hle, -⟩, hnot⟩
    exact not_lt.mp fun hlt => hnot (h.before t hle hlt)
  · intro b hb
    by_contra hlt
    have hlt := not_le.mp hlt
    obtain ⟨hgap, hstop, -⟩ := h.free unfinished
    obtain ⟨m, hafter, hbefore⟩ := exists_between (lt_min hlt hgap)
    have hbefore := lt_min_iff.mp hbefore
    have hmem := hb ⟨⟨h.le.trans hafter.le, hbefore.2.le.trans hstop⟩,
      h.not_mem unfinished hafter hbefore.2⟩
    exact absurd hmem (not_le.mpr hbefore.1)

/-- A chain through intervals that cover everything reaches the end. -/
theorem exists_reach (sorted : Ascending intervals) (within : ∀ i ∈ intervals, i.1 ≤ stop)
    {reached : τ} (covered : ∀ t, reached < t → t ≤ stop → t ∈ closed intervals) :
    ∃ last, reach reached intervals = some last ∧ stop ≤ last := by
  induction intervals generalizing reached with
  | nil =>
      refine ⟨reached, rfl, not_lt.mp fun hlt => ?_⟩
      obtain ⟨i, mem, -⟩ := covered stop hlt le_rfl
      cases mem
  | cons i rest ih =>
      obtain ⟨hfirst, hrest⟩ := List.pairwise_cons.mp sorted
      have htouch : ¬ reached < i.1 := by
        intro hlt
        obtain ⟨m, hafter, hbefore⟩ := exists_between hlt
        obtain ⟨j, mem, hj, -⟩ :=
          covered m hafter (hbefore.le.trans (within i List.mem_cons_self))
        have hij : i.1 ≤ j.1 := by
          obtain rfl | mem := List.mem_cons.mp mem
          · exact le_rfl
          · exact hfirst j mem
        exact absurd (hij.trans hj) (not_le.mpr hbefore)
      rw [reach, if_neg htouch]
      refine ih hrest (fun j mem => within j (List.mem_cons_of_mem _ mem)) fun t ht hstop => ?_
      obtain ⟨hreached, hhi⟩ := max_lt_iff.mp ht
      obtain ⟨-, hin⟩ | hmem := mem_closed_cons.mp (covered t hreached hstop)
      · exact absurd hin (not_le.mpr hhi)
      · exact hmem

end

/-! ### Another order -/

section

variable {ρ : Type w} [LinearOrder ρ] {f : τ → ρ}

theorem firstGap_map (hf : StrictMono f) (intervals : List (τ × τ)) (start stop : τ) :
    firstGap (intervals.map (Prod.map f f)) (f start) (f stop) =
      Prod.map f f (firstGap intervals start stop) := by
  induction intervals generalizing start with
  | nil => rfl
  | cons i rest ih =>
      rw [List.map_cons, firstGap, firstGap]
      simp only [Prod.map_fst, Prod.map_snd, hf.le_iff_le, hf.lt_iff_lt, ← hf.monotone.map_max,
        ← hf.monotone.map_min, ih]
      split
      · rfl
      · split
        · rfl
        · split <;> rfl

theorem reach_map (hf : StrictMono f) (intervals : List (τ × τ)) (reached : τ) :
    reach (f reached) (intervals.map (Prod.map f f)) = (reach reached intervals).map f := by
  induction intervals generalizing reached with
  | nil => rfl
  | cons i rest ih =>
      rw [List.map_cons, reach, reach]
      simp only [Prod.map_fst, Prod.map_snd, hf.lt_iff_lt, ← hf.monotone.map_max, ih]
      split <;> rfl

theorem Ascending.map (h : Ascending intervals) (hf : StrictMono f) :
    Ascending (intervals.map (Prod.map f f)) :=
  List.pairwise_map.mpr (h.imp fun hle => hf.monotone hle)

end

end Chain

/-! ### Merging closed intervals -/

namespace Spans

variable {β : Type u} {τ : Type v} [LinearOrder τ] {s : Spans β τ} {last b : β}
  {rest records : List β} {ρ : Type w} [LinearOrder ρ] {f : τ → ρ}

/-- The intervals of the records, in another order. -/
def closedIn (s : Spans β τ) (f : τ → ρ) (records : List β) : Set ρ :=
  Chain.closed (records.map fun b => (f (s.lo b), f (s.hi b)))

theorem closedIn_cons {t : ρ} : t ∈ s.closedIn f (b :: records) ↔
    (f (s.lo b) ≤ t ∧ t ≤ f (s.hi b)) ∨ t ∈ s.closedIn f records := Chain.mem_closed_cons

theorem closedIn_join (hf : StrictMono f) (sorted : s.lo last ≤ s.lo b)
    (touches : s.lo b ≤ s.hi last) :
    s.closedIn f (s.join last b :: rest) = s.closedIn f (last :: b :: rest) := by
  ext t
  rw [closedIn_cons, closedIn_cons, closedIn_cons, ← or_assoc, s.lo_join, s.hi_join,
    hf.monotone.map_max, le_max_iff]
  refine or_congr_left ⟨?_, ?_⟩
  · rintro ⟨hlo, hlast | hb⟩
    · exact .inl ⟨hlo, hlast⟩
    · by_cases hlast : t ≤ f (s.hi last)
      · exact .inl ⟨hlo, hlast⟩
      · exact .inr ⟨(hf.monotone touches).trans (not_le.mp hlast).le, hb⟩
  · rintro (⟨hlo, hlast⟩ | ⟨hlo, hb⟩)
    · exact ⟨hlo, .inl hlast⟩
    · exact ⟨(hf.monotone sorted).trans hlo, .inr hb⟩

theorem closedIn_coalesce (hf : StrictMono f) (h : s.Sorted (last :: rest)) :
    s.closedIn f (s.coalesce last rest) = s.closedIn f (last :: rest) := by
  induction rest generalizing last with
  | nil => rfl
  | cons b rest ih =>
      rw [coalesce]
      split
      case isTrue touches =>
          rw [ih h.join,
            closedIn_join hf ((List.pairwise_cons.mp h).1 b List.mem_cons_self) touches]
      case isFalse =>
          ext t
          rw [closedIn_cons, ih (List.pairwise_cons.mp h).2, ← closedIn_cons]

/-- Merging keeps the union of the closed intervals. -/
theorem closedIn_merge (hf : StrictMono f) (h : s.Sorted records) :
    s.closedIn f (s.merge records) = s.closedIn f records := by
  cases records with
  | nil => rfl
  | cons b rest => exact closedIn_coalesce hf h

end Spans
