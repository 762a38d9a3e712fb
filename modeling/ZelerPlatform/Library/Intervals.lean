import Mathlib

/-!
# Lists of intervals

Records that stand for half-open intervals over a linear order. A list of them, sorted by
its lower ends, is merged in one pass: a record that begins before the last one has ended,
or just there, is joined to it. The pass keeps the union and leaves gaps only. A chain of
closed intervals is walked in the same way, to see how far it reaches without a gap. Records
part a set if their parts of it are disjoint and leave nothing out; a record may be replaced
by others that part what it stood for.
-/

universe u v

/-- Records with an interval, and what two records that touch are joined to. -/
structure Spans (β : Type u) (τ : Type v) [LinearOrder τ] where
  lo : β → τ
  hi : β → τ
  join : β → β → β
  lo_join : ∀ a b, lo (join a b) = lo a
  hi_join : ∀ a b, hi (join a b) = max (hi a) (hi b)

namespace Spans

variable {β : Type u} {τ : Type v} [LinearOrder τ] (s : Spans β τ)

/-- The instants in one of the intervals. -/
def covered (records : List β) : Set τ := {t | ∃ b ∈ records, s.lo b ≤ t ∧ t < s.hi b}

/-- Merge records in front of which `last` has been merged. -/
def coalesce : β → List β → List β
  | last, [] => [last]
  | last, b :: rest =>
      if s.lo b ≤ s.hi last then coalesce (s.join last b) rest else last :: coalesce b rest

def merge : List β → List β
  | [] => []
  | b :: rest => s.coalesce b rest

variable {s} {last b : β} {rest records others : List β} {t : τ}

theorem mem_covered : t ∈ s.covered records ↔ ∃ b ∈ records, s.lo b ≤ t ∧ t < s.hi b := Iff.rfl

@[simp] theorem covered_nil : s.covered [] = ∅ := by
  ext t
  simp [mem_covered]

theorem covered_cons : s.covered (b :: rest) = Set.Ico (s.lo b) (s.hi b) ∪ s.covered rest := by
  ext t
  simp [mem_covered]

theorem covered_append : s.covered (records ++ others) = s.covered records ∪ s.covered others := by
  ext t
  simp only [mem_covered, List.mem_append, Set.mem_union, or_and_right, exists_or]

theorem covered_mono (h : records ⊆ others) : s.covered records ⊆ s.covered others :=
  fun _ ⟨b, hb, ht⟩ => ⟨b, h hb, ht⟩

theorem covered_perm (h : records.Perm others) : s.covered records = s.covered others := by
  apply Set.Subset.antisymm
  · exact covered_mono h.subset
  · exact covered_mono h.symm.subset

/-- What a record that touches adds is what joining adds. -/
theorem covered_join (sorted : s.lo last ≤ s.lo b) (touches : s.lo b ≤ s.hi last) :
    s.covered (s.join last b :: rest) = s.covered (last :: b :: rest) := by
  rw [covered_cons, covered_cons, covered_cons, ← Set.union_assoc, s.lo_join, s.hi_join]
  congr 1
  ext t
  simp only [Set.mem_Ico, Set.mem_union, lt_max_iff]
  constructor
  · rintro ⟨hlo, hlast | hb⟩
    · exact .inl ⟨hlo, hlast⟩
    · by_cases hlast : t < s.hi last
      · exact .inl ⟨hlo, hlast⟩
      · exact .inr ⟨touches.trans (not_lt.mp hlast), hb⟩
  · rintro (⟨hlo, hlast⟩ | ⟨hlo, hb⟩)
    · exact ⟨hlo, .inl hlast⟩
    · exact ⟨sorted.trans hlo, .inr hb⟩

/-- Sorted by the lower ends. -/
def Sorted (s : Spans β τ) (records : List β) : Prop :=
  records.Pairwise fun a b => s.lo a ≤ s.lo b

theorem Sorted.join (h : s.Sorted (last :: b :: rest)) : s.Sorted (s.join last b :: rest) := by
  obtain ⟨hlast, hb⟩ := List.pairwise_cons.mp h
  refine List.pairwise_cons.mpr ⟨fun c hc => ?_, (List.pairwise_cons.mp hb).2⟩
  rw [s.lo_join]
  exact hlast c (List.mem_cons_of_mem b hc)

theorem covered_coalesce (h : s.Sorted (last :: rest)) :
    s.covered (s.coalesce last rest) = s.covered (last :: rest) := by
  induction rest generalizing last with
  | nil => rfl
  | cons b rest ih =>
      unfold coalesce
      split
      · next touches =>
          rw [ih h.join, covered_join ((List.pairwise_cons.mp h).1 b List.mem_cons_self) touches]
      · rw [covered_cons, ih (List.pairwise_cons.mp h).2, ← covered_cons]

/-- Merging keeps the union. -/
theorem covered_merge (h : s.Sorted records) : s.covered (s.merge records) = s.covered records := by
  cases records with
  | nil => rfl
  | cons b rest => exact covered_coalesce h

theorem lo_le_of_mem_coalesce (h : s.Sorted (last :: rest)) {c : β}
    (mem : c ∈ s.coalesce last rest) : s.lo last ≤ s.lo c := by
  induction rest generalizing last with
  | nil =>
      obtain rfl := List.mem_singleton.mp mem
      exact le_rfl
  | cons b rest ih =>
      unfold coalesce at mem
      split at mem
      · simpa only [s.lo_join] using ih h.join mem
      · cases mem with
        | head => exact le_rfl
        | tail _ mem =>
            exact ((List.pairwise_cons.mp h).1 b List.mem_cons_self).trans
              (ih (List.pairwise_cons.mp h).2 mem)

/-- What holds of the records, and of two records joined, holds of the merged ones. -/
theorem forall_mem_merge {P : β → Prop} (join : ∀ a b, P a → P b → P (s.join a b))
    (h : ∀ b ∈ records, P b) : ∀ b ∈ s.merge records, P b := by
  have hcoalesce : ∀ rest last, P last → (∀ b ∈ rest, P b) → ∀ b ∈ s.coalesce last rest, P b := by
    intro rest
    induction rest with
    | nil =>
        intro last hlast _ b hb
        exact List.mem_singleton.mp hb ▸ hlast
    | cons c rest ih =>
        intro last hlast hrest b hb
        have hc := hrest c List.mem_cons_self
        have hrest' := fun d hd => hrest d (List.mem_cons_of_mem c hd)
        unfold coalesce at hb
        split at hb
        · exact ih _ (join last c hlast hc) hrest' b hb
        · cases hb with
          | head => exact hlast
          | tail _ hb => exact ih c hc hrest' b hb
  cases records with
  | nil => exact h
  | cons b rest =>
      exact hcoalesce rest b (h b List.mem_cons_self) fun c hc => h c (List.mem_cons_of_mem b hc)

/-- There is a gap between any two intervals. -/
def Separated (s : Spans β τ) (records : List β) : Prop :=
  records.Pairwise fun a b => s.hi a < s.lo b

theorem separated_coalesce (h : s.Sorted (last :: rest)) :
    s.Separated (s.coalesce last rest) := by
  induction rest generalizing last with
  | nil => exact List.pairwise_singleton _ _
  | cons b rest ih =>
      unfold coalesce
      split
      · exact ih h.join
      · next gap =>
          have hrest := (List.pairwise_cons.mp h).2
          refine List.pairwise_cons.mpr ⟨fun c hc => ?_, ih hrest⟩
          exact lt_of_lt_of_le (not_le.mp gap) (lo_le_of_mem_coalesce hrest hc)

theorem separated_merge (h : s.Sorted records) : s.Separated (s.merge records) := by
  cases records with
  | nil => exact List.Pairwise.nil
  | cons b rest => exact separated_coalesce h

/-- Instants that are covered without a gap lie in one of separated intervals. -/
theorem Separated.block_of_run (h : s.Separated records) {u : τ} (lt : t < u)
    (run : Set.Ico t u ⊆ s.covered records) : ∃ b ∈ records, s.lo b ≤ t ∧ u ≤ s.hi b := by
  obtain ⟨b, hb, hlo, hhi⟩ := run (Set.left_mem_Ico.mpr lt)
  refine ⟨b, hb, hlo, not_lt.mp fun hshort => ?_⟩
  obtain ⟨c, hc, hclo, hchi⟩ := run ⟨hhi.le, hshort⟩
  have hne : b ≠ c := by
    rintro rfl
    exact lt_irrefl _ hchi
  have : Std.Symm fun b c => s.hi b < s.lo c ∨ s.hi c < s.lo b := ⟨fun _ _ => Or.symm⟩
  have hapart : s.hi b < s.lo c ∨ s.hi c < s.lo b :=
    List.Pairwise.forall (R := fun b c => s.hi b < s.lo c ∨ s.hi c < s.lo b)
      (h.imp fun hbc => .inl hbc) hb hc hne
  obtain hbefore | hafter := hapart
  · exact absurd hclo (not_le.mpr hbefore)
  · exact absurd (hchi.trans (hafter.trans_le (hlo.trans hhi.le))) (lt_irrefl _)

end Spans

/-! ### Chains of closed intervals -/

namespace Chain

variable {τ : Type v} [LinearOrder τ]

/-- How far the closed intervals lead on from `reached`, if they leave no gap. -/
def reach : τ → List (τ × τ) → Option τ
  | reached, [] => some reached
  | reached, (lo, hi) :: rest => if reached < lo then none else reach (max reached hi) rest

variable {reached last t : τ} {intervals : List (τ × τ)}

theorem le_reach (h : reach reached intervals = some last) : reached ≤ last := by
  induction intervals generalizing reached with
  | nil => exact (Option.some.inj h).le
  | cons interval rest ih =>
      unfold reach at h
      split at h
      · cases h
      · exact (le_max_left _ _).trans (ih h)

/-- Whatever the chain passes lies in one of its intervals. -/
theorem mem_of_reach (h : reach reached intervals = some last) (from_lt : reached < t)
    (le_last : t ≤ last) : ∃ interval ∈ intervals, interval.1 ≤ t ∧ t ≤ interval.2 := by
  induction intervals generalizing reached with
  | nil =>
      cases h
      exact absurd from_lt (not_lt.mpr le_last)
  | cons interval rest ih =>
      unfold reach at h
      split at h
      · cases h
      · next touches =>
          by_cases hpassed : t ≤ interval.2
          · exact ⟨interval, List.mem_cons_self, (not_lt.mp touches).trans from_lt.le, hpassed⟩
          · obtain ⟨other, hmem, hother⟩ := ih h (max_lt from_lt (not_le.mp hpassed))
            exact ⟨other, List.mem_cons_of_mem _ hmem, hother⟩

/-- A chain does not cross a gap. -/
theorem reach_le_of_gap {a b : τ} (hgap : a < b)
    (gap : ∀ interval ∈ intervals, interval.2 ≤ a ∨ b ≤ interval.1) (hreached : reached ≤ a)
    (h : reach reached intervals = some last) : last ≤ a := by
  induction intervals generalizing reached with
  | nil =>
      cases h
      exact hreached
  | cons interval rest ih =>
      unfold reach at h
      split at h
      · cases h
      · next touches =>
          have hinterval : interval.2 ≤ a := by
            refine (gap interval List.mem_cons_self).resolve_right fun hbeyond => ?_
            exact touches (lt_of_le_of_lt hreached (lt_of_lt_of_le hgap hbeyond))
          exact ih (fun other hmem => gap other (List.mem_cons_of_mem _ hmem))
            (max_le hreached hinterval) h

end Chain

/-! ### Records that part a set -/

section

variable {β : Type u} {τ : Type v}

/-- What the records stand for is disjoint and makes up the set. -/
structure Parts (part : β → Set τ) (records : List β) (whole : Set τ) : Prop where
  disjoint : records.Pairwise fun a b => Disjoint (part a) (part b)
  union : {t | ∃ b ∈ records, t ∈ part b} = whole

namespace Parts

variable {part : β → Set τ} {records before after finer : List β} {b c : β} {whole : Set τ}

theorem single : Parts part [b] (part b) where
  disjoint := List.pairwise_singleton _ _
  union := by
    ext t
    simp

theorem pair (apart : Disjoint (part b) (part c)) (union : part b ∪ part c = whole) :
    Parts part [b, c] whole where
  disjoint := by simpa using apart
  union := by
    rw [← union]
    ext t
    simp

theorem subset (h : Parts part records whole) (mem : b ∈ records) : part b ⊆ whole := by
  intro t ht
  rw [← h.union]
  exact ⟨b, mem, ht⟩

theorem perm {others : List β} (h : Parts part records whole) (same : records.Perm others) :
    Parts part others whole where
  disjoint := (same.pairwise_iff fun h => h.symm).mp h.disjoint
  union := by
    rw [← h.union]
    ext t
    simp [same.mem_iff]

/-- No instant is in two records. -/
theorem eq_of_mem {t : τ} (h : Parts part records whole) (hb : b ∈ records) (hc : c ∈ records)
    (htb : t ∈ part b) (htc : t ∈ part c) : b = c := by
  by_contra hne
  have : Std.Symm fun a b => Disjoint (part a) (part b) := ⟨fun _ _ h => h.symm⟩
  exact Set.disjoint_left.mp (h.disjoint.forall hb hc hne) htb htc

/-- Two conditions that exclude each other are counted one by one. -/
theorem countP_or {α : Type*} {p q : α → Bool} {xs : List α}
    (apart : ∀ x, p x = true → q x = false) :
    (xs.countP fun x => p x || q x) = xs.countP p + xs.countP q := by
  induction xs with
  | nil => rfl
  | cons x xs ih =>
      rw [List.countP_cons, List.countP_cons, List.countP_cons, ih]
      cases hp : p x with
      | false => simp only [Bool.false_or, Bool.false_eq_true, if_false]; omega
      | true => simp only [apart x hp, Bool.true_or, Bool.false_eq_true, if_true, if_false]; omega

/-- What is counted record by record is what is counted in all. -/
theorem sum_countP {α : Type*} {f : α → τ} (h : Parts part records whole) {p : β → α → Bool}
    (hp : ∀ b x, p b x = true ↔ f x ∈ part b) {q : α → Bool} (hq : ∀ x, q x = true ↔ f x ∈ whole)
    (xs : List α) : (records.map fun b => xs.countP (p b)).sum = xs.countP q := by
  have hany (x : α) : q x = records.any fun b => p b x := by
    rw [Bool.eq_iff_iff, hq, ← h.union, List.any_eq_true]
    simp only [Set.mem_ofPred_eq, hp]
  rw [show q = fun x => records.any fun b => p b x from funext hany]
  have hapart := h.disjoint
  clear h hq hany
  induction records with
  | nil => simp
  | cons b records ih =>
      obtain ⟨hb, hrest⟩ := List.pairwise_cons.mp hapart
      simp only [List.map_cons, List.sum_cons, List.any_cons]
      rw [countP_or fun x hpb => ?_, ih hrest]
      rw [List.any_eq_false]
      intro c hc hpc
      exact Set.disjoint_left.mp (hb c hc) ((hp b x).mp hpb) ((hp c x).mp hpc)

/-- A record is replaced by records that part what it stood for. -/
theorem refine (h : Parts part (before ++ b :: after) whole) (hfiner : Parts part finer (part b)) :
    Parts part (before ++ finer ++ after) whole where
  disjoint := by
    obtain ⟨hbefore, hrest, hacross⟩ := List.pairwise_append.mp h.disjoint
    obtain ⟨hb, hafter⟩ := List.pairwise_cons.mp hrest
    rw [List.pairwise_append, List.pairwise_append]
    refine ⟨⟨hbefore, hfiner.disjoint, ?_⟩, hafter, ?_⟩
    · intro a ha c hc
      exact (hacross a ha b List.mem_cons_self).mono_right (hfiner.subset hc)
    · intro a ha c hc
      cases List.mem_append.mp ha with
      | inl ha => exact hacross a ha c (List.mem_cons_of_mem b hc)
      | inr ha => exact (hb c hc).mono_left (hfiner.subset ha)
  union := by
    rw [← h.union]
    ext t
    have hrecord : t ∈ part b ↔ ∃ c ∈ finer, t ∈ part c := by
      rw [← hfiner.union]
      rfl
    simp only [Set.mem_setOf_eq, List.mem_append, List.mem_cons, or_and_right, exists_or,
      exists_eq_left, hrecord, or_assoc]

end Parts

end
