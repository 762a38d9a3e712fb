import Mathlib.Data.List.MinMax
import Mathlib.Order.Bounds.Basic

/-!
# Greedy covers by half-open intervals

Records stand for half-open intervals over a linear order. A greedy walk goes from one end
to the next: among the records that cover where it stands it takes one that ends last, until
it has come to the stop or no record leads on. `Chain` says what such a walk is. It covers
everything it passes, nothing leads further, and no other records cover as much in fewer
steps: whatever covers the instant of one step has ended when the next one is taken.

`extend` is the walk itself, with a key that decides which record to take.
-/

universe u v w

namespace GreedyCover

variable {β : Type u} {τ : Type v} {ρ : Type w} [LinearOrder τ] [LinearOrder ρ]

section

variable (lo hi : β → τ)

/-- The record covers an instant. -/
def Covers (b : β) (t : τ) : Prop := lo b ≤ t ∧ t < hi b

/-- A greedy walk from an instant to another one, and the records it takes. -/
inductive Chain (candidates : List β) (stop : τ) : τ → List β → τ → Prop
  | done {cursor : τ} (h : cursor < stop → ∀ b ∈ candidates, ¬ Covers lo hi b cursor) :
      Chain candidates stop cursor [] cursor
  | step {cursor last : τ} {choice : β} {rest : List β} (before : cursor < stop)
      (mem : choice ∈ candidates) (covers : Covers lo hi choice cursor)
      (longest : ∀ b ∈ candidates, Covers lo hi b cursor → hi b ≤ hi choice)
      (onward : Chain candidates stop (hi choice) rest last) :
      Chain candidates stop cursor (choice :: rest) last

end

namespace Chain

variable {lo hi : β → τ} {candidates selected others : List β} {stop start last t : τ}

theorem le_last (chain : Chain lo hi candidates stop start selected last) : start ≤ last := by
  induction chain with
  | done => exact le_rfl
  | step _ _ covers _ _ ih => exact covers.2.le.trans ih

theorem mem (chain : Chain lo hi candidates stop start selected last) :
    ∀ b ∈ selected, b ∈ candidates := by
  induction chain with
  | done => simp
  | step _ mem _ _ _ ih => exact List.forall_mem_cons.mpr ⟨mem, ih⟩

/-- The records taken cover whatever the walk passes. -/
theorem covers (chain : Chain lo hi candidates stop start selected last) (from_le : start ≤ t)
    (lt_last : t < last) : ∃ b ∈ selected, Covers lo hi b t := by
  induction chain with
  | done => exact absurd lt_last (not_lt.mpr from_le)
  | @step cursor last choice rest _ _ covers _ _ ih =>
      by_cases ht : t < hi choice
      · exact ⟨choice, List.mem_cons_self, covers.1.trans from_le, ht⟩
      · obtain ⟨b, hb, hcovers⟩ := ih (not_lt.mp ht) lt_last
        exact ⟨b, List.mem_cons_of_mem choice hb, hcovers⟩

/-- A walk that has not come to the stop ends where no record leads on. -/
theorem stuck (chain : Chain lo hi candidates stop start selected last) (short : last < stop) :
    ∀ b ∈ candidates, ¬ Covers lo hi b last := by
  induction chain with
  | done h => exact h short
  | step _ _ _ _ _ ih => exact ih short

/-- The walk reaches as far as the records cover without a gap. -/
theorem isGreatest (chain : Chain lo hi candidates stop start selected last) :
    IsGreatest {t | t ≤ stop ∧ ∀ x, start ≤ x → x < t → ∃ b ∈ candidates, Covers lo hi b x}
      (min last stop) := by
  constructor
  · refine ⟨min_le_right _ _, fun x from_le hx => ?_⟩
    obtain ⟨b, hb, hcovers⟩ := chain.covers from_le (lt_of_lt_of_le hx (min_le_left _ _))
    exact ⟨b, chain.mem b hb, hcovers⟩
  · rintro t ⟨ht, hcovered⟩
    by_contra hlt
    have hlast : last < t := by
      rcases min_lt_iff.mp (not_le.mp hlt) with h | h
      · exact h
      · exact absurd ht (not_le.mpr h)
    obtain ⟨b, hb, hcovers⟩ := hcovered last chain.le_last hlast
    exact chain.stuck (lt_of_lt_of_le hlast ht) b hb hcovers

/-- Each record taken begins where the one before it ends, or earlier, and ends later. -/
theorem linked (chain : Chain lo hi candidates stop start selected last) :
    (∀ b ∈ selected.head?, Covers lo hi b start) ∧
    selected.IsChain fun a b => Covers lo hi b (hi a) := by
  induction chain with
  | done => simp
  | @step cursor last choice rest _ _ covers _ _ ih =>
      obtain ⟨hfirst, hrest⟩ := ih
      refine ⟨by simpa using covers, ?_⟩
      cases rest with
      | nil => exact .singleton choice
      | cons b rest => exact List.isChain_cons_cons.mpr ⟨hfirst b rfl, hrest⟩

/-- No records cover what the walk passes in fewer steps. -/
theorem length_le (chain : Chain lo hi candidates stop start selected last)
    (subset : ∀ b ∈ others, b ∈ candidates)
    (cover : ∀ x, start ≤ x → x < min last stop → ∃ b ∈ others, Covers lo hi b x) :
    selected.length ≤ others.length := by
  induction chain generalizing others with
  | done => exact Nat.zero_le _
  | @step cursor last choice rest before mem covers longest hrest ih =>
      have hpasses : cursor < min last stop :=
        lt_min (lt_of_lt_of_le covers.2 hrest.le_last) before
      obtain ⟨first, hfirst, hcovers⟩ := cover cursor le_rfl hpasses
      -- The record that covers the first instant has ended when the next one is taken.
      have hended : ¬ hi choice < hi first :=
        not_lt.mpr (longest first (subset first hfirst) hcovers)
      have hfewer : (others.filter fun b => decide (hi choice < hi b)).length < others.length :=
        List.length_filter_lt_length_iff_exists.mpr ⟨first, hfirst, by simpa using hended⟩
      have hlater := @ih (others.filter fun b => decide (hi choice < hi b))
        (fun b hb => subset b (List.mem_filter.mp hb).1) (fun x from_le hx => by
          obtain ⟨b, hb, hb'⟩ := cover x (covers.2.le.trans from_le) hx
          refine ⟨b, List.mem_filter.mpr ⟨hb, ?_⟩, hb'⟩
          simpa using lt_of_le_of_lt from_le hb'.2)
      show rest.length + 1 ≤ others.length
      omega

end Chain

/-! ### The walk -/

variable (lo hi : β → τ) (key : β → ρ)

/-- Walk on while there is fuel: take the record of the least key among those that cover the
cursor. -/
def extend (candidates : List β) (stop : τ) : Nat → τ → List β × τ
  | 0, cursor => ([], cursor)
  | fuel + 1, cursor =>
      if cursor < stop then
        match (candidates.filter fun b => decide (lo b ≤ cursor) && decide (cursor < hi b)).argmin
            key with
        | none => ([], cursor)
        | some choice =>
            let (selected, reach) := extend candidates stop fuel (hi choice)
            (choice :: selected, reach)
      else ([], cursor)

variable {lo hi key} {candidates others : List β} {stop cursor : τ} {fuel : Nat}

theorem mem_covering {b : β} :
    b ∈ (candidates.filter fun b => decide (lo b ≤ cursor) && decide (cursor < hi b)) ↔
      b ∈ candidates ∧ Covers lo hi b cursor := by
  simp [List.mem_filter, Covers]

/-- After a step fewer records end later than the cursor. -/
theorem later_lt {choice : β} (mem : choice ∈ candidates) (covers : Covers lo hi choice cursor) :
    (candidates.filter fun b => decide (hi choice < hi b)).length
      < (candidates.filter fun b => decide (cursor < hi b)).length := by
  have hsub : (candidates.filter fun b => decide (hi choice < hi b))
      = (candidates.filter fun b => decide (cursor < hi b)).filter fun b =>
          decide (hi choice < hi b) := by
    rw [List.filter_filter]
    refine List.filter_congr fun b _ => ?_
    by_cases h : hi choice < hi b
    · simp [h, covers.2.trans h]
    · simp [h]
  rw [hsub]
  refine List.length_filter_lt_length_iff_exists.mpr ⟨choice, ?_, by simp⟩
  exact List.mem_filter.mpr ⟨mem, by simpa using covers.2⟩

/-- With fuel for every record that ends later the walk is a greedy one. -/
theorem chain_extend (keyed : ∀ a b, key a ≤ key b → hi b ≤ hi a)
    (enough : (candidates.filter fun b => decide (cursor < hi b)).length ≤ fuel) :
    Chain lo hi candidates stop cursor (extend lo hi key candidates stop fuel cursor).1
      (extend lo hi key candidates stop fuel cursor).2 := by
  induction fuel generalizing cursor with
  | zero =>
      refine .done fun _ b hb hcovers => ?_
      have hempty := List.eq_nil_of_length_eq_zero (Nat.le_zero.mp enough)
      have hmem : b ∈ candidates.filter fun b => decide (cursor < hi b) :=
        List.mem_filter.mpr ⟨hb, by simpa using hcovers.2⟩
      rw [hempty] at hmem
      cases hmem
  | succ fuel ih =>
      unfold extend
      split
      · next hstop =>
          split
          · next hnone =>
              refine .done fun _ b hb hcovers => ?_
              have hmem := mem_covering.mpr ⟨hb, hcovers⟩
              rw [List.argmin_eq_none.mp hnone] at hmem
              cases hmem
          · next choice hchoice =>
              obtain ⟨hmem, hcovers⟩ := mem_covering.mp (List.argmin_mem hchoice)
              refine .step hstop hmem hcovers ?_ (ih ?_)
              · intro b hb hb'
                exact keyed _ _ (List.le_of_mem_argmin (mem_covering.mpr ⟨hb, hb'⟩) hchoice)
              · have := later_lt hmem hcovers
                omega
      · next hstop => exact .done fun h => absurd h hstop

/-- A walk does not begin where no record ends later. -/
theorem extend_of_none_later
    (none : (candidates.filter fun b => decide (cursor < hi b)).length = 0) (fuel : Nat) :
    extend lo hi key candidates stop fuel cursor = ([], cursor) := by
  cases fuel with
  | zero => rfl
  | succ fuel =>
      unfold extend
      split
      · split
        · rfl
        · next choice hchoice =>
            obtain ⟨hmem, hcovers⟩ := mem_covering.mp (List.argmin_mem hchoice)
            have := later_lt hmem hcovers
            omega
      · rfl

/-- More fuel than that makes no difference: the walk ends by itself. -/
theorem extend_fuel {more : Nat}
    (enough : (candidates.filter fun b => decide (cursor < hi b)).length ≤ fuel)
    (enough' : (candidates.filter fun b => decide (cursor < hi b)).length ≤ more) :
    extend lo hi key candidates stop fuel cursor = extend lo hi key candidates stop more cursor := by
  induction fuel generalizing cursor more with
  | zero => rw [extend_of_none_later (by omega), extend_of_none_later (by omega)]
  | succ fuel ih =>
      cases more with
      | zero => rw [extend_of_none_later (by omega), extend_of_none_later (by omega)]
      | succ more =>
          unfold extend
          split
          · split
            · rfl
            · next choice hchoice =>
                obtain ⟨hmem, hcovers⟩ := mem_covering.mp (List.argmin_mem hchoice)
                have hlater := later_lt hmem hcovers
                have hnext := @ih (hi choice) more (by omega) (by omega)
                rw [hnext]
          · rfl

/-- The record of the least key does not depend on the order of the records, if no two of
them share a key. -/
theorem argmin_perm {xs ys : List β} (perm : xs.Perm ys)
    (inj : ∀ a ∈ xs, ∀ b ∈ xs, key a = key b → a = b) : xs.argmin key = ys.argmin key := by
  cases hxs : xs.argmin key with
  | none =>
      obtain rfl := List.argmin_eq_none.mp hxs
      rw [List.nil_perm.mp perm]
      rfl
  | some a =>
      cases hys : ys.argmin key with
      | none =>
          obtain rfl := List.argmin_eq_none.mp hys
          rw [List.perm_nil.mp perm] at hxs
          cases hxs
      | some b =>
          have ha := List.argmin_mem hxs
          have hb := perm.mem_iff.mpr (List.argmin_mem hys)
          have hab := List.le_of_mem_argmin hb hxs
          have hba := List.le_of_mem_argmin (perm.mem_iff.mp ha) hys
          rw [inj a ha b hb (le_antisymm hab hba)]

/-- Nor does the walk. -/
theorem extend_perm (perm : candidates.Perm others)
    (inj : ∀ a ∈ candidates, ∀ b ∈ candidates, key a = key b → a = b) :
    extend lo hi key candidates stop fuel cursor = extend lo hi key others stop fuel cursor := by
  induction fuel generalizing cursor with
  | zero => rfl
  | succ fuel ih =>
      have hchoice := argmin_perm (perm.filter fun b =>
          decide (lo b ≤ cursor) && decide (cursor < hi b)) fun a ha b hb =>
        inj a (List.mem_filter.mp ha).1 b (List.mem_filter.mp hb).1
      unfold extend
      rw [hchoice]
      split
      · split
        · rfl
        · rw [ih]
      · rfl

section

variable {ρ' : Type*} [LinearOrder ρ'] {key' : β → ρ'}

/-- Keys that order the records alike choose alike. -/
theorem argmin_congr {xs : List β}
    (alike : ∀ a ∈ xs, ∀ b ∈ xs, (key a < key b ↔ key' a < key' b)) :
    xs.argmin key = xs.argmin key' := by
  induction xs with
  | nil => rfl
  | cons a xs ih =>
      have hxs := ih fun b hb c hc =>
        alike b (List.mem_cons_of_mem a hb) c (List.mem_cons_of_mem a hc)
      rw [List.argmin_cons, List.argmin_cons, ← hxs]
      cases hchoice : xs.argmin key with
      | none => rfl
      | some c =>
          have hmem := List.mem_cons_of_mem a (List.argmin_mem hchoice)
          simp only [alike c hmem a List.mem_cons_self]

/-- And walk alike. -/
theorem extend_congr
    (alike : ∀ a ∈ candidates, ∀ b ∈ candidates, (key a < key b ↔ key' a < key' b)) :
    extend lo hi key candidates stop fuel cursor = extend lo hi key' candidates stop fuel cursor := by
  induction fuel generalizing cursor with
  | zero => rfl
  | succ fuel ih =>
      have halike : ∀ a ∈ candidates.filter fun b =>
          decide (lo b ≤ cursor) && decide (cursor < hi b), ∀ b ∈ candidates.filter fun b =>
          decide (lo b ≤ cursor) && decide (cursor < hi b), (key a < key b ↔ key' a < key' b) :=
        fun a ha b hb => alike a (List.mem_filter.mp ha).1 b (List.mem_filter.mp hb).1
      have hchoice := argmin_congr halike
      unfold extend
      rw [hchoice]
      split
      · split
        · rfl
        · rw [ih]
      · rfl

end

end GreedyCover
