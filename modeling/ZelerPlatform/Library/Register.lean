import Mathlib.Data.Fintype.EquivFin
import Mathlib.Data.List.Nodup

/-!
# Registers that keep what is not superseded

A register is empty or holds the document of a version. A version offered to it is stored
when the register is empty or the version supersedes the document there. What is stored
after all versions have arrived depends on their order unless one of them supersedes every
other document and is superseded by none, and only then.
-/

namespace Register

variable {ι D : Type*} {doc : ι → D} {supersedes : D → ι → Bool}

/-- What the register holds after one offer. -/
def offer (doc : ι → D) (supersedes : D → ι → Bool) : Option D → ι → Option D
  | none, i => some (doc i)
  | some d, i => if supersedes d i then some (doc i) else some d

/-- What it holds after offers in order. -/
def offers (doc : ι → D) (supersedes : D → ι → Bool) (held : Option D) (order : List ι) :
    Option D := order.foldl (offer doc supersedes) held

variable {held : Option D} {order rest : List ι} {d : D} {i : ι}

@[simp] theorem offer_none : offer doc supersedes none i = some (doc i) := rfl

@[simp] theorem offer_some : offer doc supersedes (some d) i
    = if supersedes d i then some (doc i) else some d := rfl

@[simp] theorem offers_nil : offers doc supersedes held [] = held := rfl

@[simp] theorem offers_cons :
    offers doc supersedes held (i :: order)
      = offers doc supersedes (offer doc supersedes held i) order := rfl

theorem offers_append :
    offers doc supersedes held (order ++ rest)
      = offers doc supersedes (offers doc supersedes held order) rest := List.foldl_append

/-- After an offer the register holds what it held or the document of the version. -/
theorem offer_cases (doc : ι → D) (supersedes : D → ι → Bool) (held : Option D) (i : ι) :
    offer doc supersedes held i = some (doc i) ∨ offer doc supersedes held i = held := by
  cases held with
  | none => exact .inl rfl
  | some d =>
      rw [offer_some]
      by_cases h : supersedes d i = true
      · exact .inl (if_pos h)
      · exact .inr (if_neg h)

theorem offers_cases (doc : ι → D) (supersedes : D → ι → Bool) (held : Option D)
    (order : List ι) :
    offers doc supersedes held order = held ∨
      ∃ i ∈ order, offers doc supersedes held order = some (doc i) := by
  induction order generalizing held with
  | nil => exact .inl rfl
  | cons i rest ih =>
      rw [offers_cons]
      rcases ih (offer doc supersedes held i) with heq | ⟨j, hj, heq⟩
      · rcases offer_cases doc supersedes held i with hi | hi
        · exact .inr ⟨i, List.mem_cons_self, heq.trans hi⟩
        · exact .inl (heq.trans hi)
      · exact .inr ⟨j, List.mem_cons_of_mem _ hj, heq⟩

/-- Versions that do not supersede a document leave it there. -/
theorem offers_of_not_superseded (h : ∀ i ∈ order, supersedes d i = true → doc i = d) :
    offers doc supersedes (some d) order = some d := by
  induction order with
  | nil => rfl
  | cons i rest ih =>
      have hi : offer doc supersedes (some d) i = some d := by
        rw [offer_some]
        split
        · next hs => rw [h i List.mem_cons_self hs]
        · rfl
      rw [offers_cons, hi]
      exact ih fun j hj => h j (List.mem_cons_of_mem _ hj)

/-- All versions in some order. -/
def Arrival (order : List ι) : Prop := order.Nodup ∧ ∀ i, i ∈ order

/-- The version supersedes every other document, and no version supersedes its own. -/
def Dominates (doc : ι → D) (supersedes : D → ι → Bool) (newest : ι) : Prop :=
  ∀ i, doc i ≠ doc newest →
    supersedes (doc i) newest = true ∧ supersedes (doc newest) i = false

theorem offers_of_dominates {newest : ι} (h : Dominates doc supersedes newest)
    (hmem : newest ∈ order) : offers doc supersedes none order = some (doc newest) := by
  obtain ⟨before, after, rfl⟩ := List.append_of_mem hmem
  rw [offers_append, offers_cons]
  have hnewest : offer doc supersedes (offers doc supersedes none before) newest
      = some (doc newest) := by
    rcases offers_cases doc supersedes none before with heq | ⟨i, -, heq⟩
    · rw [heq]
      rfl
    · rw [heq, offer_some]
      by_cases hdoc : doc i = doc newest
      · split
        · rfl
        · rw [hdoc]
      · rw [if_pos (h i hdoc).1]
  rw [hnewest]
  refine offers_of_not_superseded fun i _ hs => ?_
  by_contra hdoc
  rw [(h i hdoc).2] at hs
  cases hs

/-- Of versions any two of which compare, one supersedes whatever one of them does. -/
theorem exists_strongest (supersedes : D → ι → Bool) {versions : List ι} (hne : versions ≠ [])
    (compare : ∀ i ∈ versions, ∀ j ∈ versions,
      (∀ d, supersedes d i = true → supersedes d j = true) ∨
        ∀ d, supersedes d j = true → supersedes d i = true) :
    ∃ i ∈ versions, ∀ j ∈ versions, ∀ d, supersedes d j = true → supersedes d i = true := by
  induction versions with
  | nil => exact absurd rfl hne
  | cons i rest ih =>
      by_cases hrest : rest = []
      · subst hrest
        refine ⟨i, List.mem_cons_self, fun j hj d hs => ?_⟩
        obtain rfl := List.mem_singleton.mp hj
        exact hs
      · obtain ⟨m, hm, hmax⟩ := ih hrest fun i hi j hj =>
          compare i (List.mem_cons_of_mem _ hi) j (List.mem_cons_of_mem _ hj)
        rcases compare i List.mem_cons_self m (List.mem_cons_of_mem _ hm) with him | hmi
        · refine ⟨m, List.mem_cons_of_mem _ hm, fun j hj d hs => ?_⟩
          rcases List.mem_cons.mp hj with rfl | hj
          · exact him d hs
          · exact hmax j hj d hs
        · refine ⟨i, List.mem_cons_self, fun j hj d hs => ?_⟩
          rcases List.mem_cons.mp hj with rfl | hj
          · exact hs
          · exact hmi d (hmax j hj d hs)

theorem offers_ne_none (hne : order ≠ []) : offers doc supersedes none order ≠ none := by
  obtain ⟨i, rest, rfl⟩ := List.exists_cons_of_ne_nil hne
  rw [offers_cons, offer_none]
  rcases offers_cases doc supersedes (some (doc i)) rest with h | ⟨j, -, h⟩
  · rw [h]
    exact Option.some_ne_none _
  · rw [h]
    exact Option.some_ne_none _

/-! ### One document for all orders -/

variable [Finite ι]

theorem exists_arrival : ∃ order : List ι, Arrival order := by
  have : Fintype ι := Fintype.ofFinite ι
  exact ⟨Finset.univ.toList, Finset.nodup_toList _, fun i => by simp⟩

/-- The version first, then those with the final document, then the others. -/
theorem superseded_of_final
    (hfinal : ∀ order, Arrival order → offers doc supersedes none order = some d)
    (hi : doc i ≠ d) : ∃ j, doc j = d ∧ supersedes (doc i) j = true := by
  classical
  by_contra hnone
  push Not at hnone
  obtain ⟨all, harrival⟩ := exists_arrival (ι := ι)
  set same := all.filter fun j => doc j = d with hsame
  set others := all.filter fun j => doc j ≠ d ∧ j ≠ i with hothers
  have horder : Arrival (i :: (same ++ others)) := by
    constructor
    · rw [List.nodup_cons, List.nodup_append]
      refine ⟨?_, harrival.1.filter _, harrival.1.filter _, ?_⟩
      · simp [hsame, hothers, hi]
      · rintro a ha b hb rfl
        simp only [hsame, List.mem_filter, decide_eq_true_eq] at ha
        simp only [hothers, List.mem_filter, decide_eq_true_eq] at hb
        exact hb.2.1 ha.2
    · intro j
      simp only [List.mem_cons, List.mem_append, hsame, hothers, List.mem_filter,
        harrival.2 j, true_and, decide_eq_true_eq]
      tauto
  have hfirst : offers doc supersedes (some (doc i)) same = some (doc i) := by
    refine offers_of_not_superseded fun j hj hs => ?_
    simp only [hsame, List.mem_filter, decide_eq_true_eq] at hj
    exact absurd hs (hnone j hj.2)
  have hend := hfinal _ horder
  rw [offers_cons, offers_append, offer_none, hfirst] at hend
  rcases offers_cases doc supersedes (some (doc i)) others with heq | ⟨j, hj, heq⟩
  · exact hi (Option.some.inj (heq.symm.trans hend))
  · simp only [hothers, List.mem_filter, decide_eq_true_eq] at hj
    exact hj.2.1 (Option.some.inj (heq.symm.trans hend))

/-- The version last. -/
theorem not_superseded_of_final
    (hfinal : ∀ order, Arrival order → offers doc supersedes none order = some d)
    (hi : doc i ≠ d) : supersedes d i = false := by
  classical
  obtain ⟨all, harrival⟩ := exists_arrival (ι := ι)
  set others := all.filter fun j => j ≠ i with hothers
  have horder : Arrival (others ++ [i]) := by
    constructor
    · rw [List.nodup_append]
      refine ⟨harrival.1.filter _, List.nodup_singleton i, ?_⟩
      rintro a ha b hb rfl
      simp only [hothers, List.mem_filter, decide_eq_true_eq] at ha
      exact ha.2 (List.mem_singleton.mp hb)
    · intro j
      simp only [List.mem_append, hothers, List.mem_filter, harrival.2 j, true_and,
        decide_eq_true_eq, List.mem_singleton]
      tauto
  have hend := hfinal _ horder
  rw [offers_append, offers_cons, offers_nil] at hend
  cases hheld : offers doc supersedes none others with
  | none =>
      rw [hheld, offer_none] at hend
      exact absurd (Option.some.inj hend) hi
  | some held =>
      rw [hheld, offer_some] at hend
      by_cases hs : supersedes held i = true
      · rw [if_pos hs] at hend
        exact absurd (Option.some.inj hend) hi
      · rw [if_neg hs] at hend
        obtain rfl := Option.some.inj hend
        simpa using hs

/-- The order of arrival does not matter exactly when one version dominates. -/
theorem independent_iff [Nonempty ι]
    (compare : ∀ i j, doc i = doc j →
      (∀ d, supersedes d i = true → supersedes d j = true) ∨
        ∀ d, supersedes d j = true → supersedes d i = true) :
    (∀ order order', Arrival order → Arrival order' →
      offers doc supersedes none order = offers doc supersedes none order') ↔
    ∃ newest, Dominates doc supersedes newest := by
  classical
  constructor
  · intro independent
    obtain ⟨all, harrival⟩ := exists_arrival (ι := ι)
    obtain ⟨last, hlast⟩ : ∃ i, offers doc supersedes none all = some (doc i) := by
      rcases offers_cases doc supersedes none all with heq | ⟨i, -, heq⟩
      · obtain ⟨i⟩ := ‹Nonempty ι›
        exact absurd heq (offers_ne_none (List.ne_nil_of_mem (harrival.2 i)))
      · exact ⟨i, heq⟩
    have hfinal : ∀ order, Arrival order → offers doc supersedes none order = some (doc last) :=
      fun order h => (independent order all h harrival).trans hlast
    -- among the versions with this document, one that supersedes the most
    have hmem : ∀ i, i ∈ all.filter (fun i => doc i = doc last) ↔ doc i = doc last := by
      intro i
      simp [harrival.2 i]
    obtain ⟨newest, hnewest, hstrong⟩ := exists_strongest supersedes
      (List.ne_nil_of_mem ((hmem last).mpr rfl))
      fun i hi j hj => compare i j (((hmem i).mp hi).trans ((hmem j).mp hj).symm)
    have hdoc : doc newest = doc last := (hmem newest).mp hnewest
    refine ⟨newest, fun i hi => ?_⟩
    rw [hdoc] at hi ⊢
    obtain ⟨j, hj, hs⟩ := superseded_of_final hfinal hi
    exact ⟨hstrong j ((hmem j).mpr hj) _ hs, not_superseded_of_final hfinal hi⟩
  · rintro ⟨newest, hdominates⟩ order order' horder horder'
    rw [offers_of_dominates hdominates (horder.2 newest),
      offers_of_dominates hdominates (horder'.2 newest)]

end Register
