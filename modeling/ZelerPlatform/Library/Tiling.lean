import Mathlib.Order.Interval.Set.Basic

/-!
# Tilings of an interval

Pieces with a start and a stop tile a half-open interval when none is empty, no two overlap
and together they are the interval. A piece may be put before the first one, after the last
one, or in the place of one with the same bounds.
-/

universe u v

/-- The pieces tile the interval from `lo` up to `hi`. -/
structure Tiles {β : Type u} {τ : Type v} [LinearOrder τ] (pieces : Set β) (start stop : β → τ)
    (lo hi : τ) : Prop where
  proper : ∀ b ∈ pieces, start b < stop b
  apart : ∀ b ∈ pieces, ∀ c ∈ pieces, b ≠ c → stop b ≤ start c ∨ stop c ≤ start b
  covers : ∀ t, (∃ b ∈ pieces, start b ≤ t ∧ t < stop b) ↔ lo ≤ t ∧ t < hi

namespace Tiles

variable {β : Type u} {τ : Type v} [LinearOrder τ] {pieces : Set β} {start stop : β → τ}
variable {lo hi : τ} {b c : β}

theorem single (proper : start b < stop b) : Tiles {b} start stop (start b) (stop b) where
  proper := by simpa using proper
  apart := by
    rintro _ rfl _ rfl h
    exact absurd rfl h
  covers t := by simp

theorem lo_le (h : Tiles pieces start stop lo hi) (mem : b ∈ pieces) : lo ≤ start b :=
  ((h.covers (start b)).mp ⟨b, mem, le_rfl, h.proper b mem⟩).1

theorem le_hi (h : Tiles pieces start stop lo hi) (mem : b ∈ pieces) : stop b ≤ hi := by
  by_contra hlt
  rw [not_le] at hlt
  cases le_or_gt (start b) hi with
  | inl hle => exact lt_irrefl hi ((h.covers hi).mp ⟨b, mem, hle, hlt⟩).2
  | inr hgt => exact lt_asymm hgt ((h.covers (start b)).mp ⟨b, mem, le_rfl, h.proper b mem⟩).2

theorem exists_first (h : Tiles pieces start stop lo hi) (wide : lo < hi) :
    ∃ b ∈ pieces, start b = lo := by
  obtain ⟨b, mem, hle, -⟩ := (h.covers lo).mpr ⟨le_rfl, wide⟩
  exact ⟨b, mem, le_antisymm hle (h.lo_le mem)⟩

/-- The piece that stops last stops where the interval does. -/
theorem stop_of_last (h : Tiles pieces start stop lo hi) (mem : b ∈ pieces)
    (last : ∀ c ∈ pieces, stop c ≤ stop b) : stop b = hi := by
  refine le_antisymm (h.le_hi mem) ?_
  by_contra hlt
  rw [not_le] at hlt
  have hlo : lo ≤ stop b := (h.lo_le mem).trans (h.proper b mem).le
  obtain ⟨c, hc, -, hbeyond⟩ := (h.covers (stop b)).mpr ⟨hlo, hlt⟩
  exact absurd (last c hc) (not_le.mpr hbeyond)

theorem insert_after (h : Tiles pieces start stop lo hi) (wide : lo < hi) (touches : start b = hi)
    (proper : start b < stop b) : Tiles (insert b pieces) start stop lo (stop b) where
  proper := by
    rintro c (rfl | mem)
    · exact proper
    · exact h.proper c mem
  apart := by
    rintro c (rfl | hc) d (rfl | hd) hne
    · exact absurd rfl hne
    · exact .inr ((h.le_hi hd).trans touches.ge)
    · exact .inl ((h.le_hi hc).trans touches.ge)
    · exact h.apart c hc d hd hne
  covers t := by
    constructor
    · rintro ⟨c, rfl | hc, hstart, hstop⟩
      · exact ⟨wide.le.trans (touches.ge.trans hstart), hstop⟩
      · have hin := (h.covers t).mp ⟨c, hc, hstart, hstop⟩
        exact ⟨hin.1, hin.2.trans (touches ▸ proper)⟩
    · intro ht
      cases lt_or_ge t hi with
      | inl hlt =>
          obtain ⟨c, hc, hin⟩ := (h.covers t).mpr ⟨ht.1, hlt⟩
          exact ⟨c, .inr hc, hin⟩
      | inr hge => exact ⟨b, .inl rfl, touches.le.trans hge, ht.2⟩

theorem insert_before (h : Tiles pieces start stop lo hi) (wide : lo < hi) (touches : stop b = lo)
    (proper : start b < stop b) : Tiles (insert b pieces) start stop (start b) hi where
  proper := by
    rintro c (rfl | mem)
    · exact proper
    · exact h.proper c mem
  apart := by
    rintro c (rfl | hc) d (rfl | hd) hne
    · exact absurd rfl hne
    · exact .inl (touches.le.trans (h.lo_le hd))
    · exact .inr (touches.le.trans (h.lo_le hc))
    · exact h.apart c hc d hd hne
  covers t := by
    constructor
    · rintro ⟨c, rfl | hc, hstart, hstop⟩
      · exact ⟨hstart, hstop.trans (touches ▸ wide)⟩
      · have hin := (h.covers t).mp ⟨c, hc, hstart, hstop⟩
        exact ⟨(proper.trans_le (touches.le.trans hin.1)).le, hin.2⟩
    · intro ht
      cases lt_or_ge t lo with
      | inl hlt => exact ⟨b, .inl rfl, ht.1, hlt.trans_le touches.ge⟩
      | inr hge =>
          obtain ⟨c, hc, hin⟩ := (h.covers t).mpr ⟨hge, ht.2⟩
          exact ⟨c, .inr hc, hin⟩

/-- A piece takes the place of the one with the same bounds. -/
theorem replace (h : Tiles pieces start stop lo hi) (mem : c ∈ pieces) (hstart : start b = start c)
    (hstop : stop b = stop c) :
    Tiles (insert b {d ∈ pieces | ¬ (start d = start b ∧ stop d = stop b)}) start stop lo hi where
  proper := by
    rintro d (rfl | hd)
    · rw [hstart, hstop]
      exact h.proper c mem
    · exact h.proper d hd.1
  apart := by
    have hother {d : β} (hd : d ∈ pieces) (hsame : ¬ (start d = start b ∧ stop d = stop b)) :
        stop c ≤ start d ∨ stop d ≤ start c := by
      refine h.apart c mem d hd ?_
      rintro rfl
      exact hsame ⟨hstart.symm, hstop.symm⟩
    rintro d (rfl | hd) e (rfl | he) hne
    · exact absurd rfl hne
    · rw [hstart, hstop]
      exact hother he.1 he.2
    · rw [hstart, hstop]
      exact (hother hd.1 hd.2).symm
    · exact h.apart d hd.1 e he.1 hne
  covers t := by
    rw [← h.covers t]
    constructor
    · rintro ⟨d, rfl | hd, hin⟩
      · rw [hstart, hstop] at hin
        exact ⟨c, mem, hin⟩
      · exact ⟨d, hd.1, hin⟩
    · rintro ⟨d, hd, hin⟩
      by_cases hsame : start d = start b ∧ stop d = stop b
      · rw [hsame.1, hsame.2] at hin
        exact ⟨b, .inl rfl, hin⟩
      · exact ⟨d, .inr ⟨hd, hsame⟩, hin⟩

end Tiles

/-! ### Lists of pieces -/

/-- The pieces of a list follow one another from `lo` to `hi`, and none is empty. -/
def Adjoining {β : Type u} {τ : Type v} [LT τ] (start stop : β → τ) : τ → List β → τ → Prop
  | lo, [], hi => lo = hi
  | lo, b :: rest, hi => start b = lo ∧ start b < stop b ∧ Adjoining start stop (stop b) rest hi

namespace Adjoining

variable {β : Type u} {τ : Type v} {start stop : β → τ} {b : β} {bs cs : List β}

section

variable [LT τ] {lo mid hi hi' : τ}

theorem append (h : Adjoining start stop lo bs mid) (h' : Adjoining start stop mid cs hi) :
    Adjoining start stop lo (bs ++ cs) hi := by
  induction bs generalizing lo with
  | nil =>
      cases h
      exact h'
  | cons b bs ih => exact ⟨h.1, h.2.1, ih h.2.2⟩

theorem single (proper : start b < stop b) : Adjoining start stop (start b) [b] (stop b) :=
  ⟨rfl, proper, rfl⟩

/-- A list of pieces reaches one end only. -/
theorem unique (h : Adjoining start stop lo bs hi) (h' : Adjoining start stop lo bs hi') :
    hi = hi' := by
  induction bs generalizing lo with
  | nil => exact h.symm.trans h'
  | cons b bs ih => exact ih h.2.2 h'.2.2

end

variable [LinearOrder τ] {lo hi : τ}

theorem le (h : Adjoining start stop lo bs hi) : lo ≤ hi := by
  induction bs generalizing lo with
  | nil => exact h.le
  | cons b bs ih => exact h.1.ge.trans (h.2.1.le.trans (ih h.2.2))

/-- The pieces of such a list tile the interval. -/
theorem tiles (h : Adjoining start stop lo bs hi) : Tiles {b | b ∈ bs} start stop lo hi := by
  induction bs generalizing lo with
  | nil =>
      obtain rfl : lo = hi := h
      refine ⟨fun b mem => (List.not_mem_nil mem).elim,
        fun b mem => (List.not_mem_nil mem).elim, fun t => ?_⟩
      constructor
      · rintro ⟨b, mem, -⟩
        exact (List.not_mem_nil mem).elim
      · exact fun ht => (lt_irrefl lo (ht.1.trans_lt ht.2)).elim
  | cons b bs ih =>
      obtain ⟨rfl, proper, hrest⟩ := h
      cases bs with
      | nil =>
          obtain rfl : stop b = hi := hrest
          simpa using Tiles.single proper
      | cons c cs =>
          have hrest' := ih hrest
          have wide : stop b < hi := hrest.1.ge.trans_lt (hrest.2.1.trans_le hrest.2.2.le)
          have hinsert := hrest'.insert_before wide rfl proper
          have hset : insert b {d | d ∈ c :: cs} = {d | d ∈ b :: c :: cs} := by
            ext d
            simp
          exact hset ▸ hinsert

end Adjoining
