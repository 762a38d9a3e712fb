import ZelerPlatform.Library.Fallible
import ZelerPlatform.Repricer.BulkJobs

/-!
# Which bulk rows are accepted

The prices of a row are compared outside the block that catches what they raise, and nothing asks
whether they are finite. So a NaN among the prices ends the validation of the whole upload, and
where no limits are in force infinite prices pass.
-/

namespace ZelerPlatform.Repricer

open Mongo Fallible

/-- A price that can be compared. -/
def IsNumber (price : Decimal) : Prop := ∀ signaling, price ≠ .nan signaling

def IsFinite (price : Decimal) : Prop := ∃ x, price = .finite x

/-- The row names an ally that is not known. -/
def UnknownAlly (raw : RawRow) (allies : Option RepricerAllies) : Prop :=
  ∃ ally known, raw.get? "ally_account_id" = some ally ∧ allies = some known ∧
    ally ∉ known.accountIds

/-- A row has what every row must have, of the account of the upload. -/
structure WellFormed (upload : Upload) (raw : RawRow) : Prop where
  required : ∀ field ∈ requiredFields, raw.get field "" ≠ ""
  account : (raw.get? "account_id").getD upload.accountId = upload.accountId
  strategy : raw.get "strategy" "" ∈ strategies

/-- A row that comes to the comparison of its prices has no NaN among them, and if one is infinite
the row is refused for something else: the prices are the wrong way round, there are limits in
force, or its ally is unknown. -/
def FairRow (upload : Upload) (raw : RawRow) : Prop :=
  WellFormed upload raw → ∀ minPrice maxPrice,
    Decimal.ofText (raw.get "min_price" "") = some minPrice →
    Decimal.ofText (raw.get "max_price" "") = some maxPrice →
      IsNumber minPrice ∧ IsNumber maxPrice ∧
        (IsFinite minPrice ∧ IsFinite maxPrice ∨ maxPrice.lt minPrice = .ok true ∨
          (inForce upload.limits).isSome = true ∨ UnknownAlly raw upload.allies)

/-- The band of accepted prices. -/
structure InLimits (limits : Option RepricerLimits) (minPrice maxPrice : ℚ) : Prop where
  ordered : minPrice ≤ maxPrice
  above : ∀ bound, inForce limits = some bound → bound.minPriceLimit ≤ minPrice
  below : ∀ bound, inForce limits = some bound → maxPrice ≤ bound.maxPriceLimit

/-- A row is to be accepted. -/
structure Passes (upload : Upload) (raw : RawRow) : Prop where
  wellFormed : WellFormed upload raw
  prices : ∃ x y, Decimal.ofText (raw.get "min_price" "") = some (.finite x) ∧
    Decimal.ofText (raw.get "max_price" "") = some (.finite y) ∧ InLimits upload.limits x y
  ally : ¬ UnknownAlly raw upload.allies

section

variable {a b minPrice maxPrice : Decimal} {raw : RawRow} {n : Nat} {upload : Upload}
  {limits : Option RepricerLimits} {allies : Option RepricerAllies} {error : Option RowError}

theorem priceLt_ok (ha : IsNumber a) (hb : IsNumber b) : ∃ less, priceLt a b = .ok less := by
  cases a with
  | nan signaling => exact absurd rfl (ha signaling)
  | finite x =>
      cases b with
      | nan signaling => exact absurd rfl (hb signaling)
      | finite y => exact ⟨_, rfl⟩
      | infinity negative => exact ⟨_, rfl⟩
  | infinity negative =>
      cases b with
      | nan signaling => exact absurd rfl (hb signaling)
      | finite y => exact ⟨_, rfl⟩
      | infinity other => exact ⟨_, rfl⟩

theorem isNumber_of_priceLt {less : Bool} (h : priceLt a b = .ok less) :
    IsNumber a ∧ IsNumber b := by
  constructor
  · rintro signaling rfl
    cases h
  · rintro signaling rfl
    cases a <;> cases h

theorem priceLt_eq {less : Bool} (h : a.lt b = .ok less) : priceLt a b = .ok less := by
  rw [priceLt, h]

theorem lt_of_priceLt {less : Bool} (h : priceLt a b = .ok less) : a.lt b = .ok less := by
  rw [priceLt] at h
  split at h
  · next hlt => rw [hlt, Except.ok.inj h]
  · cases h

/-- The checks of the prices in order. -/
theorem bandError_eq {upsideDown : Bool} (h : maxPrice.lt minPrice = .ok upsideDown) :
    bandError raw n limits allies minPrice maxPrice =
      if upsideDown then
        .ok (some ("min_price_above_max_price", s!"Row {n} min_price is above max_price"))
      else match limitsError n limits minPrice maxPrice with
        | .ok (some error) => .ok (some error)
        | .ok none => .ok (allyError raw n allies)
        | .error error => .error error := by
  rw [bandError, priceLt_eq h]
  cases upsideDown with
  | true => rfl
  | false =>
      show (limitsError n limits minPrice maxPrice >>= _) = _
      rcases limitsError n limits minPrice maxPrice with error | ⟨_ | error⟩
      · rfl
      · rfl
      · rfl

theorem limitsError_ok (n : Nat) (limits : Option RepricerLimits) (hmin : IsNumber minPrice) (hmax : IsNumber maxPrice) :
    ∃ error, limitsError n limits minPrice maxPrice = .ok error := by
  rw [limitsError]
  cases inForce limits with
  | none => exact ⟨none, rfl⟩
  | some bound =>
      have hbound (x : ℚ) : IsNumber (.finite x) := fun signaling h => by cases h
      obtain ⟨low, hlow⟩ := priceLt_ok hmin (hbound bound.minPriceLimit)
      obtain ⟨high, hhigh⟩ := priceLt_ok (hbound bound.maxPriceLimit) hmax
      show ∃ error, (priceLt _ _ >>= _) = _
      rw [hlow]
      cases low with
      | true => exact ⟨_, rfl⟩
      | false =>
          show ∃ error, (priceLt _ _ >>= _) = _
          rw [hhigh]
          cases high with
          | true => exact ⟨_, rfl⟩
          | false => exact ⟨_, rfl⟩

/-- Prices that pass the limits in force are finite and lie between them. -/
theorem of_limitsError {bound : RepricerLimits} (force : inForce limits = some bound)
    (h : limitsError n limits minPrice maxPrice = .ok none) :
    minPrice.lt (.finite bound.minPriceLimit) = .ok false ∧
      (Decimal.finite bound.maxPriceLimit).lt maxPrice = .ok false := by
  rw [limitsError, force] at h
  obtain ⟨low, hlow, h⟩ := bind_ok h
  cases low with
  | true => cases h
  | false =>
      obtain ⟨high, hhigh, h⟩ := bind_ok h
      cases high with
      | true => cases h
      | false => exact ⟨lt_of_priceLt hlow, lt_of_priceLt hhigh⟩

theorem allyError_eq_none : allyError raw n allies = none ↔ ¬ UnknownAlly raw allies := by
  simp only [allyError]
  split
  · next ally known hally =>
      constructor
      · rintro h ⟨other, others, hother, hknown, hnew⟩
        rw [hally] at hother
        cases hother
        cases hknown
        rw [if_neg hnew] at h
        cases h
      · intro h
        by_cases mem : ally ∈ known.accountIds
        · rw [if_pos mem]
        · exact absurd ⟨ally, known, hally, rfl, mem⟩ h
  · next hnone =>
      refine ⟨fun _ => ?_, fun _ => rfl⟩
      rintro ⟨ally, known, hally, rfl, -⟩
      exact hnone ally known hally rfl

/-- The comparisons of two numbers come to a result. -/
theorem bandError_ok (hmin : IsNumber minPrice) (hmax : IsNumber maxPrice) :
    ∃ error, bandError raw n limits allies minPrice maxPrice = .ok error := by
  obtain ⟨upsideDown, hlt⟩ := priceLt_ok hmax hmin
  obtain ⟨error, hlimits⟩ := limitsError_ok n limits hmin hmax
  rw [bandError_eq (lt_of_priceLt hlt), hlimits]
  cases upsideDown with
  | true => exact ⟨_, rfl⟩
  | false => cases error with
    | none => exact ⟨_, rfl⟩
    | some error => exact ⟨_, rfl⟩

/-- A comparison of prices is the first thing that is done with them. -/
theorem isNumber_of_bandError (h : bandError raw n limits allies minPrice maxPrice = .ok error) :
    IsNumber minPrice ∧ IsNumber maxPrice := by
  obtain ⟨less, hless, -⟩ := bind_ok h
  exact (isNumber_of_priceLt hless).symm

/-- Prices that are accepted are the right way round and pass the other checks. -/
theorem bandError_eq_none (h : bandError raw n limits allies minPrice maxPrice = .ok none) :
    maxPrice.lt minPrice = .ok false ∧ limitsError n limits minPrice maxPrice = .ok none ∧
      ¬ UnknownAlly raw allies := by
  obtain ⟨less, hless, -⟩ := bind_ok h
  have hlt := lt_of_priceLt hless
  rw [bandError_eq hlt] at h
  cases less with
  | true => cases h
  | false =>
      rw [if_neg Bool.false_ne_true] at h
      split at h
      · cases h
      · next hlimits => exact ⟨hlt, hlimits, allyError_eq_none.mp (Except.ok.inj h)⟩
      · cases h

theorem preliminaryError_eq_none :
    preliminaryError raw n upload.accountId = none ↔ WellFormed upload raw := by
  rw [preliminaryError]
  split
  · next field hfield =>
      refine iff_of_false (fun h => nomatch h) fun h => ?_
      exact h.required field (List.mem_of_find?_eq_some hfield)
        (of_decide_eq_true (List.find?_some (p := fun field => decide (raw.get field "" = "")) hfield))
  · next hnone =>
      have hrequired : ∀ field ∈ requiredFields, raw.get field "" ≠ "" := by
        intro field mem
        exact of_decide_eq_false (Bool.eq_false_iff.mpr (List.find?_eq_none.mp hnone field mem))
      by_cases haccount : (raw.get? "account_id").getD upload.accountId = upload.accountId
      · rw [if_neg (not_not_intro haccount)]
        by_cases hstrategy : raw.get "strategy" "" ∈ strategies
        · rw [if_neg (not_not_intro hstrategy)]
          exact iff_of_true rfl ⟨hrequired, haccount, hstrategy⟩
        · rw [if_pos hstrategy]
          exact iff_of_false (fun h => nomatch h) fun h => hstrategy h.strategy
      · rw [if_pos haccount]
        exact iff_of_false (fun h => nomatch h) fun h => haccount h.account

theorem normalizeBulkRow_eq (preliminary : preliminaryError raw n upload.accountId = none)
    (hmin : Decimal.ofText (raw.get "min_price" "") = some minPrice)
    (hmax : Decimal.ofText (raw.get "max_price" "") = some maxPrice) :
    normalizeBulkRow raw n upload.accountId upload.limits upload.allies =
      bandError raw n upload.limits upload.allies minPrice maxPrice := by
  rw [normalizeBulkRow, preliminary, hmin, hmax]

/-- An accepted row has passed every check. -/
theorem of_normalizeBulkRow
    (h : normalizeBulkRow raw n upload.accountId upload.limits upload.allies = .ok none) :
    preliminaryError raw n upload.accountId = none ∧ ∃ minPrice maxPrice,
      Decimal.ofText (raw.get "min_price" "") = some minPrice ∧
      Decimal.ofText (raw.get "max_price" "") = some maxPrice ∧
      bandError raw n upload.limits upload.allies minPrice maxPrice = .ok none := by
  cases hpre : preliminaryError raw n upload.accountId with
  | some error =>
      rw [normalizeBulkRow, hpre] at h
      cases h
  | none =>
      refine ⟨rfl, ?_⟩
      simp only [normalizeBulkRow, hpre] at h
      split at h
      · next lo hi hmin hmax => exact ⟨lo, hi, hmin, hmax, h⟩
      · cases h

/-- An infinite price is accepted only where no limits are in force. -/
theorem isFinite_of_limits (h : bandError raw n limits allies minPrice maxPrice = .ok none)
    (force : (inForce limits).isSome = true) : IsFinite minPrice ∧ IsFinite maxPrice := by
  obtain ⟨hlt, hlimits, -⟩ := bandError_eq_none h
  obtain ⟨bound, hbound⟩ := Option.isSome_iff_exists.mp force
  obtain ⟨hlow, hhigh⟩ := of_limitsError hbound hlimits
  cases minPrice with
  | nan signaling => cases hlow
  | finite x =>
      cases maxPrice with
      | nan signaling => cases hhigh
      | finite y => exact ⟨⟨x, rfl⟩, ⟨y, rfl⟩⟩
      | infinity negative =>
          cases negative with
          | true => cases hlt
          | false => cases hhigh
  | infinity negative =>
      cases negative with
      | true => cases hlow
      | false =>
          cases maxPrice with
          | nan signaling => cases hhigh
          | finite y => cases hlt
          | infinity other =>
              cases other with
              | true => cases hlt
              | false => cases hhigh

/-- Whether a row is fair is whether its validation raises nothing and accepts finite prices
alone. -/
theorem fairRow_iff : FairRow upload raw ↔
    (∃ error, normalizeBulkRow raw n upload.accountId upload.limits upload.allies = .ok error) ∧
      (normalizeBulkRow raw n upload.accountId upload.limits upload.allies = .ok none →
        ∃ x y, Decimal.ofText (raw.get "min_price" "") = some (.finite x) ∧
          Decimal.ofText (raw.get "max_price" "") = some (.finite y)) := by
  constructor
  · intro fair
    refine ⟨?_, fun haccepted => ?_⟩
    · cases hpre : preliminaryError raw n upload.accountId with
      | some error => exact ⟨some error, by rw [normalizeBulkRow, hpre]⟩
      | none =>
          cases hmin : Decimal.ofText (raw.get "min_price" "") with
          | none => exact ⟨_, by rw [normalizeBulkRow, hpre, hmin]⟩
          | some minPrice =>
              cases hmax : Decimal.ofText (raw.get "max_price" "") with
              | none => exact ⟨_, by rw [normalizeBulkRow, hpre, hmin, hmax]⟩
              | some maxPrice =>
                  obtain ⟨lo, hi, -⟩ := fair (preliminaryError_eq_none.mp hpre) _ _ hmin hmax
                  rw [normalizeBulkRow_eq hpre hmin hmax]
                  exact bandError_ok lo hi
    · obtain ⟨hpre, minPrice, maxPrice, hmin, hmax, hband⟩ := of_normalizeBulkRow haccepted
      obtain ⟨-, -, hfair⟩ := fair (preliminaryError_eq_none.mp hpre) _ _ hmin hmax
      have hfinite : IsFinite minPrice ∧ IsFinite maxPrice := by
        obtain ⟨hlt, -, hally⟩ := bandError_eq_none hband
        rcases hfair with hfinite | hless | force | unknown
        · exact hfinite
        · rw [hlt] at hless
          cases hless
        · exact isFinite_of_limits hband force
        · exact absurd unknown hally
      obtain ⟨⟨x, rfl⟩, ⟨y, rfl⟩⟩ := hfinite
      exact ⟨x, y, hmin, hmax⟩
  · rintro ⟨⟨error, hok⟩, hfinite⟩ wellFormed minPrice maxPrice hmin hmax
    have hpre := preliminaryError_eq_none (n := n).mpr wellFormed
    rw [normalizeBulkRow_eq hpre hmin hmax] at hok hfinite
    obtain ⟨lo, hi⟩ := isNumber_of_bandError hok
    refine ⟨lo, hi, ?_⟩
    obtain ⟨upsideDown, hless⟩ := priceLt_ok hi lo
    have hlt := lt_of_priceLt hless
    cases upsideDown with
    | true => exact .inr (.inl hlt)
    | false =>
        by_cases force : (inForce upload.limits).isSome = true
        · exact .inr (.inr (.inl force))
        · by_cases unknown : UnknownAlly raw upload.allies
          · exact .inr (.inr (.inr unknown))
          · have hnone : limitsError n upload.limits minPrice maxPrice = .ok none := by
              rw [limitsError, Option.not_isSome_iff_eq_none.mp force]
              rfl
            have haccepted : bandError raw n upload.limits upload.allies minPrice maxPrice =
                .ok none := by
              rw [bandError_eq hlt, if_neg Bool.false_ne_true, hnone]
              exact congrArg _ (allyError_eq_none.mpr unknown)
            obtain ⟨x, y, hx, hy⟩ := hfinite haccepted
            rw [hmin] at hx
            rw [hmax] at hy
            exact .inl ⟨⟨x, Option.some.inj hx⟩, ⟨y, Option.some.inj hy⟩⟩

theorem inLimits_of_limitsError {x y : ℚ} (ordered : (Decimal.finite y).lt (.finite x) = .ok false)
    (h : limitsError n limits (.finite x) (.finite y) = .ok none) : InLimits limits x y := by
  have hle {a b : ℚ} (h : (Decimal.finite b).lt (.finite a) = .ok false) : a ≤ b :=
    not_lt.mp (of_decide_eq_false (Except.ok.inj h))
  exact ⟨hle ordered, fun bound force => hle (of_limitsError force h).1,
    fun bound force => hle (of_limitsError force h).2⟩

/-- Prices within the limits pass them. -/
theorem InLimits.limitsError_eq {x y : ℚ} (h : InLimits limits x y) :
    limitsError n limits (.finite x) (.finite y) = .ok none := by
  rw [limitsError]
  cases force : inForce limits with
  | none => rfl
  | some bound =>
      have hlt {a b : ℚ} (h : a ≤ b) : priceLt (.finite b) (.finite a) = .ok false :=
        priceLt_eq (congrArg Except.ok (decide_eq_false (not_lt.mpr h)))
      simp only [hlt (h.above bound force), hlt (h.below bound force)]
      rfl

/-- The rows that are accepted are the ones that are to be, where prices are fair. -/
theorem passes_iff (fair : FairRow upload raw) :
    normalizeBulkRow raw n upload.accountId upload.limits upload.allies = .ok none ↔
      Passes upload raw := by
  constructor
  · intro h
    obtain ⟨x, y, hx, hy⟩ := (fairRow_iff.mp fair).2 h
    obtain ⟨hpre, minPrice, maxPrice, hmin, hmax, hband⟩ := of_normalizeBulkRow h
    rw [hx] at hmin
    rw [hy] at hmax
    obtain rfl := Option.some.inj hmin
    obtain rfl := Option.some.inj hmax
    obtain ⟨hlt, hlimits, hally⟩ := bandError_eq_none hband
    exact ⟨preliminaryError_eq_none.mp hpre, ⟨x, y, hx, hy, inLimits_of_limitsError hlt hlimits⟩,
      hally⟩
  · intro passes
    obtain ⟨x, y, hx, hy, limits⟩ := passes.prices
    have hlt : (Decimal.finite y).lt (.finite x) = .ok false :=
      congrArg Except.ok (decide_eq_false (not_lt.mpr limits.ordered))
    rw [normalizeBulkRow_eq (preliminaryError_eq_none.mpr passes.wellFormed) hx hy,
      bandError_eq hlt, if_neg Bool.false_ne_true, limits.limitsError_eq]
    exact congrArg _ (allyError_eq_none.mpr passes.ally)

end

end ZelerPlatform.Repricer
