import ZelerPlatform.Library.Decimal
import ZelerPlatform.Library.Fallible

/-!
# The price band of the repricer

`evaluate_rule` and `evaluate_catalog_rule` refuse a candidate price below the floor and cap
it at the ceiling. The floor is the higher of the rule's and the account's bound and the
ceiling the lower of the two, and nothing checks that the two bands meet: with the ceiling
below the floor a candidate passes the floor and is then capped below it.
-/

namespace ZelerPlatform.Repricer

open Fallible

/-- `RepricerRule.strategy`. -/
inductive Strategy
  | minPrice
  | competitive
  | maximize
  deriving DecidableEq, Repr

/-- The fields of `RepricerRule` the engine reads; the model takes any finite prices. -/
structure RepricerRule where
  strategy : Strategy
  minPrice : ℚ
  maxPrice : ℚ

/-- The fields of `RepricerCatalogRule` the engine reads. -/
structure RepricerCatalogRule extends RepricerRule where
  active : Bool

/-- The fields of `RepricerLimits` the engine reads. -/
structure RepricerLimits where
  enabled : Bool
  minPriceLimit : ℚ
  maxPriceLimit : ℚ
  undercutDelta : ℚ
  pauseCompetition : Bool
  escalateToManualReview : Bool

/-- The account ids of `RepricerAllies.allies`. -/
structure RepricerAllies where
  accountIds : List String

inductive Decision
  | setPrice (newPrice : Decimal) (reason : String)
  | noAction (reason : String) (candidatePrice : Option Decimal)
  deriving DecidableEq

/-- `limits is not None and limits.enabled`. -/
def inForce (limits : Option RepricerLimits) : Option RepricerLimits := limits.filter (·.enabled)

/-- `_reason`. -/
def reason : Strategy → String
  | .minPrice => "min_price"
  | .competitive => "track_buybox"
  | .maximize => "maximize"

/-- What `_candidate_price` and `_catalog_candidate_price` share; `offer` is what is made of
the buybox price. -/
def strategyPrice (rule : RepricerRule) (currentPrice : Decimal)
    (offer : Except Decimal.Signal (Option Decimal)) : Except Decimal.Signal (Option Decimal) :=
  match rule.strategy with
  | .minPrice => do
      if ← currentPrice.lt (.finite rule.minPrice) then return some (.finite rule.minPrice)
      else return some currentPrice
  | .maximize => return some (.finite rule.maxPrice)
  | .competitive => offer

def candidatePrice (rule : RepricerRule) (currentPrice : Decimal) (buyboxPrice : Option Decimal) :
    Except Decimal.Signal (Option Decimal) :=
  strategyPrice rule currentPrice (.ok buyboxPrice)

/-- The buybox price, less the undercut of the limits in force. -/
def undercut (buyboxPrice : Option Decimal) (limits : Option RepricerLimits) :
    Except Decimal.Signal (Option Decimal) :=
  match buyboxPrice, inForce limits with
  | none, _ => .ok none
  | some price, none => .ok (some price)
  | some price, some limits => some <$> price.subtract (.finite limits.undercutDelta)

def catalogCandidatePrice (rule : RepricerCatalogRule) (currentPrice : Decimal)
    (buyboxPrice : Option Decimal) (limits : Option RepricerLimits) :
    Except Decimal.Signal (Option Decimal) :=
  strategyPrice rule.toRepricerRule currentPrice (undercut buyboxPrice limits)

def effectiveFloor (rule : RepricerCatalogRule) (limits : Option RepricerLimits) : ℚ :=
  match inForce limits with
  | none => rule.minPrice
  | some limits => max rule.minPrice limits.minPriceLimit

def effectiveCeiling (rule : RepricerCatalogRule) (limits : Option RepricerLimits) : ℚ :=
  match inForce limits with
  | none => rule.maxPrice
  | some limits => min rule.maxPrice limits.maxPriceLimit

def isAllyCompetitor (allies : Option RepricerAllies) (competitorAccountId : Option String) :
    Bool :=
  match allies, competitorAccountId with
  | some allies, some competitor => allies.accountIds.any (· == competitor)
  | _, _ => false

/-- The end of both evaluations: refused below the floor, capped at the ceiling. -/
def boundedDecision (strategy : Strategy) (candidate : Decimal) (floor ceiling : ℚ)
    (currentPrice : Decimal) : Except Decimal.Signal Decision := do
  if ← candidate.lt (.finite floor) then
    return .noAction "below_floor" (some candidate)
  else
    let bounded ← candidate.min (.finite ceiling)
    if ← bounded.eq currentPrice then return .noAction "already_optimal" (some bounded)
    else return .setPrice bounded (reason strategy)

def evaluateRule (rule : RepricerRule) (currentPrice : Decimal) (buyboxPrice : Option Decimal) :
    Except Decimal.Signal Decision := do
  match ← candidatePrice rule currentPrice buyboxPrice with
  | none => return .noAction "missing_buybox" none
  | some candidate =>
      boundedDecision rule.strategy candidate rule.minPrice rule.maxPrice currentPrice

def evaluateCatalogRule (rule : RepricerCatalogRule) (currentPrice : Decimal)
    (buyboxPrice : Option Decimal) (limits : Option RepricerLimits)
    (allies : Option RepricerAllies) (competitorAccountId : Option String) :
    Except Decimal.Signal Decision :=
  if !rule.active then return .noAction "paused" none
  else if (inForce limits).any (·.pauseCompetition) then
    return .noAction "competition_paused" none
  else if (inForce limits).any (·.escalateToManualReview) then
    return .noAction "manual_review_required" none
  else do
    match ← catalogCandidatePrice rule currentPrice buyboxPrice limits with
    | none => return .noAction "missing_buybox" none
    | some candidate =>
        if isAllyCompetitor allies competitorAccountId then
          return .noAction "ally_competitor" (some candidate)
        else
          boundedDecision rule.strategy candidate (effectiveFloor rule limits)
            (effectiveCeiling rule limits) currentPrice

/-! ### The band -/

/-- A price `evaluate` sets lies in the band and differs from the current price, and an
evaluation at that price leaves it. -/
def KeepsBand (evaluate : Decimal → Except Decimal.Signal Decision) (floor ceiling : ℚ)
    (currentPrice : Decimal) : Prop :=
  ∀ newPrice reason, evaluate currentPrice = .ok (.setPrice newPrice reason) →
    (∃ price, newPrice = .finite price ∧ floor ≤ price ∧ price ≤ ceiling) ∧
    newPrice ≠ currentPrice ∧
    ∃ reason candidate, evaluate newPrice = .ok (.noAction reason candidate)

/-- The price a strategy asks for is a number and not below `floor`. -/
def ReachesFloor (rule : RepricerRule) (floor : ℚ) (currentPrice : Decimal)
    (offer : Except Decimal.Signal (Option Decimal)) : Prop :=
  match rule.strategy with
  | .minPrice =>
      currentPrice.AtLeast floor ∨ currentPrice.Below rule.minPrice ∧ floor ≤ rule.minPrice
  | .maximize => floor ≤ rule.maxPrice
  | .competitive => ∃ price, offer = .ok (some price) ∧ price.AtLeast floor

/-- The ceiling is below the floor, the price asked for is not, and the price is not at the
ceiling already. -/
def CapsBelowFloor (rule : RepricerRule) (floor ceiling : ℚ) (currentPrice : Decimal)
    (offer : Except Decimal.Signal (Option Decimal)) : Prop :=
  ceiling < floor ∧ ReachesFloor rule floor currentPrice offer ∧
    currentPrice ≠ .finite ceiling ∧ currentPrice ≠ .nan true

/-- The rule is active, the limits in force hold nothing back and the competitor is no ally. -/
def Competes (rule : RepricerCatalogRule) (limits : Option RepricerLimits)
    (allies : Option RepricerAllies) (competitorAccountId : Option String) : Prop :=
  rule.active = true ∧ (inForce limits).any (·.pauseCompetition) = false ∧
    (inForce limits).any (·.escalateToManualReview) = false ∧
    isAllyCompetitor allies competitorAccountId = false

/-! ### One evaluation -/

section

variable {rule : RepricerRule} {strategy : Strategy} {candidate currentPrice newPrice : Decimal}
variable {floor ceiling : ℚ} {offer : Except Decimal.Signal (Option Decimal)} {text : String}

/-- When a bounded candidate becomes the new price. -/
theorem boundedDecision_setPrice_iff :
    boundedDecision strategy candidate floor ceiling currentPrice =
        .ok (.setPrice newPrice text) ↔
      candidate.AtLeast floor ∧ newPrice = .finite (candidate.capped ceiling) ∧
        currentPrice ≠ newPrice ∧ currentPrice ≠ .nan true ∧ text = reason strategy := by
  constructor
  · intro h
    obtain ⟨below, hbelow, h⟩ := bind_ok h
    cases below with
    | true => cases h
    | false =>
        have reaches := Decimal.lt_finite_false_iff.mp hbelow
        simp only [Bool.false_eq_true, if_false] at h
        rw [Decimal.min_finite reaches] at h
        obtain ⟨same, hsame, h⟩ :=
          bind_ok (show ((Decimal.finite _).eq currentPrice >>= _) = _ from h)
        cases same with
        | true => cases h
        | false =>
            cases h
            obtain ⟨hne, hnan⟩ := Decimal.finite_eq_false_iff.mp hsame
            exact ⟨reaches, rfl, hne, hnan, rfl⟩
  · rintro ⟨reaches, rfl, hne, hnan, rfl⟩
    have hsame := Decimal.finite_eq_false_iff.mpr ⟨hne, hnan⟩
    unfold boundedDecision
    rw [Decimal.lt_finite_false_iff.mpr reaches]
    simp only [bind, Except.bind, Bool.false_eq_true, if_false]
    rw [Decimal.min_finite reaches]
    simp only [hsame, Bool.false_eq_true, if_false, pure, Except.pure]

/-- A candidate below the floor or one the price is at already changes nothing. -/
theorem boundedDecision_noAction (h : candidate.Below floor ∨
    candidate.AtLeast floor ∧ currentPrice = .finite (candidate.capped ceiling)) :
    ∃ text price, boundedDecision strategy candidate floor ceiling currentPrice =
      .ok (.noAction text price) := by
  unfold boundedDecision
  cases h with
  | inl below =>
      rw [Decimal.lt_finite_true_iff.mpr below]
      exact ⟨_, _, rfl⟩
  | inr h =>
      obtain ⟨reaches, rfl⟩ := h
      rw [Decimal.lt_finite_false_iff.mpr reaches]
      simp only [bind, Except.bind, Bool.false_eq_true, if_false]
      rw [Decimal.min_finite reaches]
      simp only [Decimal.finite_eq_self]
      exact ⟨_, _, rfl⟩

/-- A strategy that looks at the current price asks for it or for the lower bound. -/
theorem strategyPrice_minPrice (strategy : rule.strategy = .minPrice) :
    strategyPrice rule currentPrice offer = .ok (some candidate) ↔
      currentPrice.Below rule.minPrice ∧ candidate = .finite rule.minPrice ∨
      currentPrice.AtLeast rule.minPrice ∧ candidate = currentPrice := by
  unfold strategyPrice
  rw [strategy]
  obtain number | below | ⟨signaling, rfl⟩ :=
    currentPrice.atLeast_or_below rule.minPrice
  · simp [Decimal.lt_finite_false_iff.mpr number, number, number.not_below, bind, Except.bind,
      pure, Except.pure, eq_comm]
  · have : ¬ currentPrice.AtLeast rule.minPrice := fun h => h.not_below below
    simp [Decimal.lt_finite_true_iff.mpr below, below, this, bind, Except.bind, pure, Except.pure,
      eq_comm]
  · simp [Decimal.lt, Decimal.AtLeast, Decimal.Below, bind, Except.bind]

theorem reachesFloor_iff (low : rule.minPrice ≤ floor) :
    (∃ candidate, strategyPrice rule currentPrice offer = .ok (some candidate) ∧
      candidate.AtLeast floor) ↔ ReachesFloor rule floor currentPrice offer := by
  unfold ReachesFloor
  cases hs : rule.strategy with
  | minPrice =>
      simp only [strategyPrice_minPrice hs]
      constructor
      · rintro ⟨candidate, ⟨below, rfl⟩ | ⟨-, rfl⟩, reaches⟩
        · exact .inr ⟨below, reaches⟩
        · exact .inl reaches
      · rintro (reaches | ⟨below, reaches⟩)
        · exact ⟨_, .inr ⟨reaches.mono low, rfl⟩, reaches⟩
        · exact ⟨_, .inl ⟨below, rfl⟩, reaches⟩
  | competitive =>
      simp only [strategyPrice, hs]
  | maximize =>
      simp only [strategyPrice, hs]
      constructor
      · rintro ⟨candidate, h, reaches⟩
        cases h
        exact reaches
      · intro reaches
        exact ⟨_, rfl, reaches⟩

/-- At the price just set a strategy asks for a price below the floor or for the same one. -/
theorem strategyPrice_again (ceiling : Rat) (low : rule.minPrice ≤ floor)
    (asked : strategyPrice rule currentPrice offer = .ok (some candidate))
    (reaches : candidate.AtLeast floor) :
    ∃ again, strategyPrice rule (.finite (candidate.capped ceiling)) offer = .ok (some again) ∧
      (again.Below floor ∨
        again.AtLeast floor ∧ candidate.capped ceiling = again.capped ceiling) := by
  cases hs : rule.strategy with
  | minPrice =>
      have high := reaches.mono low
      by_cases below : candidate.capped ceiling < rule.minPrice
      · refine ⟨_, (strategyPrice_minPrice hs).mpr (.inl ⟨below, rfl⟩), ?_⟩
        by_cases hfloor : rule.minPrice < floor
        · exact .inl hfloor
        · have cap : ¬ rule.minPrice ≤ ceiling := by
            rw [← Decimal.le_capped_iff high]
            exact not_le_of_gt below
          have cap := (not_le.mp cap).le
          refine .inr ⟨not_lt.mp hfloor, ?_⟩
          rw [Decimal.capped_eq high cap]
          exact (min_eq_right cap).symm
      · refine ⟨_, (strategyPrice_minPrice hs).mpr (.inr ⟨not_lt.mp below, rfl⟩), ?_⟩
        by_cases hfloor : candidate.capped ceiling < floor
        · exact .inl hfloor
        · exact .inr ⟨not_lt.mp hfloor, (min_eq_left Decimal.capped_le).symm⟩
  | competitive =>
      rw [strategyPrice, hs] at asked ⊢
      exact ⟨candidate, asked, .inr ⟨reaches, rfl⟩⟩
  | maximize =>
      rw [strategyPrice, hs] at asked ⊢
      exact ⟨candidate, asked, .inr ⟨reaches, rfl⟩⟩

end

/-! ### Both evaluations -/

section

variable {rule : RepricerRule} {floor ceiling : ℚ} {currentPrice newPrice : Decimal}
variable {offer : Except Decimal.Signal (Option Decimal)} {text : String}

/-- What both evaluations make of the price the strategy asks for. -/
def strategyDecision (rule : RepricerRule) (floor ceiling : ℚ)
    (offer : Except Decimal.Signal (Option Decimal)) (currentPrice : Decimal) :
    Except Decimal.Signal Decision := do
  match ← strategyPrice rule currentPrice offer with
  | none => return .noAction "missing_buybox" none
  | some candidate => boundedDecision rule.strategy candidate floor ceiling currentPrice

theorem strategyDecision_setPrice_iff :
    strategyDecision rule floor ceiling offer currentPrice = .ok (.setPrice newPrice text) ↔
      ∃ candidate, strategyPrice rule currentPrice offer = .ok (some candidate) ∧
        candidate.AtLeast floor ∧ newPrice = .finite (candidate.capped ceiling) ∧
        currentPrice ≠ newPrice ∧ currentPrice ≠ .nan true ∧ text = reason rule.strategy := by
  constructor
  · intro h
    obtain ⟨asked, hasked, h⟩ := bind_ok h
    cases asked with
    | none => cases h
    | some candidate => exact ⟨candidate, hasked, boundedDecision_setPrice_iff.mp h⟩
  · rintro ⟨candidate, hasked, h⟩
    unfold strategyDecision
    rw [hasked]
    exact boundedDecision_setPrice_iff.mpr h

/-- The band is left exactly when a price that reaches the floor is capped below it. -/
theorem strategyDecision_keepsBand_iff (low : rule.minPrice ≤ floor) :
    KeepsBand (strategyDecision rule floor ceiling offer) floor ceiling currentPrice ↔
      ¬ CapsBelowFloor rule floor ceiling currentPrice offer := by
  constructor
  · rintro keeps ⟨inverted, reaches, hne, hnan⟩
    obtain ⟨candidate, hasked, reaches⟩ := (reachesFloor_iff low).mpr reaches
    have hcap : candidate.capped ceiling ≤ ceiling := Decimal.capped_le
    have hlow : ¬ floor ≤ candidate.capped ceiling := by
      rw [Decimal.le_capped_iff reaches]
      exact not_le_of_gt inverted
    have hceiling := Decimal.capped_eq reaches inverted.le
    have hset := strategyDecision_setPrice_iff.mpr
      ⟨candidate, hasked, reaches, rfl, by rwa [hceiling], hnan, rfl⟩
    obtain ⟨⟨price, hprice, hfloor, -⟩, -⟩ := keeps _ _ hset
    cases hprice
    exact hlow hfloor
  · intro band newPrice text hset
    obtain ⟨candidate, hasked, reaches, rfl, hne, hnan, rfl⟩ :=
      strategyDecision_setPrice_iff.mp hset
    have hfloor : floor ≤ ceiling := by
      by_contra inverted
      have inverted := not_le.mp inverted
      rw [Decimal.capped_eq reaches inverted.le] at hne
      exact band ⟨inverted, (reachesFloor_iff low).mp ⟨candidate, hasked, reaches⟩, hne, hnan⟩
    refine ⟨⟨_, rfl, (Decimal.le_capped_iff reaches).mpr hfloor, Decimal.capped_le⟩, hne.symm, ?_⟩
    obtain ⟨again, hagain, stays⟩ := strategyPrice_again ceiling low hasked reaches
    unfold strategyDecision
    rw [hagain]
    refine boundedDecision_noAction ?_
    exact stays.imp_right fun ⟨reaches, same⟩ => ⟨reaches, by rw [same]⟩

end

/-! ### The catalog rule -/

section

variable {rule : RepricerCatalogRule} {limits : Option RepricerLimits}
variable {allies : Option RepricerAllies} {competitorAccountId : Option String}
variable {buyboxPrice : Option Decimal}

theorem minPrice_le_effectiveFloor : rule.minPrice ≤ effectiveFloor rule limits := by
  unfold effectiveFloor
  cases inForce limits with
  | none => exact le_rfl
  | some limits => exact le_max_left _ _

theorem evaluateCatalogRule_of_competes
    (competes : Competes rule limits allies competitorAccountId) (currentPrice : Decimal) :
    evaluateCatalogRule rule currentPrice buyboxPrice limits allies competitorAccountId =
      strategyDecision rule.toRepricerRule (effectiveFloor rule limits)
        (effectiveCeiling rule limits) (undercut buyboxPrice limits) currentPrice := by
  obtain ⟨hactive, hpause, hescalate, hally⟩ := competes
  simp only [evaluateCatalogRule, hactive, hpause, hescalate, hally, Bool.not_true,
    Bool.false_eq_true, if_false, catalogCandidatePrice, strategyDecision]

/-- A rule that does not compete sets no price. -/
theorem competes_of_setPrice {currentPrice newPrice : Decimal} {text : String}
    (h : evaluateCatalogRule rule currentPrice buyboxPrice limits allies competitorAccountId =
      .ok (.setPrice newPrice text)) : Competes rule limits allies competitorAccountId := by
  unfold evaluateCatalogRule at h
  split at h
  · cases h
  · split at h
    · cases h
    · split at h
      · cases h
      · obtain ⟨asked, -, h⟩ := bind_ok h
        cases asked with
        | none => cases h
        | some candidate =>
            simp only at h
            split at h
            · cases h
            · refine ⟨?_, ?_, ?_, ?_⟩ <;> simp_all

theorem catalog_keepsBand_iff {currentPrice : Decimal} :
    KeepsBand (evaluateCatalogRule rule · buyboxPrice limits allies competitorAccountId)
        (effectiveFloor rule limits) (effectiveCeiling rule limits) currentPrice ↔
      ¬ (Competes rule limits allies competitorAccountId ∧
        CapsBelowFloor rule.toRepricerRule (effectiveFloor rule limits)
          (effectiveCeiling rule limits) currentPrice (undercut buyboxPrice limits)) := by
  by_cases competes : Competes rule limits allies competitorAccountId
  · have heq : (evaluateCatalogRule rule · buyboxPrice limits allies competitorAccountId) =
        strategyDecision rule.toRepricerRule (effectiveFloor rule limits)
          (effectiveCeiling rule limits) (undercut buyboxPrice limits) :=
      funext (evaluateCatalogRule_of_competes competes)
    rw [heq, strategyDecision_keepsBand_iff minPrice_le_effectiveFloor]
    simp [competes]
  · have keeps : KeepsBand
        (evaluateCatalogRule rule · buyboxPrice limits allies competitorAccountId)
        (effectiveFloor rule limits) (effectiveCeiling rule limits) currentPrice :=
      fun _ _ h => (competes (competes_of_setPrice h)).elim
    simp [competes, keeps]

end

/-- A rule keeps its price in the band unless the ceiling is below the floor and a price that
reaches the floor is capped there. -/
theorem keepsBand_iff (currentPrice : Decimal) (buyboxPrice : Option Decimal) :
    (∀ rule : RepricerRule,
      KeepsBand (evaluateRule rule · buyboxPrice) rule.minPrice rule.maxPrice currentPrice ↔
        ¬ CapsBelowFloor rule rule.minPrice rule.maxPrice currentPrice (.ok buyboxPrice)) ∧
    ∀ (rule : RepricerCatalogRule) (limits : Option RepricerLimits)
      (allies : Option RepricerAllies) (competitorAccountId : Option String),
      KeepsBand (evaluateCatalogRule rule · buyboxPrice limits allies competitorAccountId)
          (effectiveFloor rule limits) (effectiveCeiling rule limits) currentPrice ↔
        ¬ (Competes rule limits allies competitorAccountId ∧
          CapsBelowFloor rule.toRepricerRule (effectiveFloor rule limits)
            (effectiveCeiling rule limits) currentPrice (undercut buyboxPrice limits)) := by
  constructor
  · intro rule
    exact strategyDecision_keepsBand_iff le_rfl
  · intro rule limits allies competitorAccountId
    exact catalog_keepsBand_iff

/-- A rule from 100 to 200 that maximizes. -/
def wideRule : RepricerCatalogRule where
  strategy := .maximize
  minPrice := 100
  maxPrice := 200
  active := true

/-- Account limits from 10 to 50. -/
def lowLimits : RepricerLimits where
  enabled := true
  minPriceLimit := 10
  maxPriceLimit := 50
  undercutDelta := 0
  pauseCompetition := false
  escalateToManualReview := false

/-- The price 120 is lowered to 50 with a floor at 100. -/
theorem wideRule_leaves_band :
    evaluateCatalogRule wideRule (.finite 120) none (some lowLimits) none none =
        .ok (.setPrice (.finite 50) "maximize") ∧
      effectiveFloor wideRule (some lowLimits) = 100 ∧
      ¬ KeepsBand (evaluateCatalogRule wideRule · none (some lowLimits) none none)
        (effectiveFloor wideRule (some lowLimits)) (effectiveCeiling wideRule (some lowLimits))
        (.finite 120) := by
  have hset : evaluateCatalogRule wideRule (.finite 120) none (some lowLimits) none none =
      .ok (.setPrice (.finite 50) "maximize") := by decide +kernel
  have hfloor : effectiveFloor wideRule (some lowLimits) = 100 := by decide +kernel
  refine ⟨hset, hfloor, fun keeps => ?_⟩
  obtain ⟨⟨price, hprice, low, -⟩, -⟩ := keeps _ _ hset
  cases hprice
  rw [hfloor] at low
  norm_num at low

end ZelerPlatform.Repricer
