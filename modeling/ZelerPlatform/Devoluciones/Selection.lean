import Mathlib.Algebra.Order.Round
import Mathlib.Data.Int.Log
import Mathlib.Data.Rat.Floor
import Mathlib.Tactic.Linarith
import Mathlib.Tactic.NormNum
import Mathlib.Tactic.Positivity
import Mathlib.Tactic.Ring
import ZelerPlatform.Devoluciones.Certificates
import ZelerPlatform.Library.GreedyCover

/-!
# The selection of certificates

A reader takes the certificates of an interval greedily. What it takes covers the interval as
far as the eligible certificates do, with as few of them as possible, and depends on the order
in which they are given only where two of them share an identity and an end.
-/

namespace ZelerPlatform.Devoluciones

open Fallible
open Mongo.Value (floorMs)

variable {digests : Digests} {sellerId : String} {start stop clock cursor : Int} {fuel : Nat}
variable {candidates certificates others selected : List CertificateDoc} {reach : Int}

/-- The certificate covers an instant. -/
def CertificateDoc.Certifies (c : CertificateDoc) (t : Int) : Prop := c.dateFrom ≤ t ∧ t < c.dateTo

/-- The key by which a selection prefers a certificate. -/
def CertificateDoc.preference (c : CertificateDoc) : Lex (Int × String) := toLex (-c.dateTo, c.id)

/-- A selection of certificates is the greedy walk over them. -/
theorem extendCoverage_eq :
    extendCoverage candidates stop fuel cursor =
      GreedyCover.extend CertificateDoc.dateFrom CertificateDoc.dateTo CertificateDoc.preference
        candidates stop fuel cursor := by
  induction fuel generalizing cursor with
  | zero => rfl
  | succ fuel ih =>
      unfold extendCoverage GreedyCover.extend
      simp only [ih]
      -- The two walks compare keys by different instances of one decision.
      congr! 2
      funext motive choice absent present
      cases choice with
      | none => rfl
      | some => rfl

theorem dateTo_le_of_preference (a b : CertificateDoc) (h : a.preference ≤ b.preference) :
    b.dateTo ≤ a.dateTo := by
  obtain hlt | ⟨heq, -⟩ := Prod.Lex.toLex_le_toLex.mp h
  · exact (neg_lt_neg_iff.mp hlt).le
  · exact (neg_injective heq).ge

/-- What a selection makes of the certificates that may take part. -/
structure Selection (candidates : List CertificateDoc) (start stop : Int)
    (selected : List CertificateDoc) (reach : Int) : Prop where
  greatest : IsGreatest {t | t ≤ stop ∧ ∀ x, start ≤ x → x < t → ∃ c ∈ candidates, c.Certifies x} reach
  covers : ∀ x, start ≤ x → x < reach → ∃ c ∈ selected, c.Certifies x
  mem : ∀ c ∈ selected, c ∈ candidates
  first : ∀ c ∈ selected.head?, c.dateFrom ≤ start
  linked : selected.IsChain fun a b => b.dateFrom ≤ a.dateTo
  shortest : ∀ others : List CertificateDoc, (∀ c ∈ others, c ∈ candidates) →
    (∀ x, start ≤ x → x < reach → ∃ c ∈ others, c.Certifies x) → selected.length ≤ others.length

theorem selection_extendCoverage :
    Selection candidates start stop (extendCoverage candidates stop candidates.length start).1
      (min (extendCoverage candidates stop candidates.length start).2 stop) := by
  rw [extendCoverage_eq]
  have chain : GreedyCover.Chain CertificateDoc.dateFrom CertificateDoc.dateTo candidates stop
      start _ _ :=
    GreedyCover.chain_extend dateTo_le_of_preference (List.length_filter_le _ candidates)
  refine ⟨chain.isGreatest, ?_, chain.mem, ?_, ?_, ?_⟩
  · intro x from_le hx
    exact chain.covers from_le (lt_of_lt_of_le hx (min_le_left _ _))
  · intro c hc
    exact (chain.linked.1 c hc).1
  · exact chain.linked.2.imp fun _ _ h => h.1
  · intro others subset cover
    exact chain.length_le subset cover

/-- A selection within valid bounds returns. -/
theorem coveragePrefix_eq (bounds : start < stop) :
    coveragePrefix digests certificates sellerId start stop clock =
      .ok ((extendCoverage (certificates.filter (eligible digests sellerId clock)) stop
          (certificates.filter (eligible digests sellerId clock)).length start).1,
        min (extendCoverage (certificates.filter (eligible digests sellerId clock)) stop
          (certificates.filter (eligible digests sellerId clock)).length start).2 stop) := by
  unfold coveragePrefix
  rw [raiseIf_of_not (not_not.mpr bounds)]
  rfl

/-- What the order of the certificates may decide: two of one identity and one end. -/
def Distinguished (certificates : List CertificateDoc) : Prop :=
  ∀ a ∈ certificates, ∀ b ∈ certificates, a.id = b.id → a.dateTo = b.dateTo → a = b

theorem coveragePrefix_perm (perm : certificates.Perm others) (distinct : Distinguished certificates) :
    coveragePrefix digests certificates sellerId start stop clock =
      coveragePrefix digests others sellerId start stop clock := by
  have hperm := perm.filter (eligible digests sellerId clock)
  have hextend (fuel : Nat) :
      extendCoverage (certificates.filter (eligible digests sellerId clock)) stop fuel start
        = extendCoverage (others.filter (eligible digests sellerId clock)) stop fuel start := by
    rw [extendCoverage_eq, extendCoverage_eq]
    refine GreedyCover.extend_perm hperm fun a ha b hb hkey => ?_
    obtain ⟨hdate, hid⟩ := Prod.mk.inj (toLex_inj.mp hkey)
    exact distinct a (List.mem_filter.mp ha).1 b (List.mem_filter.mp hb).1 hid (neg_injective hdate)
  unfold coveragePrefix
  simp only [hextend, hperm.length_eq]

/-- How far a selection reaches does not depend on the order. -/
theorem reach_perm {selected selected' : List CertificateDoc} {reach reach' : Int}
    (perm : candidates.Perm others) (h : Selection candidates start stop selected reach)
    (h' : Selection others start stop selected' reach') : reach' = reach := by
  have hgreatest := h.greatest
  simp only [perm.mem_iff] at hgreatest
  exact h'.greatest.unique hgreatest

/-- The walk ends by itself: with more steps allowed it takes no more. -/
theorem extendCoverage_ends (enough : candidates.length ≤ fuel) :
    extendCoverage candidates stop fuel start
      = extendCoverage candidates stop candidates.length start := by
  have hlater := List.length_filter_le (fun c => decide (start < c.dateTo)) candidates
  rw [extendCoverage_eq, extendCoverage_eq]
  exact GreedyCover.extend_fuel (hlater.trans enough) hlater

theorem selectCoverage_error_iff (bounds : start < stop) :
    (selectCoverage digests certificates sellerId start stop clock).isOk = false ↔
      ¬ ∀ x, start ≤ x → x < stop →
        ∃ c ∈ certificates, eligible digests sellerId clock c = true ∧ c.Certifies x := by
  have selection : Selection (certificates.filter (eligible digests sellerId clock)) start stop
    _ _ := selection_extendCoverage
  unfold selectCoverage
  rw [coveragePrefix_eq bounds]
  generalize min (extendCoverage (certificates.filter (eligible digests sellerId clock)) stop
    (certificates.filter (eligible digests sellerId clock)).length start).2 stop = reach at *
  obtain ⟨⟨hle, hcovered⟩, hgreatest⟩ := selection.greatest
  have hwhole : stop ≤ reach ↔ ∀ x, start ≤ x → x < stop →
      ∃ c ∈ certificates, eligible digests sellerId clock c = true ∧ c.Certifies x := by
    constructor
    · intro hstop x from_le hx
      obtain ⟨c, hc, hcertifies⟩ := hcovered x from_le (lt_of_lt_of_le hx hstop)
      exact ⟨c, (List.mem_filter.mp hc).1, (List.mem_filter.mp hc).2, hcertifies⟩
    · intro h
      refine hgreatest ⟨le_rfl, fun x from_le hx => ?_⟩
      obtain ⟨c, hc, heligible, hcertifies⟩ := h x from_le hx
      exact ⟨c, List.mem_filter.mpr ⟨hc, heligible⟩, hcertifies⟩
  rw [← hwhole, not_le]
  by_cases hshort : reach < stop
  · simp only [hshort, iff_true]
    show (raiseIf (reach < stop) _ >>= _).isOk = false
    rw [raiseIf_of hshort]
    rfl
  · simp only [hshort, iff_false]
    show ¬ (raiseIf (reach < stop) _ >>= _).isOk = false
    rw [raiseIf_of_not hshort]
    simp [Except.isOk, Except.toBool, pure, Except.pure, bind, Except.bind]

/-! ### The key of the source

The source compares `timestamp()`, the binary64 number nearest to the seconds of an end.
Between stored instants, which are whole milliseconds, no order is lost by that. -/

/-- A rational rounded to an integer, a half to the even one. -/
def roundHalfEven (x : ℚ) : ℤ :=
  if x - ⌊x⌋ = 1 / 2 ∧ Even ⌊x⌋ then ⌊x⌋ else round x

/-- The binary64 number nearest to a rational in the range of normal numbers. -/
def nearestDouble (x : ℚ) : ℚ :=
  roundHalfEven (x / 2 ^ (Int.log 2 |x| - 52)) * 2 ^ (Int.log 2 |x| - 52)

/-- `datetime.timestamp`. -/
def timestamp (us : Int) : ℚ := nearestDouble (us / 1000000)

theorem abs_roundHalfEven_sub (x : ℚ) : |roundHalfEven x - x| ≤ 1 / 2 := by
  unfold roundHalfEven
  split
  · next h =>
      rw [abs_sub_comm, h.1]
      norm_num
  · rw [abs_sub_comm]
    exact abs_sub_round x

theorem abs_nearestDouble_sub (x : ℚ) : |nearestDouble x - x| ≤ |x| / 2 ^ 53 := by
  by_cases hx : x = 0
  · subst hx
    simp [nearestDouble, roundHalfEven]
  have hpositive : 0 < |x| := abs_pos.mpr hx
  have hlog : (2 : ℚ) ^ Int.log 2 |x| ≤ |x| := by
    exact_mod_cast Int.zpow_log_le_self (b := 2) (by decide) hpositive
  have hulp : (0 : ℚ) < 2 ^ (Int.log 2 |x| - 52) := zpow_pos (by norm_num) _
  have hsplit : (2 : ℚ) ^ (Int.log 2 |x| - 52) = 2 ^ Int.log 2 |x| / 2 ^ 52 := by
    rw [zpow_sub₀ (by norm_num)]
    norm_cast
  have herror := abs_roundHalfEven_sub (x / 2 ^ (Int.log 2 |x| - 52))
  have hfactor : nearestDouble x - x =
      (roundHalfEven (x / 2 ^ (Int.log 2 |x| - 52)) - x / 2 ^ (Int.log 2 |x| - 52))
        * 2 ^ (Int.log 2 |x| - 52) := by
    unfold nearestDouble
    rw [sub_mul, div_mul_cancel₀ x hulp.ne']
  calc |nearestDouble x - x|
      = |roundHalfEven (x / 2 ^ (Int.log 2 |x| - 52)) - x / 2 ^ (Int.log 2 |x| - 52)|
          * 2 ^ (Int.log 2 |x| - 52) := by rw [hfactor, abs_mul, abs_of_pos hulp]
    _ ≤ 1 / 2 * 2 ^ (Int.log 2 |x| - 52) := mul_le_mul_of_nonneg_right herror hulp.le
    _ = 2 ^ Int.log 2 |x| / 2 ^ 53 := by rw [hsplit]; ring
    _ ≤ |x| / 2 ^ 53 := div_le_div_of_nonneg_right hlog (by positivity)

/-- Microseconds of the years that a datetime has. -/
def Representable (us : Int) : Prop := |us| ≤ 253402300800000000

theorem timestamp_lt {a b : Int} (ha : Representable a) (hb : Representable b)
    (hfloor : floorMs a = a) (hfloor' : floorMs b = b) (h : a < b) : timestamp a < timestamp b := by
  have hstep : a + 1000 ≤ b := by
    unfold floorMs at hfloor hfloor'
    omega
  have hnear (us : Int) (hus : Representable us) :
      |timestamp us - us / 1000000| ≤ 1 / 10000 := by
    have hbound : |(us : ℚ)| ≤ 253402300800000000 := by exact_mod_cast hus
    refine (abs_nearestDouble_sub _).trans ?_
    rw [abs_div]
    norm_num
    linarith
  have hstep' : (a : ℚ) + 1000 ≤ b := by exact_mod_cast hstep
  have hnear' := abs_le.mp (hnear a ha)
  have hnear'' := abs_le.mp (hnear b hb)
  linarith [hnear'.2, hnear''.1]

/-- The key as the source has it. -/
def CertificateDoc.timestampKey (c : CertificateDoc) : Lex (ℚ × String) :=
  toLex (-timestamp c.dateTo, c.id)

/-- On stored certificates the source's key selects what the exact one selects. -/
theorem extend_timestampKey
    (stored : ∀ c ∈ candidates, floorMs c.dateTo = c.dateTo ∧ Representable c.dateTo) :
    GreedyCover.extend CertificateDoc.dateFrom CertificateDoc.dateTo CertificateDoc.timestampKey
      candidates stop fuel cursor = extendCoverage candidates stop fuel cursor := by
  rw [extendCoverage_eq]
  refine GreedyCover.extend_congr fun a ha b hb => ?_
  obtain ⟨hfloor, hrange⟩ := stored a ha
  obtain ⟨hfloor', hrange'⟩ := stored b hb
  have hlt : timestamp b.dateTo < timestamp a.dateTo ↔ b.dateTo < a.dateTo := by
    constructor
    · intro h
      by_contra hnot
      obtain hless | heq := lt_or_eq_of_le (not_lt.mp hnot)
      · exact lt_asymm h (timestamp_lt hrange hrange' hfloor hfloor' hless)
      · rw [heq] at h
        exact lt_irrefl _ h
    · exact timestamp_lt hrange' hrange hfloor' hfloor
  have heq : timestamp a.dateTo = timestamp b.dateTo ↔ a.dateTo = b.dateTo := by
    constructor
    · intro h
      obtain hless | heq | hless := lt_trichotomy a.dateTo b.dateTo
      · exact absurd h (timestamp_lt hrange hrange' hfloor hfloor' hless).ne
      · exact heq
      · exact absurd h (hlt.mpr hless).ne'
    · exact fun h => by rw [h]
  simp only [CertificateDoc.timestampKey, CertificateDoc.preference, Prod.Lex.toLex_lt_toLex,
    neg_lt_neg_iff, neg_inj, hlt, heq]

/-! ### The result -/

/-- For any certificates, seller, clock and bounds: the selection returns a cover of the
interval as far as the eligible certificates reach without a gap, of eligible certificates each
of which begins no later than the one before it ends, and no shorter cover of that much exists;
it ends by itself; certificates given in another order reach as far, and are selected alike
unless two different ones share an identity and an end. So a selection of the whole interval
raises exactly if an instant of it is in no eligible certificate. -/
theorem coverage_greedy (digests : Digests) (certificates : List CertificateDoc) (sellerId : String)
    (start stop clock : Int) (bounds : start < stop) :
    ∃ selected reach,
      coveragePrefix digests certificates sellerId start stop clock = .ok (selected, reach) ∧
      Selection (certificates.filter (eligible digests sellerId clock)) start stop selected reach ∧
      (∀ steps, certificates.length ≤ steps →
        extendCoverage (certificates.filter (eligible digests sellerId clock)) stop steps start =
          extendCoverage (certificates.filter (eligible digests sellerId clock)) stop
            (certificates.filter (eligible digests sellerId clock)).length start) ∧
      (∀ others, certificates.Perm others →
        (∃ selected', coveragePrefix digests others sellerId start stop clock
          = .ok (selected', reach)) ∧
        (Distinguished certificates → coveragePrefix digests others sellerId start stop clock
          = .ok (selected, reach))) ∧
      ((selectCoverage digests certificates sellerId start stop clock).isOk = false ↔
        ¬ ∀ x, start ≤ x → x < stop →
          ∃ c ∈ certificates, eligible digests sellerId clock c = true ∧ c.Certifies x) := by
  refine ⟨_, _, coveragePrefix_eq bounds, selection_extendCoverage, ?_, ?_,
    selectCoverage_error_iff bounds⟩
  · intro steps enough
    exact extendCoverage_ends ((List.length_filter_le _ certificates).trans enough)
  · intro others perm
    refine ⟨?_, fun distinct => ?_⟩
    · rw [coveragePrefix_eq bounds, reach_perm (perm.filter (eligible digests sellerId clock))
        selection_extendCoverage selection_extendCoverage]
      exact ⟨_, rfl⟩
    · rw [← coveragePrefix_perm perm distinct]
      exact coveragePrefix_eq bounds

/-! ### Two certificates of one identity -/

/-- A certificate of five or of ten days. -/
def fiveDays : CertificateDoc where
  id := "40a5521edca32789cd460327918eedef8fc56941fe0e9be4657a7a3c3630097d"
  sellerId := "82"
  kind := "joint_snapshot"
  sourceIdentity := "acquired-1"
  sourceFingerprint := some "source"
  acquisitionFingerprint := "acquisition"
  dateFrom := 1767657600000000
  dateTo := 1768089600000000
  acquiredAt := 1768089600000000
  expectedCount := 1
  state := "reconciled"
  revision := 1
  currentMembershipHash := "membership"
  currentReadModelFingerprint := "rows"
  certifiedCount := 1
  validatedAt := 1768089600000000
  validUntil := 1768091400000000
  nextCheckAt := 1768089600000000
  invalidationReason := none
  needsReacquisition := false
  coverageEpoch := 1
  schemaVersion := 1

def tenDays : CertificateDoc := { fiveDays with dateFrom := 1767225600000000 }

/-- SHA-256 on the one identity. -/
def selectionDigests : Digests where
  identity _ _ _ := "40a5521edca32789cd460327918eedef8fc56941fe0e9be4657a7a3c3630097d"
  runId _ := ""
  sources _ := ""
  acquisition _ _ := ""
  membership _ := ""
  readModel _ _ _ := .ok ""

/-- Without that proviso the order decides: the first of two certificates is taken. -/
theorem selection_by_order :
    [fiveDays, tenDays].Perm [tenDays, fiveDays] ∧
    coveragePrefix selectionDigests [fiveDays, tenDays] "82" 1767657600000000 1768089600000000
      1768089600000000 = .ok ([fiveDays], 1768089600000000) ∧
    coveragePrefix selectionDigests [tenDays, fiveDays] "82" 1767657600000000 1768089600000000
      1768089600000000 = .ok ([tenDays], 1768089600000000) ∧
    fiveDays ≠ tenDays := by
  refine ⟨List.Perm.swap _ _ _, ?_, ?_, ?_⟩
  · decide +kernel
  · decide +kernel
  · decide

theorem coverage_greedy_ten_days : ∃ selected reach,
    coveragePrefix selectionDigests [tenDays] "82" 1767225600000000 1768089600000000
      1768089600000000 = .ok (selected, reach) ∧
    Selection ([tenDays].filter (eligible selectionDigests "82" 1768089600000000))
      1767225600000000 1768089600000000 selected reach := by
  obtain ⟨selected, reach, hprefix, selection, -⟩ := coverage_greedy selectionDigests [tenDays] "82"
    1767225600000000 1768089600000000 1768089600000000 (by decide)
  exact ⟨selected, reach, hprefix, selection⟩

end ZelerPlatform.Devoluciones
