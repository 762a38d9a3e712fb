import ZelerPlatform.Library.Decimal
import ZelerPlatform.Library.Fallible
import ZelerPlatform.Markers.RangePublication

/-!
# The walk through a year of history

Orders and questions of a seller are acquired backwards, a portion at a time, from the start
of the newest block of proofs until that block holds a year. A portion begins where the
target, the older block, the density of rows, the last failure or an earlier failure across
the edge tell; all of them are whole hours below the edge. Instants count microseconds.
-/

namespace ZelerPlatform.History.YearHistory

open Markers
open Recovery (Job Jobs ReadModel Request)

/-! ### Hours -/

def hour : Int := 3600000000

def day : Int := 24 * hour

/-- `_floor_hour`. -/
def floorHour (t : Int) : Int := t - t % hour

/-- `_ceil_hour`. -/
def ceilHour (t : Int) : Int := if floorHour t = t then floorHour t else floorHour t + hour

/-- A span over a number; `timedelta` rounds to the microsecond. -/
def timedeltaDiv (span : Int) (n : Nat) : Int := Decimal.roundHalfEven ((span : ℚ) / n)

/-- `_whole_hours`. -/
def wholeHours (span : Int) : Int := max 1 (span / hour) * hour

/-- `year_history_target`, 366 days back. -/
def yearHistoryTarget (now : Int) : Int := (now - 366 * day) - (now - 366 * day) % day

variable {t u span : Int}

theorem dvd_floorHour : hour ∣ floorHour t := by
  rw [floorHour]
  exact Int.dvd_self_sub_emod

theorem floorHour_le : floorHour t ≤ t := by
  have := Int.emod_nonneg t (show hour ≠ 0 by decide)
  rw [floorHour]
  omega

theorem lt_floorHour : t < floorHour t + hour := by
  have := Int.emod_lt_of_pos t (show 0 < hour by decide)
  rw [floorHour]
  omega

theorem floorHour_mono (h : t ≤ u) : floorHour t ≤ floorHour u := by
  simp only [floorHour, hour]
  omega

theorem dvd_ceilHour : hour ∣ ceilHour t := by
  rw [ceilHour]
  split
  · exact dvd_floorHour
  · exact dvd_floorHour.add (dvd_refl hour)

theorem le_ceilHour : t ≤ ceilHour t := by
  rw [ceilHour]
  split
  · next h => exact h.ge
  · exact lt_floorHour.le

theorem ceilHour_lt : ceilHour t < t + hour := by
  rw [ceilHour]
  split
  · next h =>
      rw [h]
      exact lt_add_of_pos_right t (by decide)
  · next h => exact Int.add_lt_add_right (lt_of_le_of_ne floorHour_le h) hour

theorem ceilHour_mono (h : t ≤ u) : ceilHour t ≤ ceilHour u := by
  simp only [ceilHour, floorHour, hour]
  split_ifs <;> omega

theorem dvd_wholeHours : hour ∣ wholeHours span := Int.dvd_mul_left _ _

theorem hour_le_wholeHours : hour ≤ wholeHours span := by
  have : (1 : Int) ≤ max 1 (span / hour) := le_max_left _ _
  simp only [wholeHours, hour] at *
  omega

theorem wholeHours_le (h : hour ≤ span) : wholeHours span ≤ span := by
  simp only [wholeHours, hour] at *
  omega

theorem dvd_target {now : Int} : hour ∣ yearHistoryTarget now := by
  have hday : day ∣ yearHistoryTarget now := Int.dvd_self_sub_emod
  exact (Dvd.intro_left 24 rfl : hour ∣ day).trans hday

/-! ### Blocks -/

/-- Two intervals that touch are one. -/
def pairSpans : Spans (Int × Int) Int where
  lo := Prod.fst
  hi := Prod.snd
  join a b := (a.1, max a.2 b.2)
  lo_join _ _ := rfl
  hi_join _ _ := rfl

/-- The interval of a proof, unless it is empty. -/
def interval? (proof : Proof) : Option (Int × Int) :=
  match proof.dateFrom, proof.reconciledUntil with
  | some start, some stop => if start < stop then some (start, stop) else none
  | _, _ => none

/-- The intervals that a marker proves. -/
def intervals (marker : Option Marker) : List (Int × Int) :=
  ((marker.map (·.provenProofs)).getD []).filterMap interval?

/-- `_proven_blocks`. -/
def provenBlocks (marker : Option Marker) : List (Int × Int) :=
  pairSpans.merge ((intervals marker).insertionSort fun a b => toLex a ≤ toLex b)

/-- `proven_edge`. -/
def provenEdge (marker : Option Marker) : Option Int := (provenBlocks marker).getLast?.map Prod.fst

variable {marker : Option Marker} {interval block : Int × Int}

theorem intervals_sorted :
    pairSpans.Sorted ((intervals marker).insertionSort fun a b => toLex a ≤ toLex b) := by
  have : Std.Total fun a b : Int × Int => toLex a ≤ toLex b := ⟨fun _ _ => le_total _ _⟩
  have : IsTrans (Int × Int) fun a b => toLex a ≤ toLex b := ⟨fun _ _ _ => le_trans⟩
  exact (List.pairwise_insertionSort (fun a b : Int × Int => toLex a ≤ toLex b) _).imp fun h =>
    Prod.Lex.monotone_fst _ _ h

/-- There is a gap between any two blocks. -/
theorem provenBlocks_separated : (provenBlocks marker).Pairwise fun a b => a.2 < b.1 :=
  Spans.separated_merge intervals_sorted

theorem interval_lt (h : interval ∈ intervals marker) : interval.1 < interval.2 := by
  obtain ⟨proof, -, hproof⟩ := List.mem_filterMap.mp h
  rw [interval?] at hproof
  split at hproof
  · split at hproof
    · next hlt => exact Option.some.inj hproof ▸ hlt
    · cases hproof
  · cases hproof

/-- No block is empty. -/
theorem provenBlocks_lt (h : block ∈ provenBlocks marker) : block.1 < block.2 := by
  refine Spans.forall_mem_merge (P := fun b : Int × Int => b.1 < b.2) ?_ ?_ block h
  · intro a b ha _
    exact ha.trans_le (le_max_left _ _)
  · intro b hb
    exact interval_lt ((List.perm_insertionSort _ _).subset hb)

/-- The blocks hold what the proofs hold. -/
theorem covered_provenBlocks :
    pairSpans.covered (provenBlocks marker) = pairSpans.covered (intervals marker) :=
  (Spans.covered_merge intervals_sorted).trans (Spans.covered_perm (List.perm_insertionSort _ _))

/-- What is older than the newest block. -/
theorem provenBlocks_last (h : (provenBlocks marker).getLast? = some block) :
    ∀ b ∈ (provenBlocks marker).dropLast, b.2 < block.1 := by
  intro b hb
  have hsplit := List.dropLast_append_getLast? block h
  have hseparated := @provenBlocks_separated marker
  rw [← hsplit, List.pairwise_append] at hseparated
  exact hseparated.2.2 b hb block List.mem_cons_self

/-- Nothing is proven from the end of the newest block on. -/
theorem covered_lt_last (h : (provenBlocks marker).getLast? = some block)
    (mem : t ∈ pairSpans.covered (provenBlocks marker)) : t < block.2 := by
  obtain ⟨b, hb, -, hlt⟩ := mem
  rw [← List.dropLast_append_getLast? block h, List.mem_append, List.mem_singleton] at hb
  obtain hb | rfl := hb
  · have hblock := provenBlocks_lt (List.mem_of_getLast? h)
    exact hlt.trans ((provenBlocks_last h b hb).trans hblock)
  · exact hlt

/-! ### A new proof -/

/-- A marker that retains one proof more. -/
def retain (marker : Marker) (proof : Proof) : Marker :=
  { marker with retained := some (marker.retained.getD [] ++ [proof]) }

theorem intervals_retain {marker : Marker} {proof : Proof} (hmarker : marker.state = .reconciled)
    (hproof : proof.state = .reconciled) (h : interval? proof = some interval) :
    intervals (some (retain marker proof)) = intervals (some marker) ++ [interval] := by
  have hproofs : (retain marker proof).provenProofs = marker.provenProofs ++ [proof] := by
    rw [Marker.provenProofs, Marker.provenProofs, if_pos hmarker,
      if_pos (show (retain marker proof).state = .reconciled from hmarker)]
    simp [retain, List.filter_append, hproof, hmarker]
  rw [intervals, intervals, Option.map_some, Option.map_some, Option.getD_some, Option.getD_some,
    hproofs, List.filterMap_append, List.filterMap_cons_some h]
  rfl

/-- A proof that begins below the edge and reaches it lowers the edge to its start at least. -/
theorem provenEdge_retain {marker : Marker} {proof : Proof} {edge start stop : Int}
    (hproof : proof.state = .reconciled) (h : interval? proof = some (start, stop))
    (hedge : provenEdge (some marker) = some edge) (below : start < edge) (reaches : edge ≤ stop) :
    ∃ edge', provenEdge (some (retain marker proof)) = some edge' ∧ edge' ≤ start := by
  obtain ⟨last, hlast, rfl⟩ := Option.map_eq_some_iff.mp hedge
  have hmarker : marker.state = .reconciled := by
    by_contra hne
    have hnone : provenBlocks (some marker) = [] := by
      simp [provenBlocks, intervals, Marker.provenProofs, hne, Spans.merge]
    rw [hnone] at hlast
    cases hlast
  have hcovered : pairSpans.covered (provenBlocks (some (retain marker proof))) =
      pairSpans.covered (provenBlocks (some marker)) ∪ Set.Ico start stop := by
    rw [covered_provenBlocks, covered_provenBlocks, intervals_retain hmarker hproof h,
      Spans.covered_append, Spans.covered_cons, Spans.covered_nil, Set.union_empty]
    rfl
  have hmem := List.mem_of_getLast? hlast
  have hlt := provenBlocks_lt hmem
  have hrun : Set.Ico start (max last.2 stop) ⊆
      pairSpans.covered (provenBlocks (some (retain marker proof))) := by
    intro t ⟨hstart, htop⟩
    rw [hcovered]
    obtain hbefore | hafter := lt_or_ge t last.1
    · exact .inr ⟨hstart, hbefore.trans_le reaches⟩
    · obtain htop | htop := lt_max_iff.mp htop
      · exact .inl ⟨last, hmem, hafter, htop⟩
      · exact .inr ⟨hstart, htop⟩
  have htop : ∀ t ∈ pairSpans.covered (provenBlocks (some (retain marker proof))),
      t < max last.2 stop := by
    intro t ht
    rw [hcovered] at ht
    obtain hold | hnew := ht
    · exact (covered_lt_last hlast hold).trans_le (le_max_left _ _)
    · exact hnew.2.trans_le (le_max_right _ _)
  obtain ⟨block, hblock, hlo, hhi⟩ := Spans.Separated.block_of_run (s := pairSpans)
    provenBlocks_separated
    (below.trans (hlt.trans_le (le_max_left _ _))) hrun
  obtain ⟨newest, hnewest⟩ := List.getLast?_isSome.mpr (List.ne_nil_of_mem hblock) |>
    Option.isSome_iff_exists.mp
  refine ⟨newest.1, by rw [provenEdge, hnewest, Option.map_some], ?_⟩
  have hsplit := List.dropLast_append_getLast? newest hnewest
  rw [← hsplit, List.mem_append, List.mem_singleton] at hblock
  obtain hblock | rfl := hblock
  · have hgap := provenBlocks_last hnewest block hblock
    have hnewestMem := List.mem_of_getLast? hnewest
    have hbeyond := htop newest.1 ⟨newest, hnewestMem, le_rfl, provenBlocks_lt hnewestMem⟩
    exact absurd (hhi.trans_lt hgap) (not_lt.mpr hbeyond.le)
  · exact hlo

/-! ### Portions -/

/-- `YEAR_HISTORY_MODELS`. -/
inductive Source
  | orders | questions
  deriving DecidableEq, Repr

namespace Source

def readModel : Source → ReadModel
  | orders => .orders
  | questions => .questions

/-- `PORTION_ROWS`. -/
def portionRows : Source → Int
  | orders => 120
  | questions => 100

/-- `MAX_PORTION`. -/
def maxPortion : Source → Int
  | orders => 30 * day
  | questions => 90 * day

end Source

/-- `MIN_PORTION`. -/
def minPortion : Int := hour

/-- `RETRY_AT_MINIMUM`. -/
def retryAtMinimum : Int := 6 * hour

/-- A year-history portion of the source of the seller. -/
def isPortion (sellerId : String) (source : Source) (job : Job) : Bool :=
  job.sellerId = sellerId && job.readModel = source.readModel && job.yearHistory

section

variable (jobs : Jobs) (sellerId : String) (source : Source)

/-- `latest_year_history`. -/
def latestYearHistory : Option Job :=
  jobs.findFirst (isPortion sellerId source) fun job => toLex (-job.updatedAt, job.id)

/-- `failed_year_history_across`; a date in a filter loses what lies below its millisecond. -/
def failedYearHistoryAcross (edge : Int) : Option Job :=
  jobs.findFirst
    (fun job => isPortion sellerId source job && job.state = .failed &&
      job.dateFrom.any (· < edge / 1000) && job.dateTo.any (edge / 1000 < ·))
    fun job => toLex (-job.dateFrom.getD 0, job.id)

end

/-- `_span`; `rows` counts the rows created in an interval. -/
def spanOf (source : Source) (rows : Int → Int → Nat) (stop now : Int) : Int :=
  let longest := source.maxPortion
  let lower := stop - longest
  let upper := min (stop + longest) now
  if upper ≤ lower then longest
  else if rows lower upper = 0 then longest
  else min longest (max minPortion
    (wholeHours (timedeltaDiv ((upper - lower) * source.portionRows) (rows lower upper))))

/-- The span after the latest portion, or `none` while that is alive or cools down. A failure
at the same edge halves it, unless the seller was not eligible. -/
def allowedSpan (latest : Option Job) (span stop now : Int) : Except String (Option Int) :=
  match latest with
  | none => .ok (some span)
  | some job =>
      if job.state = .pending ∨ job.state = .running then .ok none
      else if job.state = .failed ∧ job.dateTo.map micros = some stop then
        if now < micros job.availableAt then .ok none
        else match job.dateFrom with
          | none => .error "unsupported operand type(s) for -: 'datetime.datetime' and 'NoneType'"
          | some dateFrom =>
              let previous := stop - micros dateFrom
              if job.failureReason = some .sellerNotEligible then .ok (some (min span previous))
              else if previous ≤ minPortion ∧ now < micros job.updatedAt + retryAtMinimum then
                .ok none
              else .ok (some (min span (max minPortion (wholeHours (timedeltaDiv previous 2)))))
      else .ok (some span)

/-- `YearHistoryRecoveryRequest(seller_id, model, start, end)`. -/
def yearHistoryRequest (sellerId : String) (source : Source) (start stop : Int) :
    Except String Request :=
  if Mongo.pyStrip sellerId = "" then .error "a seller and recoverable read model are required"
  else if ¬ (0 < stop - start ∧ stop - start ≤ 90 * day) then
    .error "recovery range must be positive and at most 90 days"
  else .ok (.yearHistory sellerId source.readModel (start / 1000) (-(-stop / 1000)))

/-- What `_next_portion` reads besides the jobs. -/
structure Reading where
  eligible : Bool
  marker : Option Marker
  rows : Int → Int → Nat
  now : Int

/-- The latest of the bounds of a start. -/
def startOf (target low : Int) (floor narrowed : Option Int) : Int :=
  max (max (max target low) (floor.getD target)) (narrowed.getD target)

/-- `_next_portion`. -/
def nextPortion (sellerId : String) (source : Source) (jobs : Jobs) (reading : Reading) :
    Except String (Option Request) := do
  if reading.eligible = false then return none
  let blocks := provenBlocks reading.marker
  match blocks.getLast? with
  | none => return none
  | some (edge, _) =>
      let floor := blocks.dropLast.getLast?.map fun older => floorHour older.2
      let target := yearHistoryTarget reading.now
      if edge ≤ target then return none
      let stop := min (ceilHour edge) (ceilHour reading.now)
      let span := spanOf source reading.rows stop reading.now
      match ← allowedSpan (latestYearHistory jobs sellerId source) span stop reading.now with
      | none => return none
      | some span =>
          let narrowed := (failedYearHistoryAcross jobs sellerId source edge).bind fun job =>
            job.dateFrom.map micros
          let start := startOf target (stop - span) floor narrowed
          if stop ≤ start then return none
          some <$> yearHistoryRequest sellerId source start stop

/-! ### The bounds of a portion -/

variable {sellerId : String} {source : Source} {jobs jobs' : Jobs} {reading : Reading}
variable {job : Job} {request : Request} {start stop edge low now : Int}

/-- A span of whole hours that a portion may have. -/
structure Fits (source : Source) (span : Int) : Prop where
  whole : hour ∣ span
  least : hour ≤ span
  most : span ≤ source.maxPortion

theorem dvd_min {a b : Int} (ha : hour ∣ a) (hb : hour ∣ b) : hour ∣ min a b := by
  obtain h | h := min_choice a b <;> rwa [h]

theorem dvd_max {a b : Int} (ha : hour ∣ a) (hb : hour ∣ b) : hour ∣ max a b := by
  obtain h | h := max_choice a b <;> rwa [h]

theorem fits_longest : Fits source source.maxPortion where
  whole := by cases source <;> decide
  least := by cases source <;> decide
  most := le_rfl

theorem Fits.min_least (h : Fits source span) (hwhole : hour ∣ u) (hleast : hour ≤ u) :
    Fits source (min span u) where
  whole := dvd_min h.whole hwhole
  least := le_min h.least hleast
  most := (min_le_left _ _).trans h.most

theorem spanOf_fits {rows : Int → Int → Nat} : Fits source (spanOf source rows stop now) := by
  rw [spanOf]
  split
  · exact fits_longest
  · split
    · exact fits_longest
    · exact fits_longest.min_least (dvd_max (dvd_refl hour) dvd_wholeHours) (le_max_left _ _)

/-- Every portion of the source has bounds of whole hours. -/
def Whole (sellerId : String) (source : Source) (jobs : Jobs) : Prop :=
  ∀ job ∈ jobs.docs, isPortion sellerId source job = true → ∃ dateFrom dateTo,
    job.dateFrom = some dateFrom ∧ job.dateTo = some dateTo ∧ dateFrom < dateTo ∧
      hour ∣ micros dateFrom ∧ hour ∣ micros dateTo

theorem Whole.latest (h : Whole sellerId source jobs)
    (hlatest : latestYearHistory jobs sellerId source = some job) : ∃ dateFrom dateTo,
      job.dateFrom = some dateFrom ∧ job.dateTo = some dateTo ∧ dateFrom < dateTo ∧
        hour ∣ micros dateFrom ∧ hour ∣ micros dateTo := by
  obtain ⟨mem, hportion⟩ := Collection.findFirst_mem hlatest
  exact h job mem hportion

theorem hour_le_of_dvd {a b : Int} (ha : hour ∣ a) (hb : hour ∣ b) (h : a < b) : hour ≤ b - a :=
  Int.le_of_dvd (Int.sub_pos_of_lt h) (dvd_sub hb ha)

theorem micros_lt {a b : Int} (h : a < b) : micros a < micros b := by
  rw [micros, micros]
  omega

theorem micros_div_le {a : Int} : micros (a / 1000) ≤ a := by
  rw [micros]
  omega

/-- What the latest portion leaves of a span fits. -/
theorem allowedSpan_fits (h : Whole sellerId source jobs) (hspan : Fits source span) {allowed : Int}
    (hallowed : allowedSpan (latestYearHistory jobs sellerId source) span stop now =
      .ok (some allowed)) : Fits source allowed := by
  cases hlatest : latestYearHistory jobs sellerId source with
  | none =>
      rw [hlatest] at hallowed
      exact Option.some.inj (Except.ok.inj hallowed) ▸ hspan
  | some job =>
      obtain ⟨dateFrom, dateTo, hfrom, hto, hlt, hwhole, hwhole'⟩ := h.latest hlatest
      rw [hlatest, allowedSpan] at hallowed
      split at hallowed
      · cases hallowed
      split at hallowed
      · next hfailed =>
          have hstop : micros dateTo = stop := by simpa [hto] using hfailed.2
          have hprevious : hour ∣ stop - micros dateFrom ∧ hour ≤ stop - micros dateFrom := by
            rw [← hstop]
            exact ⟨dvd_sub hwhole' hwhole, hour_le_of_dvd hwhole hwhole' (micros_lt hlt)⟩
          simp only [hfrom] at hallowed
          split at hallowed
          · cases hallowed
          split at hallowed
          · rw [← Option.some.inj (Except.ok.inj hallowed)]
            exact hspan.min_least hprevious.1 hprevious.2
          split at hallowed
          · cases hallowed
          · rw [← Option.some.inj (Except.ok.inj hallowed)]
            exact hspan.min_least (dvd_max (dvd_refl hour) dvd_wholeHours) (le_max_left _ _)
      · exact Option.some.inj (Except.ok.inj hallowed) ▸ hspan

/-- A failure at the edge halves the span, down to an hour. -/
theorem allowedSpan_halves (h : Whole sellerId source jobs) {allowed : Int} {dateFrom : Int}
    (hlatest : latestYearHistory jobs sellerId source = some job)
    (hfailed : job.state = .failed) (hreason : job.failureReason ≠ some .sellerNotEligible)
    (hfrom : job.dateFrom = some dateFrom) (hstop : job.dateTo.map micros = some stop)
    (hallowed : allowedSpan (latestYearHistory jobs sellerId source) span stop now =
      .ok (some allowed)) : allowed ≤ max hour (stop - micros dateFrom - hour) := by
  obtain ⟨dateFrom', dateTo, hfrom', hto, hlt, hwhole, hwhole'⟩ := h.latest hlatest
  obtain rfl : dateFrom' = dateFrom := Option.some.inj (hfrom'.symm.trans hfrom)
  rw [hto, Option.map_some] at hstop
  obtain rfl := Option.some.inj hstop
  rw [hlatest, allowedSpan, if_neg (by rw [hfailed]; simp), if_pos ⟨hfailed, by rw [hto]; rfl⟩]
    at hallowed
  simp only [hfrom, hreason, if_false] at hallowed
  split at hallowed
  · cases hallowed
  split at hallowed
  · cases hallowed
  rw [← Option.some.inj (Except.ok.inj hallowed)]
  refine (min_le_right _ _).trans ?_
  obtain ⟨n, hn⟩ := dvd_sub hwhole' hwhole
  have hpositive := hour_le_of_dvd hwhole hwhole' (micros_lt hlt)
  have hhalf : timedeltaDiv (micros dateTo - micros dateFrom') 2 = 1800000000 * n := by
    rw [timedeltaDiv, hn, ← Decimal.roundHalfEven_intCast (1800000000 * n)]
    congr 1
    push_cast [hour]
    ring
  rw [hhalf, hn]
  simp only [wholeHours, minPortion, hour] at *
  omega

/-! ### One turn -/

/-- Where the portion at an edge ends. -/
def stopAt (edge now : Int) : Int := min (ceilHour edge) (ceilHour now)

/-- The start of the portion at an edge. -/
def startAt (sellerId : String) (source : Source) (jobs : Jobs) (reading : Reading)
    (edge span : Int) : Int :=
  startOf (yearHistoryTarget reading.now) (stopAt edge reading.now - span)
    ((provenBlocks reading.marker).dropLast.getLast?.map fun older => floorHour older.2)
    ((failedYearHistoryAcross jobs sellerId source edge).bind fun job => job.dateFrom.map micros)

/-- The span that the latest portion leaves at an edge. -/
def spanAt (sellerId : String) (source : Source) (jobs : Jobs) (reading : Reading) (edge : Int) :
    Except String (Option Int) :=
  allowedSpan (latestYearHistory jobs sellerId source)
    (spanOf source reading.rows (stopAt edge reading.now) reading.now)
    (stopAt edge reading.now) reading.now

theorem provenEdge_eq_none (h : provenEdge marker = none) :
    (provenBlocks marker).getLast? = none := Option.map_eq_none_iff.mp h

/-- A turn with an eligible seller and an edge that has not reached the target. -/
theorem nextPortion_eq (heligible : reading.eligible = true)
    (hedge : provenEdge reading.marker = some edge) (habove : yearHistoryTarget reading.now < edge) :
    nextPortion sellerId source jobs reading =
      (do match ← spanAt sellerId source jobs reading edge with
          | none => return none
          | some span =>
              if stopAt edge reading.now ≤ startAt sellerId source jobs reading edge span then
                return none
              some <$> yearHistoryRequest sellerId source
                (startAt sellerId source jobs reading edge span) (stopAt edge reading.now)) := by
  obtain ⟨last, hlast, rfl⟩ := Option.map_eq_some_iff.mp hedge
  rw [nextPortion, heligible]
  simp only [hlast, Bool.true_eq_false, if_false, not_le.mpr habove]
  rfl

theorem nextPortion_none_of_edge (heligible : reading.eligible = false ∨
    provenEdge reading.marker = none ∨
      ∃ edge, provenEdge reading.marker = some edge ∧ edge ≤ yearHistoryTarget reading.now) :
    nextPortion sellerId source jobs reading = .ok none := by
  rw [nextPortion]
  obtain h | h | ⟨edge, hedge, hle⟩ := heligible
  · rw [h]
    rfl
  · split
    · rfl
    · simp only [provenEdge_eq_none h]
      rfl
  · obtain ⟨last, hlast, rfl⟩ := Option.map_eq_some_iff.mp hedge
    split
    · rfl
    · simp only [hlast, hle, if_true]
      rfl

/-- What a turn that returns a portion has found. -/
theorem nextPortion_some (h : nextPortion sellerId source jobs reading = .ok (some request)) :
    ∃ edge span, provenEdge reading.marker = some edge ∧ yearHistoryTarget reading.now < edge ∧
      spanAt sellerId source jobs reading edge = .ok (some span) ∧
      startAt sellerId source jobs reading edge span < stopAt edge reading.now ∧
      yearHistoryRequest sellerId source (startAt sellerId source jobs reading edge span)
        (stopAt edge reading.now) = .ok request := by
  cases heligible : reading.eligible with
  | false =>
      rw [nextPortion_none_of_edge (.inl heligible)] at h
      cases h
  | true =>
      cases hedge : provenEdge reading.marker with
      | none =>
          rw [nextPortion_none_of_edge (.inr (.inl hedge))] at h
          cases h
      | some edge =>
          obtain hle | habove := le_or_gt edge (yearHistoryTarget reading.now)
          · rw [nextPortion_none_of_edge (.inr (.inr ⟨edge, hedge, hle⟩))] at h
            cases h
          · rw [nextPortion_eq heligible hedge habove] at h
            obtain ⟨allowed, hallowed, h⟩ := Fallible.bind_ok h
            cases allowed with
            | none => cases h
            | some span =>
                refine ⟨edge, span, rfl, habove, hallowed, ?_⟩
                simp only at h
                split at h
                · cases h
                · next hlt =>
                    refine ⟨not_le.mp hlt, ?_⟩
                    cases hrequest : yearHistoryRequest sellerId source
                        (startAt sellerId source jobs reading edge span)
                        (stopAt edge reading.now) with
                    | error message =>
                        rw [hrequest] at h
                        cases h
                    | ok made =>
                        rw [hrequest] at h
                        exact congrArg Except.ok (Option.some.inj (Except.ok.inj h))

theorem dvd_stopAt : hour ∣ stopAt edge now := dvd_min dvd_ceilHour dvd_ceilHour

theorem stopAt_eq (h : edge ≤ now) : stopAt edge now = ceilHour edge :=
  min_eq_left (ceilHour_mono h)

/-- The bounds of a start all are whole hours below the edge. -/
theorem startAt_spec (h : Whole sellerId source jobs)
    (hedge : provenEdge reading.marker = some edge) (habove : yearHistoryTarget reading.now < edge)
    (hfits : Fits source span) :
    hour ∣ startAt sellerId source jobs reading edge span ∧
      yearHistoryTarget reading.now ≤ startAt sellerId source jobs reading edge span ∧
      stopAt edge reading.now - span ≤ startAt sellerId source jobs reading edge span ∧
      (∀ older ∈ (provenBlocks reading.marker).dropLast,
        floorHour older.2 ≤ startAt sellerId source jobs reading edge span) ∧
      startAt sellerId source jobs reading edge span < edge := by
  obtain ⟨last, hlast, rfl⟩ := Option.map_eq_some_iff.mp hedge
  have hfloor : ∀ floor, ((provenBlocks reading.marker).dropLast.getLast?.map fun older =>
      floorHour older.2) = some floor → hour ∣ floor ∧ floor < last.1 := by
    intro floor hfloor
    obtain ⟨older, holder, rfl⟩ := Option.map_eq_some_iff.mp hfloor
    exact ⟨dvd_floorHour,
      floorHour_le.trans_lt (provenBlocks_last hlast older (List.mem_of_getLast? holder))⟩
  have hnarrowed : ∀ narrowed, ((failedYearHistoryAcross jobs sellerId source last.1).bind fun job =>
      job.dateFrom.map micros) = some narrowed → hour ∣ narrowed ∧ narrowed < last.1 := by
    intro narrowed hnarrowed
    obtain ⟨failed, hfailed, hfrom⟩ := Option.bind_eq_some_iff.mp hnarrowed
    obtain ⟨mem, hcondition⟩ := Collection.findFirst_mem hfailed
    simp only [Bool.and_eq_true] at hcondition
    obtain ⟨⟨⟨hportion, -⟩, hbefore⟩, -⟩ := hcondition
    obtain ⟨dateFrom, dateTo, hdateFrom, -, -, hwhole, -⟩ := h failed mem hportion
    rw [hdateFrom, Option.map_some] at hfrom
    obtain rfl := Option.some.inj hfrom
    have hlt : dateFrom < last.1 / 1000 := by simpa [hdateFrom] using hbefore
    exact ⟨hwhole, (micros_lt hlt).trans_le micros_div_le⟩
  have hbelow : stopAt last.1 reading.now - span < last.1 := by
    have hceil : stopAt last.1 reading.now < last.1 + hour := (min_le_left _ _).trans_lt ceilHour_lt
    have := hfits.least
    omega
  have holder : ∀ older ∈ (provenBlocks reading.marker).dropLast, floorHour older.2 ≤
      ((provenBlocks reading.marker).dropLast.getLast?.map fun older =>
        floorHour older.2).getD (yearHistoryTarget reading.now) := by
    intro older mem
    obtain ⟨next, hnext⟩ := Option.isSome_iff_exists.mp
      (List.getLast?_isSome.mpr (List.ne_nil_of_mem mem))
    rw [hnext, Option.map_some, Option.getD_some]
    have hgaps := (@provenBlocks_separated reading.marker).sublist
      (List.dropLast_sublist _)
    have hsplit := List.dropLast_append_getLast? next hnext
    rw [← hsplit, List.pairwise_append] at hgaps
    rw [← hsplit, List.mem_append, List.mem_singleton] at mem
    obtain mem | rfl := mem
    · have hgap := hgaps.2.2 older mem next List.mem_cons_self
      have hnonempty := provenBlocks_lt (List.dropLast_subset _ (List.mem_of_getLast? hnext))
      exact floorHour_mono (hgap.trans hnonempty).le
    · exact le_rfl
  rw [startAt, startOf]
  generalize ((provenBlocks reading.marker).dropLast.getLast?.map fun older =>
    floorHour older.2) = floor at hfloor holder ⊢
  generalize ((failedYearHistoryAcross jobs sellerId source last.1).bind fun job =>
    job.dateFrom.map micros) = narrowed at hnarrowed ⊢
  have hfloor' : hour ∣ floor.getD (yearHistoryTarget reading.now) ∧
      floor.getD (yearHistoryTarget reading.now) < last.1 := by
    cases floor with
    | none => exact ⟨dvd_target, habove⟩
    | some floor => exact hfloor floor rfl
  have hnarrowed' : hour ∣ narrowed.getD (yearHistoryTarget reading.now) ∧
      narrowed.getD (yearHistoryTarget reading.now) < last.1 := by
    cases narrowed with
    | none => exact ⟨dvd_target, habove⟩
    | some narrowed => exact hnarrowed narrowed rfl
  refine ⟨?_, ?_, ?_, fun older mem => ?_, ?_⟩
  · exact dvd_max (dvd_max (dvd_max dvd_target (dvd_sub dvd_stopAt hfits.whole)) hfloor'.1)
      hnarrowed'.1
  · omega
  · omega
  · have := holder older mem
    omega
  · omega

/-! ### Portions the planner has made -/

/-- The two portions of jobs have the same bounds. -/
def SameBounds (a b : Job) : Prop := a.dateFrom = b.dateFrom ∧ a.dateTo = b.dateTo

/-- The bounds of a portion are those of a request. -/
def AsRequested (request : Request) (job : Job) : Prop :=
  ∃ sellerId model dateFrom dateTo, request = .yearHistory sellerId model dateFrom dateTo ∧
    job.dateFrom = some dateFrom ∧ job.dateTo = some dateTo

/-- Jobs in which every portion of the source of the seller was admitted by the planner.
Between two turns jobs may change, end and disappear, and those of others may come. -/
inductive Planned (sellerId : String) (source : Source) : Jobs → Prop
  | start {jobs : Jobs} (none : ∀ job ∈ jobs.docs, isPortion sellerId source job = false) :
      Planned sellerId source jobs
  | turn {jobs jobs' : Jobs} {reading : Reading} {request : Request}
      (before : Planned sellerId source jobs)
      (next : nextPortion sellerId source jobs reading = .ok (some request))
      (bounds : ∀ job' ∈ jobs'.docs, isPortion sellerId source job' = true →
        (∃ job ∈ jobs.docs, isPortion sellerId source job = true ∧ SameBounds job job') ∨
          AsRequested request job') : Planned sellerId source jobs'
  | others {jobs jobs' : Jobs} (before : Planned sellerId source jobs)
      (bounds : ∀ job' ∈ jobs'.docs, isPortion sellerId source job' = true →
        ∃ job ∈ jobs.docs, isPortion sellerId source job = true ∧ SameBounds job job') :
      Planned sellerId source jobs'

theorem micros_div {a : Int} (h : hour ∣ a) : micros (a / 1000) = a := by
  obtain ⟨n, rfl⟩ := h
  rw [micros, hour]
  omega

theorem div_lt_div {a b : Int} (ha : hour ∣ a) (hb : hour ∣ b) (h : a < b) :
    a / 1000 < b / 1000 := by
  obtain ⟨m, rfl⟩ := ha
  obtain ⟨n, rfl⟩ := hb
  rw [hour] at *
  omega

theorem yearHistoryRequest_ok (h : yearHistoryRequest sellerId source start stop = .ok request) :
    0 < stop - start ∧ stop - start ≤ 90 * day ∧
      request = .yearHistory sellerId source.readModel (start / 1000) (-(-stop / 1000)) := by
  rw [yearHistoryRequest] at h
  split at h
  · cases h
  split at h
  · cases h
  · next hbounds =>
      rw [not_not] at hbounds
      exact ⟨hbounds.1, hbounds.2, (Except.ok.inj h).symm⟩

/-- The bounds that a turn asks for. -/
structure Asks (sellerId : String) (source : Source) (reading : Reading) (edge start stop : Int)
    (request : Request) : Prop where
  request_eq : request = .yearHistory sellerId source.readModel (start / 1000) (stop / 1000)
  start_whole : hour ∣ start
  stop_whole : hour ∣ stop
  lt : start < stop
  target_le : yearHistoryTarget reading.now ≤ start
  start_lt : start < edge
  stop_eq : stop = stopAt edge reading.now
  most : stop - start ≤ source.maxPortion
  older : ∀ older ∈ (provenBlocks reading.marker).dropLast, floorHour older.2 ≤ start

theorem nextPortion_asks (h : Whole sellerId source jobs)
    (hnext : nextPortion sellerId source jobs reading = .ok (some request)) :
    ∃ edge span start stop, provenEdge reading.marker = some edge ∧
      spanAt sellerId source jobs reading edge = .ok (some span) ∧ stop - start ≤ span ∧
      Asks sellerId source reading edge start stop request := by
  obtain ⟨edge, span, hedge, habove, hspan, hlt, hrequest⟩ := nextPortion_some hnext
  have hfits := allowedSpan_fits h spanOf_fits hspan
  obtain ⟨hwhole, htarget, hlow, holder, hbelow⟩ := startAt_spec h hedge habove hfits
  obtain ⟨-, -, hmade⟩ := yearHistoryRequest_ok hrequest
  have hstop : -(-stopAt edge reading.now / 1000) = stopAt edge reading.now / 1000 := by
    obtain ⟨n, hn⟩ := @dvd_stopAt edge reading.now
    rw [hn, hour]
    omega
  have hshort : stopAt edge reading.now - startAt sellerId source jobs reading edge span ≤ span :=
    sub_le_comm.mp hlow
  exact ⟨edge, span, _, _, hedge, hspan, hshort, ⟨hstop ▸ hmade, hwhole, dvd_stopAt, hlt, htarget,
    hbelow, rfl, hshort.trans hfits.most, holder⟩⟩

/-- The planner's portions have bounds of whole hours. -/
theorem Planned.whole (h : Planned sellerId source jobs) : Whole sellerId source jobs := by
  induction h with
  | start none =>
      intro job mem hportion
      rw [none job mem] at hportion
      cases hportion
  | turn _ next bounds ih =>
      intro job' mem hportion
      obtain ⟨job, hjob, hold, hfrom, hto⟩ | ⟨_, _, dateFrom, dateTo, hrequest, hfrom, hto⟩ :=
        bounds job' mem hportion
      · obtain ⟨dateFrom, dateTo, hdateFrom, hdateTo, hrest⟩ := ih job hjob hold
        exact ⟨dateFrom, dateTo, hfrom ▸ hdateFrom, hto ▸ hdateTo, hrest⟩
      · obtain ⟨_, _, start, stop, -, -, -, hasks⟩ := nextPortion_asks ih next
        obtain ⟨-, -, rfl, rfl⟩ := Request.yearHistory.inj (hrequest.symm.trans hasks.request_eq)
        refine ⟨_, _, hfrom, hto, ?_, ?_, ?_⟩
        · exact div_lt_div hasks.start_whole hasks.stop_whole hasks.lt
        · rw [micros_div hasks.start_whole]
          exact hasks.start_whole
        · rw [micros_div hasks.stop_whole]
          exact hasks.stop_whole
  | others _ bounds ih =>
      intro job' mem hportion
      obtain ⟨job, hjob, hold, hfrom, hto⟩ := bounds job' mem hportion
      obtain ⟨dateFrom, dateTo, hdateFrom, hdateTo, hrest⟩ := ih job hjob hold
      exact ⟨dateFrom, dateTo, hfrom ▸ hdateFrom, hto ▸ hdateTo, hrest⟩

/-! ### Progress -/

/-- A failure at the edge counts if the seller was eligible. -/
structure FailedAt (jobs : Jobs) (sellerId : String) (source : Source) (stop span : Int) (job : Job) :
    Prop where
  latest : latestYearHistory jobs sellerId source = some job
  failed : job.state = .failed
  reason : job.failureReason ≠ some .sellerNotEligible
  stop_eq : job.dateTo.map micros = some stop
  span_eq : job.dateFrom.map micros = some (stop - span)

/-- Failures at one edge, one after another, lead from a span to another. -/
inductive Retries (sellerId : String) (source : Source) (edge : Int) : Nat → Int → Int → Prop
  | none (span : Int) : Retries sellerId source edge 0 span span
  | again {n : Nat} {first span start stop : Int} {jobs : Jobs} {reading : Reading} {job : Job}
      (before : Retries sellerId source edge n first span) (planned : Planned sellerId source jobs)
      (hedge : provenEdge reading.marker = some edge) (late : edge ≤ reading.now)
      (failed : FailedAt jobs sellerId source (ceilHour edge) span job)
      (next : nextPortion sellerId source jobs reading =
        .ok (some (.yearHistory sellerId source.readModel start stop))) :
      Retries sellerId source edge (n + 1) first (micros stop - micros start)

/-- A portion after a failure at the edge is shorter by an hour at least, or has one hour. -/
theorem FailedAt.shorter (h : Whole sellerId source jobs)
    (hfailed : FailedAt jobs sellerId source (ceilHour edge) span job)
    (hedge : provenEdge reading.marker = some edge) (late : edge ≤ reading.now)
    (hnext : nextPortion sellerId source jobs reading = .ok (some request)) :
    ∃ start stop, Asks sellerId source reading edge start stop request ∧
      stop - start ≤ max hour (span - hour) := by
  obtain ⟨edge', allowed, start, stop, hedge', hallowed, hshort, hasks⟩ := nextPortion_asks h hnext
  obtain rfl : edge' = edge := Option.some.inj (hedge'.symm.trans hedge)
  refine ⟨start, stop, hasks, hshort.trans ?_⟩
  obtain ⟨dateFrom, hfrom, hspan⟩ := Option.map_eq_some_iff.mp hfailed.span_eq
  rw [spanAt, stopAt_eq late] at hallowed
  have hhalved := allowedSpan_halves h hfailed.latest hfailed.failed hfailed.reason hfrom
    hfailed.stop_eq hallowed
  rwa [hspan, sub_sub_cancel] at hhalved

/-- Repeated failures narrow a portion down to an hour. -/
theorem Retries.narrow {n : Nat} {first last : Int}
    (h : Retries sellerId source edge n first last) : last ≤ max hour (first - n * hour) ∨ n = 0 := by
  induction h with
  | none => exact .inr rfl
  | @again n first span start stop jobs reading job before planned hedge late failed next ih =>
      obtain ⟨start', stop', hasks, hshort⟩ := failed.shorter planned.whole hedge late next
      obtain ⟨-, -, rfl, rfl⟩ := Request.yearHistory.inj hasks.request_eq
      rw [micros_div hasks.start_whole, micros_div hasks.stop_whole]
      refine .inl (hshort.trans ?_)
      cases before with
      | none =>
          rw [Nat.cast_one, one_mul]
      | again =>
          obtain hspan | hzero := ih
          · push_cast
            rw [hour] at *
            omega
          · cases hzero

/-- A portion that is alive or cools down at an edge. -/
def CoolsDown (jobs : Jobs) (sellerId : String) (source : Source) (stop now : Int) : Prop :=
  ∃ job, latestYearHistory jobs sellerId source = some job ∧ job.state = .failed ∧
    job.dateTo.map micros = some stop ∧ (now < micros job.availableAt ∨
      job.failureReason ≠ some .sellerNotEligible ∧ ∃ dateFrom, job.dateFrom = some dateFrom ∧
        stop - micros dateFrom ≤ minPortion ∧ now < micros job.updatedAt + retryAtMinimum)

theorem allowedSpan_ne_none
    (idle : ∀ job ∈ jobs.docs, isPortion sellerId source job = true →
      job.state ≠ .pending ∧ job.state ≠ .running)
    (cool : ¬ CoolsDown jobs sellerId source stop now) :
    allowedSpan (latestYearHistory jobs sellerId source) span stop now ≠ .ok none := by
  intro hnone
  cases hlatest : latestYearHistory jobs sellerId source with
  | none =>
      rw [hlatest] at hnone
      cases hnone
  | some job =>
      obtain ⟨mem, hportion⟩ := Collection.findFirst_mem hlatest
      rw [hlatest, allowedSpan, if_neg (not_or.mpr (idle job mem hportion))] at hnone
      split at hnone
      · next hfailed =>
          split at hnone
          · next hwaits => exact cool ⟨job, hlatest, hfailed.1, hfailed.2, .inl hwaits⟩
          cases hfrom : job.dateFrom with
          | none =>
              simp only [hfrom] at hnone
              cases hnone
          | some dateFrom =>
              simp only [hfrom] at hnone
              split at hnone
              · cases hnone
              split at hnone
              · next hreason hminimum =>
                  exact cool ⟨job, hlatest, hfailed.1, hfailed.2,
                    .inr ⟨hreason, dateFrom, hfrom, hminimum.1, hminimum.2⟩⟩
              · cases hnone
      · cases hnone

/-- A turn that finds nothing alive and no cooldown asks for a portion while the edge is above
the target. -/
theorem nextPortion_ne_none (h : Whole sellerId source jobs) (heligible : reading.eligible = true)
    (hedge : provenEdge reading.marker = some edge) (late : edge ≤ reading.now)
    (habove : yearHistoryTarget reading.now < edge)
    (idle : ∀ job ∈ jobs.docs, isPortion sellerId source job = true →
      job.state ≠ .pending ∧ job.state ≠ .running)
    (cool : ¬ CoolsDown jobs sellerId source (stopAt edge reading.now) reading.now) :
    nextPortion sellerId source jobs reading ≠ .ok none := by
  intro hnone
  rw [nextPortion_eq heligible hedge habove] at hnone
  obtain ⟨allowed, hallowed, hnone⟩ := Fallible.bind_ok hnone
  cases allowed with
  | none => exact allowedSpan_ne_none idle cool hallowed
  | some span =>
      obtain ⟨-, -, -, -, hbelow⟩ :=
        startAt_spec h hedge habove (allowedSpan_fits h spanOf_fits hallowed)
      have hstop : edge ≤ stopAt edge reading.now := by
        rw [stopAt_eq late]
        exact le_ceilHour
      simp only [not_le.mpr (hbelow.trans_le hstop), if_false] at hnone
      cases hrequest : yearHistoryRequest sellerId source
          (startAt sellerId source jobs reading edge span) (stopAt edge reading.now) with
      | error message =>
          rw [hrequest] at hnone
          cases hnone
      | ok made =>
          rw [hrequest] at hnone
          cases hnone

/-! ### The walk -/

/-- The blocks of a marker are sorted, do not touch and hold what its proofs hold. -/
structure Blocks (marker : Marker) : Prop where
  sorted : (provenBlocks (some marker)).Pairwise fun a b => a.1 < b.1
  apart : (provenBlocks (some marker)).Pairwise fun a b => a.2 < b.1
  nonempty : ∀ block ∈ provenBlocks (some marker), block.1 < block.2
  union : ∀ t, (∃ block ∈ provenBlocks (some marker), block.1 ≤ t ∧ t < block.2) ↔
    ∃ proof ∈ marker.provenProofs, ∃ start stop, proof.dateFrom = some start ∧
      proof.reconciledUntil = some stop ∧ start ≤ t ∧ t < stop

theorem interval?_eq_some {proof : Proof} : interval? proof = some interval ↔
    proof.dateFrom = some interval.1 ∧ proof.reconciledUntil = some interval.2 ∧
      interval.1 < interval.2 := by
  rw [interval?]
  cases proof.dateFrom with
  | none => simp
  | some start =>
      cases proof.reconciledUntil with
      | none => simp
      | some stop =>
          obtain ⟨a, b⟩ := interval
          by_cases h : start < stop
          · simp only [if_pos h, Option.some.injEq, Prod.mk.injEq]
            exact ⟨fun ⟨ha, hb⟩ => ⟨ha, hb, ha ▸ hb ▸ h⟩, fun ⟨ha, hb, _⟩ => ⟨ha, hb⟩⟩
          · simp only [if_neg h, Option.some.injEq, reduceCtorEq, false_iff]
            rintro ⟨rfl, rfl, hlt⟩
            exact h hlt

theorem blocks (marker : Marker) : Blocks marker where
  sorted := provenBlocks_separated.imp_of_mem fun ha _ hab => (provenBlocks_lt ha).trans hab
  apart := provenBlocks_separated
  nonempty _ := provenBlocks_lt
  union t := by
    have hcovered := Set.ext_iff.mp (@covered_provenBlocks (some marker)) t
    rw [Spans.mem_covered, Spans.mem_covered] at hcovered
    refine hcovered.trans ⟨?_, ?_⟩
    · rintro ⟨interval, mem, hlo, hhi⟩
      obtain ⟨proof, hproof, hinterval⟩ := List.mem_filterMap.mp mem
      obtain ⟨hfrom, huntil, -⟩ := interval?_eq_some.mp hinterval
      exact ⟨proof, hproof, _, _, hfrom, huntil, hlo, hhi⟩
    · rintro ⟨proof, hproof, start, stop, hfrom, huntil, hlo, hhi⟩
      have hinterval : interval? proof = some (start, stop) :=
        interval?_eq_some.mpr ⟨hfrom, huntil, hlo.trans_lt hhi⟩
      exact ⟨(start, stop), List.mem_filterMap.mpr ⟨proof, hproof, hinterval⟩, hlo, hhi⟩

/-- Each portion lies in the gap below the edge and lowers it, failures narrow portions, and
the walk rests only when the seller is not eligible, nothing is proven or the year is full. -/
theorem yearHistory_walks (sellerId : String) (source : Source) (jobs : Jobs) (reading : Reading)
    (marker : Marker) (planned : Planned sellerId source jobs) (hmarker : reading.marker = some marker)
    (late : ∀ edge, provenEdge reading.marker = some edge → edge ≤ reading.now) :
    Blocks marker ∧
    (∀ request, nextPortion sellerId source jobs reading = .ok (some request) →
      ∃ edge start stop, provenEdge reading.marker = some edge ∧
        Asks sellerId source reading edge start stop request ∧ edge ≤ stop ∧
        stop - start ≤ 90 * day ∧
        ∀ proof : Proof, proof.state = .reconciled → proof.dateFrom = some start →
          proof.reconciledUntil = some stop →
            ∃ edge', provenEdge (some (retain marker proof)) = some edge' ∧ edge' < edge) ∧
    (∀ edge n first last, Retries sellerId source edge n first last →
      last ≤ max hour (first - n * hour) ∨ n = 0) ∧
    ((∀ job ∈ jobs.docs, isPortion sellerId source job = true →
        job.state ≠ .pending ∧ job.state ≠ .running) →
      (∀ edge, provenEdge reading.marker = some edge →
        ¬ CoolsDown jobs sellerId source (stopAt edge reading.now) reading.now) →
      nextPortion sellerId source jobs reading = .ok none →
        reading.eligible = false ∨ provenEdge reading.marker = none ∨
          ∃ edge, provenEdge reading.marker = some edge ∧
            edge ≤ yearHistoryTarget reading.now) := by
  refine ⟨blocks marker, fun request hnext => ?_, fun _ _ _ _ h => h.narrow,
    fun idle cool hnone => ?_⟩
  · obtain ⟨edge, -, start, stop, hedge, -, -, hasks⟩ := nextPortion_asks planned.whole hnext
    have hreaches : edge ≤ stop := by
      rw [hasks.stop_eq, stopAt_eq (late edge hedge)]
      exact le_ceilHour
    have hlongest : source.maxPortion ≤ 90 * day := by cases source <;> decide
    refine ⟨edge, start, stop, hedge, hasks, hreaches, hasks.most.trans hlongest, ?_⟩
    intro proof hproof hfrom huntil
    rw [hmarker] at hedge
    obtain ⟨edge', hedge', hle⟩ := provenEdge_retain hproof
      (interval?_eq_some.mpr ⟨hfrom, huntil, hasks.lt⟩) hedge hasks.start_lt hreaches
    exact ⟨edge', hedge', hle.trans_lt hasks.start_lt⟩
  · cases heligible : reading.eligible with
    | false => exact .inl rfl
    | true =>
        cases hedge : provenEdge reading.marker with
        | none => exact .inr (.inl rfl)
        | some edge =>
            obtain hle | habove := le_or_gt edge (yearHistoryTarget reading.now)
            · exact .inr (.inr ⟨edge, rfl, hle⟩)
            · exact absurd hnone (nextPortion_ne_none planned.whole heligible hedge
                (late edge hedge) habove idle (cool edge hedge))

/-- An hour is proven, up to now. -/
def lastHour : Marker where
  state := .reconciled
  dateFrom := some (-hour)
  reconciledUntil := some 0
  validUntil := none
  freshUntil := 0
  updatedAt := 0
  source := none

/-- The first turn for a seller with one hour of orders. -/
def lastHourReading (eligible : Bool) : Reading := ⟨eligible, some lastHour, fun _ _ => 0, 0⟩

theorem yearHistory_walks_thirtyDays :
    (nextPortion "1" .orders .empty (lastHourReading true) =
      .ok (some (.yearHistory "1" .orders (-2595600000) (-3600000)))) ∧ Blocks lastHour := by
  refine ⟨by decide +kernel, (yearHistory_walks "1" .orders .empty (lastHourReading true) lastHour
    (.start fun _ mem => by cases mem) rfl fun edge hedge => ?_).1⟩
  have hlast : provenEdge (lastHourReading true).marker = some (-hour) := by decide +kernel
  rw [← Option.some.inj (hlast.symm.trans hedge)]
  decide

/-- A seller that is not eligible rests above the target. -/
theorem yearHistory_rests_not_eligible : ¬ ∀ (sellerId : String) (source : Source) (jobs : Jobs)
    (reading : Reading), Planned sellerId source jobs →
      (∀ edge, provenEdge reading.marker = some edge → edge ≤ reading.now) →
      (∀ job ∈ jobs.docs, isPortion sellerId source job = true →
        job.state ≠ .pending ∧ job.state ≠ .running) →
      (∀ edge, provenEdge reading.marker = some edge →
        ¬ CoolsDown jobs sellerId source (stopAt edge reading.now) reading.now) →
      nextPortion sellerId source jobs reading = .ok none →
        provenEdge reading.marker = none ∨ ∃ edge, provenEdge reading.marker = some edge ∧
          edge ≤ yearHistoryTarget reading.now := by
  intro h
  have hlast : provenEdge (lastHourReading false).marker = some (-hour) := by decide +kernel
  have hrests := h "1" .orders .empty (lastHourReading false) (.start fun _ mem => by cases mem)
    (fun edge hedge => by
      rw [← Option.some.inj (hlast.symm.trans hedge)]
      decide)
    (fun _ mem => by cases mem) (fun _ _ ⟨_, hlatest, _⟩ => by cases hlatest) rfl
  obtain hnone | ⟨edge, hedge, hle⟩ := hrests
  · rw [hlast] at hnone
    cases hnone
  · rw [← Option.some.inj (hlast.symm.trans hedge)] at hle
    exact absurd hle (by decide)

end ZelerPlatform.History.YearHistory
