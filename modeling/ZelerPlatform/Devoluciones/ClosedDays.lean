import Mathlib.Tactic.Ring
import ZelerPlatform.Devoluciones.Commits
import ZelerPlatform.Devoluciones.Planning
import ZelerPlatform.Devoluciones.ProofVector
import ZelerPlatform.Library.Tiling

/-!
# Gap-free coverage on closed days

The certificates that no intraday run has published tile one interval from a midnight to a
settled midnight, as long as every other publication finds the coverage where its planner
found it. The planners read the two ends of the interval, so what they admit abuts it; a
publication then extends the tiling or takes the place of a tile.
-/

namespace ZelerPlatform.Devoluciones

open Mongo Mongo.Value Fallible Transition

/-! ### Instants -/

section

variable {t u now : Int}

theorem floorMs_midnight (h : midnight t = t) : floorMs t = t := by
  unfold midnight dayMicros hourMicros at h
  unfold floorMs
  omega

@[simp] theorem midnight_midnight : midnight (midnight t) = midnight t := by
  unfold midnight dayMicros hourMicros
  omega

theorem midnight_mono (h : t ≤ u) : midnight t ≤ midnight u := by
  unfold midnight dayMicros hourMicros
  omega

theorem midnight_add_days (h : midnight t = t) (n : Int) :
    midnight (t + n * dayMicros) = t + n * dayMicros := by
  unfold midnight at h ⊢
  rw [Int.add_mul_ediv_right _ _ (by decide), add_mul, h]

theorem settledMidnight_mono (h : t ≤ u) : settledMidnight t ≤ settledMidnight u :=
  midnight_mono (by omega)

theorem midnight_settledMidnight : midnight (settledMidnight t) = settledMidnight t :=
  midnight_midnight

/-- A tail runs from where the coverage ends to a settled midnight, ten days at most. -/
theorem ordinaryTailBounds_ok {coverageEnd : Int} {bounds : Int × Int}
    (h : ordinaryTailBounds (some coverageEnd) now = some bounds)
    (closed : midnight coverageEnd = coverageEnd) :
    bounds.1 = coverageEnd ∧ bounds.1 < bounds.2 ∧ bounds.2 ≤ bounds.1 + ordinaryTailMax ∧
      midnight bounds.2 = bounds.2 ∧ bounds.2 ≤ settledMidnight now := by
  have hdays : midnight (coverageEnd + ordinaryTailMax) = coverageEnd + ordinaryTailMax :=
    midnight_add_days closed 10
  simp only [ordinaryTailBounds, Option.bind_some] at h
  split at h
  · next hlt =>
      obtain rfl := (Option.some.inj h).symm
      refine ⟨rfl, hlt, min_le_right _ _, ?_, min_le_left _ _⟩
      obtain hmin | hmin := min_choice (settledMidnight now) (coverageEnd + ordinaryTailMax)
      · simp only [hmin, midnight_settledMidnight]
      · simp only [hmin, hdays]
  · cases h

/-- An intraday run starts at the midnight of a settled instant and ends within that day. -/
theorem intradayBounds_ok {bounds : Int × Int} (h : intradayBounds now = some bounds) :
    midnight bounds.1 = bounds.1 ∧ settledMidnight now ≤ bounds.1 ∧ bounds.1 < bounds.2 ∧
      bounds.2 < bounds.1 + dayMicros ∧ floorMs bounds.2 = bounds.2 ∧
      midnight bounds.2 ≠ bounds.2 := by
  unfold intradayBounds intradaySettle intradayStep at h
  unfold settledMidnight ordinaryTailSettle
  simp only at h
  split at h
  · next hlt =>
      obtain rfl := (Option.some.inj h).symm
      simp only [midnight_midnight, true_and]
      unfold midnight dayMicros hourMicros floorMs at *
      omega
  · cases h

/-- A year window ends where the coverage starts, and starts at a midnight. -/
theorem yearHistoryBounds_ok {oldest : Int} {bounds : Int × Int}
    (h : yearHistoryBounds (some oldest) now = some bounds) (first : midnight oldest = oldest) :
    midnight bounds.1 = bounds.1 ∧ bounds.1 < bounds.2 ∧
      bounds.2 ≤ bounds.1 + ordinaryTailMax ∧ bounds.2 = oldest := by
  have hdays : midnight (oldest - ordinaryTailMax) = oldest - ordinaryTailMax := by
    have := midnight_add_days first (-10)
    rwa [show oldest + -10 * dayMicros = oldest - ordinaryTailMax by
      unfold ordinaryTailMax
      ring] at this
  simp only [yearHistoryBounds, Option.bind_some] at h
  split at h
  · next hlt =>
      obtain rfl := (Option.some.inj h).symm
      have hmax := le_max_right (yearHistoryTarget now) (oldest - ordinaryTailMax)
      refine ⟨?_, hlt, by simp only; omega, rfl⟩
      obtain h' | h' := max_choice (yearHistoryTarget now) (oldest - ordinaryTailMax)
      · rw [h']
        exact midnight_midnight
      · rw [h']
        exact hdays
  · cases h

/-- The windows of a run that starts at a midnight do so too, and last ten days at most. -/
theorem partitionWindows_bounds {start stop : Int} {window : Nat × Int × Int}
    (h : window ∈ partitionWindows start stop) (opens : midnight start = start)
    (aligned : floorMs stop = stop) :
    midnight window.2.1 = window.2.1 ∧ floorMs window.2.2 = window.2.2 ∧
      window.2.1 < window.2.2 ∧ window.2.2 ≤ window.2.1 + ordinaryTailMax := by
  obtain ⟨index, hindex, rfl⟩ := List.mem_map.mp h
  have hlt := List.mem_range.mp hindex
  have hopens (n : Int) : midnight (start + n * windowLength) = start + n * windowLength := by
    have := midnight_add_days opens (10 * n)
    rwa [show 10 * n * dayMicros = n * windowLength by
      unfold windowLength dayMicros hourMicros
      ring] at this
  refine ⟨hopens index, ?_, ?_, ?_⟩
  · obtain hmin | hmin := min_choice (start + (index + 1) * windowLength) stop
    · rw [hmin]
      exact floorMs_midnight (hopens (index + 1))
    · rw [hmin]
      exact aligned
  · show start + index * windowLength < min (start + (index + 1) * windowLength) stop
    unfold windowLength at hlt ⊢
    omega
  · show min (start + (index + 1) * windowLength) stop ≤
      start + index * windowLength + ordinaryTailMax
    unfold windowLength ordinaryTailMax dayMicros hourMicros
    omega

end

section

variable {digests : Digests} {sellerId : String} {db db' : Coverage} {epoch : Int}

/-! ### Certificates of closed days -/

theorem isIntradayCertificate_iff {c : CertificateDoc} :
    isIntradayCertificate sellerId db c = true ↔ c.kind = "quota_run" ∧
      ∃ run ∈ db.runs.docs, run.id = c.sourceIdentity ∧ run.sellerId = sellerId ∧
        run.authorizationId = intradayAuthorization := by
  simp only [isIntradayCertificate, Bool.and_eq_true, beq_iff_eq, Option.any_eq_true]
  refine and_congr_right fun _ => ⟨?_, ?_⟩
  · rintro ⟨run, hrun, hauthorization⟩
    obtain ⟨mem, hmatch⟩ := Collection.findOne_mem hrun
    simp only [Bool.and_eq_true, beq_iff_eq] at hmatch
    exact ⟨run, mem, hmatch.1, hmatch.2, hauthorization⟩
  · rintro ⟨run, mem, hid, hseller, hauthorization⟩
    cases hfind : db.runs.findOne fun run => run.id == c.sourceIdentity &&
        run.sellerId == sellerId with
    | none =>
        have := Collection.findOne_none hfind mem
        simp [hid, hseller] at this
    | some found =>
        obtain ⟨hmem, hmatch⟩ := Collection.findOne_mem hfind
        simp only [Bool.and_eq_true, beq_iff_eq] at hmatch
        obtain rfl := Collection.eq_of_key hmem mem (hmatch.1.trans hid.symm)
        exact ⟨found, rfl, hauthorization⟩

/-- The runs that are stored are about the same. -/
def SameRuns (db db' : Coverage) : Prop :=
  db'.runs.docs.map (fun run => (run.id, run.binding)) =
    db.runs.docs.map fun run => (run.id, run.binding)

theorem SameRuns.symm (h : SameRuns db db') : SameRuns db' db := Eq.symm h

theorem SameRuns.mem (h : SameRuns db db') {run : RunDoc} (mem : run ∈ db.runs.docs) :
    ∃ run' ∈ db'.runs.docs, run'.id = run.id ∧ run'.binding = run.binding := by
  have hmem : (run.id, run.binding) ∈ db'.runs.docs.map fun run => (run.id, run.binding) := by
    rw [h]
    exact List.mem_map_of_mem mem
  obtain ⟨run', hrun', heq⟩ := List.mem_map.mp hmem
  exact ⟨run', hrun', congrArg Prod.fst heq, congrArg Prod.snd heq⟩

theorem SameRuns.intraday (h : SameRuns db db') (c : CertificateDoc) :
    isIntradayCertificate sellerId db' c = isIntradayCertificate sellerId db c := by
  have transfer {db db' : Coverage} (h : SameRuns db db')
      (hc : isIntradayCertificate sellerId db c = true) :
      isIntradayCertificate sellerId db' c = true := by
    obtain ⟨hkind, run, mem, hid, hseller, hauthorization⟩ := isIntradayCertificate_iff.mp hc
    obtain ⟨run', mem', hid', hbinding⟩ := h.mem mem
    exact isIntradayCertificate_iff.mpr ⟨hkind, run', mem', hid'.trans hid,
      (congrArg RunBinding.sellerId hbinding).trans hseller,
      (congrArg RunBinding.authorizationId hbinding).trans hauthorization⟩
  exact Bool.eq_iff_iff.mpr ⟨transfer h.symm, transfer h⟩

theorem isIntradayCertificate_congr {c d : CertificateDoc} (h : c.placement = d.placement) :
    isIntradayCertificate sellerId db c = isIntradayCertificate sellerId db d := by
  have hkind : c.kind = d.kind := congrArg Placement.kind h
  have hsource : c.sourceIdentity = d.sourceIdentity := congrArg Placement.sourceIdentity h
  rw [Bool.eq_iff_iff, isIntradayCertificate_iff, isIntradayCertificate_iff, hkind, hsource]

/-- What the certificates of closed days are about. -/
def closedDays (sellerId : String) (db : Coverage) (epoch : Int) : Set Placement :=
  {p | ∃ c ∈ db.certificates.docs, c.placement = p ∧ ofEpoch sellerId epoch c = true ∧
    isIntradayCertificate sellerId db c = false}

/-- Another certificate is skipped, so fewer are left. -/
theorem countP_skipped_lt {skipped : List String} {c : CertificateDoc} {cs : List CertificateDoc}
    (mem : c ∈ cs) (hskipped : c.id ∉ skipped) :
    cs.countP (fun d => decide (d.id ∉ c.id :: skipped)) <
      cs.countP fun d => decide (d.id ∉ skipped) := by
  have hfilter : cs.filter (fun d => decide (d.id ∉ c.id :: skipped)) =
      (cs.filter fun d => decide (d.id ∉ skipped)).filter fun d => decide (d.id ≠ c.id) := by
    rw [List.filter_filter]
    refine List.filter_congr fun d _ => ?_
    simp [List.mem_cons, not_or]
  rw [List.countP_eq_length_filter, List.countP_eq_length_filter, hfilter,
    List.length_filter_lt_length_iff_exists]
  exact ⟨c, List.mem_filter.mpr ⟨mem, by simpa using hskipped⟩, by simp⟩

/-- The loop returns the latest end of the certificates it has not skipped and that are no
intraday ones, once it may skip all the others. -/
theorem fullDayCoverageEndFrom_some {fuel : Nat} {skipped : List String} {c : CertificateDoc}
    (mem : c ∈ db.certificates.docs) (hepoch : ofEpoch sellerId epoch c = true)
    (closed : isIntradayCertificate sellerId db c = false) (hskipped : c.id ∉ skipped)
    (intraday : ∀ d ∈ db.certificates.docs, d.id ∈ skipped →
      isIntradayCertificate sellerId db d = true)
    (hfuel : db.certificates.docs.countP (fun d => decide (d.id ∉ skipped)) < fuel) :
    ∃ d ∈ db.certificates.docs, ofEpoch sellerId epoch d = true ∧
      isIntradayCertificate sellerId db d = false ∧ c.dateTo ≤ d.dateTo ∧
      fullDayCoverageEndFrom sellerId db epoch fuel skipped = some d.dateTo := by
  induction fuel generalizing skipped with
  | zero => omega
  | succ fuel ih =>
      have hc : (ofEpoch sellerId epoch c && decide (c.id ∉ skipped)) = true := by
        simp [hepoch, hskipped]
      rw [fullDayCoverageEndFrom]
      cases hlatest : db.certificates.findFirst
          (fun c => ofEpoch sellerId epoch c && decide (c.id ∉ skipped)) (fun c => -c.dateTo) with
      | none =>
          have hnil := List.argmin_eq_none.mp hlatest
          have : c ∈ db.certificates.find
              (fun c => ofEpoch sellerId epoch c && decide (c.id ∉ skipped)) :=
            Collection.find_mem.mpr ⟨mem, hc⟩
          rw [hnil] at this
          cases this
      | some latest =>
          obtain ⟨hmem, hfound⟩ := Collection.findFirst_mem hlatest
          simp only [Bool.and_eq_true, decide_eq_true_eq] at hfound
          have hle : -latest.dateTo ≤ -c.dateTo :=
            List.le_of_mem_argmin (f := fun c : CertificateDoc => -c.dateTo)
              (Collection.find_mem.mpr ⟨mem, hc⟩) hlatest
          cases hintraday : isIntradayCertificate sellerId db latest with
          | false => exact ⟨latest, hmem, hfound.1, hintraday, by omega, by simp [hintraday]⟩
          | true =>
              have hne : c.id ≠ latest.id := by
                intro heq
                obtain rfl := Collection.eq_of_key mem hmem heq
                rw [hintraday] at closed
                cases closed
              simp only [hintraday, if_true]
              refine ih (by simp [hne, hskipped]) ?_ ?_
              · intro d hd hin
                cases List.mem_cons.mp hin with
                | inl heq =>
                    obtain rfl := Collection.eq_of_key hd hmem heq
                    exact hintraday
                | inr hin => exact intraday d hd hin
              · have hless := countP_skipped_lt hmem hfound.2
                omega

section

variable {lo hi : Int}

/-- The daily tail continues where the tiling ends. -/
theorem fullDayCoverageEnd_eq
    (tiles : Tiles (closedDays sellerId db epoch) Placement.dateFrom Placement.dateTo lo hi)
    (wide : lo < hi) : fullDayCoverageEnd sellerId db epoch = some hi := by
  have reads (c : CertificateDoc) (mem : c ∈ db.certificates.docs)
      (hepoch : ofEpoch sellerId epoch c = true)
      (closed : isIntradayCertificate sellerId db c = false) :
      ∃ d ∈ db.certificates.docs, ofEpoch sellerId epoch d = true ∧
        isIntradayCertificate sellerId db d = false ∧ c.dateTo ≤ d.dateTo ∧
        fullDayCoverageEnd sellerId db epoch = some d.dateTo :=
    fullDayCoverageEndFrom_some mem hepoch closed List.not_mem_nil
      (fun _ _ h => absurd h List.not_mem_nil) (Nat.lt_succ_of_le List.countP_le_length)
  obtain ⟨_, ⟨c, mem, rfl, hepoch, closed⟩, -⟩ := tiles.exists_first wide
  obtain ⟨d, hd, hdepoch, hdclosed, -, hread⟩ := reads c mem hepoch closed
  have hlast : d.dateTo = hi := by
    refine tiles.stop_of_last (b := d.placement) ⟨d, hd, rfl, hdepoch, hdclosed⟩ ?_
    rintro _ ⟨c', mem', rfl, hepoch', closed'⟩
    obtain ⟨d', -, -, -, hle, hread'⟩ := reads c' mem' hepoch' closed'
    have heq : d'.dateTo = d.dateTo := Option.some.inj (hread'.symm.trans hread)
    exact hle.trans heq.le
  rw [← hlast]
  exact hread

/-- The year history continues where the tiling starts. -/
theorem oldestDateFrom_eq
    (tiles : Tiles (closedDays sellerId db epoch) Placement.dateFrom Placement.dateTo lo hi)
    (wide : lo < hi) (later : ∀ c ∈ db.certificates.docs, lo ≤ c.dateFrom) :
    oldestDateFrom sellerId db epoch = some lo := by
  obtain ⟨_, ⟨c, mem, rfl, hepoch, -⟩, hfirst⟩ := tiles.exists_first wide
  unfold oldestDateFrom
  cases holdest : db.certificates.findFirst (ofEpoch sellerId epoch) CertificateDoc.dateFrom with
  | none =>
      have hnil := List.argmin_eq_none.mp holdest
      have hfound := Collection.find_mem.mpr ⟨mem, hepoch⟩
      rw [hnil] at hfound
      cases hfound
  | some oldest =>
      have hle : oldest.dateFrom ≤ c.dateFrom :=
        List.le_of_mem_argmin (Collection.find_mem.mpr ⟨mem, hepoch⟩) holdest
      have hge := later oldest (Collection.findFirst_mem holdest).1
      exact congrArg some (le_antisymm (hle.trans hfirst.le) hge)

end

/-! ### Publication -/

/-- A certificate that the one of a run replaces. -/
def Replaced (sellerId : String) (run : RunDoc) (db : Coverage) (c : CertificateDoc) : Prop :=
  c.sellerId = sellerId ∧ c.kind = "quota_run" ∧ c.coverageEpoch = db.epoch ∧
    run.start ≤ c.dateFrom ∧ c.dateTo ≤ run.stop ∧
    (c.dateFrom = run.start ∧ c.dateTo = run.stop ∨ isIntradayCertificate sellerId db c = true)

/-- What a publication leaves of the certificates: the one of the run, and those that it does
not replace. -/
structure Publication (sellerId : String) (run : RunDoc) (db db' : Coverage)
    (kept : CertificateDoc) : Prop where
  seller : kept.sellerId = sellerId
  kind : kept.kind = "quota_run"
  source : kept.sourceIdentity = run.id
  dateFrom : kept.dateFrom = run.start
  dateTo : kept.dateTo = run.stop
  epoch : kept ∈ db.certificates.docs ∨ kept.coverageEpoch = db.epoch
  mem : ∀ c, c ∈ db'.certificates.docs ↔
    c = kept ∨ c ∈ db.certificates.docs ∧ ¬ Replaced sellerId run db c

theorem makeCertificate_ok {kind sourceIdentity : String} {evidence : Evidence}
    {dateFrom dateTo acquiredAt epoch clock : Int} {membershipHash fingerprint : String}
    {c : CertificateDoc}
    (h : makeCertificate digests sellerId kind sourceIdentity evidence dateFrom dateTo acquiredAt
      membershipHash fingerprint epoch clock = .ok c) :
    c.sellerId = sellerId ∧ c.kind = kind ∧ c.sourceIdentity = sourceIdentity ∧
      c.dateFrom = dateFrom ∧ c.dateTo = dateTo ∧ dateFrom < dateTo := by
  unfold makeCertificate at h
  obtain ⟨hbounds, h⟩ := raiseIf_ok h
  obtain ⟨-, h⟩ := raiseIf_ok h
  obtain ⟨id, -, h⟩ := bind_ok h
  obtain rfl := pure_ok h
  exact ⟨rfl, rfl, rfl, rfl, rfl, (not_not.mp hbounds).1⟩

/-- A published certificate is of the current epoch; one that is there already has the same
source. -/
theorem publishCertificate_ok {ctx : Context} {document : CertificateDoc} {now clock : Int}
    (h : publishCertificate digests ctx document now clock db = .ok db') :
    document.coverageEpoch = db.epoch ∧
      ((∃ certificates, db.certificates.insert document.stored = some certificates ∧
        db' = { db with certificates := certificates }) ∨
      ∃ existing ∈ db.certificates.docs, existing.id = document.id ∧
        existing.sameSource document = true ∧ db' = db) := by
  unfold publishCertificate at h
  obtain ⟨-, h⟩ := raiseIf_ok h
  obtain ⟨-, h⟩ := raiseIf_ok h
  obtain ⟨-, -, h⟩ := bind_ok h
  obtain ⟨hepoch, h⟩ := raiseIf_ok h
  obtain ⟨-, -, h⟩ := bind_ok h
  refine ⟨not_not.mp hepoch, ?_⟩
  split at h
  · next certificates hinsert => exact .inl ⟨certificates, hinsert, (pure_ok h).symm⟩
  · next hinsert =>
      obtain ⟨hconflict, h⟩ := raiseIf_ok h
      obtain ⟨existing, hexisting⟩ := Collection.insert_eq_none.mp hinsert
      obtain ⟨mem, hid⟩ := Collection.byKey_some.mp hexisting
      have hkey : db.certificates.byKey document.id = some existing := hexisting
      rw [hkey] at hconflict
      exact .inr ⟨existing, mem, hid, by simpa using hconflict, (pure_ok h).symm⟩

theorem mem_retire {document c : CertificateDoc} :
    c ∈ (retireSupersededIntradayCertificates document db).certificates.docs ↔
      c ∈ db.certificates.docs ∧ superseded document db c = false := by
  unfold retireSupersededIntradayCertificates
  rw [mem_erase_all]
  refine and_congr_right fun mem => ?_
  rw [← Bool.not_eq_true, not_iff_not]
  constructor
  · intro hin
    obtain ⟨d, hd, hid⟩ := List.mem_map.mp hin
    obtain ⟨hdmem, hsuperseded⟩ := Collection.find_mem.mp hd
    obtain rfl := Collection.eq_of_key hdmem mem hid
    exact hsuperseded
  · intro hsuperseded
    exact List.mem_map_of_mem (Collection.find_mem.mpr ⟨mem, hsuperseded⟩)

theorem superseded_iff {document c : CertificateDoc} (hstart : floorMs document.dateFrom =
    document.dateFrom) (hstop : floorMs document.dateTo = document.dateTo) :
    superseded document db c = true ↔ c.id ≠ document.id ∧ c.sellerId = document.sellerId ∧
      c.kind = "quota_run" ∧ c.coverageEpoch = document.coverageEpoch ∧
      document.dateFrom ≤ c.dateFrom ∧ c.dateTo ≤ document.dateTo ∧
      (c.dateFrom = document.dateFrom ∧ c.dateTo = document.dateTo ∨
        isIntradayCertificate document.sellerId db c = true) := by
  simp only [superseded, hstart, hstop, Bool.and_eq_true, Bool.or_eq_true, beq_iff_eq,
    bne_iff_ne, decide_eq_true_eq]
  tauto

theorem completeRun_sameRuns {ctx : Context} {run : RunDoc} {clock : Int} :
    SameRuns db (db.completeRun ctx run clock) := by
  unfold SameRuns Coverage.completeRun Collection.update
  simp only [List.map_map]
  refine List.map_congr_left fun r _ => ?_
  simp only [Function.comp_apply]
  split <;> rfl

theorem retire_sameRuns {document : CertificateDoc} :
    SameRuns db (retireSupersededIntradayCertificates document db) := rfl

/-- The certificate of a run is stored, and what it replaces is erased. -/
theorem publishQuotaCertificate_ok {ctx : Context} (run : RunDoc) {windows : List WindowDoc}
    {now clock clock' : Int} (seller : ctx.sellerId = sellerId)
    (hstart : floorMs run.start = run.start) (hstop : floorMs run.stop = run.stop)
    (h : publishQuotaCertificate digests ctx run windows now clock clock' db = .ok db') :
    SameRuns db db' ∧ db'.windows = db.windows ∧ db'.epoch = db.epoch ∧
      ∃ kept, Publication sellerId run db db' kept := by
  unfold publishQuotaCertificate at h
  obtain ⟨evidence, -, h⟩ := bind_ok h
  obtain ⟨-, -, h⟩ := bind_ok h
  obtain ⟨facts, -, h⟩ := bind_ok h
  obtain ⟨document, hdocument, h⟩ := bind_ok h
  obtain ⟨published, hpublished, h⟩ := bind_ok h
  obtain rfl := pure_ok h
  obtain ⟨hds, hdk, hdsource, hdfrom, hdto, -⟩ := makeCertificate_ok hdocument
  rw [seller] at hds
  have hfrom : floorMs document.dateFrom = document.dateFrom := by rw [hdfrom, hstart]
  have hto : floorMs document.dateTo = document.dateTo := by rw [hdto, hstop]
  obtain ⟨hepoch, hcases⟩ := publishCertificate_ok hpublished
  have hreplaced {db : Coverage} (c : CertificateDoc) (hdb : document.coverageEpoch = db.epoch) :
      superseded document db c = true ↔ c.id ≠ document.id ∧ Replaced sellerId run db c := by
    rw [superseded_iff hfrom hto, hds, hdb, hdfrom, hdto]
    rfl
  obtain ⟨certificates, hinsert, rfl⟩ | ⟨existing, mem, hid, hsame, rfl⟩ := hcases
  · refine ⟨rfl, rfl, rfl, document.stored, ?_⟩
    refine ⟨hds, hdk, hdsource, hfrom.trans hdfrom, hto.trans hdto, .inr hepoch, fun c => ?_⟩
    have hfresh : ∀ c ∈ db.certificates.docs, c.id ≠ document.id := by
      intro c hc heq
      have hnone : db.certificates.insert document.stored = none :=
        Collection.insert_eq_none.mpr ⟨c, Collection.byKey_some.mpr ⟨hc, heq⟩⟩
      rw [hinsert] at hnone
      cases hnone
    have hsuperseded : superseded document { db with certificates := certificates } c = true ↔
        c.id ≠ document.id ∧ Replaced sellerId run db c := hreplaced c hepoch
    rw [mem_retire, Collection.mem_insert hinsert, ← Bool.not_eq_true, hsuperseded]
    constructor
    · rintro ⟨hc | rfl, hno⟩
      · exact .inr ⟨hc, fun h => hno ⟨hfresh c hc, h⟩⟩
      · exact .inl rfl
    · rintro (rfl | ⟨hc, hno⟩)
      · exact ⟨.inr rfl, fun h => h.1 rfl⟩
      · exact ⟨.inl hc, fun h => hno h.2⟩
  · refine ⟨rfl, rfl, rfl, existing, ?_⟩
    simp only [CertificateDoc.sameSource, Bool.and_eq_true, beq_iff_eq] at hsame
    obtain ⟨⟨⟨⟨⟨⟨⟨hes, hek⟩, hefrom⟩, heto⟩, hesource⟩, -⟩, -⟩, -⟩ := hsame
    refine ⟨hes.trans hds, hek.trans hdk, hesource.trans hdsource, hefrom.trans hdfrom,
      heto.trans hdto, .inl mem, fun c => ?_⟩
    rw [mem_retire, ← Bool.not_eq_true, hreplaced c hepoch]
    constructor
    · rintro ⟨hc, hno⟩
      by_cases heq : c.id = document.id
      · exact .inl (Collection.eq_of_key hc mem (heq.trans hid.symm))
      · exact .inr ⟨hc, fun h => hno ⟨heq, h⟩⟩
    · rintro (rfl | ⟨hc, hno⟩)
      · exact ⟨mem, fun h => h.1 hid⟩
      · exact ⟨hc, fun h => hno h.2⟩

/-- The transaction that completes a run publishes its certificate, or none in legacy mode. -/
theorem finalizeQuotaRun_ok {ctx : Context} {run : RunDoc} {windows : List WindowDoc}
    {now clock clock' : Int} (seller : ctx.sellerId = sellerId)
    (hstart : floorMs run.start = run.start) (hstop : floorMs run.stop = run.stop)
    (h : finalizeQuotaRun digests ctx run windows now clock clock' db = .ok db') :
    SameRuns db db' ∧ db'.windows = db.windows ∧ db'.epoch = db.epoch ∧
      (db'.certificates = db.certificates ∨ ∃ kept, Publication sellerId run db db' kept) := by
  unfold finalizeQuotaRun at h
  obtain ⟨-, h⟩ := raiseIf_ok h
  split at h
  · obtain ⟨hruns, hwindows, hepoch, kept, hkept⟩ :=
      publishQuotaCertificate_ok { run with state := "completed" } seller hstart hstop h
    refine ⟨hruns.trans completeRun_sameRuns, hwindows, hepoch, .inr ⟨kept, ?_⟩⟩
    refine ⟨hkept.seller, hkept.kind, hkept.source, hkept.dateFrom, hkept.dateTo, hkept.epoch,
      fun c => ?_⟩
    have hintraday : isIntradayCertificate sellerId (db.completeRun ctx run clock) c =
        isIntradayCertificate sellerId db c := completeRun_sameRuns.intraday c
    rw [hkept.mem c]
    unfold Replaced
    rw [hintraday]
    rfl
  · rw [← pure_ok h]
    exact ⟨completeRun_sameRuns, rfl, rfl, .inl rfl⟩

/-! ### The invariant -/

/-- What the certificates of a store are about. -/
def Coverage.placements (db : Coverage) : List Placement :=
  db.certificates.docs.map CertificateDoc.placement

/-- What holds of the runs of the planners and of those that have published. -/
structure RunFacts (sellerId : String) (lo clock : Int) (b : RunBinding) : Prop where
  seller : b.sellerId = sellerId
  opens : midnight b.start = b.start
  aligned : floorMs b.stop = b.stop
  proper : b.start < b.stop
  tail : b.authorizationId = ordinaryTailAuthorization →
    midnight b.stop = b.stop ∧ b.stop ≤ settledMidnight clock
  intraday : b.authorizationId = intradayAuthorization → lo ≤ b.start ∧ midnight b.stop ≠ b.stop

/-- The certificates of closed days tile the days from `lo` up to `hi`. -/
structure Contiguous (sellerId : String) (epoch : Int) (p : Planner) (lo hi : Int) : Prop where
  tiles : Tiles (closedDays sellerId p.coverage epoch) Placement.dateFrom Placement.dateTo lo hi
  wide : lo < hi
  first : midnight lo = lo
  last : midnight hi = hi
  settled : hi ≤ settledMidnight p.clock
  current : p.coverage.epoch = epoch
  closes : ∀ c ∈ closedDays sellerId p.coverage epoch, midnight c.dateTo = c.dateTo
  certificates : ∀ c ∈ p.coverage.placements, c.sellerId = sellerId ∧ c.coverageEpoch = epoch ∧
    c.kind = "quota_run" ∧ lo ≤ c.dateFrom ∧
    ∃ run ∈ p.coverage.runs.docs, run.id = c.sourceIdentity
  runs : ∀ run ∈ p.coverage.runs.docs, (run.authorizationId ∈ plannedAuthorizations ∨
    ∃ c ∈ p.coverage.placements, c.sourceIdentity = run.id) →
      RunFacts sellerId lo p.clock run.binding
  windows : ∀ window ∈ p.coverage.windows, p.coverage.Partitioned window

theorem RunFacts.mono {lo lo' clock clock' : Int} {b : RunBinding}
    (h : RunFacts sellerId lo clock b) (hlo : lo' ≤ lo) (hclock : clock ≤ clock') :
    RunFacts sellerId lo' clock' b where
  seller := h.seller
  opens := h.opens
  aligned := h.aligned
  proper := h.proper
  tail tail := ⟨(h.tail tail).1, (h.tail tail).2.trans (settledMidnight_mono hclock)⟩
  intraday intraday := ⟨hlo.trans (h.intraday intraday).1, (h.intraday intraday).2⟩

theorem closedDays_congr (hruns : SameRuns db db') (hplaces : db'.placements = db.placements) :
    closedDays sellerId db' epoch = closedDays sellerId db epoch := by
  have transfer {db db' : Coverage} (hruns : SameRuns db db')
      (hplaces : db'.placements = db.placements) :
      closedDays sellerId db epoch ⊆ closedDays sellerId db' epoch := by
    rintro _ ⟨c, mem, rfl, hepoch, hclosed⟩
    have hin : c.placement ∈ db'.placements := by
      rw [hplaces]
      exact List.mem_map_of_mem mem
    obtain ⟨d, hd, hplace⟩ := List.mem_map.mp hin
    refine ⟨d, hd, hplace, ?_, ?_⟩
    · have hseller : d.sellerId = c.sellerId := congrArg Placement.sellerId hplace
      have hepoch' : d.coverageEpoch = c.coverageEpoch := congrArg Placement.coverageEpoch hplace
      rw [ofEpoch, hseller, hepoch']
      exact hepoch
    · rw [isIntradayCertificate_congr hplace, hruns.intraday]
      exact hclosed
  exact (transfer hruns.symm hplaces.symm).antisymm (transfer hruns hplaces)

theorem Contiguous.advance {p q : Planner} {lo hi : Int}
    (h : Contiguous sellerId epoch p lo hi) (step : Advances p q) :
    Contiguous sellerId epoch q lo hi := by
  have hruns : SameRuns p.coverage q.coverage := step.runs
  have hplaces : q.coverage.placements = p.coverage.placements := step.certificates
  have hclosed : closedDays sellerId q.coverage epoch = closedDays sellerId p.coverage epoch :=
    closedDays_congr hruns hplaces
  refine ⟨hclosed ▸ h.tiles, h.wide, h.first, h.last,
    h.settled.trans (settledMidnight_mono step.clock), step.epoch.trans h.current,
    hclosed ▸ h.closes, ?_, ?_, step.windows⟩
  · intro c mem
    obtain ⟨hseller, hepoch, hkind, hlo, run, hrun, hid⟩ := h.certificates c (hplaces ▸ mem)
    obtain ⟨run', hrun', hid', -⟩ := hruns.mem hrun
    exact ⟨hseller, hepoch, hkind, hlo, run', hrun', hid'.trans hid⟩
  · intro run mem hrelevant
    obtain ⟨run', mem', hid, hbinding⟩ := hruns.symm.mem mem
    have hauthorization : run'.authorizationId = run.authorizationId :=
      congrArg RunBinding.authorizationId hbinding
    rw [← hbinding]
    refine (h.runs run' mem' ?_).mono le_rfl step.clock
    rw [hauthorization, hid, ← hplaces]
    exact hrelevant

/-! ### Admission -/

theorem tail_ne_intraday : ordinaryTailAuthorization ≠ intradayAuthorization := by decide

theorem year_ne_tail : yearHistoryAuthorization ≠ ordinaryTailAuthorization := by decide

theorem year_ne_intraday : yearHistoryAuthorization ≠ intradayAuthorization := by decide

theorem certificateMode_epoch {mode : Int} (h : certificateMode db.operation = some mode) :
    mode = db.epoch := by
  obtain ⟨operation, hoperation, hmode⟩ := Option.bind_eq_some_iff.mp h
  split at hmode
  · simp [Coverage.epoch, Coverage.view, Db.epoch, hoperation, hmode]
  · cases hmode

variable {p : Planner} {lo hi : Int}

theorem Contiguous.coverageEnd (h : Contiguous sellerId epoch p lo hi) :
    fullDayCoverageEnd sellerId p.coverage epoch = some hi := fullDayCoverageEnd_eq h.tiles h.wide

theorem Contiguous.oldest (h : Contiguous sellerId epoch p lo hi) :
    oldestDateFrom sellerId p.coverage epoch = some lo :=
  oldestDateFrom_eq h.tiles h.wide fun _ mem =>
    (h.certificates _ (List.mem_map_of_mem mem)).2.2.2.1

/-- The windows read again are those of runs that have published. -/
theorem Contiguous.recheck (h : Contiguous sellerId epoch p lo hi) {bounds : Int × Int}
    (hrecheck : yearHistoryPendingRecheck sellerId p epoch = some bounds) :
    midnight bounds.1 = bounds.1 ∧ floorMs bounds.2 = bounds.2 ∧ bounds.1 < bounds.2 ∧
      bounds.2 ≤ bounds.1 + ordinaryTailMax := by
  obtain ⟨window, hfind, rfl⟩ := Option.map_eq_some_iff.mp hrecheck
  have mem := List.mem_of_find?_eq_some hfind
  rw [yearHistoryPendingWindows, List.mem_insertionSort, List.mem_filter, Bool.and_eq_true,
    decide_eq_true_eq] at mem
  obtain ⟨hwindow, hrunId, -⟩ := mem
  obtain ⟨c, hc, hsource⟩ := List.mem_map.mp hrunId
  obtain ⟨run, hrun, hid, hpart⟩ := h.windows window hwindow
  have facts := h.runs run hrun (.inr ⟨c.placement,
    List.mem_map_of_mem (Collection.find_mem.mp hc).1, hsource.trans hid.symm⟩)
  exact partitionWindows_bounds hpart facts.opens facts.aligned

theorem yearHistoryAdmission_eq {bounds : Int × Int} {waits : Bool} {b : RunBinding}
    (h : yearHistoryAdmission digests sellerId p bounds waits = some b) :
    ∃ attempt, b = yearHistoryBinding sellerId bounds p.clock attempt := by
  unfold yearHistoryAdmission at h
  simp only at h
  split at h
  · split at h
    · cases h
    · exact ⟨_, (Option.some.inj h).symm⟩
  · split at h
    · cases h
    · split at h
      · cases h
      · split at h
        · cases h
        · exact ⟨_, (Option.some.inj h).symm⟩

/-- What a planner admits starts at a midnight and lasts ten days at most. -/
theorem Contiguous.admits (h : Contiguous sellerId epoch p lo hi) {b : RunBinding}
    (hadmits : Admits digests sellerId p b) :
    RunFacts sellerId lo p.clock b ∧ b.stop ≤ b.start + ordinaryTailMax := by
  obtain htail | hintraday | hyear := hadmits
  · obtain ⟨mode, hmode, hbind⟩ := Option.bind_eq_some_iff.mp htail
    obtain ⟨bounds, hbounds, hbinding⟩ := Option.bind_eq_some_iff.mp hbind
    rw [certificateMode_epoch hmode, h.current, h.coverageEnd] at hbounds
    obtain ⟨hstart, hproper, hshort, hmidnight, hsettled⟩ := ordinaryTailBounds_ok hbounds h.last
    have hb : ordinaryTailBinding sellerId bounds p.clock = b := by
      simp only at hbinding
      split at hbinding
      · cases hbinding
      · exact Option.some.inj hbinding
    subst hb
    refine ⟨⟨rfl, ?_, floorMs_midnight hmidnight, hproper, fun _ => ⟨hmidnight, hsettled⟩,
      fun hauthorization => absurd hauthorization tail_ne_intraday⟩, hshort⟩
    show midnight bounds.1 = bounds.1
    rw [hstart]
    exact h.last
  · obtain ⟨mode, hmode, hbind⟩ := Option.bind_eq_some_iff.mp hintraday
    obtain ⟨bounds, hbounds, hbind⟩ := Option.bind_eq_some_iff.mp hbind
    obtain ⟨coverageEnd, -, hbinding⟩ := Option.bind_eq_some_iff.mp hbind
    obtain ⟨hopens, hsettled, hproper, hwithin, haligned, hmidnight⟩ := intradayBounds_ok hbounds
    have hb : intradayBinding sellerId bounds = b := by
      split at hbinding
      · cases hbinding
      · simp only at hbinding
        split at hbinding
        · cases hbinding
        · exact Option.some.inj hbinding
    subst hb
    refine ⟨⟨rfl, hopens, haligned, hproper,
      fun hauthorization => absurd hauthorization.symm tail_ne_intraday,
      fun _ => ⟨?_, hmidnight⟩⟩, ?_⟩
    · exact h.wide.le.trans (h.settled.trans hsettled)
    · show bounds.2 ≤ bounds.1 + ordinaryTailMax
      unfold ordinaryTailMax
      unfold dayMicros hourMicros at *
      omega
  · obtain ⟨mode, hmode, hbind⟩ := Option.bind_eq_some_iff.mp hyear
    rw [certificateMode_epoch hmode, h.current] at hbind
    have year {bounds : Int × Int} {attempt : Nat} (hopens : midnight bounds.1 = bounds.1)
        (haligned : floorMs bounds.2 = bounds.2) (hproper : bounds.1 < bounds.2) :
        RunFacts sellerId lo p.clock (yearHistoryBinding sellerId bounds p.clock attempt) :=
      ⟨rfl, hopens, haligned, hproper,
        fun hauthorization => absurd hauthorization year_ne_tail,
        fun hauthorization => absurd hauthorization year_ne_intraday⟩
    cases hrecheck : yearHistoryPendingRecheck sellerId p epoch with
    | some bounds =>
        rw [hrecheck] at hbind
        obtain ⟨attempt, rfl⟩ := yearHistoryAdmission_eq hbind
        obtain ⟨hopens, haligned, hproper, hshort⟩ := h.recheck hrecheck
        exact ⟨year hopens haligned hproper, hshort⟩
    | none =>
        rw [hrecheck] at hbind
        obtain ⟨bounds, hbounds, hbinding⟩ := Option.bind_eq_some_iff.mp hbind
        rw [h.oldest] at hbounds
        obtain ⟨attempt, rfl⟩ := yearHistoryAdmission_eq hbinding
        obtain ⟨hopens, hproper, hshort, hstop⟩ := yearHistoryBounds_ok hbounds h.first
        refine ⟨year hopens ?_ hproper, hshort⟩
        rw [hstop]
        exact floorMs_midnight h.first

/-- A run is added under a new id, or nothing happens. -/
theorem createRun_cases (digests : Digests) (b : RunBinding) (p : Planner) :
    createRun digests b p = p ∨ ∃ run runs, p.coverage.runs.insert run = some runs ∧
      run.binding = { b with start := floorMs b.start, stop := floorMs b.stop } ∧
      (createRun digests b p).coverage = { p.coverage with runs := runs } ∧
      (createRun digests b p).clock = p.clock := by
  unfold createRun
  simp only
  split
  · exact .inl rfl
  · next runs hinsert => exact .inr ⟨_, runs, hinsert, rfl, rfl, rfl⟩

/-- A run under a new id is the source of no certificate. -/
theorem isIntradayCertificate_insert {run source : RunDoc} {runs : Collection RunDoc.id}
    {c : CertificateDoc} (hinsert : db.runs.insert run = some runs) (mem : source ∈ db.runs.docs)
    (hid : source.id = c.sourceIdentity) :
    isIntradayCertificate sellerId { db with runs := runs } c =
      isIntradayCertificate sellerId db c := by
  have hnew : run.id ≠ c.sourceIdentity := by
    intro heq
    have hnone : db.runs.insert run = none :=
      Collection.insert_eq_none.mpr ⟨source, Collection.byKey_some.mpr ⟨mem, hid.trans heq.symm⟩⟩
    rw [hinsert] at hnone
    cases hnone
  rw [Bool.eq_iff_iff, isIntradayCertificate_iff, isIntradayCertificate_iff]
  refine and_congr_right fun _ => ⟨?_, ?_⟩
  · rintro ⟨r, hr, hrid, hrest⟩
    obtain hold | rfl := (Collection.mem_insert hinsert).mp hr
    · exact ⟨r, hold, hrid, hrest⟩
    · exact absurd hrid hnew
  · rintro ⟨r, hr, hrest⟩
    exact ⟨r, (Collection.mem_insert hinsert).mpr (.inl hr), hrest⟩

/-- A new run leaves the certificates what they are. -/
theorem Contiguous.created (h : Contiguous sellerId epoch p lo hi) {b : RunBinding}
    (hadmits : Admits digests sellerId p b) :
    Contiguous sellerId epoch (createRun digests b p) lo hi := by
  obtain ⟨facts, -⟩ := h.admits hadmits
  obtain hsame | ⟨run, runs, hinsert, hbinding, hcoverage, hclock⟩ :=
    createRun_cases digests b p
  · rw [hsame]
    exact h
  · have hfloor : run.binding = b := by
      rw [hbinding, floorMs_midnight facts.opens, facts.aligned]
    have hclosed : closedDays sellerId (createRun digests b p).coverage epoch =
        closedDays sellerId p.coverage epoch := by
      rw [hcoverage]
      ext place
      refine exists_congr fun c => and_congr_right fun mem => and_congr_right fun _ => ?_
      obtain ⟨-, -, -, -, source, hsource, hid⟩ := h.certificates _ (List.mem_map_of_mem mem)
      rw [isIntradayCertificate_insert hinsert hsource hid]
    have hruns {r : RunDoc} : r ∈ (createRun digests b p).coverage.runs.docs ↔
        r ∈ p.coverage.runs.docs ∨ r = run := by
      rw [hcoverage]
      exact Collection.mem_insert hinsert
    have hplaces : (createRun digests b p).coverage.placements = p.coverage.placements := by
      rw [hcoverage]
      rfl
    refine ⟨hclosed ▸ h.tiles, h.wide, h.first, h.last, hclock ▸ h.settled, ?_, hclosed ▸ h.closes,
      ?_, ?_, ?_⟩
    · rw [hcoverage]
      exact h.current
    · intro c mem
      obtain ⟨hseller, hepoch, hkind, hlo, source, hsource, hid⟩ :=
        h.certificates c (hplaces ▸ mem)
      exact ⟨hseller, hepoch, hkind, hlo, source, hruns.mpr (.inl hsource), hid⟩
    · intro r hr hrelevant
      rw [hclock]
      obtain hold | rfl := hruns.mp hr
      · exact h.runs r hold (hplaces ▸ hrelevant)
      · rw [hfloor]
        exact facts
    · intro window hwindow
      rw [hcoverage] at hwindow
      obtain ⟨source, hsource, hpart⟩ := h.windows window hwindow
      exact ⟨source, hruns.mpr (.inl hsource), hpart⟩

/-! ### Publication on time -/

/-- The publication finds the coverage where the planner of its run found it: a tail starts at
its end, a year window ends at its start, or the range is that of a certificate of closed days.
An intraday run is always on time. -/
def OnTime (sellerId : String) (p : Planner) : PlanEvent → Prop
  | .publish run =>
      run.authorizationId = intradayAuthorization ∨
      run.authorizationId = ordinaryTailAuthorization ∧
        fullDayCoverageEnd sellerId p.coverage p.coverage.epoch = some run.start ∨
      run.authorizationId = yearHistoryAuthorization ∧
        oldestDateFrom sellerId p.coverage p.coverage.epoch = some run.stop ∨
      run.authorizationId ≠ intradayAuthorization ∧ ∃ c ∈ p.coverage.certificates.docs,
        ofEpoch sellerId p.coverage.epoch c = true ∧
        isIntradayCertificate sellerId p.coverage c = false ∧ c.dateFrom = run.start ∧
        c.dateTo = run.stop
  | _ => True

theorem SameRuns.partitioned (h : SameRuns db db') {window : WindowDoc}
    (hpart : db.Partitioned window) : db'.Partitioned window := by
  obtain ⟨run, mem, hid, hwindow⟩ := hpart
  obtain ⟨run', mem', hid', hbinding⟩ := h.mem mem
  have hstart : run'.start = run.start := congrArg RunBinding.start hbinding
  have hstop : run'.stop = run.stop := congrArg RunBinding.stop hbinding
  exact ⟨run', mem', hid'.trans hid, by rw [hstart, hstop]; exact hwindow⟩

section

variable {run : RunDoc} {kept : CertificateDoc}

theorem Publication.epoch_eq (pub : Publication sellerId run db db' kept)
    (h : ∀ c ∈ db.placements, c.coverageEpoch = epoch) (hepoch : db.epoch = epoch) :
    kept.coverageEpoch = epoch := by
  obtain mem | heq := pub.epoch
  · exact h _ (List.mem_map_of_mem mem)
  · exact heq.trans hepoch

/-- Of the closed days a publication takes the range of its run, and gives it back unless the
run is an intraday one. -/
theorem closedDays_publication (pub : Publication sellerId run db db' kept)
    (hruns : SameRuns db db') (hepoch : db.epoch = epoch)
    (certificates : ∀ c ∈ db.placements, c.coverageEpoch = epoch ∧ c.kind = "quota_run")
    (place : Placement) :
    place ∈ closedDays sellerId db' epoch ↔
      place = kept.placement ∧ isIntradayCertificate sellerId db kept = false ∨
      place ∈ closedDays sellerId db epoch ∧
        ¬ (place.dateFrom = run.start ∧ place.dateTo = run.stop) := by
  have hkept := pub.epoch_eq (fun c mem => (certificates c mem).1) hepoch
  constructor
  · rintro ⟨c, mem, rfl, hof, hclosed⟩
    rw [hruns.intraday] at hclosed
    obtain rfl | ⟨mem, hno⟩ := (pub.mem c).mp mem
    · exact .inl ⟨rfl, hclosed⟩
    · refine .inr ⟨⟨c, mem, rfl, hof, hclosed⟩, fun hsame => hno ?_⟩
      obtain ⟨hcepoch, hkind⟩ := certificates _ (List.mem_map_of_mem mem)
      simp only [ofEpoch, Bool.and_eq_true, beq_iff_eq] at hof
      exact ⟨hof.1, hkind, hof.2.trans hepoch.symm, hsame.1.ge, hsame.2.le, .inl hsame⟩
  · rintro (⟨rfl, hclosed⟩ | ⟨⟨c, mem, rfl, hof, hclosed⟩, hother⟩)
    · refine ⟨kept, (pub.mem kept).mpr (.inl rfl), rfl, ?_, ?_⟩
      · simp [ofEpoch, pub.seller, hkept]
      · rw [hruns.intraday]
        exact hclosed
    · refine ⟨c, (pub.mem c).mpr (.inr ⟨mem, ?_⟩), rfl, hof, ?_⟩
      · rintro ⟨-, -, -, -, -, hsame | hintraday⟩
        · exact hother hsame
        · rw [hclosed] at hintraday
          cases hintraday
      · rw [hruns.intraday]
        exact hclosed

/-- The invariant after a publication, once the closed days tile a wider interval. -/
theorem Contiguous.published {lo' hi' : Int} (h : Contiguous sellerId epoch p lo hi)
    (pub : Publication sellerId run p.coverage db kept) (hruns : SameRuns p.coverage db)
    (hwindows : db.windows = p.coverage.windows) (hepoch : db.epoch = p.coverage.epoch)
    (planned : run.authorizationId ∈ plannedAuthorizations)
    (stored : ∃ r ∈ p.coverage.runs.docs, r.id = run.id ∧ r.binding = run.binding)
    (tiles : Tiles (closedDays sellerId db epoch) Placement.dateFrom Placement.dateTo lo' hi')
    (hlo : lo' ≤ lo) (hhi : hi ≤ hi') (first : midnight lo' = lo') (last : midnight hi' = hi')
    (settled : hi' ≤ settledMidnight p.clock) (hstart : lo' ≤ run.start)
    (closes : isIntradayCertificate sellerId p.coverage kept = false →
      midnight run.stop = run.stop) :
    Contiguous sellerId epoch { p with coverage := db } lo' hi' := by
  have hcertificates (c : Placement) (mem : c ∈ p.coverage.placements) :=
    h.certificates c mem
  have hclosed := closedDays_publication pub hruns h.current fun c mem =>
    ⟨(hcertificates c mem).2.1, (hcertificates c mem).2.2.1⟩
  have hplace (c : Placement) (mem : c ∈ db.placements) :
      c = kept.placement ∨ c ∈ p.coverage.placements := by
    obtain ⟨d, hd, rfl⟩ := List.mem_map.mp mem
    obtain rfl | ⟨hd, -⟩ := (pub.mem d).mp hd
    · exact .inl rfl
    · exact .inr (List.mem_map_of_mem hd)
  refine ⟨tiles, hlo.trans_lt (h.wide.trans_le hhi), first, last, settled,
    hepoch.trans h.current, ?_, ?_, ?_, ?_⟩
  · intro place mem
    obtain ⟨rfl, hnot⟩ | ⟨mem, -⟩ := (hclosed place).mp mem
    · show midnight kept.dateTo = kept.dateTo
      rw [pub.dateTo]
      exact closes hnot
    · exact h.closes place mem
  · intro c mem
    obtain rfl | mem := hplace c mem
    · obtain ⟨r, hr, hid, -⟩ := stored
      obtain ⟨r', hr', hid', -⟩ := hruns.mem hr
      have hkept := pub.epoch_eq (fun c mem => (hcertificates c mem).2.1) h.current
      exact ⟨pub.seller, hkept, pub.kind, hstart.trans pub.dateFrom.ge, r', hr',
        hid'.trans (hid.trans pub.source.symm)⟩
    · obtain ⟨hseller, hcepoch, hkind, hfrom, r, hr, hid⟩ := hcertificates c mem
      obtain ⟨r', hr', hid', -⟩ := hruns.mem hr
      exact ⟨hseller, hcepoch, hkind, hlo.trans hfrom, r', hr', hid'.trans hid⟩
  · intro r mem hrelevant
    obtain ⟨r', mem', hid, hbinding⟩ := hruns.symm.mem mem
    rw [← hbinding]
    have hauthorization : r'.authorizationId = r.authorizationId :=
      congrArg RunBinding.authorizationId hbinding
    refine (h.runs r' mem' ?_).mono hlo le_rfl
    obtain hplanned | ⟨c, hc, hsource⟩ := hrelevant
    · exact .inl (hauthorization ▸ hplanned)
    · obtain rfl | hc := hplace c hc
      · obtain ⟨s, hs, hsid, hsbinding⟩ := stored
        have hsame : s = r' := Collection.eq_of_key hs mem'
          (hsid.trans (pub.source.symm.trans (hsource.trans hid.symm)))
        have hsauthorization : s.authorizationId = run.authorizationId :=
          congrArg RunBinding.authorizationId hsbinding
        exact .inl (hsame ▸ hsauthorization ▸ planned)
      · exact .inr ⟨c, hc, hsource.trans hid.symm⟩
  · intro window mem
    exact hruns.partitioned (h.windows window (hwindows ▸ mem))

/-- The certificate of a run is an intraday one where the run is. -/
theorem Publication.intraday_iff (pub : Publication sellerId run db db' kept)
    (stored : ∃ r ∈ db.runs.docs, r.id = run.id ∧ r.binding = run.binding)
    (seller : run.sellerId = sellerId) :
    isIntradayCertificate sellerId db kept = true ↔
      run.authorizationId = intradayAuthorization := by
  obtain ⟨r, hr, hid, hbinding⟩ := stored
  have hauthorization : r.authorizationId = run.authorizationId :=
    congrArg RunBinding.authorizationId hbinding
  have hseller : r.sellerId = run.sellerId := congrArg RunBinding.sellerId hbinding
  rw [isIntradayCertificate_iff, pub.source]
  constructor
  · rintro ⟨-, r', hr', hid', -, hintraday⟩
    obtain rfl := Collection.eq_of_key hr' hr (hid'.trans hid.symm)
    exact hauthorization.symm.trans hintraday
  · intro hintraday
    exact ⟨pub.kind, r, hr, hid, hseller.trans seller, hauthorization.trans hintraday⟩

/-- A publication on time extends the tiling, replaces a tile or leaves the closed days. -/
theorem Contiguous.publish (h : Contiguous sellerId epoch p lo hi) {ctx : Context}
    {windows : List WindowDoc} {now clock clock' : Int} (seller : ctx.sellerId = sellerId)
    (planned : run.authorizationId ∈ plannedAuthorizations)
    (stored : ∃ r ∈ p.coverage.runs.docs, r.id = run.id ∧ r.binding = run.binding)
    (hfinalize : finalizeQuotaRun digests ctx run windows now clock clock' p.coverage = .ok db)
    (onTime : OnTime sellerId p (.publish run)) :
    ∃ lo' hi', Contiguous sellerId epoch { p with coverage := db } lo' hi' ∧ lo' ≤ lo ∧
      hi ≤ hi' := by
  have facts : RunFacts sellerId lo p.clock run.binding := by
    obtain ⟨r, hr, -, hbinding⟩ := stored
    have hauthorization : r.authorizationId = run.authorizationId :=
      congrArg RunBinding.authorizationId hbinding
    rw [← hbinding]
    exact h.runs r hr (.inl (hauthorization ▸ planned))
  have hproper : run.start < run.stop := facts.proper
  obtain ⟨hruns, hwindows, hepoch, hsame | ⟨kept, pub⟩⟩ :=
    finalizeQuotaRun_ok seller (floorMs_midnight facts.opens) facts.aligned hfinalize
  · refine ⟨lo, hi, h.advance ⟨le_rfl, hepoch, by rw [hsame], hruns, fun window mem => ?_⟩,
      le_rfl, le_rfl⟩
    exact hruns.partitioned (h.windows window (hwindows ▸ mem))
  · have hclosed := closedDays_publication pub hruns h.current fun c mem =>
      ⟨(h.certificates c mem).2.1, (h.certificates c mem).2.2.1⟩
    have hintraday := pub.intraday_iff stored facts.seller
    have hnew (hno : run.authorizationId ≠ intradayAuthorization)
        (hgap : ∀ place ∈ closedDays sellerId p.coverage epoch, ¬ place.dateFrom = run.start ∨
          ¬ place.dateTo = run.stop) : closedDays sellerId db epoch =
        insert kept.placement (closedDays sellerId p.coverage epoch) := by
      ext place
      rw [hclosed, Set.mem_insert_iff]
      have hfalse := Bool.eq_false_iff.mpr fun htrue => hno (hintraday.mp htrue)
      refine or_congr (and_iff_left hfalse) (and_iff_left_of_imp fun mem => ?_)
      exact not_and_or.mpr (hgap place mem)
    obtain hauthorization | ⟨hauthorization, hstart⟩ | ⟨hauthorization, hstop⟩ |
      ⟨hauthorization, c, hc, hof, hnot, hfrom, hto⟩ := onTime
    · have hleft : closedDays sellerId db epoch = closedDays sellerId p.coverage epoch := by
        ext place
        rw [hclosed, hintraday.mpr hauthorization]
        simp only [Bool.true_eq_false, and_false, false_or, and_iff_left_iff_imp]
        rintro mem ⟨-, hsame⟩
        have hmidnight := h.closes place mem
        rw [hsame] at hmidnight
        exact (facts.intraday hauthorization).2 hmidnight
      refine ⟨lo, hi, ?_, le_rfl, le_rfl⟩
      refine h.published pub hruns hwindows hepoch planned stored (hleft ▸ h.tiles) le_rfl le_rfl
        h.first h.last h.settled (facts.intraday hauthorization).1 fun hfalse => ?_
      rw [hintraday.mpr hauthorization] at hfalse
      cases hfalse
    · rw [h.current, h.coverageEnd] at hstart
      have hstart : hi = run.start := Option.some.inj hstart
      have hset := hnew (hauthorization ▸ tail_ne_intraday) fun place mem => .inl fun heq => by
        have hlt := h.tiles.proper place mem
        have hle := h.tiles.le_hi mem
        omega
      have htiles := h.tiles.insert_after (b := kept.placement) h.wide
        (pub.dateFrom.trans hstart.symm) (pub.dateFrom.trans_lt (hproper.trans_eq pub.dateTo.symm))
      rw [← hset] at htiles
      have hmidnight : midnight kept.dateTo = kept.dateTo := by
        rw [pub.dateTo]
        exact (facts.tail hauthorization).1
      have hhi : hi ≤ kept.dateTo := by
        rw [pub.dateTo]
        exact hstart.le.trans hproper.le
      refine ⟨lo, kept.dateTo, ?_, le_rfl, hhi⟩
      refine h.published pub hruns hwindows hepoch planned stored htiles le_rfl hhi
        h.first hmidnight ?_ (h.wide.le.trans hstart.le) fun _ => (facts.tail hauthorization).1
      rw [pub.dateTo]
      exact (facts.tail hauthorization).2
    · rw [h.current, h.oldest] at hstop
      have hstop : lo = run.stop := Option.some.inj hstop
      have hset := hnew (hauthorization ▸ year_ne_intraday) fun place mem => .inr fun heq => by
        have hlt := h.tiles.proper place mem
        have hle := h.tiles.lo_le mem
        omega
      have htiles := h.tiles.insert_before (b := kept.placement) h.wide
        (pub.dateTo.trans hstop.symm) (pub.dateFrom.trans_lt (hproper.trans_eq pub.dateTo.symm))
      rw [← hset] at htiles
      have hmidnight : midnight kept.dateFrom = kept.dateFrom := by
        rw [pub.dateFrom]
        exact facts.opens
      have hlo : kept.dateFrom ≤ lo := by
        rw [pub.dateFrom]
        exact hproper.le.trans hstop.ge
      refine ⟨kept.dateFrom, hi, ?_, hlo, le_rfl⟩
      refine h.published pub hruns hwindows hepoch planned stored htiles hlo le_rfl
        hmidnight h.last h.settled pub.dateFrom.le fun _ => ?_
      rw [← hstop]
      exact h.first
    · have hmem : c.placement ∈ closedDays sellerId p.coverage epoch :=
        ⟨c, hc, rfl, h.current ▸ hof, hnot⟩
      have hset : closedDays sellerId db epoch = insert kept.placement
          {d ∈ closedDays sellerId p.coverage epoch |
            ¬ (d.dateFrom = kept.placement.dateFrom ∧ d.dateTo = kept.placement.dateTo)} := by
        ext place
        have hfalse := Bool.eq_false_iff.mpr fun htrue => hauthorization (hintraday.mp htrue)
        rw [hclosed, Set.mem_insert_iff, Set.mem_ofPred_eq]
        refine or_congr (and_iff_left hfalse) (and_congr_right fun _ => ?_)
        rw [← pub.dateFrom, ← pub.dateTo]
        rfl
      have htiles := h.tiles.replace (b := kept.placement) hmem (pub.dateFrom.trans hfrom.symm)
        (pub.dateTo.trans hto.symm)
      rw [← hset] at htiles
      refine ⟨lo, hi, ?_, le_rfl, le_rfl⟩
      refine h.published pub hruns hwindows hepoch planned stored htiles le_rfl le_rfl
        h.first h.last h.settled ((h.tiles.lo_le hmem).trans hfrom.le) fun _ => ?_
      rw [← hto]
      exact h.closes c.placement hmem

end

/-! ### Runs -/

/-- The seller has been activated with one certificate, of days that are closed and settled.
No planner has admitted a run yet, but the certificate may be that of an earlier one. -/
structure Begins (sellerId : String) (c : CertificateDoc) (p : Planner) : Prop where
  certificates : p.coverage.certificates.docs = [c]
  seller : c.sellerId = sellerId
  kind : c.kind = "quota_run"
  epoch : c.coverageEpoch = p.coverage.epoch
  proper : c.dateFrom < c.dateTo
  first : midnight c.dateFrom = c.dateFrom
  last : midnight c.dateTo = c.dateTo
  settled : c.dateTo ≤ settledMidnight p.clock
  source : ∃ run ∈ p.coverage.runs.docs, run.id = c.sourceIdentity ∧ run.sellerId = sellerId ∧
    run.authorizationId ≠ intradayAuthorization ∧ run.start = c.dateFrom ∧ run.stop = c.dateTo
  others : ∀ run ∈ p.coverage.runs.docs, run.id ≠ c.sourceIdentity →
    run.authorizationId ∉ plannedAuthorizations
  windows : ∀ window ∈ p.coverage.windows, p.coverage.Partitioned window

theorem Begins.contiguous {c : CertificateDoc} (h : Begins sellerId c p) :
    Contiguous sellerId p.coverage.epoch p c.dateFrom c.dateTo := by
  obtain ⟨source, hsource, hid, hseller, hnot, hstart, hstop⟩ := h.source
  have hplaces : p.coverage.placements = [c.placement] := by
    rw [Coverage.placements, h.certificates]
    rfl
  have hclosed : closedDays sellerId p.coverage p.coverage.epoch = {c.placement} := by
    ext place
    simp only [closedDays, h.certificates, List.mem_singleton, Set.mem_ofPred_eq,
      Set.mem_singleton_iff, exists_eq_left]
    constructor
    · rintro ⟨rfl, -⟩
      rfl
    · rintro rfl
      refine ⟨rfl, by simp [ofEpoch, h.seller, h.epoch], Bool.eq_false_iff.mpr fun htrue => ?_⟩
      obtain ⟨-, r, hr, hrid, -, hintraday⟩ := isIntradayCertificate_iff.mp htrue
      obtain rfl := Collection.eq_of_key hr hsource (hrid.trans hid.symm)
      exact hnot hintraday
  refine ⟨?_, h.proper, h.first, h.last, h.settled, rfl, ?_, ?_, ?_, h.windows⟩
  · rw [hclosed]
    exact Tiles.single (b := c.placement) h.proper
  · intro place mem
    rw [hclosed] at mem
    rw [mem]
    exact h.last
  · intro place mem
    rw [hplaces] at mem
    obtain rfl := List.mem_singleton.mp mem
    exact ⟨h.seller, h.epoch, h.kind, le_rfl, source, hsource, hid⟩
  · intro run mem hrelevant
    have hrun : run.id = c.sourceIdentity := by
      obtain hplanned | ⟨place, hplace, heq⟩ := hrelevant
      · by_contra hne
        exact h.others run mem hne hplanned
      · rw [hplaces] at hplace
        obtain rfl := List.mem_singleton.mp hplace
        exact heq.symm
    obtain rfl := Collection.eq_of_key mem hsource (hrun.trans hid.symm)
    refine ⟨hseller, ?_, ?_, ?_, fun _ => ?_, fun hintraday => absurd hintraday hnot⟩
    · show midnight run.start = run.start
      rw [hstart]
      exact h.first
    · show floorMs run.stop = run.stop
      rw [hstop]
      exact floorMs_midnight h.last
    · show run.start < run.stop
      rw [hstart, hstop]
      exact h.proper
    · show midnight run.stop = run.stop ∧ run.stop ≤ settledMidnight p.clock
      rw [hstop]
      exact ⟨h.last, h.settled⟩

/-- A step on time keeps the closed days contiguous and takes none of them away. -/
theorem Contiguous.step {q : Planner} {e : PlanEvent} (h : Contiguous sellerId epoch p lo hi)
    (step : restrict (PlanStep digests sellerId) (OnTime sellerId) p e q) :
    ∃ lo' hi', Contiguous sellerId epoch q lo' hi' ∧ lo' ≤ lo ∧ hi ≤ hi' := by
  obtain ⟨onTime, step⟩ := step
  cases step with
  | advance hadvances => exact ⟨lo, hi, h.advance hadvances, le_rfl, le_rfl⟩
  | admission binding hadmits wellFormed => exact ⟨lo, hi, h.created hadmits, le_rfl, le_rfl⟩
  | publish ctx run windows now clock clock' seller planned stored hfinalize =>
      exact h.publish seller planned stored hfinalize onTime

theorem Contiguous.run {q : Planner} {es : List PlanEvent}
    (h : Contiguous sellerId epoch p lo hi)
    (run : Run (restrict (PlanStep digests sellerId) (OnTime sellerId)) p es q) :
    ∃ lo' hi', Contiguous sellerId epoch q lo' hi' ∧ lo' ≤ lo ∧ hi ≤ hi' := by
  induction run with
  | nil => exact ⟨lo, hi, h, le_rfl, le_rfl⟩
  | snoc _ last ih =>
      obtain ⟨lo', hi', h', hlo, hhi⟩ := ih
      obtain ⟨lo'', hi'', h'', hlo', hhi'⟩ := h'.step last
      exact ⟨lo'', hi'', h'', hlo'.trans hlo, hhi.trans hhi'⟩

/-- The instants that certificates of an epoch cover. -/
def certifiedInstants (sellerId : String) (db : Coverage) (epoch : Int) : Set Int :=
  {t | ∃ c ∈ db.certificates.docs, ofEpoch sellerId epoch c = true ∧ c.dateFrom ≤ t ∧ t < c.dateTo}

/-- Whatever a publication retires lies in the range of its run, which it certifies. -/
theorem Contiguous.retires {q : Planner} {run : RunDoc} (h : Contiguous sellerId epoch p lo hi)
    (step : PlanStep digests sellerId p (.publish run) q) :
    certifiedInstants sellerId p.coverage epoch ⊆ certifiedInstants sellerId q.coverage epoch ∧
      ∀ c ∈ p.coverage.certificates.docs, c ∉ q.coverage.certificates.docs →
        run.start ≤ c.dateFrom ∧ c.dateTo ≤ run.stop := by
  cases step with
  | @publish db ctx run windows now clock clock' seller planned stored hfinalize =>
      have facts : RunFacts sellerId lo p.clock run.binding := by
        obtain ⟨r, hr, -, hbinding⟩ := stored
        have hauthorization : r.authorizationId = run.authorizationId :=
          congrArg RunBinding.authorizationId hbinding
        rw [← hbinding]
        exact h.runs r hr (.inl (hauthorization ▸ planned))
      obtain ⟨-, -, -, hsame | ⟨kept, pub⟩⟩ :=
        finalizeQuotaRun_ok seller (floorMs_midnight facts.opens) facts.aligned hfinalize
      · refine ⟨?_, fun c mem hgone => absurd (hsame ▸ mem) hgone⟩
        rintro t ⟨c, mem, hin⟩
        exact ⟨c, hsame ▸ mem, hin⟩
      · have hkept := pub.epoch_eq (fun c mem => (h.certificates c mem).2.1) h.current
        have hwithin (c : CertificateDoc) (mem : c ∈ p.coverage.certificates.docs)
            (hgone : c ∉ db.certificates.docs) : run.start ≤ c.dateFrom ∧ c.dateTo ≤ run.stop := by
          by_contra hout
          refine hgone ((pub.mem c).mpr (.inr ⟨mem, fun hreplaced => hout ?_⟩))
          exact ⟨hreplaced.2.2.2.1, hreplaced.2.2.2.2.1⟩
        refine ⟨?_, hwithin⟩
        rintro t ⟨c, mem, hof, hfrom, hto⟩
        by_cases hstays : c ∈ db.certificates.docs
        · exact ⟨c, hstays, hof, hfrom, hto⟩
        · have hrange := hwithin c mem hstays
          refine ⟨kept, (pub.mem kept).mpr (.inl rfl), by simp [ofEpoch, pub.seller, hkept], ?_, ?_⟩
          · rw [pub.dateFrom]
            exact hrange.1.trans hfrom
          · rw [pub.dateTo]
            exact hto.trans_le hrange.2

/-- What the coverage of closed days is to be: the certificates tile an interval that ends at a
settled midnight, from where the daily tail continues. -/
structure ClosedDayCoverage (sellerId : String) (epoch : Int) (p : Planner) (lo hi : Int) :
    Prop where
  tiles : Tiles (closedDays sellerId p.coverage epoch) Placement.dateFrom Placement.dateTo lo hi
  last : midnight hi = hi
  settled : hi ≤ settledMidnight p.clock
  tail : fullDayCoverageEnd sellerId p.coverage epoch = some hi

theorem Contiguous.coverage (h : Contiguous sellerId epoch p lo hi) :
    ClosedDayCoverage sellerId epoch p lo hi :=
  ⟨h.tiles, h.last, h.settled, h.coverageEnd⟩

/-- Where every publication finds the coverage where its planner found it, the closed days stay
contiguous and settled, and their ends only move apart. -/
theorem automatic_coverage {start later : Planner} {c : CertificateDoc}
    (begins : Begins sellerId c start) {es fs : List PlanEvent}
    (run : Run (restrict (PlanStep digests sellerId) (OnTime sellerId)) start es p)
    (rest : Run (restrict (PlanStep digests sellerId) (OnTime sellerId)) p fs later) :
    (∃ lo hi lo' hi', ClosedDayCoverage sellerId start.coverage.epoch p lo hi ∧
      ClosedDayCoverage sellerId start.coverage.epoch later lo' hi' ∧ lo' ≤ lo ∧ hi ≤ hi') ∧
    (∀ binding q, PlanStep digests sellerId p (.admission binding) q →
      binding.start < binding.stop ∧ binding.stop - binding.start ≤ 10 * dayMicros) ∧
    ∀ run q, PlanStep digests sellerId p (.publish run) q →
      certifiedInstants sellerId p.coverage start.coverage.epoch ⊆
        certifiedInstants sellerId q.coverage start.coverage.epoch ∧
      ∀ c ∈ p.coverage.certificates.docs, c ∉ q.coverage.certificates.docs →
        run.start ≤ c.dateFrom ∧ c.dateTo ≤ run.stop := by
  obtain ⟨lo, hi, h, -, -⟩ := begins.contiguous.run run
  obtain ⟨lo', hi', h', hlo, hhi⟩ := h.run rest
  refine ⟨⟨lo, hi, lo', hi', h.coverage, h'.coverage, hlo, hhi⟩, ?_, fun _ _ => h.retires⟩
  intro binding q step
  cases step with
  | admission binding hadmits wellFormed =>
      obtain ⟨facts, hshort⟩ := h.admits hadmits
      exact ⟨facts.proper, sub_le_iff_le_add'.mpr hshort⟩

end

/-! ### A seller with ten closed days -/

/-- The digests of the two tails below. -/
def tailDigests : Digests where
  identity _ _ source :=
    if source = "df63da3549744d348992e9d0364482f06cb7a855aa06897ae4ec056aa8e6393f" then
      "809606e3c7fd89eaa49d85a15b84019c6161e7364ee5ad77754f4ac196d7f017"
    else "8e2b62676e4b90bdd7c0557401da93548f9a968e43a4335f74251bc8fd7eab6f"
  runId binding :=
    if binding.stop = 19 * day then
      "df63da3549744d348992e9d0364482f06cb7a855aa06897ae4ec056aa8e6393f"
    else "4eebed973e49d0978375e975d853189a9246531414c22d43624430a9c1588bb5"
  sources _ := "6c081a242bfc942ff47160f5c7fc2a3fe2d0e7bd0966ab67e779cca3edc4acd7"
  acquisition run _ :=
    if run = "df63da3549744d348992e9d0364482f06cb7a855aa06897ae4ec056aa8e6393f" then
      "2d8e871b79244b0579136edcdf0f12344a339e72996c0f1858bb620936fed185"
    else "98134e4d5a5f7e0602912611e79ec4d709fc955ada9aaafec095aea4b6fd5b8a"
  membership _ := "4f53cda18c2baa0c0354bb5f9a3ecbe5ed12ab4d8e11ba873c2f11161202b945"
  readModel _ _ _ := .ok "4f53cda18c2baa0c0354bb5f9a3ecbe5ed12ab4d8e11ba873c2f11161202b945"

/-- The run and the certificate with which the seller was activated. -/
def activatedRun : RunDoc where
  id := "first"
  authorizationId := "refresh-initial:v1"
  cohortId := "zelerdata-refresh-initial-v1"
  sellerId := "1"
  scope := "devoluciones"
  start := 8 * day
  stop := 18 * day
  partitionVersion := "v1"
  releaseFingerprints := [("admitted_on", "1970-01-21")]
  windowCount := 1
  state := "completed"
  updatedAt := some (20 * day)

def activatedCertificate : CertificateDoc :=
  { id := "certificate"
    sellerId := "1"
    kind := "quota_run"
    sourceIdentity := "first"
    sourceFingerprint := some "sources"
    acquisitionFingerprint := "acquisition"
    dateFrom := 8 * day
    dateTo := 18 * day
    acquiredAt := 20 * day
    expectedCount := 0
    state := "reconciled"
    revision := 1
    currentMembershipHash := "4f53cda18c2baa0c0354bb5f9a3ecbe5ed12ab4d8e11ba873c2f11161202b945"
    currentReadModelFingerprint :=
      "4f53cda18c2baa0c0354bb5f9a3ecbe5ed12ab4d8e11ba873c2f11161202b945"
    certifiedCount := 0
    validatedAt := 20 * day
    validUntil := 20 * day + validity
    nextCheckAt := 20 * day
    invalidationReason := none
    needsReacquisition := false
    coverageEpoch := 0
    schemaVersion := 1 }

def minuteMicros : Int := 60 * 1000000

/-- The store at five minutes to one, before the next midnight has settled. -/
def activated : Planner where
  coverage :=
    { operation := sampleCoverage.operation.map fun control =>
        { control with leaseUntil := some (20 * day + 80 * minuteMicros) }
      marker := none
      certificates := ⟨[activatedCertificate], List.nodup_singleton _⟩
      runs := ⟨[activatedRun], List.nodup_singleton _⟩
      windows := []
      claims := []
      orders := [] }
  times _ := ⟨none, none, none⟩
  pendingOpenMediations _ _ := 0
  clock := 20 * day + 55 * minuteMicros

theorem activated_begins : Begins "1" activatedCertificate activated where
  certificates := rfl
  seller := rfl
  kind := rfl
  epoch := rfl
  proper := by decide
  first := by decide
  last := by decide
  settled := by decide
  source := ⟨activatedRun, List.mem_singleton_self _, rfl, rfl, by decide, rfl, rfl⟩
  others run mem hne := absurd (congrArg RunDoc.id (List.mem_singleton.mp mem)) hne
  windows _ mem := absurd mem List.not_mem_nil

/-- The tail of the days from the 18th up to `stop`. -/
def tailUpTo (stop : Int) : RunBinding :=
  ordinaryTailBinding "1" (18 * day, stop) (20 * day)

/-- The time passes and the windows of the runs are completed. -/
def Planner.completed (p : Planner) (clock : Int) (windows : List WindowDoc) : Planner :=
  { p with clock := clock, coverage := { p.coverage with windows := windows } }

/-- The window of a tail, which holds no claim. -/
def emptyWindow (runId : String) (stop : Int) : WindowDoc where
  runId := runId
  index := 0
  start := 18 * day
  stop := stop
  state := "completed"
  proof := some
    { expectedCount := 0
      persistedCount := 0
      completeCount := 0
      missingCount := 0
      sourceFingerprint := "window"
      readModelFingerprint := "4f53cda18c2baa0c0354bb5f9a3ecbe5ed12ab4d8e11ba873c2f11161202b945" }

/-- The publication of a stored run at an instant. -/
def finalized (p : Planner) (runId : String) (windows : List WindowDoc) (clock : Int) :
    Option (RunDoc × Coverage) :=
  (p.coverage.runs.byKey runId).bind fun run =>
    (finalizeQuotaRun tailDigests sampleContext run windows clock clock clock
      p.coverage).toOption.map (run, ·)

theorem publish_of_finalized {p : Planner} {runId : String} {windows : List WindowDoc}
    {clock : Int} {run : RunDoc} {db : Coverage}
    (h : finalized p runId windows clock = some (run, db))
    (planned : run.authorizationId ∈ plannedAuthorizations) :
    PlanStep tailDigests "1" p (.publish run) { p with coverage := db } := by
  obtain ⟨r, hr, hfinal⟩ := Option.bind_eq_some_iff.mp h
  obtain ⟨_, hok, heq⟩ := Option.map_eq_some_iff.mp hfinal
  obtain ⟨rfl, rfl⟩ := Prod.mk.inj heq
  refine .publish sampleContext r windows clock clock clock rfl planned
    ⟨r, (Collection.byKey_some.mp hr).1, rfl, rfl⟩ ?_
  cases hfinalize : finalizeQuotaRun tailDigests sampleContext r windows clock clock clock
      p.coverage with
  | error e => rw [hfinalize] at hok; cases hok
  | ok db => rw [hfinalize] at hok; exact congrArg Except.ok (Option.some.inj hok)

/-- The first tail, up to the midnight that has settled at five to one. -/
def firstTail : Planner :=
  (createRun tailDigests (tailUpTo (19 * day)) activated).completed
    (20 * day + 65 * minuteMicros)
    [emptyWindow "df63da3549744d348992e9d0364482f06cb7a855aa06897ae4ec056aa8e6393f" (19 * day)]

theorem firstTail_run :
    Run (restrict (PlanStep tailDigests "1") (OnTime "1")) activated
      [.admission (tailUpTo (19 * day)), .advance] firstTail := by
  have admitted : PlanStep tailDigests "1" activated (.admission (tailUpTo (19 * day)))
      (createRun tailDigests (tailUpTo (19 * day)) activated) := by
    refine .admission _ (.inl ?_) (by decide +kernel)
    decide +kernel
  refine (Run.single ⟨trivial, admitted⟩).snoc ⟨trivial, .advance ?_⟩
  refine ⟨by decide, rfl, rfl, rfl, fun window mem => ?_⟩
  obtain rfl := List.mem_singleton.mp mem
  exact ⟨_, List.mem_cons_of_mem _ List.mem_cons_self, by decide +kernel, by decide +kernel⟩

/-- The first tail is published on time. -/
theorem firstTail_published :
    ∃ es p, Run (restrict (PlanStep tailDigests "1") (OnTime "1")) activated es p ∧
      ∃ lo hi lo' hi', ClosedDayCoverage "1" 0 firstTail lo hi ∧
        ClosedDayCoverage "1" 0 p lo' hi' ∧ lo' ≤ lo ∧ hi ≤ hi' := by
  have hfinalized : (finalized firstTail
      "df63da3549744d348992e9d0364482f06cb7a855aa06897ae4ec056aa8e6393f"
      firstTail.coverage.windows (20 * day + 66 * minuteMicros)).any (fun result =>
        result.1.authorizationId = ordinaryTailAuthorization ∧ result.1.start = 18 * day) =
          true := by
    decide +kernel
  obtain ⟨⟨run, db⟩, hsome, hrun⟩ := (Option.any_eq_true _ _).mp hfinalized
  obtain ⟨hauthorization, hstart⟩ := of_decide_eq_true hrun
  have published := publish_of_finalized hsome (hauthorization ▸ by decide)
  have onTime : OnTime "1" firstTail (.publish run) := by
    refine .inr (.inl ⟨hauthorization, ?_⟩)
    rw [hstart]
    decide +kernel
  have rest : Run (restrict (PlanStep tailDigests "1") (OnTime "1")) firstTail [.publish run]
      { firstTail with coverage := db } := .single ⟨onTime, published⟩
  exact ⟨_, _, firstTail_run.trans rest,
    (automatic_coverage activated_begins firstTail_run rest).1⟩

/-- The second tail, from the same day up to the midnight that has settled since. -/
def secondTail : Planner :=
  (createRun tailDigests (tailUpTo (20 * day)) firstTail).completed
    (20 * day + 66 * minuteMicros)
    [emptyWindow "df63da3549744d348992e9d0364482f06cb7a855aa06897ae4ec056aa8e6393f" (19 * day),
      emptyWindow "4eebed973e49d0978375e975d853189a9246531414c22d43624430a9c1588bb5" (20 * day)]

theorem secondTail_run : Run (PlanStep tailDigests "1") activated
    [.admission (tailUpTo (19 * day)), .advance, .admission (tailUpTo (20 * day)), .advance]
    secondTail := by
  have admitted : PlanStep tailDigests "1" firstTail (.admission (tailUpTo (20 * day)))
      (createRun tailDigests (tailUpTo (20 * day)) firstTail) := by
    refine .admission _ (.inl ?_) (by decide +kernel)
    decide +kernel
  refine (firstTail_run.unrestrict.snoc admitted).snoc (.advance ?_)
  refine ⟨by decide, rfl, rfl, rfl, fun window mem => ?_⟩
  obtain rfl | mem := List.mem_cons.mp mem
  · exact ⟨_, List.mem_cons_of_mem _ List.mem_cons_self, by decide +kernel, by decide +kernel⟩
  · obtain rfl := List.mem_singleton.mp mem
    exact ⟨_, List.mem_cons_of_mem _ (List.mem_cons_of_mem _ List.mem_cons_self),
      by decide +kernel, by decide +kernel⟩

/-- A certificate of closed days with the given bounds. -/
def hasClosed (db : Coverage) (start stop : Int) : Bool :=
  db.certificates.docs.any fun c => ofEpoch "1" 0 c && !isIntradayCertificate "1" db c &&
    decide (c.dateFrom = start) && decide (c.dateTo = stop)

theorem closedDays_of_hasClosed {db : Coverage} {start stop : Int}
    (h : hasClosed db start stop = true) :
    ∃ c ∈ closedDays "1" db 0, c.dateFrom = start ∧ c.dateTo = stop := by
  obtain ⟨c, mem, hc⟩ := List.any_eq_true.mp h
  simp only [Bool.and_eq_true, Bool.not_eq_true', decide_eq_true_eq] at hc
  exact ⟨c.placement, ⟨c, mem, rfl, hc.1.1.1, hc.1.1.2⟩, hc.1.2, hc.2⟩

/-- The second tail is admitted before the first one is published, from the same end of the
coverage: both are published, and their certificates overlap. -/
theorem tails_overlap :
    Begins "1" activatedCertificate activated ∧
    ∃ es p, Run (PlanStep tailDigests "1") activated es p ∧
      ¬ ∃ lo hi, ClosedDayCoverage "1" 0 p lo hi := by
  have hfinalized : (finalized secondTail
      "4eebed973e49d0978375e975d853189a9246531414c22d43624430a9c1588bb5"
      (secondTail.coverage.windows.filter fun window => window.stop = 20 * day)
      (20 * day + 67 * minuteMicros)).any (fun second =>
        second.1.authorizationId ∈ plannedAuthorizations &&
        (finalized { secondTail with coverage := second.2 }
          "df63da3549744d348992e9d0364482f06cb7a855aa06897ae4ec056aa8e6393f"
          (secondTail.coverage.windows.filter fun window => window.stop = 19 * day)
          (20 * day + 68 * minuteMicros)).any fun first =>
            first.1.authorizationId ∈ plannedAuthorizations &&
            hasClosed first.2 (18 * day) (19 * day) && hasClosed first.2 (18 * day) (20 * day)) =
          true := by
    decide +kernel
  obtain ⟨⟨run, db⟩, hsecond, hrest⟩ := (Option.any_eq_true _ _).mp hfinalized
  simp only [Bool.and_eq_true, decide_eq_true_eq] at hrest
  obtain ⟨⟨run', db'⟩, hfirst, hboth⟩ := (Option.any_eq_true _ _).mp hrest.2
  simp only [Bool.and_eq_true, decide_eq_true_eq] at hboth
  have second := publish_of_finalized hsecond hrest.1
  have first := publish_of_finalized hfirst hboth.1.1
  refine ⟨activated_begins, _, _, (secondTail_run.snoc second).snoc first, ?_⟩
  rintro ⟨lo, hi, h⟩
  obtain ⟨a, ha, hastart, hastop⟩ := closedDays_of_hasClosed hboth.1.2
  obtain ⟨b, hb, hbstart, hbstop⟩ := closedDays_of_hasClosed hboth.2
  have hne : a ≠ b := by
    rintro rfl
    rw [hastop] at hbstop
    exact absurd hbstop (by decide)
  obtain hle | hle := h.tiles.apart a ha b hb hne
  · rw [hastop, hbstart] at hle
    exact absurd hle (by decide)
  · rw [hbstop, hastart] at hle
    exact absurd hle (by decide)

end ZelerPlatform.Devoluciones
