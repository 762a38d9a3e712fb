import Mathlib.Data.List.Perm.Basic
import ZelerPlatform.Modifications.Scan

/-!
# The watermark of modified orders

The watermark of a seller moves with the completion of a scan and in no other step, to the
cutoff of that scan. By then both passes have recorded the same orders, as many as the source
reported, and each of them in the window has been recovered.

The windows of the completed scans follow each other with an overlap of a day: a scan starts
from the cutoff of the one before, because what a caller read of a completed scan fixes the
watermark it read with it.
-/

namespace ZelerPlatform.Modifications

open Fallible Transition
open Mongo.Value (floorMs floorMs_floorMs floorMs_mono)
open Recovery (Jobs Queue Request)

variable {ι : Type} {sha256 : String → String}
variable {scan proposed : Scan} {document : Receipt} {documents : List Receipt}
variable {receipts receipts' : Receipts} {s t : Store ι} {i j : ι}

/-! ### Receipts -/

/-- The identity of a receipt in its pass. -/
def Receipt.place (stored : Receipt) : ScanId × Nat × Nat × String :=
  (stored.acquisitionId, stored.generation, stored.passNumber, stored.resourceId)

/-- What the two passes have to agree on. -/
def Receipt.manifest (stored : Receipt) : String × Kind × String × String :=
  (stored.resourceId, stored.kind, stored.sourceVersion, stored.sourceHash)

/-- Each pass records an identity once, the second one only as the first did. -/
structure Agree (receipts : Receipts) : Prop where
  unique : ∀ a ∈ receipts.docs, ∀ b ∈ receipts.docs, a.place = b.place → a = b
  paired : ∀ a ∈ receipts.docs, a.passNumber = 2 → ∃ b ∈ receipts.docs,
    b.place = (a.acquisitionId, a.generation, 1, a.resourceId) ∧ b.manifest = a.manifest

/-- The receipt is one of the scan's current pass. -/
structure OfScan (scan : Scan) (stored : Receipt) : Prop where
  place : stored.place = (scan.scanId, scan.generation, scan.passNumber, stored.resourceId)
  seller : stored.sellerId = scan.sellerId

theorem verify_of_passNumber (hphase : scan.phase.terminal = false) (h : scan.passNumber = 2) :
    scan.phase = .verify := by
  unfold Scan.passNumber at h
  cases hcase : scan.phase with
  | discover =>
      rw [if_pos hcase] at h
      cases h
  | verify => rfl
  | completed =>
      rw [hcase] at hphase
      cases hphase
  | failed =>
      rw [hcase] at hphase
      cases hphase

theorem inPass_iff {passNumber : Nat} {resourceId : String} {stored : Receipt} :
    inPass scan passNumber resourceId stored = true ↔
      stored.place = (scan.scanId, scan.generation, passNumber, resourceId) := by
  simp [inPass, Receipt.place, and_assoc]

theorem matchesBaseline_some (h : matchesBaseline scan document receipts = true) :
    ∃ b ∈ receipts.docs, b.place = (scan.scanId, scan.generation, 1, document.resourceId) ∧
      b.manifest = document.manifest := by
  unfold matchesBaseline at h
  obtain ⟨baseline, hfound, hsame⟩ := (Option.any_eq_true _ _).mp h
  obtain ⟨hmem, hpass⟩ := Collection.findOne_mem hfound
  have hplace := inPass_iff.mp hpass
  simp only [Bool.and_eq_true, decide_eq_true_eq] at hsame
  obtain ⟨⟨hkind, hversion⟩, hhash⟩ := hsame
  refine ⟨baseline, hmem, hplace, ?_⟩
  simp only [Receipt.place, Prod.mk.injEq] at hplace
  simp [Receipt.manifest, hplace.2.2.2, hkind, hversion, hhash]

theorem insertReceipt_ok (h : insertReceipt scan receipts document = .ok receipts') :
    (scan.phase = .verify → matchesBaseline scan document receipts = true) ∧
      receipts.matched (inPass scan document.passNumber document.resourceId) = false ∧
      receipts'.docs = receipts.docs ++ [document] := by
  unfold insertReceipt at h
  obtain ⟨hbaseline, h⟩ := raiseIf_ok h
  obtain ⟨hnew, h⟩ := raiseIf_ok h
  refine ⟨fun hphase => ?_, by simpa using hnew, ?_⟩
  · by_contra hno
    exact hbaseline ⟨hphase, by simpa using hno⟩
  · split at h
    · next hinsert =>
        cases h
        exact Collection.insert_docs hinsert
    · cases h

theorem Agree.insert (h : Agree receipts) (hphase : scan.phase.terminal = false)
    (hof : OfScan scan document) (hinsert : insertReceipt scan receipts document = .ok receipts') :
    Agree receipts' := by
  obtain ⟨hbaseline, hnew, hdocs⟩ := insertReceipt_ok hinsert
  have hfresh : ∀ a ∈ receipts.docs, a.place ≠ document.place := by
    intro a ha hplace
    have hnone := Collection.matched_eq_false.mp hnew a ha
    have hplace' := hplace.trans hof.place
    have hpass : document.passNumber = scan.passNumber := by
      have := hof.place
      simp only [Receipt.place, Prod.mk.injEq] at this
      exact this.2.2.1
    rw [inPass_iff.mpr (hpass ▸ hplace')] at hnone
    cases hnone
  constructor
  · intro a ha b hb hplace
    rw [hdocs, List.mem_append, List.mem_singleton] at ha hb
    rcases ha with ha | rfl
    · rcases hb with hb | rfl
      · exact h.unique a ha b hb hplace
      · exact absurd hplace (hfresh a ha)
    · rcases hb with hb | rfl
      · exact absurd hplace.symm (hfresh b hb)
      · rfl
  · intro a ha hpass
    rw [hdocs, List.mem_append, List.mem_singleton] at ha
    rw [hdocs]
    rcases ha with ha | rfl
    · obtain ⟨b, hb, hplace, hmanifest⟩ := h.paired a ha hpass
      exact ⟨b, List.mem_append_left _ hb, hplace, hmanifest⟩
    · have hplace := hof.place
      simp only [Receipt.place, Prod.mk.injEq] at hplace
      obtain ⟨hscan, hgeneration, hnumber, -⟩ := hplace
      -- a second pass is one of verification
      have hverify := verify_of_passNumber hphase (hnumber.symm.trans hpass)
      obtain ⟨b, hb, hbplace, hmanifest⟩ := matchesBaseline_some (hbaseline hverify)
      refine ⟨b, List.mem_append_left _ hb, ?_, hmanifest⟩
      rw [hbplace, hscan, hgeneration]

theorem insertReceipts_ok (h : Agree receipts) (hphase : scan.phase.terminal = false)
    (hof : ∀ d ∈ documents, OfScan scan d)
    (hinsert : documents.foldlM (insertReceipt scan) receipts = .ok receipts') :
    receipts'.docs = receipts.docs ++ documents ∧ Agree receipts' := by
  induction documents generalizing receipts with
  | nil =>
      cases hinsert
      exact ⟨(List.append_nil _).symm, h⟩
  | cons document rest ih =>
      rw [List.foldlM_cons] at hinsert
      obtain ⟨middle, hfirst, hrest⟩ := bind_ok hinsert
      have hdocs := (insertReceipt_ok hfirst).2.2
      obtain ⟨heq, hagree⟩ := ih (h.insert hphase (hof document List.mem_cons_self) hfirst)
        (fun d hd => hof d (List.mem_cons_of_mem _ hd)) hrest
      refine ⟨?_, hagree⟩
      rw [heq, hdocs, List.append_assoc]
      rfl

/-! ### Passes -/

theorem mem_passReceipts {passNumber : Nat} {stored : Receipt} :
    stored ∈ passReceipts scan passNumber receipts ↔ stored ∈ receipts.docs ∧
      stored.place = (scan.scanId, scan.generation, passNumber, stored.resourceId) := by
  unfold passReceipts
  rw [Collection.find_mem]
  simp [Receipt.place, and_assoc]

/-- In one pass the manifests are distinct. -/
theorem Agree.nodup (h : Agree receipts) (passNumber : Nat) :
    ((passReceipts scan passNumber receipts).map Receipt.resourceId).Nodup := by
  refine List.Nodup.map_on ?_ (List.Nodup.filter _ (List.Nodup.of_map _ receipts.nodup))
  intro a ha b hb hid
  obtain ⟨ha, haplace⟩ := mem_passReceipts.mp ha
  obtain ⟨hb, hbplace⟩ := mem_passReceipts.mp hb
  exact h.unique a ha b hb (by rw [haplace, hbplace, hid])

/-- Passes of one size have recorded the same. -/
theorem Agree.same (h : Agree receipts) (scan : Scan)
    (hlength : (passReceipts scan 1 receipts).length = (passReceipts scan 2 receipts).length) :
    ((passReceipts scan 2 receipts).map Receipt.manifest).Perm
      ((passReceipts scan 1 receipts).map Receipt.manifest) := by
  have hnodup : ∀ passNumber,
      ((passReceipts scan passNumber receipts).map Receipt.manifest).Nodup := by
    intro passNumber
    refine List.Nodup.of_map Prod.fst ?_
    rw [List.map_map]
    exact h.nodup passNumber
  have hsubset : (passReceipts scan 2 receipts).map Receipt.manifest ⊆
      (passReceipts scan 1 receipts).map Receipt.manifest := by
    intro manifest hmem
    obtain ⟨a, ha, rfl⟩ := List.mem_map.mp hmem
    obtain ⟨ha, haplace⟩ := mem_passReceipts.mp ha
    simp only [Receipt.place, Prod.mk.injEq] at haplace
    obtain ⟨hscan, hgeneration, hpass, -⟩ := haplace
    obtain ⟨b, hb, hbplace, hmanifest⟩ := h.paired a ha hpass
    refine List.mem_map.mpr ⟨b, mem_passReceipts.mpr ⟨hb, ?_⟩, hmanifest⟩
    have hid : b.resourceId = a.resourceId := congrArg Prod.fst hmanifest
    rw [hbplace, hscan, hgeneration, hid]
  refine (List.subperm_of_subset (hnodup 2) hsubset).perm_of_length_le ?_
  simp [hlength]

/-! ### The invariant -/

/-- This version of the order has been recovered. -/
def Recovered (sha256 : String → String) (jobs : Jobs)
    (sellerId orderId version hash : String) : Prop :=
  ∃ job, jobs.byKey (modifiedKey sha256 sellerId orderId version hash) = some job ∧
    job.sellerId = sellerId ∧ job.state = .completed

structure ReceiptsSound (sha256 : String → String) (receipts : Receipts) (jobs : Jobs) : Prop where
  agree : Agree receipts
  seller : ∀ a ∈ receipts.docs, a.sellerId = a.acquisitionId.sellerId
  recovered : ∀ a ∈ receipts.docs, a.passNumber = 2 → a.kind = .membership →
    Recovered sha256 jobs a.sellerId a.resourceId a.sourceVersion a.sourceHash

/-- How far scans in this order have come, newest first. -/
def reached (first : ℤ) : List Scan → ℤ
  | [] => first
  | scan :: _ => scan.cutoff

/-- Each scan starts where the one before has come to. -/
def Linked (first : ℤ) : List Scan → Prop
  | [] => True
  | scan :: rest =>
      scan.watermark = reached first rest ∧ scan.watermark ≤ scan.cutoff ∧ Linked first rest

def completedOf (sellerId : String) (completed : List (ι × Scan)) : List Scan :=
  (completed.map Prod.snd).filter fun scan => scan.sellerId = sellerId

/-- The scan of a plan against the receipts and the completed scans. -/
structure ScanSound (sellerId : String) (first : ℤ) (scans : List Scan) (receipts : Receipts)
    (scan : Scan) : Prop where
  seller : scan.sellerId = sellerId
  named : scan.scanId.sellerId = sellerId
  cutoff : floorMs scan.scanId.cutoff = scan.cutoff
  ended : scan.phase = .completed → scans.head? = some scan
  going : scan.phase ≠ .completed →
    scan.watermark = reached first scans ∧ scan.watermark ≤ scan.cutoff
  verified : scan.phase = .verify → ∃ total, scan.sourceTotal = some total ∧
    (passReceipts scan 1 receipts).length = total

structure PlanSound (scans : List Scan) (receipts : Receipts) (plan : Plan) : Prop where
  watermark : plan.watermark = scans.head?.map Scan.cutoff
  fresh : plan.scan = none → scans = []
  started : ∀ scan, plan.scan = some scan → plan.cutoff.isSome = true
  whole : ∀ first, plan.cutoff = some first → floorMs (reached first scans) = reached first scans
  linked : ∀ first, plan.cutoff = some first → Linked first scans
  scan : ∀ first scan, plan.cutoff = some first → plan.scan = some scan →
    ScanSound plan.sellerId first scans receipts scan

structure Sound (sha256 : String → String) (s : Store ι) : Prop where
  receipts : ReceiptsSound sha256 s.receipts s.jobs
  plans : ∀ plan ∈ s.plans.docs,
    PlanSound (completedOf plan.sellerId s.completed) s.receipts plan

/-- What no call undoes. -/
structure Grows (sha256 : String → String) (s t : Store ι) : Prop where
  receipts : ∀ a ∈ s.receipts.docs, a ∈ t.receipts.docs
  recovered : ∀ sellerId orderId version hash,
    Recovered sha256 s.jobs sellerId orderId version hash →
      Recovered sha256 t.jobs sellerId orderId version hash
  cutoffs : ∀ sellerId,
    (t.plans.byKey sellerId).map Plan.cutoff = (s.plans.byKey sellerId).map Plan.cutoff

theorem Grows.refl (s : Store ι) : Grows sha256 s s :=
  ⟨fun _ h => h, fun _ _ _ _ h => h, fun _ => rfl⟩

theorem Grows.trans {u : Store ι} (first : Grows sha256 s t) (second : Grows sha256 t u) :
    Grows sha256 s u :=
  ⟨fun a h => second.receipts a (first.receipts a h),
    fun _ _ _ _ h => second.recovered _ _ _ _ (first.recovered _ _ _ _ h),
    fun sellerId => (second.cutoffs sellerId).trans (first.cutoffs sellerId)⟩

theorem PlanSound.effective {plan : Plan} {scans : List Scan} (h : PlanSound scans receipts plan)
    (first : ℤ) : plan.watermark.getD first = reached first scans := by
  rw [h.watermark]
  cases scans <;> rfl

/-! ### The law of a step -/

/-- A scan whose two passes agree, as large as the source, with its orders recovered. -/
structure Certified (sha256 : String → String) (s : Store ι) (scan : Scan) : Prop where
  sizes : ∀ passNumber, passNumber = 1 ∨ passNumber = 2 →
    scan.sourceTotal = some (passReceipts scan passNumber s.receipts).length
  same : ((passReceipts scan 2 s.receipts).map Receipt.manifest).Perm
    ((passReceipts scan 1 s.receipts).map Receipt.manifest)
  nodup : ((passReceipts scan 1 s.receipts).map Receipt.resourceId).Nodup
  recovered : ∀ passNumber, passNumber = 1 ∨ passNumber = 2 →
    ∀ a ∈ passReceipts scan passNumber s.receipts, a.kind = .membership →
      Recovered sha256 s.jobs scan.sellerId a.resourceId a.sourceVersion a.sourceHash

/-- The step of a call that completes the scan of a plan. -/
structure Completes (sha256 : String → String) (i : ι) (s t : Store ι) (plan plan' : Plan)
    (scan done : Scan) : Prop where
  before : plan.scan = some scan
  verifying : scan.phase = .verify
  after : plan'.scan = some done
  completed : done.phase = .completed
  same : done.scanId = scan.scanId ∧ done.watermark = scan.watermark ∧ done.cutoff = scan.cutoff
  watermark : plan'.watermark = some done.cutoff
  forward : ∀ w, plan.watermark = some w → w ≤ done.cutoff
  certified : Certified sha256 t done
  recorded : t.completed = (i, done) :: s.completed

/-- What a step does to a plan: it completes the scan, or it leaves the watermark. -/
def PlanLaw (sha256 : String → String) (i : ι) (s t : Store ι) (plan plan' : Plan) : Prop :=
  (∃ scan done, Completes sha256 i s t plan plan' scan done) ∨
    (plan'.watermark = plan.watermark ∧ ∀ done, plan'.scan = some done →
      done.phase = .completed → plan.scan = some done)

def Law (sha256 : String → String) (i : ι) (s t : Store ι) : Prop :=
  ∀ plan ∈ s.plans.docs, ∃ plan' ∈ t.plans.docs, plan'.sellerId = plan.sellerId ∧
    plan'.cutoff = plan.cutoff ∧ PlanLaw sha256 i s t plan plan'

theorem PlanLaw.refl (plan : Plan) : PlanLaw sha256 i s t plan plan :=
  .inr ⟨rfl, fun _ h _ => h⟩

theorem law_of_plans (h : t.plans = s.plans) : Law sha256 i s t := by
  intro plan hmem
  exact ⟨plan, h ▸ hmem, rfl, rfl, PlanLaw.refl plan⟩

/-! ### Operations -/

/-- What an operation keeps and does. -/
structure Sane (sha256 : String → String) (i : ι) (s t : Store ι) : Prop where
  sound : Sound sha256 t
  grows : Grows sha256 s t
  law : Law sha256 i s t

theorem Sane.refl (h : Sound sha256 s) : Sane sha256 i s s := ⟨h, Grows.refl s, law_of_plans rfl⟩

theorem Sane.of_jobs (h : Sound sha256 s) {jobs : Jobs}
    (hkeeps : ∀ sellerId orderId version hash,
      Recovered sha256 s.jobs sellerId orderId version hash →
        Recovered sha256 jobs sellerId orderId version hash) :
    Sane sha256 i s { s with jobs } := by
  refine ⟨⟨⟨h.receipts.agree, h.receipts.seller, ?_⟩, h.plans⟩, ⟨fun _ hmem => hmem, hkeeps,
    fun _ => rfl⟩, law_of_plans rfl⟩
  intro a ha hpass hkind
  exact hkeeps _ _ _ _ (h.receipts.recovered a ha hpass hkind)

theorem Sane.of_change (h : Sound sha256 s) (change : JobChange sha256) :
    Sane sha256 i s { s with jobs := change.apply s.jobs } := by
  refine Sane.of_jobs h ?_
  rintro sellerId orderId version hash ⟨job, hjob, hseller, hstate⟩
  obtain ⟨job', hjob', hstate', hseller'⟩ :=
    change.keeps _ _ _ _ _ _ hjob (.inl hstate)
  exact ⟨job', hjob', hseller'.trans hseller, hstate'.trans hstate⟩

/-- The queue adds a job for a modification or leaves the jobs as they are. -/
theorem runAdmission_modified {q : Queue} {sellerId orderId version hash key : String}
    {modified : ℤ} {now : Recovery.Time} {jobs jobs' : Jobs}
    (h : q.runAdmission sha256 (modifiedRequest sellerId orderId version hash modified) false now
      jobs = .ok (key, jobs')) : jobs' = jobs ∨ ∃ job, jobs.insert job = some jobs' := by
  unfold Queue.runAdmission at h
  obtain ⟨target, htarget, h⟩ := bind_ok h
  cases pure_ok htarget
  obtain ⟨stored, hstored, h⟩ := bind_ok h
  cases pure_ok h
  unfold Queue.admitUnit at hstored
  split at hstored
  · next existing _ =>
      left
      by_cases hauthority : existing.policyAuthority = q.policyAuthority
      · rw [if_neg (not_not.mpr hauthority)] at hstored
        obtain ⟨-, hstored⟩ := raiseIf_ok hstored
        rw [if_pos (.inl rfl)] at hstored
        exact (pure_ok hstored).symm
      · rw [if_pos hauthority] at hstored
        exact (pure_ok hstored).symm
  · obtain ⟨-, -, hstored⟩ := bind_ok hstored
    split at hstored
    · next hinsert =>
        cases pure_ok hstored
        exact .inr ⟨_, hinsert⟩
    · cases hstored

theorem Sane.of_admit (h : Sound sha256 s) (r : Surroundings)
    {sellerId orderId version hash : String} {modified : ℤ} :
    Sane sha256 i s (admitRequest sha256 r (modifiedRequest sellerId orderId version hash modified) s).2 := by
  unfold admitRequest
  split
  · next key jobs hadmitted =>
      refine Sane.of_jobs h ?_
      rintro sellerId orderId version hash ⟨job, hjob, hrest⟩
      refine ⟨job, ?_, hrest⟩
      rcases runAdmission_modified hadmitted with rfl | ⟨new, hinsert⟩
      · exact hjob
      · rw [Collection.byKey_insert hinsert]
        split
        · next heq =>
            rw [Collection.insert_eq_none.mpr ⟨job, heq ▸ hjob⟩] at hinsert
            cases hinsert
        · exact hjob
  · exact Sane.refl h

/-- Another scan takes the place of the scan of some plans. -/
theorem Sane.of_setScan (h : Sound sha256 s) {selected : Plan → Bool}
    {keeps : ∀ plan, (setScan scan plan).sellerId = plan.sellerId}
    (hphase : scan.phase ≠ .completed)
    (hscan : ∀ plan ∈ s.plans.docs, selected plan = true → ∃ first, plan.cutoff = some first ∧
      ScanSound plan.sellerId first (completedOf plan.sellerId s.completed) s.receipts
        scan.stored) :
    Sane sha256 i s { s with plans := s.plans.update selected (setScan scan) keeps } := by
  refine ⟨⟨h.receipts, ?_⟩, ⟨fun _ hmem => hmem, fun _ _ _ _ hjob => hjob, ?_⟩, ?_⟩
  · intro plan' hmem
    obtain ⟨plan, hplan, rfl⟩ := List.mem_map.mp hmem
    have hsound := h.plans plan hplan
    by_cases hselected : selected plan = true
    · rw [if_pos hselected]
      obtain ⟨first, hfirst, hnew⟩ := hscan plan hplan hselected
      refine ⟨hsound.watermark, fun hnone => (by cases hnone), fun _ _ => ?_, hsound.whole,
        hsound.linked, ?_⟩
      · show plan.cutoff.isSome = true
        rw [hfirst]
        rfl
      · intro first' new hfirst' heq
        cases hfirst.symm.trans hfirst'
        cases heq
        exact hnew
    · rw [if_neg hselected]
      exact hsound
  · intro sellerId
    rw [Collection.byKey_update, Option.map_map]
    congr 1
    funext plan
    show (if selected plan then setScan scan plan else plan).cutoff = _
    split <;> rfl
  · intro plan hmem
    refine ⟨_, List.mem_map_of_mem hmem, ?_⟩
    split
    · refine ⟨rfl, rfl, .inr ⟨rfl, ?_⟩⟩
      rintro done ⟨rfl⟩ hcompleted
      exact absurd hcompleted hphase
    · exact ⟨rfl, rfl, PlanLaw.refl plan⟩

/-- What a caller that begins a scan knows of the watermark it has read. -/
def Starts (sellerId : String) (current : Option Scan) (watermark : ℤ) (s : Store ι) : Prop :=
  ∃ first, (s.plans.byKey sellerId).map Plan.cutoff = some (some first) ∧
    match current with
    | none => watermark = first
    | some current => watermark = floorMs current.scanId.cutoff

theorem Starts.mono {sellerId : String} {current : Option Scan} {watermark : ℤ}
    (h : Starts sellerId current watermark s) (grows : Grows sha256 s t) :
    Starts sellerId current watermark t := by
  obtain ⟨first, hfirst, hrest⟩ := h
  exact ⟨first, (grows.cutoffs sellerId).trans hfirst, hrest⟩

theorem Sane.of_begin (h : Sound sha256 s) {sellerId : String} {current : Option Scan}
    {watermark cutoff : ℤ} (hstarts : Starts sellerId current watermark s)
    (horder : watermark ≤ cutoff) :
    Sane sha256 i s (beginScan sellerId current (newScan sellerId watermark cutoff) s).2 := by
  refine Sane.of_setScan h (by simp [newScan]) ?_
  intro plan hplan hselected
  obtain ⟨first, hfirst, hknown⟩ := hstarts
  simp only [unchanged, Bool.and_eq_true, decide_eq_true_eq] at hselected
  obtain ⟨rfl, hcurrent⟩ := hselected
  rw [Collection.byKey_some.mpr ⟨hplan, rfl⟩] at hfirst
  have hcutoff : plan.cutoff = some first := Option.some.inj hfirst
  have hsound := h.plans plan hplan
  -- the plan still stands where the caller has read it
  have hreached : watermark = reached first (completedOf plan.sellerId s.completed) := by
    cases current with
    | none =>
        rw [hsound.fresh (Option.isNone_iff_eq_none.mp hcurrent)]
        exact hknown
    | some current =>
        obtain ⟨stored, hstored, hsame⟩ := (Option.any_eq_true _ _).mp hcurrent
        simp only [Bool.and_eq_true, decide_eq_true_eq] at hsame
        have hscan := hsound.scan first stored hcutoff hstored
        have hhead := hscan.ended hsame.1.2
        rw [hknown, ← hsame.1.1, hscan.cutoff]
        cases hcase : completedOf plan.sellerId s.completed with
        | nil =>
            rw [hcase] at hhead
            cases hhead
        | cons last rest =>
            rw [hcase] at hhead
            cases hhead
            rfl
  refine ⟨first, hcutoff, rfl, rfl, rfl, fun hphase => (by cases hphase), fun _ => ?_,
    fun hphase => (by cases hphase)⟩
  have hwhole := hsound.whole first hcutoff
  rw [← hreached] at hwhole ⊢
  refine ⟨hwhole, ?_⟩
  exact floorMs_mono horder

theorem Sane.of_restart (h : Sound sha256 s) (hphase : scan.phase.terminal = false) :
    Sane sha256 i s (restartScan scan (restarted scan) s).2 := by
  have hdiscards : (restarted scan).phase ≠ .completed ∧ (restarted scan).phase ≠ .verify := by
    unfold restarted
    dsimp only
    split <;> simp
  refine Sane.of_setScan h hdiscards.1 ?_
  intro plan hplan hselected
  simp only [Bool.and_eq_true, decide_eq_true_eq] at hselected
  obtain ⟨-, hcurrent⟩ := hselected
  have hsound := h.plans plan hplan
  obtain ⟨first, hcutoff⟩ := Option.isSome_iff_exists.mp (hsound.started _ hcurrent)
  have hscan := hsound.scan first _ hcutoff hcurrent
  have hgoing := hscan.going (by
    intro hcompleted
    rw [show scan.phase = .completed from hcompleted] at hphase
    cases hphase)
  exact ⟨first, hcutoff, hscan.seller, hscan.named, hscan.cutoff,
    fun hcompleted => absurd hcompleted hdiscards.1, fun _ => hgoing,
    fun hverify => absurd hverify hdiscards.2⟩

/-! ### Checkpoints -/

variable {page : SearchPage}

theorem checkpointScan_ok (h : checkpointScan i scan proposed page documents s = .ok t) :
    (∃ plan ∈ s.plans.docs, plan.sellerId = scan.sellerId ∧ plan.scan = some scan) ∧
      documents.foldlM (insertReceipt scan) s.receipts = .ok t.receipts ∧
      (page.nextOffset = none →
        (passReceipts scan scan.passNumber t.receipts).length = page.sourceTotal) ∧
      t.plans.docs = s.plans.docs.map (fun plan =>
        if plan.sellerId = scan.sellerId && plan.scan.any (fun stored =>
          stored.scanId = scan.scanId && stored.revision = scan.revision)
        then publish scan proposed plan else plan) ∧
      (∀ sellerId,
        (t.plans.byKey sellerId).map Plan.cutoff = (s.plans.byKey sellerId).map Plan.cutoff) ∧
      t.jobs = s.jobs ∧ t.completed =
        if proposed.phase = .completed then (i, proposed) :: s.completed else s.completed := by
  unfold checkpointScan at h
  obtain ⟨howner, h⟩ := raiseIf_ok h
  obtain ⟨receipts, hreceipts, h⟩ := bind_ok h
  obtain ⟨hcount, h⟩ := raiseIf_ok h
  cases pure_ok h
  refine ⟨?_, hreceipts, fun hfinal => ?_, rfl, fun sellerId => ?_, rfl, rfl⟩
  · obtain ⟨plan, hplan, hscan⟩ := Option.bind_eq_some_iff.mp (not_not.mp howner)
    obtain ⟨hmem, hseller⟩ := Collection.byKey_some.mp hplan
    exact ⟨plan, hmem, hseller, hscan⟩
  · by_contra hne
    exact hcount ⟨hfinal, hne⟩
  · rw [Collection.byKey_update, Option.map_map]
    congr 1
    funext plan
    simp only [Function.comp_apply]
    split <;> rfl

theorem checkPage_ok (h : checkPage scan page = .ok ()) :
    ∀ total, scan.sourceTotal = some total → page.sourceTotal = total := by
  unfold checkPage at h
  obtain ⟨hbinding, -⟩ := raiseIf_ok h
  intro total htotal
  by_contra hne
  refine hbinding (.inr (.inr (.inr (.inr (.inl ?_)))))
  rw [htotal]
  simpa using hne

/-- Documents of another pass or another scan leave a pass as it was. -/
theorem passReceipts_of_docs {other : Scan} {passNumber : Nat}
    (hdocs : receipts'.docs = receipts.docs ++ documents)
    (hnone : ∀ d ∈ documents, d.place ≠ (other.scanId, other.generation, passNumber, d.resourceId)) :
    passReceipts other passNumber receipts' = passReceipts other passNumber receipts := by
  have hfilter : documents.filter (fun stored => stored.acquisitionId = other.scanId &&
      stored.generation = other.generation && stored.passNumber = passNumber) = [] := by
    rw [List.filter_eq_nil_iff]
    intro d hd hpass
    refine hnone d hd ?_
    simpa [Receipt.place, and_assoc] using hpass
  show receipts'.docs.filter _ = receipts.docs.filter _
  rw [hdocs, List.filter_append, hfilter, List.append_nil]

/-- What a checkpoint is made of. -/
structure Checkpoint (sha256 : String → String) (scan : Scan) (page : SearchPage)
    (documents : List Receipt) (s : Store ι) : Prop where
  going : scan.phase.terminal = false
  total : ∀ total, scan.sourceTotal = some total → page.sourceTotal = total
  ofScan : ∀ d ∈ documents, OfScan scan d
  recovered : scan.phase = .verify → ∀ d ∈ documents, d.kind = .membership →
    Recovered sha256 s.jobs scan.sellerId d.resourceId d.sourceVersion d.sourceHash

namespace Checkpoint

variable (h : Checkpoint sha256 scan page documents s)
include h

theorem not_completed : scan.phase ≠ .completed := by
  intro hphase
  have := h.going
  rw [hphase] at this
  cases this

theorem receiptsSound (hsound : ReceiptsSound sha256 s.receipts s.jobs)
    (hinsert : documents.foldlM (insertReceipt scan) s.receipts = .ok receipts')
    (hseller : scan.scanId.sellerId = scan.sellerId) :
    receipts'.docs = s.receipts.docs ++ documents ∧ ReceiptsSound sha256 receipts' s.jobs := by
  obtain ⟨hdocs, hagree⟩ := insertReceipts_ok hsound.agree h.going h.ofScan hinsert
  refine ⟨hdocs, hagree, ?_, ?_⟩
  · intro a ha
    rw [hdocs, List.mem_append] at ha
    rcases ha with ha | ha
    · exact hsound.seller a ha
    · have hplace := (h.ofScan a ha).place
      simp only [Receipt.place, Prod.mk.injEq] at hplace
      rw [(h.ofScan a ha).seller, hplace.1, hseller]
  · intro a ha hpass hkind
    rw [hdocs, List.mem_append] at ha
    rcases ha with ha | ha
    · exact hsound.recovered a ha hpass hkind
    · have hplace := (h.ofScan a ha).place
      simp only [Receipt.place, Prod.mk.injEq] at hplace
      have hverify := verify_of_passNumber h.going (hplace.2.2.1.symm.trans hpass)
      rw [(h.ofScan a ha).seller]
      exact h.recovered hverify a ha hkind

/-- The first pass is left alone by verification. -/
theorem firstPass (hverify : scan.phase = .verify)
    (hdocs : receipts'.docs = receipts.docs ++ documents) :
    passReceipts scan 1 receipts' = passReceipts scan 1 receipts := by
  refine passReceipts_of_docs hdocs fun d hd hplace => ?_
  have hplace' := (h.ofScan d hd).place
  rw [hplace] at hplace'
  simp [Scan.passNumber, hverify] at hplace'

end Checkpoint

theorem proposal_stored (hwatermark : floorMs scan.watermark = scan.watermark)
    (hcutoff : floorMs scan.cutoff = scan.cutoff) :
    (proposal scan page).stored = proposal scan page := by
  simp [proposal, Scan.stored, hwatermark, hcutoff]

theorem proposal_completed (hnot : scan.phase ≠ .completed) (hgoing : scan.phase.terminal = false)
    (h : (proposal scan page).phase = .completed) :
    page.nextOffset = none ∧ scan.phase = .verify := by
  cases hoffset : page.nextOffset with
  | some offset =>
      simp only [proposal, hoffset, Option.isSome_some, if_true] at h
      exact absurd h hnot
  | none =>
      refine ⟨rfl, ?_⟩
      simp only [proposal, hoffset, Option.isSome_none, Bool.false_eq_true, if_false] at h
      cases hphase : scan.phase with
      | discover => simp [hphase] at h
      | verify => rfl
      | completed => exact absurd hphase hnot
      | failed =>
          rw [hphase] at hgoing
          cases hgoing

theorem proposal_verify (h : (proposal scan page).phase = .verify) :
    (page.nextOffset = none ∧ scan.phase = .discover) ∨ scan.phase = .verify := by
  cases hoffset : page.nextOffset with
  | some offset =>
      simp only [proposal, hoffset, Option.isSome_some, if_true] at h
      exact .inr h
  | none =>
      simp only [proposal, hoffset, Option.isSome_none, Bool.false_eq_true, if_false] at h
      split at h
      · exact .inl ⟨rfl, ‹_›⟩
      · cases h

theorem completedOf_cons {sellerId : String} {completed : List (ι × Scan)} :
    completedOf sellerId ((i, scan) :: completed) =
      if scan.sellerId = sellerId then scan :: completedOf sellerId completed
      else completedOf sellerId completed := by
  unfold completedOf
  rw [List.map_cons, List.filter_cons]
  simp

namespace Checkpoint

variable (h : Checkpoint sha256 scan page documents s)
include h

/-- The next scan of the plan is sound while it goes on. -/
theorem scanSound {sellerId : String} {first : ℤ} {scans : List Scan}
    (hscan : ScanSound sellerId first scans s.receipts scan)
    (hdocs : receipts'.docs = s.receipts.docs ++ documents)
    (hcount : page.nextOffset = none →
      (passReceipts scan scan.passNumber receipts').length = page.sourceTotal)
    (hphase : (proposal scan page).phase ≠ .completed) :
    ScanSound sellerId first scans receipts' (proposal scan page) := by
  refine ⟨hscan.seller, hscan.named, hscan.cutoff, fun hcompleted => absurd hcompleted hphase,
    fun _ => hscan.going h.not_completed, fun hverify => ⟨page.sourceTotal, rfl, ?_⟩⟩
  show (passReceipts scan 1 receipts').length = page.sourceTotal
  rcases proposal_verify hverify with ⟨hfinal, hdiscover⟩ | hverify
  · have := hcount hfinal
    rwa [show scan.passNumber = 1 from if_pos hdiscover] at this
  · obtain ⟨total, htotal, hlength⟩ := hscan.verified hverify
    rw [h.firstPass hverify hdocs, hlength]
    exact (h.total total htotal).symm

theorem certified {first : ℤ} {scans : List Scan}
    (hscan : ScanSound scan.sellerId first scans s.receipts scan)
    (hdocs : t.receipts.docs = s.receipts.docs ++ documents)
    (hsound : ReceiptsSound sha256 t.receipts t.jobs)
    (hcount : (passReceipts scan scan.passNumber t.receipts).length = page.sourceTotal)
    (hverify : scan.phase = .verify) : Certified sha256 t (proposal scan page) := by
  obtain ⟨total, htotal, hlength⟩ := hscan.verified hverify
  have hpage := h.total total htotal
  have hfirst : (passReceipts scan 1 t.receipts).length = page.sourceTotal := by
    rw [h.firstPass hverify hdocs, hlength, hpage]
  have hsecond : (passReceipts scan 2 t.receipts).length = page.sourceTotal := by
    rwa [show scan.passNumber = 2 from by simp [Scan.passNumber, hverify]] at hcount
  have hsame := hsound.agree.same scan (hfirst.trans hsecond.symm)
  have hrecovered : ∀ a ∈ passReceipts scan 2 t.receipts, a.kind = .membership →
      Recovered sha256 t.jobs scan.sellerId a.resourceId a.sourceVersion a.sourceHash := by
    intro a ha hkind
    obtain ⟨hmem, hplace⟩ := mem_passReceipts.mp ha
    simp only [Receipt.place, Prod.mk.injEq] at hplace
    have := hsound.recovered a hmem hplace.2.2.1 hkind
    rwa [hsound.seller a hmem, hplace.1, hscan.named] at this
  refine ⟨?_, hsame, hsound.agree.nodup 1, ?_⟩
  · rintro passNumber (rfl | rfl)
    · exact congrArg some hfirst.symm
    · exact congrArg some hsecond.symm
  · rintro passNumber (rfl | rfl) a ha hkind
    · -- the second pass has recorded the same order
      have hmem : a.manifest ∈ (passReceipts scan 2 t.receipts).map Receipt.manifest :=
        hsame.mem_iff.mpr (List.mem_map_of_mem ha)
      obtain ⟨b, hb, hmanifest⟩ := List.mem_map.mp hmem
      simp only [Receipt.manifest, Prod.mk.injEq] at hmanifest
      obtain ⟨hid, hkind', hversion, hhash⟩ := hmanifest
      have := hrecovered b hb (hkind'.trans hkind)
      rwa [hid, hversion, hhash] at this
    · exact hrecovered a ha hkind

end Checkpoint

namespace PlanSound

variable {plan : Plan} {scans : List Scan} {first : ℤ}

theorem of_receipts (h : PlanSound scans receipts plan)
    (hpass : ∀ scan, plan.scan = some scan →
      passReceipts scan 1 receipts' = passReceipts scan 1 receipts) :
    PlanSound scans receipts' plan := by
  refine ⟨h.watermark, h.fresh, h.started, h.whole, h.linked, ?_⟩
  intro first scan hfirst hcurrent
  have hscan := h.scan first scan hfirst hcurrent
  refine ⟨hscan.seller, hscan.named, hscan.cutoff, hscan.ended, hscan.going, ?_⟩
  rw [hpass scan hcurrent]
  exact hscan.verified

/-- The plan whose scan goes on. -/
theorem publish_going (h : PlanSound scans receipts plan) (hfirst : plan.cutoff = some first)
    (hphase : proposed.phase ≠ .completed) (hstored : proposed.stored = proposed)
    (hnext : ScanSound plan.sellerId first scans receipts' proposed) :
    PlanSound scans receipts' (publish scan proposed plan) := by
  refine ⟨?_, fun hnone => (by cases hnone), fun _ _ => ?_, h.whole, h.linked, ?_⟩
  · show (if proposed.phase = .completed then _ else plan.watermark) = _
    rw [if_neg hphase]
    exact h.watermark
  · show plan.cutoff.isSome = true
    rw [hfirst]
    rfl
  · intro first' next hfirst' hcurrent
    cases hfirst.symm.trans hfirst'
    cases (congrArg some hstored.symm).trans hcurrent
    exact hnext

/-- The plan whose scan is completed. -/
theorem publish_completed (h : PlanSound scans receipts plan) (hfirst : plan.cutoff = some first)
    (hscan : ScanSound plan.sellerId first scans receipts scan) (hnot : scan.phase ≠ .completed)
    (hwhole : floorMs scan.cutoff = scan.cutoff)
    (hphase : (proposal scan page).phase = .completed)
    (hstored : (proposal scan page).stored = proposal scan page) :
    PlanSound (proposal scan page :: scans) receipts' (publish scan (proposal scan page) plan) := by
  have hgoing := hscan.going hnot
  refine ⟨?_, fun hnone => (by cases hnone), fun _ _ => ?_, ?_, ?_, ?_⟩
  · show (if (proposal scan page).phase = .completed then _ else plan.watermark) = _
    rw [if_pos hphase]
    exact congrArg some hwhole
  · show plan.cutoff.isSome = true
    rw [hfirst]
    rfl
  · intro _ _
    exact hwhole
  · intro first' hfirst'
    cases hfirst.symm.trans hfirst'
    exact ⟨hgoing.1, hgoing.2, h.linked first hfirst⟩
  · intro first' next hfirst' hcurrent
    cases hfirst.symm.trans hfirst'
    cases (congrArg some hstored.symm).trans hcurrent
    exact ⟨hscan.seller, hscan.named, hscan.cutoff, fun _ => rfl,
      fun hnot => absurd hphase hnot, fun hverify => by rw [hphase] at hverify; cases hverify⟩

end PlanSound

/-- A checkpoint keeps the invariant and obeys the law. -/
theorem Sane.of_checkpoint (h : Sound sha256 s) (hc : Checkpoint sha256 scan page documents s)
    (hok : checkpointScan i scan (proposal scan page) page documents s = .ok t) :
    Sane sha256 i s t := by
  obtain ⟨⟨owner, howner, hseller, hcurrent⟩, hinsert, hcount, hplans, hcutoffs, hjobs,
    hcompleted⟩ :=
    checkpointScan_ok hok
  have hsound := h.plans owner howner
  obtain ⟨first, hfirst⟩ := Option.isSome_iff_exists.mp (hsound.started _ hcurrent)
  have hscan := hsound.scan first scan hfirst hcurrent
  have hgoing := hscan.going hc.not_completed
  obtain ⟨hdocs, hreceipts⟩ := hc.receiptsSound h.receipts hinsert (hscan.named.trans hseller)
  rw [← hjobs] at hreceipts
  have hwhole : floorMs scan.cutoff = scan.cutoff := by
    rw [← hscan.cutoff, floorMs_floorMs]
  have hstored : (proposal scan page).stored = proposal scan page := by
    refine proposal_stored ?_ hwhole
    rw [hgoing.1]
    exact hsound.whole first hfirst
  have hselected : (decide (owner.sellerId = scan.sellerId) && owner.scan.any (fun stored =>
      stored.scanId = scan.scanId && stored.revision = scan.revision)) = true := by
    simp [hseller, hcurrent]
  -- the plans of other sellers
  have hothers : ∀ plan ∈ s.plans.docs, plan ≠ owner → plan.sellerId ≠ scan.sellerId := by
    intro plan hmem hne heq
    exact hne (s.plans.eq_of_key hmem howner (heq.trans hseller.symm))
  have hunselected : ∀ plan ∈ s.plans.docs, plan ≠ owner →
      ¬ (decide (plan.sellerId = scan.sellerId) && plan.scan.any (fun stored =>
        stored.scanId = scan.scanId && stored.revision = scan.revision)) = true := by
    intro plan hmem hne
    simp [hothers plan hmem hne]
  have hcompletedOf : ∀ sellerId, sellerId ≠ scan.sellerId →
      completedOf sellerId t.completed = completedOf sellerId s.completed := by
    intro sellerId hne
    rw [hcompleted]
    split
    · rw [completedOf_cons, if_neg (show (proposal scan page).sellerId ≠ sellerId from Ne.symm hne)]
    · rfl
  refine ⟨⟨hreceipts, ?_⟩, ⟨?_, ?_, hcutoffs⟩, ?_⟩
  · intro plan' hmem
    rw [hplans] at hmem
    obtain ⟨plan, hplan, rfl⟩ := List.mem_map.mp hmem
    by_cases howns : plan = owner
    · subst howns
      rw [if_pos hselected]
      show PlanSound (completedOf plan.sellerId t.completed) _ _
      by_cases hphase : (proposal scan page).phase = .completed
      · have hcons : completedOf plan.sellerId t.completed =
            proposal scan page :: completedOf plan.sellerId s.completed := by
          rw [hcompleted, if_pos hphase, completedOf_cons,
            if_pos (show (proposal scan page).sellerId = plan.sellerId from hseller.symm)]
        rw [hcons]
        exact hsound.publish_completed hfirst hscan hc.not_completed hwhole hphase hstored
      · rw [hcompleted, if_neg hphase]
        exact hsound.publish_going hfirst hphase hstored
          (hc.scanSound hscan hdocs hcount hphase)
    · rw [if_neg (hunselected plan hplan howns)]
      have hne := hothers plan hplan howns
      rw [hcompletedOf plan.sellerId hne]
      refine (h.plans plan hplan).of_receipts fun other hother => ?_
      refine passReceipts_of_docs hdocs fun d hd hplace => hne ?_
      obtain ⟨first', hfirst'⟩ := Option.isSome_iff_exists.mp ((h.plans plan hplan).started _ hother)
      have hnamed := ((h.plans plan hplan).scan first' other hfirst' hother).named
      have hof := (hc.ofScan d hd).place
      rw [hplace] at hof
      simp only [Prod.mk.injEq] at hof
      rw [← hnamed, hof.1, hscan.named, hseller]
  · intro a ha
    rw [hdocs]
    exact List.mem_append_left _ ha
  · intro _ _ _ _ hrecovered
    rw [hjobs]
    exact hrecovered
  · intro plan hmem
    by_cases howns : plan = owner
    · subst howns
      refine ⟨publish scan (proposal scan page) plan, ?_, rfl, rfl, ?_⟩
      · rw [hplans]
        exact List.mem_map.mpr ⟨plan, hmem, if_pos hselected⟩
      · by_cases hphase : (proposal scan page).phase = .completed
        · left
          obtain ⟨hfinal, hverify⟩ := proposal_completed hc.not_completed hc.going hphase
          refine ⟨scan, proposal scan page, hcurrent, hverify, congrArg some hstored, hphase,
            ⟨rfl, rfl, rfl⟩, ?_, ?_, ?_, ?_⟩
          · show (if (proposal scan page).phase = .completed then _ else plan.watermark) = _
            rw [if_pos hphase]
            exact congrArg some hwhole
          · intro w hw
            have heffective := hsound.effective first
            rw [hw, ← hgoing.1] at heffective
            exact heffective.trans_le hgoing.2
          · rw [hseller] at hscan
            exact hc.certified hscan hdocs hreceipts (hcount hfinal) hverify
          · rw [hcompleted, if_pos hphase]
        · right
          refine ⟨?_, ?_⟩
          · show (if (proposal scan page).phase = .completed then _ else plan.watermark) = _
            rw [if_neg hphase]
          · intro done hdone hended
            cases (congrArg some hstored.symm).trans hdone
            exact absurd hended hphase
    · refine ⟨plan, ?_, rfl, rfl, PlanLaw.refl plan⟩
      rw [hplans]
      exact List.mem_map.mpr ⟨plan, hmem, if_neg (hunselected plan hmem howns)⟩

end ZelerPlatform.Modifications
