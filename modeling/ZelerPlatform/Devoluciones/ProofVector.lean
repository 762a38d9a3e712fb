import ZelerPlatform.Devoluciones.Commits

/-!
# A validated proof vector means an undisturbed read

A reader selects a chain of certificates in one snapshot and validates it in a later one.
Between the two, every change of a claim in a certificate's range raises its revision,
which no writer takes back while the fence stays; a certificate that is retired is not
published again under the same fence. So a vector that validates has not been disturbed.
-/

namespace ZelerPlatform.Devoluciones

open Mongo Mongo.Value Fallible Transition

variable {digests : Digests} {key : Key} {task : Int → Task} {ctx : Context}
variable {db db' : Coverage} {change : Change} {images : List (Option Doc)}

/-! ### The chain of a selection -/

section

variable {candidates : List CertificateDoc} {stop : Int}

theorem extendCoverage_mem {fuel : Nat} {cursor : Int} {c : CertificateDoc}
    (h : c ∈ (extendCoverage candidates stop fuel cursor).1) : c ∈ candidates := by
  induction fuel generalizing cursor with
  | zero => cases h
  | succ fuel ih =>
      unfold extendCoverage at h
      split at h
      · split at h
        · cases h
        · next choice hchoice =>
            cases h with
            | head => exact (List.mem_filter.mp (List.argmin_mem hchoice)).1
            | tail _ h => exact ih h
      · cases h

/-- The selected certificates cover every instant up to where they reach. -/
theorem extendCoverage_covers {fuel : Nat} {cursor t : Int} (from_le : cursor ≤ t)
    (lt_reach : t < (extendCoverage candidates stop fuel cursor).2) :
    ∃ c ∈ (extendCoverage candidates stop fuel cursor).1, c.dateFrom ≤ t ∧ t < c.dateTo := by
  induction fuel generalizing cursor with
  | zero => exact absurd lt_reach (not_lt.mpr from_le)
  | succ fuel ih =>
      unfold extendCoverage at lt_reach ⊢
      split at lt_reach
      · next hstop =>
          rw [if_pos hstop]
          split at lt_reach
          · exact absurd lt_reach (not_lt.mpr from_le)
          · next choice hchoice =>
              have hcovers := (List.mem_filter.mp (List.argmin_mem hchoice)).2
              simp only [Bool.and_eq_true, decide_eq_true_eq] at hcovers
              by_cases ht : t < choice.dateTo
              · exact ⟨choice, List.mem_cons_self, hcovers.1.trans from_le, ht⟩
              · obtain ⟨c, hc, hrange⟩ := ih (not_lt.mp ht) lt_reach
                exact ⟨c, List.mem_cons_of_mem choice hc, hrange⟩
      · exact absurd lt_reach (not_lt.mpr from_le)

/-- The chain ends where the request ends or where no candidate goes on. -/
theorem extendCoverage_longest {fuel : Nat} {cursor : Int}
    (enough : (candidates.filter fun c => decide (cursor < c.dateTo)).length ≤ fuel) :
    stop ≤ (extendCoverage candidates stop fuel cursor).2 ∨
      ∀ c ∈ candidates, ¬ (c.dateFrom ≤ (extendCoverage candidates stop fuel cursor).2 ∧
        (extendCoverage candidates stop fuel cursor).2 < c.dateTo) := by
  induction fuel generalizing cursor with
  | zero =>
      refine .inr fun c hc hcovers => ?_
      have hempty := List.eq_nil_of_length_eq_zero (Nat.le_zero.mp enough)
      have hmem : c ∈ candidates.filter fun c => decide (cursor < c.dateTo) :=
        List.mem_filter.mpr ⟨hc, by simpa [extendCoverage] using hcovers.2⟩
      rw [hempty] at hmem
      cases hmem
  | succ fuel ih =>
      unfold extendCoverage
      split
      · split
        · next hnone =>
            refine .inr fun c hc hcovers => ?_
            have hempty := List.argmin_eq_none.mp hnone
            have hmem : c ∈ candidates.filter fun c =>
                decide (c.dateFrom ≤ cursor) && decide (cursor < c.dateTo) :=
              List.mem_filter.mpr ⟨hc, by simpa using hcovers⟩
            rw [hempty] at hmem
            cases hmem
        · next choice hchoice =>
            obtain ⟨hmem, hcovers⟩ := List.mem_filter.mp (List.argmin_mem hchoice)
            simp only [Bool.and_eq_true, decide_eq_true_eq] at hcovers
            refine ih (Nat.le_of_lt_succ (lt_of_lt_of_le ?_ enough))
            have hnested : (candidates.filter fun c => decide (choice.dateTo < c.dateTo)) =
                (candidates.filter fun c => decide (cursor < c.dateTo)).filter
                  fun c => decide (choice.dateTo < c.dateTo) := by
              rw [List.filter_filter]
              refine List.filter_congr fun c _ => ?_
              simpa using fun h => hcovers.2.trans h
            rw [hnested, List.length_filter_lt_length_iff_exists]
            -- the choice itself does not reach beyond its own end
            exact ⟨choice, List.mem_filter.mpr ⟨hmem, by simpa using hcovers.2⟩, by simp⟩
      · next hstop => exact .inl (not_lt.mp hstop)

end

theorem requireCompatible_ok {control : Option OperationDoc} {epoch fence : Int}
    (h : requireCompatible control = .ok (epoch, fence)) :
    (control.bind (·.fence)).getD 0 = fence ∧ (control.bind (·.coverageEpoch)).getD 0 = epoch := by
  unfold requireCompatible at h
  cases control with
  | none => cases h
  | some operation =>
      cases hepoch : operation.coverageEpoch with
      | none => simp [hepoch] at h
      | some epoch' =>
          cases hfence : operation.fence with
          | none =>
              simp only [hepoch, hfence] at h
              split at h <;> cases h
          | some fence' =>
              simp only [hepoch, hfence] at h
              split at h
              · cases h
              · obtain ⟨rfl, rfl⟩ := Prod.mk.inj (Except.ok.inj h)
                simp [hepoch, hfence]

/-- What the reader holds after the selection. -/
structure Selected (key : Key) (db : Coverage) (vector : ProofVector) : Prop where
  nonempty : vector.proofs ≠ []
  sellerId : vector.sellerId = key.sellerId
  fence : vector.fence = db.fence
  epoch : vector.epoch = db.epoch
  proofs : ∀ c ∈ vector.proofs, c ∈ db.certificates.docs ∧ c.sellerId = key.sellerId
  covers : ∀ t, vector.start ≤ t → t < vector.stop →
    ∃ c ∈ vector.proofs, c.dateFrom ≤ t ∧ t < c.dateTo

theorem selectCoveringPrefix_ok {start stop clock : Int} {vector : ProofVector}
    (h : selectCoveringPrefix digests db key.sellerId start stop clock = .ok vector) :
    Selected key db vector := by
  unfold selectCoveringPrefix at h
  obtain ⟨⟨epoch, fence⟩, hcontrol, h⟩ := bind_ok h
  obtain ⟨⟨selected, reach⟩, hprefix, h⟩ := bind_ok h
  obtain ⟨hnonempty, h⟩ := raiseIf_ok h
  obtain ⟨-, -, h⟩ := bind_ok h
  obtain ⟨hfence, hepoch⟩ := requireCompatible_ok hcontrol
  obtain ⟨-, hprefix⟩ := raiseIf_ok hprefix
  obtain ⟨rfl, rfl⟩ := Prod.mk.inj (pure_ok hprefix)
  rw [← pure_ok h]
  refine ⟨hnonempty, rfl, hfence.symm, hepoch.symm, fun c hc => ?_, fun t hfrom hto => ?_⟩
  · have hdocument := (List.mem_filter.mp (extendCoverage_mem hc)).1
    have hfound := Collection.find_mem.mp hdocument
    simp only [Bool.and_eq_true, beq_iff_eq] at hfound
    exact ⟨hfound.1, hfound.2.1.1.1.1.1⟩
  · exact extendCoverage_covers hfrom (lt_of_lt_of_le hto (min_le_left _ _))

theorem selectCoverage_single {c : CertificateDoc} {sellerId : String} {start stop clock : Int}
    {selected : List CertificateDoc}
    (h : selectCoverage digests [c] sellerId start stop clock = .ok selected) :
    eligible digests sellerId clock c = true := by
  by_contra hne
  unfold selectCoverage at h
  obtain ⟨⟨prefixOf, reach⟩, hprefix, h⟩ := bind_ok h
  obtain ⟨hreach, -⟩ := raiseIf_ok h
  obtain ⟨hbounds, hprefix⟩ := raiseIf_ok hprefix
  rw [List.filter_cons_of_neg hne] at hprefix
  obtain ⟨-, rfl⟩ := Prod.mk.inj (pure_ok hprefix)
  exact hreach (lt_of_le_of_lt (min_le_left _ _) (not_not.mp hbounds))

/-- What a proof that validates is. -/
structure Validated (digests : Digests) (db : Coverage) (sellerId : String) (clock : Int)
    (proof current : CertificateDoc) : Prop where
  mem : current ∈ db.certificates.docs
  same : current.sameProof proof = true
  sellerId : current.sellerId = sellerId
  reconciled : current.state = "reconciled"
  unexpired : clock < current.validUntil

theorem validateProof_ok {sellerId : String} {clock : Int} {proof : CertificateDoc}
    (h : validateProof digests db sellerId clock proof = .ok ()) :
    ∃ current, Validated digests db sellerId clock proof current := by
  unfold validateProof at h
  split at h
  · exact (throw_ok h).elim
  · next current hcurrent =>
      obtain ⟨selected, hselected, h⟩ := bind_ok h
      obtain ⟨hsame, -⟩ := raiseIf_ok h
      have heligible := selectCoverage_single hselected
      simp only [eligible, Bool.and_eq_true, beq_iff_eq, decide_eq_true_eq] at heligible
      exact ⟨current, (Collection.findOne_mem hcurrent).1, by simpa using hsame,
        heligible.1.1.1.1.1.1.1.1.2, heligible.1.1.1.1.1.1.1.2, heligible.1.1.1.1.1.2⟩

theorem validateProofVector_ok {vector : ProofVector} {clock : Int}
    (h : validateProofVector digests db vector clock = .ok ()) :
    vector.fence = db.fence ∧ vector.epoch = db.epoch ∧ ∀ proof ∈ vector.proofs,
      ∃ current, Validated digests db vector.sellerId clock proof current := by
  unfold validateProofVector at h
  obtain ⟨⟨epoch, fence⟩, hcontrol, h⟩ := bind_ok h
  obtain ⟨hsame, hproofs⟩ := raiseIf_ok h
  obtain ⟨hfence, hepoch⟩ := requireCompatible_ok hcontrol
  obtain ⟨rfl, rfl⟩ : epoch = vector.epoch ∧ fence = vector.fence := by
    simpa only [not_or, not_not] using hsame
  exact ⟨hfence.symm, hepoch.symm, fun proof hproof => validateProof_ok (forM_ok hproofs hproof)⟩

/-! ### The impact of a change -/

theorem impacted_nil {c : CertificateDoc} : impacted key [] c = false := by
  simp [impacted, claimImpacts]

theorem impacted_seller {c : CertificateDoc} (h : impacted key images c = true) :
    c.sellerId = key.sellerId := by
  simp only [impacted, Bool.and_eq_true, beq_iff_eq] at h
  exact h.1

/-- The filter selects by range and seller, which a certificate keeps. -/
theorem impacted_congr {c d : CertificateDoc} (h : Onward c d) :
    impacted key images d = impacted key images c := by
  simp only [impacted, h.sellerId, h.dateFrom, h.dateTo]

theorem invalidateImpactOf_mem {reason : String} {c : CertificateDoc}
    (hc : c ∈ db.certificates.docs) (h : impacted key images c = true) :
    ∃ text, c.invalidate text ∈ (invalidateImpactOf key images reason db).certificates.docs := by
  unfold invalidateImpactOf
  dsimp only
  split
  · next hnone =>
      simp only [Bool.and_eq_true, Bool.not_eq_true', List.isEmpty_iff] at hnone
      simp [impacted, hnone] at h
  · exact ⟨_, List.mem_map.mpr ⟨c, hc, if_pos h⟩⟩

/-- Right after the call, no certificate it selects is reconciled. -/
theorem invalidateImpactOf_stale {reason : String} {c : CertificateDoc}
    (hc : c ∈ (invalidateImpactOf key images reason db).certificates.docs)
    (h : impacted key images c = true) : c.state = "stale" := by
  unfold invalidateImpactOf at hc
  dsimp only at hc
  split at hc
  · next hnone =>
      simp only [Bool.and_eq_true, Bool.not_eq_true', List.isEmpty_iff] at hnone
      simp [impacted, hnone] at h
  · obtain ⟨before, hbefore, rfl⟩ := List.mem_map.mp hc
    by_cases hselected : impacted key images before = true
    · rw [if_pos hselected]
      rfl
    · rw [if_neg hselected] at h
      exact absurd h hselected

theorem invalidateImpactOf_source {reason : String} {d : CertificateDoc}
    (hd : d ∈ (invalidateImpactOf key images reason db).certificates.docs) :
    ∃ c ∈ db.certificates.docs, Onward c d := by
  unfold invalidateImpactOf at hd
  dsimp only at hd
  split at hd
  · exact ⟨d, hd, .refl d⟩
  · obtain ⟨c, hc, rfl⟩ := List.mem_map.mp hd
    refine ⟨c, hc, ?_⟩
    split
    · exact onward_invalidate _ c
    · exact .refl c

theorem mutateClaims_raises {mutation : Mutation} {inTime : Bool} {completed : Nat} {clock : Int}
    {c : CertificateDoc} (hc : c ∈ db.certificates.docs)
    (h : impacted key mutation.images c = true) :
    ∃ d ∈ (mutateClaims digests key ctx mutation inTime completed clock db).certificates.docs,
      Onward c d ∧ c.revision < d.revision := by
  let written := { db with claims := mutation.claims, orders := mutation.orders }
  have hinvalidated : ∃ text, c.invalidate text ∈
      (invalidateImpactOf key mutation.images mutation.reason written).certificates.docs :=
    invalidateImpactOf_mem hc h
  obtain ⟨text, hstale⟩ := hinvalidated
  have hcomplete : Fate digests key [] .projection _
      (mutateClaims digests key ctx mutation inTime completed clock db) := .complete
  obtain ⟨d, hd, hafter⟩ | ⟨runId, htask, -⟩ := hcomplete.forward _ hstale (impacted_seller h)
  · refine ⟨d, hd, (onward_invalidate text c).trans hafter, ?_⟩
    exact lt_of_lt_of_le (by simp [CertificateDoc.invalidate]) hafter.revision
  · cases htask

theorem Writes.raises {t : Task} (h : Writes digests key ctx t db images db') {c : CertificateDoc}
    (hc : c ∈ db.certificates.docs) (himpacted : impacted key images c = true) :
    ∃ d ∈ db'.certificates.docs, Onward c d ∧ c.revision < d.revision := by
  cases h with
  | finalize | publishJoint | renew | withdraw | migrate | activate | rollback
  | invalidateAll | other => simp [impacted_nil] at himpacted
  | mutate mutation inTime completed clock touches => exact mutateClaims_raises hc himpacted

/-- A commit raises the revision of every certificate that its images fall into. -/
theorem Commit.raises (h : Commit digests key task db change db') {c : CertificateDoc}
    (hc : c ∈ db.certificates.docs) (himpacted : impacted key change.images c = true) :
    ∃ d ∈ db'.certificates.docs, Onward c d ∧ c.revision < d.revision := by
  cases h with
  | acquire | heartbeat | finish | elsewhere => simp [impacted_nil] at himpacted
  | write checkpoint now₁ now₂ seller opened body closed =>
      obtain ⟨-, op, -, rfl⟩ := Coverage.guarded_cases opened
      obtain ⟨d, hd, hcd, hlt⟩ := body.raises hc himpacted
      have hclosed : Fate digests key [] .projection _ db' := .closeWrite closed
      obtain ⟨e, he, hde⟩ | ⟨runId, htask, -⟩ :=
        hclosed.forward d hd (hcd.sellerId.trans (impacted_seller himpacted))
      · exact ⟨e, he, hcd.trans hde, lt_of_lt_of_le hlt hde.revision⟩
      · cases htask

/-- A stored image dates a claim at its millisecond. -/
theorem claimImpact_storedFields {claim : Doc} {t : Int}
    (h : claimImpact key (storedFields claim) = .dated t) :
    ∃ us, claimImpact key claim = .dated us ∧ floorMs us = t := by
  have hseller : ((claim.get? "seller_id").map stored).bind identityString =
      (claim.get? "seller_id").bind identityString := by
    cases claim.get? "seller_id" with
    | none => rfl
    | some v =>
        cases v with
        | int n =>
            show identityString (ofInt n) = identityString (.int n)
            unfold ofInt
            split <;> rfl
        | _ => rfl
  unfold claimImpact at h ⊢
  simp only [Doc.get?_storedFields, hseller, Option.isNone_map] at h
  split at h
  · cases h
  · next hknown =>
      rw [if_neg hknown]
      split at h
      · next hreturns =>
          obtain ⟨v, hv, hstored⟩ := Option.map_eq_some_iff.mp (beq_iff_eq.mp hreturns)
          obtain rfl := stored_eq_string hstored
          rw [if_pos (by simp [hv])]
          split at h
          · next date hdate =>
              obtain ⟨d, hd, hstored⟩ := Option.map_eq_some_iff.mp hdate
              obtain ⟨us, rfl, rfl⟩ := stored_eq_date hstored
              cases h
              exact ⟨us, by rw [hd], rfl⟩
          · cases h
      · cases h

/-- A certificate that covers a claim which an image stands for is selected. -/
theorem impacted_of_image {image claim : Doc} {t : Int} {c : CertificateDoc}
    (mem : some image ∈ images) (himage : storedFields image = claim)
    (hdated : claimImpact key claim = .dated t) (hseller : c.sellerId = key.sellerId)
    (hfrom : c.dateFrom ≤ t) (hto : t < c.dateTo) : impacted key images c = true := by
  obtain ⟨us, hus, rfl⟩ := claimImpact_storedFields (himage ▸ hdated)
  have hdates : us ∈ (claimImpacts key images).1 := by
    refine List.mem_filterMap.mpr ⟨.dated us, List.mem_map.mpr ⟨image, ?_, hus⟩, rfl⟩
    exact List.mem_filterMap.mpr ⟨some image, mem, rfl⟩
  simp only [impacted, hseller, beq_self_eq_true, Bool.true_and, Bool.or_eq_true,
    List.any_eq_true, Bool.and_eq_true, decide_eq_true_eq]
  exact .inr ⟨us, hdates, hfrom, hto⟩

theorem Commit.claims (h : Commit digests key task db change db') (claim : Doc) :
    (claim ∈ db.claims ↔ claim ∈ db'.claims) ∨
      ∃ image, some image ∈ change.images ∧ storedFields image = claim := by
  cases h with
  | acquire request now₁ now₂ now₃ h =>
      refine .inl ?_
      unfold Coverage.acquired
      dsimp only
      split <;> rfl
  | heartbeat | finish => exact .inl .rfl
  | elsewhere operation certificates claims => exact .inl (by rw [claims])
  | write checkpoint now₁ now₂ seller opened body closed =>
      have hfate : Fate digests key _ (task _) db db' :=
        ((Fate.guarded opened (fun _ => rfl) fun _ => rfl).trans (body.fate seller)).trans
          (.closeWrite closed)
      exact hfate.claims claim

/-! ### Certificates proved again -/

/-- The documents a readback reads are the same. -/
structure SameRows (db db' : Coverage) : Prop where
  claims : db'.claims = db.claims
  orders : db'.orders = db.orders

theorem SameRows.reproof (h : SameRows db db') (sellerId : String)
    (prepared : CertificateDoc × List String) :
    Devoluciones.reproof digests sellerId db' prepared =
      Devoluciones.reproof digests sellerId db prepared := by
  simp only [Devoluciones.reproof, h.claims, h.orders]

theorem completeTransition_rows {clock : Int} {prepared : CertificateDoc × List String} :
    SameRows db (completeTransition digests ctx clock db prepared) := by
  unfold completeTransition
  split <;> exact ⟨rfl, rfl⟩

theorem completeCertificateTransition_rows {clock : Int}
    {prepared : List (CertificateDoc × List String)} :
    SameRows db (completeCertificateTransition digests ctx clock prepared db) := by
  unfold completeCertificateTransition
  induction prepared generalizing db with
  | nil => exact ⟨rfl, rfl⟩
  | cons first rest ih =>
      have hfirst : SameRows db (completeTransition digests ctx clock db first) :=
        completeTransition_rows
      exact ⟨ih.claims.trans hfirst.claims, ih.orders.trans hfirst.orders⟩

theorem invalidateImpactOf_rows {reason : String} :
    SameRows db (invalidateImpactOf key images reason db) := by
  unfold invalidateImpactOf
  dsimp only
  split <;> exact ⟨rfl, rfl⟩

/-- `d` is `c` proved again: its revision stays, and the readback gave its facts. -/
structure Reproved (digests : Digests) (sellerId : String) (db : Coverage)
    (prepared : CertificateDoc × List String) (c d : CertificateDoc) : Prop where
  onward : Onward c d
  revision : d.revision = c.revision
  id : c.id = prepared.1.id
  raised : c.revision = prepared.1.revision + 1
  facts : Devoluciones.reproof digests sellerId db prepared = .ok d.facts

theorem completeTransition_mem {clock : Int} {prepared : CertificateDoc × List String}
    {d : CertificateDoc}
    (h : d ∈ (completeTransition digests ctx clock db prepared).certificates.docs) :
    d ∈ db.certificates.docs ∨
      ∃ c ∈ db.certificates.docs, Reproved digests ctx.sellerId db prepared c d := by
  unfold completeTransition at h
  split at h
  · exact .inl h
  · next facts hfacts =>
      obtain ⟨c, hc, rfl⟩ := List.mem_map.mp h
      split
      · next hselected =>
          simp only [Bool.and_eq_true, beq_iff_eq] at hselected
          exact .inr ⟨c, hc, ⟨rfl, rfl, rfl, rfl, le_rfl⟩, rfl, hselected.1.1, hselected.2, hfacts⟩
      · exact .inl hc

theorem completeCertificateTransition_mem {clock : Int}
    {prepared : List (CertificateDoc × List String)} {d : CertificateDoc}
    (h : d ∈ (completeCertificateTransition digests ctx clock prepared db).certificates.docs) :
    d ∈ db.certificates.docs ∨ ∃ p ∈ prepared, ∃ c ∈ db.certificates.docs,
      Reproved digests ctx.sellerId db p c d := by
  unfold completeCertificateTransition at h
  induction prepared generalizing db with
  | nil => exact .inl h
  | cons first rest ih =>
      obtain hd | ⟨p, hp, c, hc, hreproved⟩ := ih h
      · obtain hd | ⟨c, hc, hreproved⟩ := completeTransition_mem hd
        · exact .inl hd
        · exact .inr ⟨first, List.mem_cons_self, c, hc, hreproved⟩
      · have hfacts : reproof digests ctx.sellerId db p = .ok d.facts :=
          (completeTransition_rows.reproof ctx.sellerId p).symm.trans hreproved.facts
        refine .inr ⟨p, List.mem_cons_of_mem first hp, ?_⟩
        obtain hc | ⟨c₀, hc₀, hfirst⟩ := completeTransition_mem hc
        · exact ⟨c, hc, { hreproved with facts := hfacts }⟩
        · exact ⟨c₀, hc₀, hfirst.onward.trans hreproved.onward,
            hreproved.revision.trans hfirst.revision,
            hfirst.onward.id.symm.trans hreproved.id,
            hfirst.revision.symm.trans hreproved.raised, hfacts⟩

/-- What is prepared was reconciled before the write. -/
theorem prepareCertificateTransition_mem {replacement : Option Doc} {inTime : Bool}
    {p : CertificateDoc × List String}
    (h : p ∈ prepareCertificateTransition digests ctx images replacement inTime db) :
    p.1 ∈ db.certificates.docs ∧ p.1.state = "reconciled" := by
  unfold prepareCertificateTransition at h
  dsimp only at h
  split at h
  · cases h
  · split at h
    · next prepared hprepared =>
        obtain ⟨result, hresult, rfl⟩ := List.mem_filterMap.mp h
        obtain ⟨c, hc, hprepare⟩ := mapM_ok hprepared hresult
        have hfound := Collection.find_mem.mp hc
        simp only [Bool.and_eq_true, beq_iff_eq] at hfound
        suffices hp : p.1 = c from hp ▸ ⟨hfound.1, hfound.2.1.1.1.2⟩
        unfold prepareTransition at hprepare
        obtain ⟨-, -, hprepare⟩ := bind_ok hprepare
        obtain ⟨facts, -, hprepare⟩ := bind_ok hprepare
        split at hprepare
        · cases pure_ok hprepare
        · obtain ⟨rows, -, hprepare⟩ := bind_ok hprepare
          cases pure_ok hprepare
          rfl
    · cases h

/-- A certificate that is reconciled although its range has been hit was proved again, after the
write and in the same transaction. -/
structure ProvedAgain (digests : Digests) (key : Key) (db db' : Coverage) (c d : CertificateDoc) :
    Prop where
  mem : c ∈ db.certificates.docs
  onward : Onward c d
  reconciled : c.state = "reconciled"
  revision : d.revision = c.revision + 1
  facts : currentCertificateFacts digests key.sellerId d.dateFrom d.dateTo db'.claims db'.orders =
    .ok d.facts

theorem mutateClaims_provedAgain {mutation : Mutation} {inTime : Bool} {completed : Nat}
    {clock : Int} {d : CertificateDoc} (seller : ctx.sellerId = key.sellerId)
    (hd : d ∈ (mutateClaims digests key ctx mutation inTime completed clock db).certificates.docs)
    (himpacted : impacted key mutation.images d = true) (hstate : d.state = "reconciled") :
    ∃ c, ProvedAgain digests key db
      (mutateClaims digests key ctx mutation inTime completed clock db) c d := by
  unfold mutateClaims at hd ⊢
  dsimp only at hd ⊢
  obtain hstale | ⟨p, hp, c, hc, hreproved⟩ := completeCertificateTransition_mem hd
  · rw [invalidateImpactOf_stale hstale himpacted] at hstate
    exact absurd hstate (by decide)
  · obtain ⟨hmem, hprior⟩ := prepareCertificateTransition_mem (List.mem_of_mem_take hp)
    obtain ⟨c₀, hc₀, honward⟩ := invalidateImpactOf_source hc
    have hprepared : c₀ = p.1 :=
      Collection.eq_of_key hc₀ hmem (honward.id.symm.trans hreproved.id)
    have hall : Onward p.1 d := hprepared ▸ honward.trans hreproved.onward
    refine ⟨p.1, hmem, hall, hprior, hreproved.revision.trans hreproved.raised, ?_⟩
    obtain ⟨-, -, hfacts⟩ := bind_ok hreproved.facts
    rw [hall.dateFrom, hall.dateTo, completeCertificateTransition_rows.claims,
      completeCertificateTransition_rows.orders, ← seller]
    exact hfacts

theorem closeWrite_same {checkpoint : Doc} {now : Int}
    (h : closeWrite ctx checkpoint now db = some db') :
    db'.certificates = db.certificates ∧ SameRows db db' := by
  unfold closeWrite at h
  split at h
  · obtain ⟨-, op, -, rfl⟩ := Coverage.guarded_cases h
    exact ⟨rfl, rfl, rfl⟩
  · cases h
    exact ⟨rfl, rfl, rfl⟩

theorem Writes.provedAgain {t : Task} (h : Writes digests key ctx t db images db')
    (seller : ctx.sellerId = key.sellerId) {d : CertificateDoc} (hd : d ∈ db'.certificates.docs)
    (himpacted : impacted key images d = true) (hstate : d.state = "reconciled") :
    ∃ c, ProvedAgain digests key db db' c d := by
  cases h with
  | finalize | publishJoint | renew | withdraw | migrate | activate | rollback
  | invalidateAll | other => simp [impacted_nil] at himpacted
  | mutate mutation inTime completed clock touches =>
      exact mutateClaims_provedAgain seller hd himpacted hstate

theorem Commit.provedAgain (h : Commit digests key task db change db') {d : CertificateDoc}
    (hd : d ∈ db'.certificates.docs) (himpacted : impacted key change.images d = true)
    (hstate : d.state = "reconciled") : ∃ c, ProvedAgain digests key db db' c d := by
  cases h with
  | acquire | heartbeat | finish | elsewhere => simp [impacted_nil] at himpacted
  | write checkpoint now₁ now₂ seller opened body closed =>
      obtain ⟨-, op, -, rfl⟩ := Coverage.guarded_cases opened
      obtain ⟨hcertificates, hrows⟩ := closeWrite_same closed
      obtain ⟨c, hc⟩ := body.provedAgain seller (hcertificates ▸ hd) himpacted hstate
      refine ⟨c, hc.mem, hc.onward, hc.reconciled, hc.revision, ?_⟩
      rw [hrows.claims, hrows.orders]
      exact hc.facts

/-! ### Following a certificate -/

/-- The certificate has been retired, and the operation that holds the fence does not publish
it again. -/
def Gone (digests : Digests) (key : Key) (t : Task) (c : CertificateDoc) (db : Coverage) : Prop :=
  (∀ d ∈ db.certificates.docs, d.sellerId = key.sellerId → d.id ≠ c.id) ∧
    Retires digests key t c.id

/-- Where the selected certificate stands: it is gone, or it goes on, with a higher revision
if it has been hit. -/
def Standing (digests : Digests) (key : Key) (t : Task) (c : CertificateDoc) (hit : Prop)
    (db : Coverage) : Prop :=
  Gone digests key t c db ∨
    ∃ d ∈ db.certificates.docs, Onward c d ∧ (hit → c.revision < d.revision)

variable {c : CertificateDoc} {t : Task}

theorem Standing.step {hit : Prop} (h : Standing digests key t c hit db)
    (hseller : c.sellerId = key.sellerId) (fate : Fate digests key images t db db')
    (raises : ∀ d ∈ db.certificates.docs, impacted key images d = true →
      ∃ e ∈ db'.certificates.docs, Onward d e ∧ d.revision < e.revision) :
    Standing digests key t c (hit ∨ impacted key images c = true) db' := by
  obtain ⟨hnone, hretires⟩ | ⟨d, hd, hcd, hraised⟩ := h
  · refine .inl ⟨fun e he hown hid => ?_, hretires⟩
    obtain ⟨d, hd, hde⟩ | hpublishes := fate.backward e he hown
    · exact hnone d hd (hde.sellerId.symm.trans hown) (hde.id.symm.trans hid)
    · exact hretires.not_publishes (hid ▸ hpublishes)
  · by_cases himpacted : impacted key images c = true
    · obtain ⟨e, he, hde, hlt⟩ := raises d hd ((impacted_congr hcd).trans himpacted)
      exact .inr ⟨e, he, hcd.trans hde, fun _ => lt_of_le_of_lt hcd.revision hlt⟩
    · obtain ⟨e, he, hde⟩ | hretires := fate.forward d hd (hcd.sellerId.trans hseller)
      · refine .inr ⟨e, he, hcd.trans hde, fun hhit => ?_⟩
        exact lt_of_lt_of_le (hraised (hhit.resolve_right himpacted)) hde.revision
      · -- `d` may be retired; if its identity is still there, it is `d` that went on
        by_cases hthere : ∃ e ∈ db'.certificates.docs, e.sellerId = key.sellerId ∧ e.id = d.id
        · obtain ⟨e, he, hown, hid⟩ := hthere
          obtain ⟨d', hd', hde⟩ | hpublishes := fate.backward e he hown
          · obtain rfl : d' = d := Collection.eq_of_key hd' hd (hde.id.symm.trans hid)
            refine .inr ⟨e, he, hcd.trans hde, fun hhit => ?_⟩
            exact lt_of_lt_of_le (hraised (hhit.resolve_right himpacted)) hde.revision
          · exact absurd (hid ▸ hpublishes) hretires.not_publishes
        · refine .inl ⟨fun e he hown hid => hthere ⟨e, he, hown, hid.trans hcd.id.symm⟩, ?_⟩
          exact hcd.id ▸ hretires

/-- What a run says about a certificate that was there at its start. -/
structure Followed (digests : Digests) (key : Key) (task : Int → Task) (start : Coverage)
    (c : CertificateDoc) (changes : List Change) (db : Coverage) : Prop where
  fence : start.fence ≤ db.fence
  epoch : start.epoch ≤ db.epoch
  steady : db.fence = start.fence → db.epoch = start.epoch → ∀ change ∈ changes,
    change.after.fence = change.before.fence ∧ change.after.epoch = change.before.epoch
  standing : db.fence = start.fence → Standing digests key (task start.fence) c
    (∃ change ∈ changes, impacted key change.images c = true) db

variable {start : Coverage} {changes : List Change}

theorem Followed.step (h : Followed digests key task start c changes db)
    (hseller : c.sellerId = key.sellerId) (commit : Commit digests key task db change db') :
    Followed digests key task start c (changes ++ [change]) db' := by
  have hmono : db.fence ≤ db'.fence ∧ db.epoch ≤ db'.epoch := by
    obtain ⟨hfence, hepoch⟩ | hfate := commit.fate
    · exact ⟨by omega, hepoch⟩
    · exact ⟨hfate.fence.ge, hfate.epoch⟩
  constructor
  case fence => exact h.fence.trans hmono.1
  case epoch => exact h.epoch.trans hmono.2
  case steady =>
    intro hfence hepoch other hother
    have hsteady : db.fence = start.fence ∧ db.epoch = start.epoch :=
      ⟨le_antisymm (hfence ▸ hmono.1) h.fence, le_antisymm (hepoch ▸ hmono.2) h.epoch⟩
    obtain hold | hlast := List.mem_append.mp hother
    · exact h.steady hsteady.1 hsteady.2 other hold
    · obtain rfl := List.mem_singleton.mp hlast
      rw [commit.before, commit.after, hfence, hepoch]
      exact ⟨hsteady.1.symm, hsteady.2.symm⟩
  case standing =>
    intro hfence
    have hsame : db.fence = start.fence := le_antisymm (hfence ▸ hmono.1) h.fence
    obtain ⟨hraised, -⟩ | hfate := commit.fate
    · omega
    · have hstanding := (h.standing hsame).step hseller (hsame ▸ hfate)
        fun d hd himpacted => commit.raises hd himpacted
      simpa only [List.mem_append, List.mem_singleton, or_and_right, exists_or,
        exists_eq_left] using hstanding

/-- A certificate that still has the selected revision has not been hit. -/
theorem Followed.untouched (h : Followed digests key task start c changes db)
    (hfence : db.fence = start.fence) {current : CertificateDoc}
    (mem : current ∈ db.certificates.docs) (hown : current.sellerId = key.sellerId)
    (hid : current.id = c.id) (hrevision : current.revision = c.revision) :
    ∀ change ∈ changes, impacted key change.images c = false := by
  intro change hchange
  by_contra himpacted
  have hhit : ∃ change ∈ changes, impacted key change.images c = true :=
    ⟨change, hchange, by simpa using himpacted⟩
  obtain ⟨hnone, -⟩ | ⟨d, hd, hcd, hraised⟩ := h.standing hfence
  · exact hnone current mem hown hid
  · obtain rfl : current = d := Collection.eq_of_key mem hd (hid.trans hcd.id.symm)
    exact absurd hrevision (hraised hhit).ne'

theorem followed_run (mem : c ∈ start.certificates.docs) (hseller : c.sellerId = key.sellerId)
    (run : Run (Commit digests key task) start changes db) :
    Followed digests key task start c changes db := by
  refine run.invariant ⟨le_rfl, le_rfl, by simp, fun _ => .inr ⟨c, mem, .refl c, by simp⟩⟩ ?_
  intro changes db change db' _ h commit
  exact h.step hseller commit

/-! ### The undisturbed read -/

/-- What a reader may conclude from a vector that validates: on the way no returns claim of the
interval was written, nobody took over, and the interval is still certified. -/
structure Undisturbed (key : Key) (vector : ProofVector) (clock : Int) (changes : List Change)
    (db : Coverage) : Prop where
  claims : ∀ change ∈ changes, ∀ claim t, claimImpact key claim = .dated t → vector.start ≤ t →
    t < vector.stop → (claim ∈ change.before.claims ↔ claim ∈ change.after.claims)
  ownership : ∀ change ∈ changes, change.after.fence = change.before.fence ∧
    change.after.epoch = change.before.epoch
  covered : ∀ t, vector.start ≤ t → t < vector.stop → ∃ proof ∈ vector.proofs,
    ∃ c ∈ db.certificates.docs, c.sameProof proof = true ∧ c.state = "reconciled" ∧
      clock < c.validUntil ∧ c.dateFrom ≤ t ∧ t < c.dateTo

theorem undisturbed_run {stop stop' clock clock' : Int} {vector : ProofVector}
    (run : Run (Commit digests key task) start changes db)
    (hselect : selectCoveringPrefix digests start key.sellerId stop stop' clock = .ok vector)
    (hvalid : validateProofVector digests db vector clock' = .ok ()) :
    Undisturbed key vector clock' changes db := by
  have hselected := selectCoveringPrefix_ok hselect
  obtain ⟨hfence, hepoch, hproofs⟩ := validateProofVector_ok hvalid
  have hsame : db.fence = start.fence := hfence.symm.trans hselected.fence
  constructor
  case claims =>
    intro change hchange claim t hdated hfrom hto
    obtain ⟨proof, hproof, hcovers⟩ := hselected.covers t hfrom hto
    obtain ⟨hmem, hseller⟩ := hselected.proofs proof hproof
    obtain ⟨current, hcurrent⟩ := hproofs proof hproof
    have hfields := hcurrent.same
    simp only [CertificateDoc.sameProof, Bool.and_eq_true, beq_iff_eq] at hfields
    have huntouched : impacted key change.images proof = false :=
      (followed_run hmem hseller run).untouched hsame hcurrent.mem
        (hcurrent.sellerId.trans hselected.sellerId) (by simp only [hfields])
        (by simp only [hfields]) change hchange
    obtain ⟨db₁, db₂, commit⟩ := run.step_of_mem hchange
    rw [commit.before, commit.after]
    obtain hkept | ⟨image, himage, hstored⟩ := commit.claims claim
    · exact hkept
    · have himpacted := impacted_of_image himage hstored hdated hseller hcovers.1 hcovers.2
      exact absurd himpacted (by simp [huntouched])
  case ownership =>
    obtain ⟨proof, hproof⟩ := List.exists_mem_of_ne_nil _ hselected.nonempty
    obtain ⟨hmem, hseller⟩ := hselected.proofs proof hproof
    exact (followed_run hmem hseller run).steady hsame (hepoch.symm.trans hselected.epoch)
  case covered =>
    intro t hfrom hto
    obtain ⟨proof, hproof, hcovers⟩ := hselected.covers t hfrom hto
    obtain ⟨current, hcurrent⟩ := hproofs proof hproof
    have hfields := hcurrent.same
    simp only [CertificateDoc.sameProof, Bool.and_eq_true, beq_iff_eq] at hfields
    refine ⟨proof, hproof, current, hcurrent.mem, hcurrent.same, hcurrent.reconciled,
      hcurrent.unexpired, ?_, ?_⟩
    · simp only [hfields, hcovers]
    · simp only [hfields, hcovers]

/-- A certificate of the seller whose range holds the creation of a claim among the images, or
any one if the impact of an image is unknown. -/
def Affected (key : Key) (images : List (Option Doc)) (c : CertificateDoc) : Prop :=
  c.sellerId = key.sellerId ∧ ∃ image, some image ∈ images ∧
    (claimImpact key image = .unknown ∨ ∃ us, claimImpact key image = .dated us ∧
      c.dateFrom ≤ floorMs us ∧ floorMs us < c.dateTo)

theorem Affected.impacted {c : CertificateDoc} (h : Affected key images c) :
    Devoluciones.impacted key images c = true := by
  obtain ⟨hseller, image, himage, himpact⟩ := h
  have hmem : ∀ impact, claimImpact key image = impact →
      impact ∈ (images.filterMap id).map (claimImpact key) := by
    rintro impact rfl
    exact List.mem_map.mpr ⟨image, List.mem_filterMap.mpr ⟨some image, himage, rfl⟩, rfl⟩
  simp only [Devoluciones.impacted, hseller, beq_self_eq_true, Bool.true_and, Bool.or_eq_true,
    List.any_eq_true, Bool.and_eq_true, decide_eq_true_eq]
  obtain hunknown | ⟨us, hus, hrange⟩ := himpact
  · exact .inl (List.contains_iff_mem.mpr (hmem _ hunknown))
  · exact .inr ⟨us, List.mem_filterMap.mpr ⟨_, hmem _ hus, rfl⟩, hrange⟩

/-- A vector that validates means an undisturbed read. Right after `invalidate_claim_impact` no
certificate in the range of an affected claim is reconciled, and one that is when the
transaction commits was proved again in it, with a higher revision. -/
theorem proof_vector_undisturbed :
    (∀ start db changes from' to' clock clock' vector,
      Run (Commit digests key task) start changes db →
      selectCoveringPrefix digests start key.sellerId from' to' clock = .ok vector →
      validateProofVector digests db vector clock' = .ok () →
      Undisturbed key vector clock' changes db) ∧
    (∀ db images reason, ∀ c ∈ (invalidateImpactOf key images reason db).certificates.docs,
      Affected key images c → c.state ≠ "reconciled") ∧
    (∀ db change db', Commit digests key task db change db' → ∀ d ∈ db'.certificates.docs,
      Affected key change.images d → d.state = "reconciled" →
        ∃ c, ProvedAgain digests key db db' c d) := by
  refine ⟨?_, ?_, ?_⟩
  · intro start db changes from' to' clock clock' vector run hselect hvalid
    exact undisturbed_run run hselect hvalid
  · intro db images reason c hc haffected
    rw [invalidateImpactOf_stale hc haffected.impacted]
    decide
  · intro db change db' commit d hd haffected hstate
    exact commit.provedAgain hd haffected.impacted hstate

/-! ### A seller with one certificate -/

def day : Int := 86400 * 1000000

/-- The digests of the documents below. -/
def sampleDigests : Digests where
  identity sellerId kind sourceIdentity :=
    if (sellerId, kind, sourceIdentity) = ("1", "joint_snapshot", "first") then
      "c02504a7d37abc6a869947f32f06dfdf3bdb14375dbb80ac21aade343ea2109c"
    else ""
  runId _ := ""
  sources _ := ""
  acquisition _ _ := ""
  membership ids :=
    if ids = ["C1"] then "30ccac9355877679d636a671c64ed27e3f18174e13d9f93a83fc68dd7718aa3c" else ""
  readModel _ claims _ :=
    .ok (if claims.all fun claim => claim.get? "claim_version" == some (.int 1) then
      "c7804575bfd8ea000b0bbf130c10d0444b86ddcd94a34a057c2328ad739ad972"
    else "a9f2e496187056718e9c9222d9858bcf722b68c16bcbcf2d81d709c84c11b7b6")

def sampleClaim (id status : String) (version created updated : Int) : Doc :=
  [("_id", .string id), ("seller_id", .string "1"), ("type", .string "returns"),
    ("status", .string status), ("stage", .string "claim"), ("claim_version", .int version),
    ("date_created", .date created), ("last_updated", .date updated),
    ("order_id", .string "O1"), ("item_id", .string "MLM1"), ("productive", .bool true),
    ("returned_quantity", .int 1), ("return_quantity_basis", .string "v2_return_order"),
    ("return_id", .string "R1"), ("return_status", .string "delivered"),
    ("return_last_updated", .date 2000000)]

def sampleOrder : Doc :=
  [("_id", .string "O1"), ("seller_id", .string "1"),
    ("items", .array [.document [("item_id", .string "MLM1"), ("qty", .int 1)]])]

/-- The second operation of the seller, while it runs. -/
def sampleContext : Context where
  sellerId := "1"
  scope := "devoluciones"
  operationId := "renewal"
  attemptToken := "second"
  fence := 2
  ownsLease := true
  sourceFingerprint := some "renewal:v1"
  requiredCoverageStart := none
  requiredCoverageEnd := none
  checkpoint := []
  leaseLost := false
  coverageMode := "active"
  coverageEpoch := 0

/-- The first operation has certified a day with one claim. -/
def sampleCoverage : Coverage where
  operation := some {
    id := "1:devoluciones"
    operationId := "renewal"
    attemptToken := "second"
    fence := some 2
    coverageMode := some "active"
    coverageEpoch := some 0
    coverageAckFence := some 2
    state := "running"
    leaseUntil := some (day + 120000000)
    heartbeatAt := some day
    sourceFingerprint := some "renewal:v1"
    checkpoint := some []
    startedAt := some day
    updatedAt := some day
    finishedAt := none
    errorCode := none }
  marker := none
  certificates := {
    docs := [{
      id := "c02504a7d37abc6a869947f32f06dfdf3bdb14375dbb80ac21aade343ea2109c"
      sellerId := "1"
      kind := "joint_snapshot"
      sourceIdentity := "first"
      sourceFingerprint := some "snapshot:v1"
      acquisitionFingerprint := "c7804575bfd8ea000b0bbf130c10d0444b86ddcd94a34a057c2328ad739ad972"
      dateFrom := 0
      dateTo := day
      acquiredAt := day
      expectedCount := 1
      state := "reconciled"
      revision := 1
      currentMembershipHash := "30ccac9355877679d636a671c64ed27e3f18174e13d9f93a83fc68dd7718aa3c"
      currentReadModelFingerprint :=
        "c7804575bfd8ea000b0bbf130c10d0444b86ddcd94a34a057c2328ad739ad972"
      certifiedCount := 1
      validatedAt := day
      validUntil := day + validity
      nextCheckAt := day
      invalidationReason := none
      needsReacquisition := false
      coverageEpoch := 0
      schemaVersion := 1 }]
    nodup := List.nodup_singleton _ }
  runs := .empty
  windows := []
  claims := [sampleClaim "C1" "opened" 1 1000000 2000000]
  orders := [sampleOrder]

/-- A claim of the next day arrives. -/
def nextDayClaim : Mutation where
  images := [none, some (sampleClaim "C2" "opened" 1 (day + 1000000) (day + 1000000))]
  reason := "claim_mutation"
  replacement := some (sampleClaim "C2" "opened" 1 (day + 1000000) (day + 1000000))
  claims := [sampleClaim "C1" "opened" 1 1000000 2000000,
    sampleClaim "C2" "opened" 1 (day + 1000000) (day + 1000000)]
  orders := [sampleOrder]

/-- The claim of the certified day is closed. -/
def closedClaim : Mutation where
  images := [some (sampleClaim "C1" "opened" 1 1000000 2000000),
    some (sampleClaim "C1" "closed" 2 1000000 3000000)]
  reason := "claim_mutation"
  replacement := some (sampleClaim "C1" "closed" 2 1000000 3000000)
  claims := [sampleClaim "C1" "closed" 2 1000000 3000000]
  orders := [sampleOrder]

/-- The coverage while the transaction of a mutation is open. -/
def openCoverage : Coverage :=
  { sampleCoverage with
    operation := sampleCoverage.operation.map fun control => { control with
      checkpoint := some [("phase", .string "claim_mutation")]
      updatedAt := some (day + 1000000) } }

theorem openCoverage_guarded :
    sampleCoverage.guarded sampleContext (day + 1000000) (fun control => { control with
      checkpoint := some [("phase", .string "claim_mutation")]
      updatedAt := some (day + 1000000) }) = some openCoverage := rfl

/-- What the transaction commits. -/
def mutated (mutation : Mutation) : Coverage :=
  mutateClaims sampleDigests sampleKey sampleContext mutation true 1 (day + 1000000) openCoverage

/-- A reader selects the day, a claim of the next day arrives, and the vector validates. -/
theorem proof_vector_undisturbed_next_day :
    ∃ change db vector, Run (Commit sampleDigests sampleKey fun _ => .projection) sampleCoverage
        [change] db ∧ change.before.claims ≠ change.after.claims ∧
      vector.start = 0 ∧ vector.stop = day ∧
      Undisturbed sampleKey vector (day + 1000000) [change] db := by
  have commit : Commit sampleDigests sampleKey (fun _ => .projection) sampleCoverage
      ⟨sampleCoverage, nextDayClaim.images, mutated nextDayClaim⟩ (mutated nextDayClaim) := by
    refine .write [("phase", .string "claim_mutation")] (day + 1000000) (day + 1000000)
      rfl openCoverage_guarded
      (.mutate nextDayClaim true 1 (day + 1000000) ?_) rfl
    intro claim
    by_cases h : claim = sampleClaim "C2" "opened" 1 (day + 1000000) (day + 1000000)
    · exact .inr ⟨_, List.mem_cons_of_mem _ List.mem_cons_self, by rw [h]; rfl⟩
    · exact .inl (by simp [nextDayClaim, openCoverage, sampleCoverage, h])
  have read : ∃ vector,
      selectCoveringPrefix sampleDigests sampleCoverage "1" 0 day (day + 1000000) = .ok vector ∧
      validateProofVector sampleDigests (mutated nextDayClaim) vector (day + 1000000) = .ok () ∧
      vector.start = 0 ∧ vector.stop = day := ⟨_, rfl, rfl, rfl, rfl⟩
  obtain ⟨vector, hselect, hvalid, hstart, hstop⟩ := read
  have run := Run.snoc .nil commit
  refine ⟨_, _, vector, run, by decide, hstart, hstop, ?_⟩
  exact proof_vector_undisturbed.1 _ _ _ _ _ _ _ vector run hselect hvalid

/-- The claim of the day is closed: its certificate has been proved again and is reconciled when
the transaction that invalidates it commits. -/
theorem closed_claim_reconciled :
    ∃ digests key task db change db', Commit digests key task db change db' ∧
      ∃ d ∈ db'.certificates.docs, Affected key change.images d ∧ d.state = "reconciled" := by
  have commit : Commit sampleDigests sampleKey (fun _ => .projection) sampleCoverage
      ⟨sampleCoverage, closedClaim.images, mutated closedClaim⟩ (mutated closedClaim) := by
    refine .write [("phase", .string "claim_mutation")] (day + 1000000) (day + 1000000)
      rfl openCoverage_guarded
      (.mutate closedClaim true 1 (day + 1000000) ?_) rfl
    intro claim
    by_cases h : claim = sampleClaim "C1" "opened" 1 1000000 2000000 ∨
        claim = sampleClaim "C1" "closed" 2 1000000 3000000
    · obtain rfl | rfl := h
      · exact .inr ⟨_, List.mem_cons_self, rfl⟩
      · exact .inr ⟨_, List.mem_cons_of_mem _ List.mem_cons_self, rfl⟩
    · rw [not_or] at h
      exact .inl (by simp [closedClaim, openCoverage, sampleCoverage, h.1, h.2])
  refine ⟨_, _, _, _, _, _, commit, (mutated closedClaim).certificates.docs.head (by decide),
    List.head_mem _, ⟨rfl, sampleClaim "C1" "opened" 1 1000000 2000000, List.mem_cons_self,
      .inr ⟨1000000, rfl, ?_, ?_⟩⟩, rfl⟩
  · decide
  · decide

end ZelerPlatform.Devoluciones
