import ZelerPlatform.Modifications.Watermark

/-!
# Calls on the scans of modified orders

Every operation of every call keeps the invariant, whatever the others do in between: a call
that begins a scan knows the watermark that belongs to the scan it has read, and a call that
verifies a page knows the recoveries it has seen completed. So along every run the watermark
of a seller moves only with a completed scan.
-/

namespace ZelerPlatform.Modifications

open Fallible Transition
open Mongo.Value (floorMs)
open Recovery (Jobs Queue Request)

variable {ι : Type} [DecidableEq ι] {sha256 : String → String}
variable {scan : Scan} {document : Receipt} {documents : List Receipt} {page : SearchPage}
variable {s t u : Store ι} {i j : ι} {r : Surroundings}

/-! ### The contract -/

/-- The scans a call has completed. -/
def entries (i : ι) (completed : List (ι × Scan)) : List (ι × Scan) :=
  completed.filter fun entry => entry.1 = i

/-- A call that has completed no scan yet. -/
structure Idle (sha256 : String → String) (i : ι) (s : Store ι) : Prop where
  sound : Sound sha256 s
  none : entries i s.completed = []

variable {A B : Type}

def scanning (sha256 : String → String) (i : ι) (post : A → Store ι → Prop) :
    Contract (Store ι) A where
  rely s t := Sound sha256 s → Sound sha256 t ∧ Grows sha256 s t ∧
    entries i t.completed = entries i s.completed
  guar s t := Sound sha256 s → Sane sha256 i s t ∧
    ∀ j, j ≠ i → entries j t.completed = entries j s.completed
  post
  refl s := fun h => ⟨h, Grows.refl s, rfl⟩
  trans first second := fun h => by
    obtain ⟨ht, hst, heq⟩ := first h
    obtain ⟨hu, htu, heq'⟩ := second ht
    exact ⟨hu, hst.trans htu, heq'.trans heq⟩

theorem rely_of_guar {post : A → Store ι → Prop} {post' : B → Store ι → Prop} (hne : i ≠ j)
    (h : (scanning sha256 i post).guar s t) : (scanning sha256 j post').rely s t := by
  intro hsound
  obtain ⟨hsane, hentries⟩ := h hsound
  exact ⟨hsane.sound, hsane.grows, hentries j (Ne.symm hne)⟩

/-- What holds of the state and of the growth since the start when a call returns. -/
def Since (sha256 : String → String) (i : ι) (s : Store ι) (known : A → Store ι → Prop) (result : A)
    (t : Store ι) : Prop :=
  Idle sha256 i t ∧ Grows sha256 s t ∧ known result t

variable {allowed : Store ι → Op → Prop}
variable {post : A → Store ι → Prop} {known : A → Store ι → Prop} {known' : B → Store ι → Prop}

theorem meets_pure {a : A} (hs : Idle sha256 i s)
    (h : ∀ t, Idle sha256 i t → Grows sha256 s t → post a t) :
    Program.Meets (scanning sha256 i post) allowed (pure a) s := by
  apply Program.Meets.pure
  intro t hst
  obtain ⟨hsound, hgrows, heq⟩ := hst hs.sound
  exact h t ⟨hsound, heq.trans hs.none⟩ hgrows

theorem meets_return {a : A} (hs : Idle sha256 i s) (h : ∀ t, Grows sha256 s t → known a t) :
    Program.Meets (scanning sha256 i (Since sha256 i s known)) allowed (pure a) s :=
  meets_pure hs fun t ht hgrows => ⟨ht, hgrows, h t hgrows⟩

theorem meets_read {label : Op} {f : Store ι → B} {k : B → Program Op (Store ι) A}
    (hs : Idle sha256 i s)
    (h : ∀ t, Idle sha256 i t → Grows sha256 s t →
      Program.Meets (scanning sha256 i post) allowed (k (f t)) t) :
    Program.Meets (scanning sha256 i post) allowed (Program.read label f >>= k) s := by
  apply Program.Meets.read
  intro t hst
  obtain ⟨hsound, hgrows, heq⟩ := hst hs.sound
  exact ⟨fun hsound => ⟨Sane.refl hsound, fun _ _ => rfl⟩,
    h t ⟨hsound, heq.trans hs.none⟩ hgrows⟩

/-- An operation that completes no scan. -/
theorem meets_act {label : Op} {f : Store ι → B × Store ι} {k : B → Program Op (Store ι) A}
    (hs : Idle sha256 i s)
    (hsane : ∀ t, Sound sha256 t → Grows sha256 s t → Sane sha256 i t (f t).2)
    (hcompleted : ∀ t, (f t).2.completed = t.completed)
    (h : ∀ t, Idle sha256 i (f t).2 → Grows sha256 s (f t).2 →
      Program.Meets (scanning sha256 i post) allowed (k (f t).1) (f t).2) :
    Program.Meets (scanning sha256 i post) allowed (Program.act label f >>= k) s := by
  apply Program.Meets.act
  intro t hst _
  obtain ⟨hsound, hgrows, heq⟩ := hst hs.sound
  have hstep := hsane t hsound hgrows
  refine ⟨fun _ => ⟨hstep, fun j _ => by rw [hcompleted]⟩, h t ⟨hstep.sound, ?_⟩
    (hgrows.trans hstep.grows)⟩
  rw [hcompleted]
  exact heq.trans hs.none

theorem meets_last {label : Op} {f : Store ι → A × Store ι} (hs : Idle sha256 i s)
    (hsane : ∀ t, Sound sha256 t → Grows sha256 s t → Sane sha256 i t (f t).2)
    (hcompleted : ∀ t, (f t).2.completed = t.completed)
    (h : ∀ t u, Idle sha256 i u → Grows sha256 s u → post (f t).1 u) :
    Program.Meets (scanning sha256 i post) allowed (Program.act label f) s :=
  meets_act (k := fun a => pure a) hs hsane hcompleted fun t ht hgrows =>
    meets_pure ht fun u hu hlater => h t u hu (hgrows.trans hlater)

theorem meets_call {p : Program Op (Store ι) B} {k : B → Program Op (Store ι) A}
    (h : Program.Meets (scanning sha256 i (Since sha256 i s known')) allowed p s)
    (next : ∀ b t, Idle sha256 i t → Grows sha256 s t → known' b t →
      Program.Meets (scanning sha256 i post) allowed (k b) t) :
    Program.Meets (scanning sha256 i post) allowed (p >>= k) s :=
  Program.Meets.bind (fun _ _ h => h) (fun _ _ h => h) h
    fun b t ⟨ht, hgrows, hknown⟩ => next b t ht hgrows hknown

/-- A call that goes on from a later state. -/
theorem meets_since {p : Program Op (Store ι) A} (hgrows : Grows sha256 s t)
    (h : Program.Meets (scanning sha256 i (Since sha256 i t known)) allowed p t) :
    Program.Meets (scanning sha256 i (Since sha256 i s known)) allowed p t :=
  h.weaken fun _ _ ⟨hidle, hlater, hknown⟩ => ⟨hidle, hgrows.trans hlater, hknown⟩

/-! ### Admission -/

theorem meets_enqueue {sellerId orderId version hash : String} {modified : ℤ}
    (hs : Idle sha256 i s) (identity : String) :
    Program.Meets (scanning sha256 i (Since sha256 i s fun _ _ => True)) allowed
      (enqueue sha256 r (modifiedRequest sellerId orderId version hash modified) identity) s := by
  unfold enqueue
  cases r.queue.admissible (modifiedRequest sellerId orderId version hash modified) r.gate with
  | error error => exact meets_return hs fun _ _ => trivial
  | ok =>
      apply meets_read hs
      intro t ht hgrows
      cases Queue.activeJob sha256 (modifiedRequest sellerId orderId version hash modified)
        t.jobs with
      | some _ => exact meets_since hgrows (meets_return ht fun _ _ => trivial)
      | none =>
          refine meets_last ht (fun u hu _ => Sane.of_admit hu r) ?_
            fun _ u hu hlater => ⟨hu, hgrows.trans hlater, trivial⟩
          intro u
          unfold admitRequest
          split <;> rfl

theorem meets_admitRow (hs : Idle sha256 i s) (row : Row) :
    Program.Meets (scanning sha256 i (Since sha256 i s fun _ _ => True)) allowed
      (admitRow sha256 r page row) s := by
  unfold admitRow
  split
  · exact meets_return hs fun _ _ => trivial
  · split
    · exact meets_return hs fun _ _ => trivial
    · split
      · exact meets_return hs fun _ _ => trivial
      · split
        · exact meets_return hs fun _ _ => trivial
        · exact meets_enqueue hs _

theorem meets_admitRows (hs : Idle sha256 i s) (rows : List Row) :
    Program.Meets (scanning sha256 i (Since sha256 i s fun _ _ => True)) allowed
      (admitRows sha256 r page rows) s := by
  induction rows generalizing s with
  | nil => exact meets_return hs fun _ _ => trivial
  | cons row rest ih =>
      unfold admitRows
      apply meets_call (meets_admitRow hs row)
      rintro (_ | _ | _) t ht hgrows -
      · exact meets_since hgrows (ih ht)
      · exact meets_since hgrows (meets_return ht fun _ _ => trivial)
      · exact meets_since hgrows (meets_return ht fun _ _ => trivial)

theorem meets_admitModifications (hs : Idle sha256 i s) :
    Program.Meets (scanning sha256 i (Since sha256 i s fun _ _ => True)) allowed
      (admitModifications sha256 r page) s := by
  unfold admitModifications
  split
  · exact meets_return hs fun _ _ => trivial
  · exact meets_admitRows hs _

/-! ### Verification -/

/-- The recovery of a document that a verification has let through. -/
def Awaited (sha256 : String → String) (scan : Scan) (document : Receipt) (s : Store ι) : Prop :=
  document.kind = .membership → Recovered sha256 s.jobs scan.sellerId document.resourceId
    document.sourceVersion document.sourceHash

omit [DecidableEq ι] in
theorem Awaited.mono (h : Awaited sha256 scan document s) (hgrows : Grows sha256 s t) :
    Awaited sha256 scan document t := fun hkind => hgrows.recovered _ _ _ _ (h hkind)

theorem meets_awaitRecovery (hs : Idle sha256 i s) :
    Program.Meets (scanning sha256 i (Since sha256 i s fun verdict t =>
        verdict = .ok .ready → Awaited sha256 scan document t)) allowed
      (awaitRecovery sha256 scan document) s := by
  unfold awaitRecovery
  split
  · exact meets_return hs fun _ _ h => by cases h
  · apply meets_read hs
    intro t ht hgrows
    cases hfound : t.jobs.findOne (fun job =>
        job.id = modifiedKey sha256 scan.sellerId document.resourceId document.sourceVersion
          document.sourceHash && job.sellerId = scan.sellerId) with
    | none => exact meets_since hgrows (meets_return ht fun _ _ h => by cases h)
    | some job =>
        obtain ⟨hmem, hjob⟩ := Collection.findOne_mem hfound
        simp only [Bool.and_eq_true, decide_eq_true_eq] at hjob
        simp only [Option.map_some]
        cases hstate : job.state with
        | pending => exact meets_since hgrows (meets_return ht fun _ _ h => by cases h)
        | running => exact meets_since hgrows (meets_return ht fun _ _ h => by cases h)
        | failed => exact meets_since hgrows (meets_return ht fun _ _ h => by cases h)
        | completed =>
            have hrecovered : Awaited sha256 scan document t := fun _ =>
              ⟨job, Collection.byKey_some.mpr ⟨hmem, hjob.1⟩, hjob.2, hstate⟩
            exact meets_since hgrows (meets_return ht fun u hlater _ => hrecovered.mono hlater)

theorem meets_verifyReceipt (document : Receipt) (hs : Idle sha256 i s) :
    Program.Meets (scanning sha256 i (Since sha256 i s fun verdict t =>
        verdict = .ok .ready → Awaited sha256 scan document t)) allowed
      (verifyReceipt sha256 scan document) s := by
  unfold verifyReceipt
  apply meets_read hs
  intro t ht hgrows
  apply meets_since hgrows
  split_ifs with hsame hkind
  · exact meets_return ht fun _ _ h => by cases h
  · exact meets_awaitRecovery ht
  · exact meets_return ht fun _ _ _ h => absurd h hkind

theorem meets_verifyReceipts (hs : Idle sha256 i s) :
    Program.Meets (scanning sha256 i (Since sha256 i s fun verdict t =>
        verdict = .ok .ready → ∀ d ∈ documents, Awaited sha256 scan d t)) allowed
      (verifyReceipts sha256 scan documents) s := by
  induction documents generalizing s with
  | nil => exact meets_return hs fun _ _ _ d hd => by cases hd
  | cons document rest ih =>
      unfold verifyReceipts
      apply meets_call (meets_verifyReceipt document hs)
      rintro (error | _ | _) t ht hgrows hknown
      · exact meets_since hgrows (meets_return ht fun _ _ h => by cases h)
      · refine (ih ht).weaken ?_
        rintro verdict u ⟨hu, hlater, hrest⟩
        refine ⟨hu, hgrows.trans hlater, fun hready d hd => ?_⟩
        rcases List.mem_cons.mp hd with rfl | hd
        · exact (hknown rfl).mono hlater
        · exact hrest hready d hd
      · exact meets_since hgrows (meets_return ht fun _ _ h => by cases h)

/-! ### Scans -/

/-- What a call that has returned leaves: only one that returns a completed scan has
completed any. -/
def Settled (i : ι) (result : Except ScanError (Option Scan)) (s : Store ι) : Prop :=
  entries i s.completed = [] ∨
    ∃ scan, result = .ok (some scan) ∧ scan.phase = .completed

theorem meets_settled {result : Except ScanError (Option Scan)} (hs : Idle sha256 i s) :
    Program.Meets (scanning sha256 i (Settled i)) allowed (pure result) s :=
  meets_pure hs fun _ ht _ => .inl ht.none

omit [DecidableEq ι] in
theorem make_ok {proposed : Scan} (h : scan.make = .ok proposed) : proposed = scan := by
  unfold Scan.make at h
  split at h
  · exact (Except.ok.inj h).symm
  · cases h

/-- What a caller has read tells the watermark from which the next scan starts. -/
theorem starts_of_read {plan : Plan} {first cutoff : ℤ} (hs : Idle sha256 i s)
    (hplan : s.plans.byKey plan.sellerId = some plan) (hfirst : plan.cutoff = some first)
    (hcontinuing : continuing cutoff plan = none) :
    Starts plan.sellerId plan.scan (plan.watermark.getD first) s := by
  obtain ⟨hmem, -⟩ := Collection.byKey_some.mp hplan
  have hsound := hs.sound.plans plan hmem
  refine ⟨first, by rw [hplan, Option.map_some, hfirst], ?_⟩
  rw [hsound.effective]
  cases hcurrent : plan.scan with
  | none =>
      show _ = first
      rw [hsound.fresh hcurrent]
      rfl
  | some current =>
      show _ = floorMs current.scanId.cutoff
      have hscan := hsound.scan first current hfirst hcurrent
      have hcompleted : current.phase = .completed := by
        unfold continuing at hcontinuing
        rw [hcurrent] at hcontinuing
        by_contra hphase
        simp [Option.filter_some, hphase] at hcontinuing
      have hhead := hscan.ended hcompleted
      rw [hscan.cutoff]
      cases hcase : completedOf plan.sellerId s.completed with
      | nil =>
          rw [hcase] at hhead
          cases hhead
      | cons last rest =>
          rw [hcase] at hhead
          cases hhead
          rfl

theorem meets_beginNew {sellerId : String} {current : Option Scan} {watermark cutoff : ℤ}
    (hs : Idle sha256 i s) (hstarts : Starts sellerId current watermark s) :
    Program.Meets (scanning sha256 i (Settled i)) allowed
      (beginNew sellerId cutoff watermark current) s := by
  unfold beginNew
  cases hmake : modificationWindow watermark cutoff >>= fun _ =>
      (newScan sellerId watermark cutoff).make with
  | error error => exact meets_settled hs
  | ok scan =>
      obtain ⟨window, hwindow, hscan⟩ := bind_ok hmake
      obtain rfl := make_ok hscan
      have horder : watermark ≤ cutoff := by
        unfold modificationWindow at hwindow
        split at hwindow
        · cases hwindow
        · exact not_lt.mp ‹_›
      refine meets_act hs (fun t ht hgrows => Sane.of_begin ht (hstarts.mono hgrows) horder)
        (fun _ => rfl) fun t ht _ => ?_
      apply meets_read ht
      intro u hu _
      cases u.plans.byKey sellerId >>= Plan.scan with
      | none => exact meets_settled hu
      | some stored => exact meets_settled hu

theorem meets_begin {sellerId : String} {cutoff : ℤ} (hs : Idle sha256 i s) :
    Program.Meets (scanning sha256 i (Settled i)) allowed (begin sellerId cutoff) s := by
  unfold begin
  split
  · exact meets_settled hs
  · apply meets_read hs
    intro t ht _
    cases hplan : t.plans.byKey sellerId with
    | none => exact meets_settled ht
    | some plan =>
        obtain ⟨-, rfl⟩ := Collection.byKey_some.mp hplan
        cases hfirst : plan.cutoff with
        | none =>
            simp only [hfirst]
            exact meets_settled ht
        | some first =>
            simp only [hfirst]
            cases hcontinuing : continuing cutoff plan with
            | some previous => exact meets_settled ht
            | none => exact meets_beginNew ht (starts_of_read ht hplan hfirst hcontinuing)

theorem meets_restart (hs : Idle sha256 i s) :
    Program.Meets (scanning sha256 i (Settled i)) allowed (restart scan) s := by
  unfold restart
  by_cases hphase : scan.phase.terminal = true
  · rw [if_pos hphase]
    exact meets_settled hs
  · rw [if_neg hphase]
    cases hmake : (restarted scan).make with
    | error error => exact meets_settled hs
    | ok proposed =>
        obtain rfl := make_ok hmake
        refine meets_act hs (fun t ht _ => Sane.of_restart ht (by simpa using hphase))
          (fun _ => rfl) fun t ht _ => meets_settled ht

omit [DecidableEq ι] in
theorem receipt_ofScan {observedAt : ℤ} {row : Row} (h : receipt scan observedAt row = .ok document) :
    OfScan scan document := by
  unfold receipt at h
  split at h
  · cases h
  · obtain ⟨-, h⟩ := raiseIf_ok h
    obtain ⟨⟨start, stop⟩, -, h⟩ := bind_ok h
    cases pure_ok h
    exact ⟨rfl, rfl⟩

omit [DecidableEq ι] in
theorem receipts_ofScan {observedAt : ℤ} {rows : List Row}
    (h : rows.mapM (receipt scan observedAt) = .ok documents) :
    ∀ d ∈ documents, OfScan scan d := by
  induction rows generalizing documents with
  | nil =>
      cases h
      intro d hd
      cases hd
  | cons row rest ih =>
      rw [List.mapM_cons] at h
      obtain ⟨first, hfirst, h⟩ := bind_ok h
      obtain ⟨others, hothers, h⟩ := bind_ok h
      cases pure_ok h
      intro d hd
      rcases List.mem_cons.mp hd with rfl | hd
      · exact receipt_ofScan hfirst
      · exact ih hothers d hd

theorem meets_prepare (hs : Idle sha256 i s) :
    Program.Meets (scanning sha256 i (Since sha256 i s fun verdict t => verdict = .ok .ready →
        scan.phase = .verify → ∀ d ∈ documents, Awaited sha256 scan d t)) allowed
      (prepare sha256 r scan page documents) s := by
  unfold prepare
  split
  · next hdiscover =>
      apply meets_call (meets_admitModifications hs)
      rintro (_ | _ | _) t ht hgrows -
      · refine meets_since hgrows (meets_return ht fun _ _ _ hverify => ?_)
        rw [hdiscover] at hverify
        cases hverify
      · exact meets_since hgrows (meets_return ht fun _ _ h => by cases h)
      · exact meets_since hgrows (meets_return ht fun _ _ h => by cases h)
  · refine (meets_verifyReceipts hs).weaken ?_
    rintro verdict t ⟨ht, hgrows, hknown⟩
    exact ⟨ht, hgrows, fun hready _ => hknown hready⟩

theorem meets_checkpoint (hs : Idle sha256 i s)
    (hcheckpoint : ∀ t, Grows sha256 s t → Checkpoint sha256 scan page documents t) :
    Program.Meets (scanning sha256 i (Settled i)) allowed
      (checkpoint i r scan page documents) s := by
  unfold checkpoint
  split
  · exact meets_settled hs
  · cases hmake : (proposal scan page).make with
    | error error => exact meets_settled hs
    | ok proposed =>
        obtain rfl := make_ok hmake
        apply Program.Meets.last
        intro t hst _
        obtain ⟨hsound, hgrows, heq⟩ := hst hs.sound
        have hnone := heq.trans hs.none
        unfold transact
        cases hok : checkpointScan i scan (proposal scan page) page documents t with
        | error error =>
            refine ⟨fun h => ⟨Sane.refl h, fun _ _ => rfl⟩, fun u htu => .inl ?_⟩
            obtain ⟨-, -, heq'⟩ := htu hsound
            exact heq'.trans hnone
        | ok t' =>
            have hsane := Sane.of_checkpoint hsound (hcheckpoint t hgrows) hok
            have hcompleted := (checkpointScan_ok hok).2.2.2.2.2.2
            refine ⟨fun _ => ⟨hsane, fun j hne => ?_⟩, fun u htu => ?_⟩
            · rw [hcompleted]
              split
              · simp [entries, Ne.symm hne]
              · rfl
            · obtain ⟨-, -, heq'⟩ := htu hsane.sound
              by_cases hphase : (proposal scan page).phase = .completed
              · exact .inr ⟨proposal scan page, rfl, hphase⟩
              · left
                rw [if_neg hphase] at hcompleted
                rw [heq', hcompleted]
                exact hnone

theorem meets_advance (hs : Idle sha256 i s) :
    Program.Meets (scanning sha256 i (Settled i)) allowed (advance sha256 i r scan page) s := by
  unfold advance
  by_cases hphase : scan.phase.terminal = true
  · rw [if_pos hphase]
    exact meets_settled hs
  · rw [if_neg hphase]
    cases hdocuments : checkPage scan page >>= fun _ =>
        page.rows.mapM (receipt scan r.observedAt) with
    | error error => exact meets_settled hs
    | ok documents =>
        obtain ⟨_, hpage, hreceipts⟩ := bind_ok hdocuments
        apply meets_call (meets_prepare hs)
        rintro (error | _ | _) t ht hgrows hknown
        · exact meets_settled ht
        · refine meets_checkpoint ht fun u hlater => ?_
          refine ⟨by simpa using hphase, checkPage_ok hpage, receipts_ofScan hreceipts, ?_⟩
          intro hverify d hd hkind
          exact hlater.recovered _ _ _ _ (hknown rfl hverify d hd hkind)
        · exact meets_settled ht

theorem meets_recover {changes : List (JobChange sha256)} (hs : Idle sha256 i s) :
    Program.Meets (scanning sha256 i (Settled i)) allowed (recover changes) s := by
  induction changes generalizing s with
  | nil => exact meets_settled hs
  | cons change rest ih =>
      unfold recover
      exact meets_act hs (fun t ht _ => Sane.of_change ht change) (fun _ => rfl)
        fun t ht _ => ih ht

theorem meets_program (call : Call sha256) (hs : Idle sha256 i s) :
    Program.Meets (scanning sha256 i (Settled i)) allowed (call.program i) s := by
  cases call with
  | begin => exact meets_begin hs
  | advance => exact meets_advance hs
  | restart => exact meets_restart hs
  | recover => exact meets_recover hs

/-! ### Runs -/

/-- Plans before the first scan: no scan, no watermark, and a stored cutoff. -/
def Unstarted (plans : Collection Plan.sellerId) : Prop :=
  ∀ plan ∈ plans.docs, plan.scan = none ∧ plan.watermark = none ∧
    ∀ first, plan.cutoff = some first → floorMs first = first

/-- Calls over these plans and jobs that have not done anything yet. -/
def start (calls : ι → Call sha256) (plans : Collection Plan.sellerId) (jobs : Jobs) :
    Pool ι (Store ι) (Program Op (Store ι) (Except ScanError (Option Scan))) where
  shared := ⟨plans, .empty, jobs, []⟩
  control i := (calls i).program i

omit [DecidableEq ι] in
theorem sound_start {plans : Collection Plan.sellerId} (jobs : Jobs) (h : Unstarted plans) :
    Sound sha256 (⟨plans, .empty, jobs, []⟩ : Store ι) := by
  refine ⟨⟨⟨?_, ?_⟩, ?_, ?_⟩, ?_⟩
  · intro a ha
    cases ha
  · intro a ha
    cases ha
  · intro a ha
    cases ha
  · intro a ha
    cases ha
  · intro plan hmem
    obtain ⟨hscan, hwatermark, hwhole⟩ := h plan hmem
    refine ⟨hwatermark, fun _ => rfl, ?_, hwhole, fun _ _ => trivial, ?_⟩
    · intro scan hcurrent
      rw [hscan] at hcurrent
      cases hcurrent
    · intro first scan _ hcurrent
      rw [hscan] at hcurrent
      cases hcurrent

/-- The windows of linked scans leave out no instant. -/
theorem covered {first instant : ℤ} {scans : List Scan} (linked : Linked first scans)
    (hne : scans ≠ []) (hle : first - overlap ≤ instant) (hlt : instant < reached first scans) :
    ∃ scan ∈ scans, scan.watermark - overlap ≤ instant ∧ instant < scan.cutoff := by
  induction scans with
  | nil => exact absurd rfl hne
  | cons scan rest ih =>
      obtain ⟨hwatermark, -, hrest⟩ := linked
      by_cases hwindow : scan.watermark - overlap ≤ instant
      · exact ⟨scan, List.mem_cons_self, hwindow, hlt⟩
      · have hbefore : instant < reached first rest := by
          unfold overlap at hwindow
          omega
        have hsome : rest ≠ [] := by
          rintro rfl
          exact hwindow (by rw [hwatermark]; exact hle)
        obtain ⟨earlier, hmem, hcovers⟩ := ih hrest hsome hbefore
        exact ⟨earlier, List.mem_cons_of_mem _ hmem, hcovers⟩

variable {calls : ι → Call sha256} {plans : Collection Plan.sellerId} {jobs : Jobs}
variable {es : List (ι × Op)}
variable {pool pool' : Pool ι (Store ι) (Program Op (Store ι) (Except ScanError (Option Scan)))}

theorem meets_start (unstarted : Unstarted plans) (i : ι) :
    Program.Meets (scanning sha256 i (Settled i)) (fun _ _ => True)
      ((start calls plans jobs).control i) (start calls plans jobs).shared :=
  meets_program (calls i) ⟨sound_start jobs unstarted, rfl⟩

theorem sound_of_run (unstarted : Unstarted plans)
    (run : Run Program.Step (start calls plans jobs) es pool) : Sound sha256 pool.shared := by
  refine Program.invariant_of_run (c := fun i => scanning sha256 i (Settled i))
    (fun _ _ hne _ _ h => rely_of_guar hne h) (meets_start unstarted)
    (sound_start jobs unstarted) ?_ (Program.always run)
  intro i s t hs hguar
  exact (hguar hs).1.sound

theorem law_of_step (unstarted : Unstarted plans)
    (run : Run Program.Step (start calls plans jobs) es pool) {op : Op}
    (step : Program.Step pool (i, op) pool') : Law sha256 i pool.shared pool'.shared := by
  have hguar := Program.guar_of_step (c := fun i => scanning sha256 i (Settled i))
    (fun _ _ hne _ _ h => rely_of_guar hne h) (meets_start unstarted) (Program.always run)
    (Program.always_step step)
  exact (hguar (sound_of_run unstarted run)).1.law

theorem settled_of_run (unstarted : Unstarted plans)
    (run : Run Program.Step (start calls plans jobs) es pool)
    {result : Except ScanError (Option Scan)} (returned : pool.control i = .ret result) :
    Settled i result pool.shared :=
  Program.post_of_run (c := fun i => scanning sha256 i (Settled i))
    (fun _ _ hne _ _ h => rely_of_guar hne h) (meets_start unstarted) (Program.always run) returned

/-- Any number of calls, interleaved in any way: the watermark of a seller moves only in the
step that completes its scan, forward to the cutoff of that scan, which both passes have
recorded alike and whose orders are recovered. A call that does not return a completed scan
has moved no watermark. The windows of the completed scans follow each other and leave out no
instant from a day before the first one up to the watermark. -/
theorem watermark_safe (sha256 : String → String) (calls : ι → Call sha256)
    (plans : Collection Plan.sellerId) (jobs : Jobs) (unstarted : Unstarted plans)
    {es : List (ι × Op)}
    {pool : Pool ι (Store ι) (Program Op (Store ι) (Except ScanError (Option Scan)))}
    (run : Run Program.Step (start calls plans jobs) es pool) :
    (∀ i op pool', Program.Step pool (i, op) pool' → Law sha256 i pool.shared pool'.shared) ∧
    (∀ i result, pool.control i = .ret result →
      (∀ scan, result = .ok (some scan) → scan.phase ≠ .completed) →
        entries i pool.shared.completed = []) ∧
    ∀ plan ∈ pool.shared.plans.docs, ∀ first, plan.cutoff = some first →
      Linked first (completedOf plan.sellerId pool.shared.completed) ∧
      ∀ watermark, plan.watermark = some watermark →
        reached first (completedOf plan.sellerId pool.shared.completed) = watermark ∧
        ∀ instant, first - overlap ≤ instant → instant < watermark →
          ∃ scan ∈ completedOf plan.sellerId pool.shared.completed,
            scan.watermark - overlap ≤ instant ∧ instant < scan.cutoff := by
  refine ⟨?_, ?_, ?_⟩
  · intro i op pool' step
    exact law_of_step unstarted run step
  · intro i result returned hnot
    rcases settled_of_run unstarted run returned with hnone | ⟨scan, hscan, hphase⟩
    · exact hnone
    · exact absurd hphase (hnot scan hscan)
  · intro plan hmem first hfirst
    have hsound := (sound_of_run unstarted run).plans plan hmem
    have hlinked := hsound.linked first hfirst
    refine ⟨hlinked, fun watermark hwatermark => ?_⟩
    have hreached := hsound.effective first
    rw [hwatermark] at hreached
    refine ⟨hreached.symm, fun instant hle hlt => ?_⟩
    refine covered hlinked ?_ hle (hlt.trans_eq hreached)
    intro hnone
    have := hsound.watermark
    rw [hwatermark, hnone] at this
    cases this

/-! ### A scan of one order -/

def scanned : Collection Plan.sellerId := ⟨[⟨"82", some 1767312000000000, none, none⟩], by simp⟩

def modifiedOrder : Row where
  identity := "1001"
  modified := some 1767355200000000
  sellerId := some "82"
  fingerprint := "abababababababababababababababababababababababababababababababab"
  safe := true

def modifiedPage : SearchPage :=
  ⟨"82", 1767312000000000, 1767398400000000, [modifiedOrder], 1, none⟩

/-- SHA-256 on the text of the one key. -/
def sampleSha256 (text : String) : String :=
  if text = (modifiedRequest "82" "1001" "2026-01-02T12:00:00+00:00" modifiedOrder.fingerprint
    0).keyText then "1938a2f00509870466e73664ef18069b274111b075ee20d04bda6a4417380758" else ""

/-- Every waiting job is completed. -/
def completeJobs : JobChange sampleSha256 where
  apply jobs := jobs.update (fun job => job.state = .pending)
    (fun job => { job with state := .completed }) fun _ => rfl
  keeps := by
    intro jobs sellerId orderId version hash job hjob hstate
    refine ⟨job, ?_, rfl, rfl⟩
    rw [Collection.byKey_update, hjob, Option.map_some, if_neg]
    rcases hstate with hstate | hstate
    · simp [hstate]
    · simp [hstate]

def scanningQueue : Surroundings where
  queue :=
    { maxActiveJobsPerSeller := 10
      reservedInventorySlots := 0
      enabledModels := [.orders]
      allowedSellers := none
      policyAuthority := none
      yearHistoryEnabled := false
      positive := by decide
      reserved := by decide }
  gate := none
  enqueuedAt := 1767398400000
  observedAt := 1767398400000000
  oversized := false

def begun : Scan := newScan "82" 1767312000000000 1767398400000000

def scanCalls : Fin 4 → Call sampleSha256
  | 0 => .begin "82" 1767398400000000
  | 1 => .advance scanningQueue begun modifiedPage
  | 2 => .recover [completeJobs]
  | 3 => .advance scanningQueue (proposal begun modifiedPage) modifiedPage

theorem watermark_safe_one_order :
    ∃ es pool, Run Program.Step (start scanCalls scanned .empty) es pool ∧
      ∃ plan ∈ pool.shared.plans.docs, plan.watermark = some 1767398400000000 ∧
        ∀ instant, 1767225600000000 ≤ instant → instant < 1767398400000000 →
          ∃ scan ∈ completedOf plan.sellerId pool.shared.completed,
            scan.watermark - overlap ≤ instant ∧ instant < scan.cutoff := by
  have hrun : (perform Program.next [0, 0, 0, 1, 1, 1, 2, 3, 3, 3]
      (start scanCalls scanned .empty)).any (fun result =>
        result.2.shared.plans.docs.any fun plan =>
          plan.watermark = some 1767398400000000 && plan.cutoff = some 1767312000000000) = true := by
    decide +kernel
  obtain ⟨⟨es, pool⟩, hperform, hresult⟩ := (Option.any_eq_true _ _).mp hrun
  obtain ⟨plan, hmem, hplan⟩ := List.any_eq_true.mp hresult
  simp only [Bool.and_eq_true, decide_eq_true_eq] at hplan
  have run := Program.run_of_schedule hperform
  have hunstarted : Unstarted scanned := by
    intro plan hmem
    obtain rfl := List.mem_singleton.mp hmem
    refine ⟨rfl, rfl, ?_⟩
    rintro first ⟨rfl⟩
    rfl
  have safe := watermark_safe sampleSha256 scanCalls scanned .empty hunstarted run
  refine ⟨es, pool, run, plan, hmem, hplan.1, ?_⟩
  exact ((safe.2.2 plan hmem _ hplan.2).2 _ hplan.1).2

end ZelerPlatform.Modifications
