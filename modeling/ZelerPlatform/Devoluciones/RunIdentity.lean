import ZelerPlatform.Devoluciones.Planning
import ZelerPlatform.Library.Joined
import ZelerPlatform.Recovery.Dates

/-!
# The identity of a run

A run is stored under a digest of its binding. What is digested is one text, joined from the
fields of the binding with bars and from its fingerprints with commas and equals signs.
-/

namespace ZelerPlatform.Devoluciones

open Recovery (civil civil_inj civil_bounds padded padded_inj padded_length
  isDigit_of_mem_padded)

/-! ### The digested text -/

def microsPerDay : Int := 86400000000

/-- `datetime.isoformat` of a UTC datetime. -/
def isoformat (t : Int) : String :=
  let (year, month, day) := civil (t / microsPerDay)
  let rest := t % microsPerDay
  let fraction := if rest % 1000000 = 0 then "" else "." ++ padded 6 (rest % 1000000)
  padded 4 year ++ "-" ++ padded 2 month ++ "-" ++ padded 2 day ++ "T"
    ++ padded 2 (rest / 3600000000) ++ ":" ++ padded 2 (rest / 60000000 % 60) ++ ":"
    ++ padded 2 (rest / 1000000 % 60) ++ fraction ++ "+00:00"

/-- `sorted(release_fingerprints.items())`. -/
def RunBinding.sortedFingerprints (binding : RunBinding) : List (String × String) :=
  binding.releaseFingerprints.insertionSort fun a b => toLex a ≤ toLex b

/-- The fingerprints as `key=value`. -/
def RunBinding.fingerprintParts (binding : RunBinding) : List String :=
  binding.sortedFingerprints.map fun (key, value) => key ++ "=" ++ value

def RunBinding.fingerprintText (binding : RunBinding) : String :=
  String.intercalate "," binding.fingerprintParts

/-- What `run_id` digests, part by part. -/
def RunBinding.parts (binding : RunBinding) : List String :=
  ["v1", binding.authorizationId, binding.cohortId, binding.sellerId, binding.scope,
    isoformat binding.start, isoformat binding.stop, binding.partitionVersion,
    binding.fingerprintText]

def RunBinding.text (binding : RunBinding) : String := String.intercalate "|" binding.parts

/-- `RunBinding.run_id`. -/
def RunBinding.runId (sha256 : String → String) (binding : RunBinding) : String :=
  sha256 binding.text

/-- What `datetime` can hold. -/
def InYears (t : Int) : Prop := -62135596800000000 ≤ t ∧ t ≤ 253402300799999999

/-- A binding that could be constructed: its fields pass `__post_init__`, its bounds are
datetimes and its fingerprints a mapping. -/
structure RunBinding.Accepted (binding : RunBinding) : Prop where
  wellFormed : binding.wellFormed
  start : InYears binding.start
  stop : InYears binding.stop
  mapping : (binding.releaseFingerprints.map Prod.fst).Nodup

/-- Equality of bindings, in which the order of the fingerprints does not count. -/
def RunBinding.Same (b c : RunBinding) : Prop :=
  { b with releaseFingerprints := [] } = { c with releaseFingerprints := [] } ∧
    b.releaseFingerprints.Perm c.releaseFingerprints

/-! ### Instants -/

/-- The microseconds of a text, if there are any. -/
def fraction (rest : Int) : List Char :=
  if rest % 1000000 = 0 then [] else '.' :: (padded 6 (rest % 1000000)).toList

theorem isoformat_toList (t : Int) :
    (isoformat t).toList =
      (padded 4 (civil (t / microsPerDay)).1).toList ++ '-' ::
        ((padded 2 (civil (t / microsPerDay)).2.1).toList ++ '-' ::
          ((padded 2 (civil (t / microsPerDay)).2.2).toList ++ 'T' ::
            ((padded 2 (t % microsPerDay / 3600000000)).toList ++ ':' ::
              ((padded 2 (t % microsPerDay / 60000000 % 60)).toList ++ ':' ::
                ((padded 2 (t % microsPerDay / 1000000 % 60)).toList ++
                  (fraction (t % microsPerDay) ++ ['+', '0', '0', ':', '0', '0'])))))) := by
  by_cases h : t % microsPerDay % 1000000 = 0
  · simp [isoformat, fraction, h]
  · simp [isoformat, fraction, h]

/-- Two padded numbers at the head of equal texts are equal, and so is what follows. -/
theorem padded_append_inj {width : Nat} {m n : Int} {xs ys : List Char} (positive : 0 < width)
    (hm : 0 ≤ m ∧ m < 10 ^ width) (hn : 0 ≤ n ∧ n < 10 ^ width)
    (h : (padded width m).toList ++ xs = (padded width n).toList ++ ys) : m = n ∧ xs = ys := by
  have hlength : (padded width m).toList.length = (padded width n).toList.length := by
    rw [padded_length positive hm.1 hm.2, padded_length positive hn.1 hn.2]
  obtain ⟨hpadded, hrest⟩ := List.append_inj h hlength
  exact ⟨padded_inj hm.1 hn.1 (String.toList_inj.mp hpadded), hrest⟩

theorem fraction_inj {a b : Int} (h : fraction a = fraction b) :
    a % 1000000 = b % 1000000 := by
  unfold fraction at h
  split at h
  · split at h
    · omega
    · cases h
  · split at h
    · cases h
    · exact padded_inj (by omega) (by omega)
        (String.toList_inj.mp (List.tail_eq_of_cons_eq h))

theorem date_bounds {t : Int} (h : InYears t) :
    (0 ≤ (civil (t / microsPerDay)).1 ∧ (civil (t / microsPerDay)).1 < 10 ^ 4) ∧
      (0 ≤ (civil (t / microsPerDay)).2.1 ∧ (civil (t / microsPerDay)).2.1 < 10 ^ 2) ∧
      0 ≤ (civil (t / microsPerDay)).2.2 ∧ (civil (t / microsPerDay)).2.2 < 10 ^ 2 := by
  obtain ⟨hlow, hhigh⟩ := h
  apply civil_bounds
  · simp only [microsPerDay]
    omega
  · simp only [microsPerDay]
    omega

/-- Hours, minutes and seconds of a day, in the widths of a text. -/
theorem time_bounds (t : Int) :
    (0 ≤ t % microsPerDay / 3600000000 ∧ t % microsPerDay / 3600000000 < 10 ^ 2) ∧
      (0 ≤ t % microsPerDay / 60000000 % 60 ∧ t % microsPerDay / 60000000 % 60 < 10 ^ 2) ∧
      0 ≤ t % microsPerDay / 1000000 % 60 ∧ t % microsPerDay / 1000000 % 60 < 10 ^ 2 := by
  simp only [microsPerDay]
  omega

theorem isoformat_inj {s t : Int} (hs : InYears s) (ht : InYears t)
    (h : isoformat s = isoformat t) : s = t := by
  have hlist := congrArg String.toList h
  rw [isoformat_toList, isoformat_toList] at hlist
  obtain ⟨hsy, hsm, hsd⟩ := date_bounds hs
  obtain ⟨hty, htm, htd⟩ := date_bounds ht
  obtain ⟨hsh, hsmin, hssec⟩ := time_bounds s
  obtain ⟨hth, htmin, htsec⟩ := time_bounds t
  obtain ⟨hyear, hlist⟩ := padded_append_inj (by decide) hsy hty hlist
  obtain ⟨hmonth, hlist⟩ := padded_append_inj (by decide) hsm htm (List.tail_eq_of_cons_eq hlist)
  obtain ⟨hday, hlist⟩ := padded_append_inj (by decide) hsd htd (List.tail_eq_of_cons_eq hlist)
  obtain ⟨hhour, hlist⟩ := padded_append_inj (by decide) hsh hth (List.tail_eq_of_cons_eq hlist)
  obtain ⟨hminute, hlist⟩ :=
    padded_append_inj (by decide) hsmin htmin (List.tail_eq_of_cons_eq hlist)
  obtain ⟨hsecond, hlist⟩ :=
    padded_append_inj (by decide) hssec htsec (List.tail_eq_of_cons_eq hlist)
  have hfraction := fraction_inj (List.append_cancel_right hlist)
  have hdate : s / microsPerDay = t / microsPerDay :=
    civil_inj (Prod.ext hyear (Prod.ext hmonth hday))
  simp only [microsPerDay] at *
  omega

theorem bar_not_mem_padded {width : Nat} {n : Int} (hn : 0 ≤ n) :
    '|' ∉ (padded width n).toList := by
  intro mem
  have hdigit := isDigit_of_mem_padded hn mem
  exact absurd hdigit (by decide)

theorem bar_not_mem_isoformat {t : Int} (h : InYears t) : '|' ∉ (isoformat t).toList := by
  obtain ⟨hy, hm, hd⟩ := date_bounds h
  obtain ⟨hh, hmin, hsec⟩ := time_bounds t
  have hfraction : '|' ∉ fraction (t % microsPerDay) := by
    unfold fraction
    split
    · exact List.not_mem_nil
    · have hmicros : 0 ≤ t % microsPerDay % 1000000 := by omega
      simp [bar_not_mem_padded hmicros]
  rw [isoformat_toList]
  simp [bar_not_mem_padded hy.1, bar_not_mem_padded hm.1, bar_not_mem_padded hd.1,
    bar_not_mem_padded hh.1, bar_not_mem_padded hmin.1, bar_not_mem_padded hsec.1, hfraction]

/-! ### Separators -/

open Joined in
/-- The separators of two bindings fall into the same places. -/
structure SplitsAlike (b c : RunBinding) : Prop where
  bars : SameSeparators '|'
    ([b.authorizationId, b.cohortId, b.sellerId, b.scope, b.partitionVersion,
      b.fingerprintText].map String.toList)
    ([c.authorizationId, c.cohortId, c.sellerId, c.scope, c.partitionVersion,
      c.fingerprintText].map String.toList)
  commas : SameSeparators ',' (b.fingerprintParts.map String.toList)
    (c.fingerprintParts.map String.toList)
  equals : SameSeparators '=' (b.sortedFingerprints.map fun entry => entry.1.toList)
    (c.sortedFingerprints.map fun entry => entry.1.toList)

variable {b c : RunBinding}

theorem intercalate_text_inj {sep : String} (mark : Char) {parts parts' : List String}
    (single : sep.toList = [mark]) (h : sep.intercalate parts = sep.intercalate parts')
    (same : Joined.SameSeparators mark (parts.map String.toList) (parts'.map String.toList)) :
    parts = parts' := by
  have hlist := congrArg String.toList h
  rw [String.toList_intercalate, String.toList_intercalate, single] at hlist
  exact List.map_injective_iff.mpr (fun _ _ => String.toList_inj.mp)
    (Joined.intercalate_inj hlist same)

theorem pairs_inj {xs ys : List (String × String)}
    (same : Joined.SameSeparators '=' (xs.map fun entry => entry.1.toList)
      (ys.map fun entry => entry.1.toList))
    (h : xs.map (fun (key, value) => key ++ "=" ++ value) =
      ys.map fun (key, value) => key ++ "=" ++ value) : xs = ys := by
  induction xs generalizing ys with
  | nil =>
      cases ys with
      | nil => rfl
      | cons y ys => cases h
  | cons x xs ih =>
      cases ys with
      | nil => cases h
      | cons y ys =>
          obtain ⟨hcount, hrest⟩ := List.forall₂_cons.mp same
          have hfirst := congrArg String.toList (List.head_eq_of_cons_eq h)
          simp only [String.toList_append, List.append_assoc] at hfirst
          obtain ⟨hkey, hvalue⟩ := Joined.append_cons_inj hfirst hcount
          rw [ih hrest (List.tail_eq_of_cons_eq h)]
          rw [Prod.ext (String.toList_inj.mp hkey) (String.toList_inj.mp hvalue)]

/-- Equal texts with the separators in the same places come from the same binding. -/
theorem RunBinding.same_of_text (hb : b.Accepted) (hc : c.Accepted) (h : b.text = c.text)
    (alike : SplitsAlike b c) : b.Same c := by
  have hbars := alike.bars
  simp only [Joined.SameSeparators, List.map_cons, List.map_nil, List.forall₂_cons] at hbars
  obtain ⟨hauthorization, hcohort, hseller, hscope, hpartition, hfingerprints, -⟩ := hbars
  have hparts : b.parts = c.parts := by
    refine intercalate_text_inj '|' rfl h ?_
    simp only [RunBinding.parts, Joined.SameSeparators, List.map_cons, List.map_nil,
      List.forall₂_cons]
    refine ⟨trivial, hauthorization, hcohort, hseller, hscope, ?_, ?_, hpartition, hfingerprints,
      .nil⟩
    · rw [List.count_eq_zero.mpr (bar_not_mem_isoformat hb.start),
        List.count_eq_zero.mpr (bar_not_mem_isoformat hc.start)]
    · rw [List.count_eq_zero.mpr (bar_not_mem_isoformat hb.stop),
        List.count_eq_zero.mpr (bar_not_mem_isoformat hc.stop)]
  simp only [RunBinding.parts, List.cons.injEq, true_and, and_true] at hparts
  obtain ⟨hauthorization, hcohort, hseller, hscope, hstart, hstop, hpartition, htext⟩ := hparts
  have hsorted : b.sortedFingerprints = c.sortedFingerprints :=
    pairs_inj alike.equals (intercalate_text_inj ',' rfl htext alike.commas)
  refine ⟨?_, ?_⟩
  · simp only [RunBinding.mk.injEq]
    exact ⟨hauthorization, hcohort, hseller, hscope, isoformat_inj hb.start hc.start hstart,
      isoformat_inj hb.stop hc.stop hstop, hpartition, trivial⟩
  · have hperm := (List.perm_insertionSort (fun x y => toLex x ≤ toLex y) b.releaseFingerprints).symm
    rw [show b.releaseFingerprints.insertionSort _ = c.sortedFingerprints from hsorted] at hperm
    exact hperm.trans (List.perm_insertionSort _ _)

theorem RunBinding.Same.sortedFingerprints (h : b.Same c) :
    b.sortedFingerprints = c.sortedFingerprints := by
  have hperm : b.sortedFingerprints.Perm c.sortedFingerprints :=
    (List.perm_insertionSort _ _).trans (h.2.trans (List.perm_insertionSort _ _).symm)
  refine hperm.eq_of_pairwise (fun x y _ _ hxy hyx => ?_) (List.pairwise_insertionSort _ _)
    (List.pairwise_insertionSort _ _)
  exact toLex.injective (le_antisymm hxy hyx)

theorem RunBinding.Same.splitsAlike (h : b.Same c) : SplitsAlike b c := by
  have hsorted := h.sortedFingerprints
  have hparts : b.fingerprintParts = c.fingerprintParts := by
    rw [RunBinding.fingerprintParts, hsorted]
    rfl
  have hfields := h.1
  simp only [RunBinding.mk.injEq] at hfields
  obtain ⟨hauthorization, hcohort, hseller, hscope, -, -, hpartition, -⟩ := hfields
  refine ⟨?_, ?_, ?_⟩
  · rw [hauthorization, hcohort, hseller, hscope, hpartition, RunBinding.fingerprintText, hparts]
    exact Joined.SameSeparators.refl _
  · rw [hparts]
    exact Joined.SameSeparators.refl _
  · rw [hsorted]
    exact Joined.SameSeparators.refl _

/-- A binding without separators in its texts. -/
structure RunBinding.Plain (binding : RunBinding) : Prop where
  bars : ∀ field ∈ [binding.authorizationId, binding.cohortId, binding.sellerId, binding.scope,
    binding.partitionVersion, binding.fingerprintText], '|' ∉ field.toList
  commas : ∀ part ∈ binding.fingerprintParts, ',' ∉ part.toList
  equals : ∀ entry ∈ binding.sortedFingerprints, '=' ∉ entry.1.toList

theorem intercalate_plain_text_inj {sep : String} (mark : Char) {parts parts' : List String}
    (single : sep.toList = [mark]) (h : sep.intercalate parts = sep.intercalate parts')
    (nonempty : parts ≠ []) (nonempty' : parts' ≠ []) (plain : ∀ part ∈ parts, mark ∉ part.toList)
    (plain' : ∀ part ∈ parts', mark ∉ part.toList) : parts = parts' := by
  have hlist := congrArg String.toList h
  rw [String.toList_intercalate, String.toList_intercalate, single] at hlist
  refine List.map_injective_iff.mpr (fun _ _ => String.toList_inj.mp)
    (Joined.intercalate_plain_inj hlist (by simpa using nonempty) (by simpa using nonempty') ?_ ?_)
  · simpa using plain
  · simpa using plain'

theorem RunBinding.Plain.parts {binding : RunBinding} (h : binding.Plain)
    (accepted : binding.Accepted) : ∀ part ∈ binding.parts, '|' ∉ part.toList := by
  have hbars := h.bars
  simp only [List.forall_mem_cons] at hbars
  obtain ⟨hauthorization, hcohort, hseller, hscope, hpartition, hfingerprints, -⟩ := hbars
  simp only [RunBinding.parts, List.forall_mem_cons]
  exact ⟨by decide, hauthorization, hcohort, hseller, hscope,
    bar_not_mem_isoformat accepted.start, bar_not_mem_isoformat accepted.stop, hpartition,
    hfingerprints, by simp⟩

theorem RunBinding.Accepted.fingerprintParts_ne_nil {binding : RunBinding}
    (h : binding.Accepted) : binding.fingerprintParts ≠ [] := by
  intro hnil
  have hwell := h.wellFormed
  have hsorted : binding.sortedFingerprints = [] := List.map_eq_nil_iff.mp hnil
  have hlength := (List.perm_insertionSort (fun x y => toLex x ≤ toLex y)
    binding.releaseFingerprints).length_eq
  rw [show binding.releaseFingerprints.insertionSort _ = [] from hsorted] at hlength
  have hempty := List.eq_nil_of_length_eq_zero hlength.symm
  simp [RunBinding.wellFormed, hempty] at hwell

/-- Of two bindings that agree in their text and have no separators in their fields the
separators fall into the same places. -/
theorem splitsAlike_of_plain (hb : b.Accepted) (hc : c.Accepted) (plain : b.Plain)
    (plain' : c.Plain) (h : b.text = c.text) : SplitsAlike b c := by
  have hparts : b.parts = c.parts := intercalate_plain_text_inj '|' rfl h (by simp [RunBinding.parts])
    (by simp [RunBinding.parts]) (plain.parts hb) (plain'.parts hc)
  simp only [RunBinding.parts, List.cons.injEq, true_and, and_true] at hparts
  obtain ⟨hauthorization, hcohort, hseller, hscope, -, -, hpartition, htext⟩ := hparts
  have hpairs : b.fingerprintParts = c.fingerprintParts :=
    intercalate_plain_text_inj ',' rfl htext hb.fingerprintParts_ne_nil hc.fingerprintParts_ne_nil
      plain.commas plain'.commas
  have hlength : b.sortedFingerprints.length = c.sortedFingerprints.length := by
    simpa [RunBinding.fingerprintParts] using congrArg List.length hpairs
  refine ⟨?_, ?_, ?_⟩
  · rw [hauthorization, hcohort, hseller, hscope, hpartition, htext]
    exact Joined.SameSeparators.refl _
  · rw [hpairs]
    exact Joined.SameSeparators.refl _
  · rw [Joined.SameSeparators, List.forall₂_map_left_iff, List.forall₂_map_right_iff,
      List.forall₂_iff_zip]
    refine ⟨hlength, fun mem => ?_⟩
    rw [List.count_eq_zero.mpr (plain.equals _ (List.of_mem_zip mem).1),
      List.count_eq_zero.mpr (plain'.equals _ (List.of_mem_zip mem).2)]

/-! ### Creation -/

variable {digests : Digests}

/-- A document that holds a binding, with its bounds at the precision of BSON. -/
def RunDoc.Holds (run : RunDoc) (binding : RunBinding) : Prop :=
  run.binding.Same
    { binding with
      start := Mongo.Value.floorMs binding.start
      stop := Mongo.Value.floorMs binding.stop }

theorem RunDoc.Holds.same {run : RunDoc} (h : run.Holds b) (same : b.Same c) : run.Holds c := by
  have hfields := same.1
  simp only [RunBinding.mk.injEq] at hfields
  obtain ⟨hauthorization, hcohort, hseller, hscope, hstart, hstop, hpartition, -⟩ := hfields
  refine ⟨h.1.trans ?_, h.2.trans same.2⟩
  simp [hauthorization, hcohort, hseller, hscope, hstart, hstop, hpartition]

/-- A creation under a free identity stores a document that holds the binding. -/
theorem createRun_free {p : Planner}
    (free : p.coverage.runs.byKey (digests.runId b) = none) :
    ∃ run : RunDoc, run.Holds b ∧ ∀ k, (createRun digests b p).coverage.runs.byKey k =
      if k = digests.runId b then some run else p.coverage.runs.byKey k := by
  let run : RunDoc :=
    { id := digests.runId b
      authorizationId := b.authorizationId
      cohortId := b.cohortId
      sellerId := b.sellerId
      scope := b.scope
      start := Mongo.Value.floorMs b.start
      stop := Mongo.Value.floorMs b.stop
      partitionVersion := b.partitionVersion
      releaseFingerprints := b.releaseFingerprints
      windowCount := (partitionWindows b.start b.stop).length
      state := "authorized"
      updatedAt := none }
  refine ⟨run, ⟨rfl, .refl _⟩, fun k => ?_⟩
  cases hinsert : p.coverage.runs.insert run with
  | none =>
      obtain ⟨other, hother⟩ := Collection.insert_eq_none.mp hinsert
      rw [show p.coverage.runs.byKey (digests.runId b) = some other from hother] at free
      cases free
  | some runs =>
      have hcreated : (createRun digests b p).coverage.runs = runs := by
        simp only [createRun]
        rw [show p.coverage.runs.insert _ = some runs from hinsert]
      rw [hcreated, Collection.byKey_insert hinsert]

/-- A creation under an identity that is taken changes nothing. -/
theorem createRun_taken {p : Planner} {other : RunDoc}
    (taken : p.coverage.runs.byKey (digests.runId b) = some other) :
    createRun digests b p = p := by
  simp only [createRun]
  rw [Collection.insert_eq_none.mpr ⟨other, taken⟩]

/-- After the creation of two runs the second binding has a document that holds it. -/
def AttachesOwn (digests : Digests) (b c : RunBinding) : Prop :=
  ∀ p clock, p.coverage.runs.byKey (digests.runId b) = none →
    p.coverage.runs.byKey (digests.runId c) = none →
      ∃ run, (createRun digests c { createRun digests b p with clock }).coverage.runs.byKey
          (digests.runId c) = some run ∧ run.Holds c

theorem attachesOwn_of_same (h : digests.runId b = digests.runId c → b.Same c) :
    AttachesOwn digests b c := by
  intro p clock hb hc
  obtain ⟨first, hfirst, hkeys⟩ := createRun_free hb
  let q : Planner := { createRun digests b p with clock }
  by_cases hid : digests.runId b = digests.runId c
  · have hstored : q.coverage.runs.byKey (digests.runId c) = some first :=
      (hkeys _).trans (if_pos hid.symm)
    refine ⟨first, ?_, hfirst.same (h hid)⟩
    show (createRun digests c q).coverage.runs.byKey (digests.runId c) = some first
    rw [createRun_taken hstored, hstored]
  · have hfree : q.coverage.runs.byKey (digests.runId c) = none :=
      (hkeys _).trans ((if_neg (Ne.symm hid)).trans hc)
    obtain ⟨second, hsecond, hkeys'⟩ := createRun_free hfree
    exact ⟨second, (hkeys' _).trans (if_pos rfl), hsecond⟩

/-- Where the digest does not collide, `run_id` tells two bindings apart, and a creation finds
its own run, exactly if their separators fall into the same places whenever their texts agree. -/
theorem runId_determines_iff {sha256 : String → String} (hb : b.Accepted) (hc : c.Accepted)
    (collisionFree : sha256 b.text = sha256 c.text → b.text = c.text) :
    ((b.runId sha256 = c.runId sha256 → b.Same c) ∧
        AttachesOwn { digests with runId := RunBinding.runId sha256 } b c) ↔
      (b.text = c.text → SplitsAlike b c) := by
  constructor
  · rintro ⟨hsame, -⟩ htext
    exact (hsame (congrArg sha256 htext)).splitsAlike
  · intro halike
    have hsame : b.runId sha256 = c.runId sha256 → b.Same c := by
      intro hid
      have htext := collisionFree hid
      exact RunBinding.same_of_text hb hc htext (halike htext)
    exact ⟨hsame, attachesOwn_of_same hsame⟩

/-- Bindings that differ in where the authorization ends and the cohort begins. -/
def barInAuthorization : RunBinding where
  authorizationId := "pilot|eu"
  cohortId := "first"
  sellerId := "1"
  scope := "devoluciones"
  start := 1767225600000000
  stop := 1769385600000000
  partitionVersion := "v1"
  releaseFingerprints := [("read", "r1")]

def barInCohort : RunBinding :=
  { barInAuthorization with authorizationId := "pilot", cohortId := "eu|first" }

theorem barInAuthorization_accepted : barInAuthorization.Accepted :=
  ⟨by decide, by unfold InYears; decide, by unfold InYears; decide, by decide⟩

theorem barInCohort_accepted : barInCohort.Accepted :=
  ⟨by decide, by unfold InYears; decide, by unfold InYears; decide, by decide⟩

theorem bar_texts_agree : barInAuthorization.text = barInCohort.text := by
  have htext (authorizationId cohortId : String) (rest : List String) :
      String.intercalate "|" ("v1" :: authorizationId :: cohortId :: "1" :: rest) =
        "v1" ++ "|" ++ (authorizationId ++ "|" ++ cohortId ++
          ("|" ++ String.intercalate "|" ("1" :: rest))) := by
    simp only [String.intercalate_cons_cons, String.append_assoc]
  have hhead : "pilot|eu" ++ "|" ++ "first" = "pilot" ++ "|" ++ "eu|first" := by decide
  calc barInAuthorization.text
      = "v1" ++ "|" ++ ("pilot|eu" ++ "|" ++ "first" ++ _) := htext "pilot|eu" "first" _
    _ = "v1" ++ "|" ++ ("pilot" ++ "|" ++ "eu|first" ++ _) := by
      rw [hhead]
      rfl
    _ = barInCohort.text := (htext "pilot" "eu|first" _).symm

/-- The two have one `run_id`, whatever the digest. -/
theorem runId_confuses_bars :
    barInAuthorization.Accepted ∧ barInCohort.Accepted ∧
      (∀ sha256, barInAuthorization.runId sha256 = barInCohort.runId sha256) ∧
      ¬ barInAuthorization.Same barInCohort := by
  refine ⟨barInAuthorization_accepted, barInCohort_accepted,
    fun sha256 => congrArg sha256 bar_texts_agree, fun h => ?_⟩
  exact absurd (congrArg RunBinding.authorizationId h.1) (by decide)

/-- Digests that leave the digested text as it is. -/
def plainDigests : Digests where
  identity sellerId kind sourceIdentity := sellerId ++ kind ++ sourceIdentity
  runId := RunBinding.text
  sources := String.intercalate ","
  acquisition runId _ := runId
  membership := String.intercalate ","
  readModel sellerId _ _ := .ok sellerId

theorem runId_determines_bars_iff :
    ((barInAuthorization.runId (fun text => text) = barInCohort.runId (fun text => text) →
          barInAuthorization.Same barInCohort) ∧
        AttachesOwn { plainDigests with runId := RunBinding.runId fun text => text }
          barInAuthorization barInCohort) ↔
      (barInAuthorization.text = barInCohort.text →
        SplitsAlike barInAuthorization barInCohort) :=
  runId_determines_iff barInAuthorization_accepted barInCohort_accepted fun h => h

end ZelerPlatform.Devoluciones
