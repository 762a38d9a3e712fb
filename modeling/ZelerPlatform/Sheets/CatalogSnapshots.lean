import Mathlib
import ZelerPlatform.Library.Collection
import ZelerPlatform.Library.Mongo.Path

/-!
# The newest observation of a catalog product

Workers observe a product and write what they saw, in any order. A snapshot replaces the stored
document and an absence marks it, each only if nothing newer is stored; a write that finds
something newer runs into the key of the document there. Instants are stored in milliseconds, so
observations of one millisecond are as new as each other and the last one written stays.
-/

namespace ZelerPlatform.Sheets.Snapshots

open Mongo Mongo.Value

/-! ### Observations -/

/-- What `_catalog_product_snapshot` takes from a product. -/
structure Product where
  title : String
  description : Value
  imageUrl : Value
  attributes : Value
  permalink : Value

inductive Outcome
  | found (product : Product)
  | notFound

/-- A read of the product; instants are microseconds. -/
structure Observation where
  observed : Int
  outcome : Outcome

/-- `_catalog_product_snapshot_id`. -/
def snapshotId (sellerId identity : String) : String := sellerId ++ ":" ++ identity

/-- The snapshot that `acquire` writes. -/
def productSnapshot (sellerId identity : String) (product : Product) (observed : Int) : Doc :=
  [("_id", .string (snapshotId sellerId identity)), ("seller_id", .string sellerId),
    ("catalog_product_id", .string identity), ("title", .string product.title),
    ("description", product.description), ("image_url", product.imageUrl),
    ("attributes", product.attributes), ("permalink", product.permalink),
    ("snapshot_at", .date observed), ("source", .string "sheets_backfill"),
    ("schema_version", .int 1)]

/-- `source_unavailable`. -/
def sourceUnavailable (observed : Int) : Value :=
  .document [("reason", .string "catalog_product_not_found"), ("observed_at", .date observed)]

/-- `$setOnInsert` of an absence. -/
def absentSnapshot (sellerId identity : String) (observed : Int) : Doc :=
  [("_id", .string (snapshotId sellerId identity)), ("seller_id", .string sellerId),
    ("catalog_product_id", .string identity), ("snapshot_at", .date observed),
    ("source", .string "sheets_backfill"), ("schema_version", .int 1)]

/-! ### Writes -/

/-- `{"$or": [{field: {"$lte": observed}}, {field: {"$exists": False}}]}`. -/
def notNewer (path : List String) (observed : Int) (doc : Doc) : Bool :=
  lteDateMatches ((Value.document doc).reach path) (floorMs observed) ||
    !existsMatches ((Value.document doc).reach path)

/-- `_catalog_snapshot_filter`. -/
def catalogSnapshotFilter (sellerId identity : String) (observed : Int) (doc : Doc) : Bool :=
  Doc.matchesAll [("_id", .string (snapshotId sellerId identity)),
      ("seller_id", .string sellerId)] doc &&
    notNewer ["snapshot_at"] observed doc &&
    notNewer ["source_unavailable", "observed_at"] observed doc

/-- The write of an observation to the document of its key: a replacement or an update, with an
upsert that a document already there refuses. -/
def write (sellerId identity : String) (held : Option Doc) (observation : Observation) :
    Option Doc :=
  match held, observation.outcome with
  | none, .found product =>
      some (storedFields (productSnapshot sellerId identity product observation.observed))
  | none, .notFound =>
      some (storedFields ((absentSnapshot sellerId identity observation.observed).set
        "source_unavailable" (sourceUnavailable observation.observed)))
  | some doc, outcome =>
      if catalogSnapshotFilter sellerId identity observation.observed doc then
        match outcome with
        | .found product =>
            some (storedFields (productSnapshot sellerId identity product observation.observed))
        | .notFound =>
            some (doc.set "source_unavailable" (sourceUnavailable observation.observed).stored)
      else some doc

/-- The writes in the order in which they take place. -/
def writes (sellerId identity : String) (order : List Observation) : Option Doc :=
  order.foldl (write sellerId identity) none

/-! ### What is stored -/

/-- A date at a path, if there is one. -/
def dateAt (path : List String) (doc : Doc) : WithBot Int :=
  match (Value.document doc).follow path with
  | some (.date t) => (t : WithBot Int)
  | _ => ⊥

/-- The larger of the two instants of the stored document. -/
def latest : Option Doc → WithBot Int
  | none => ⊥
  | some doc => max (dateAt ["snapshot_at"] doc) (dateAt ["source_unavailable", "observed_at"] doc)

/-- A document as the writes leave it, with its two instants. -/
structure Shape (sellerId identity : String) (snapshotAt : Int) (absentAt : Option Int) (doc : Doc) :
    Prop where
  id : doc.get? "_id" = some (.string (snapshotId sellerId identity))
  seller : doc.get? "seller_id" = some (.string sellerId)
  snapshot : doc.get? "snapshot_at" = some (.date snapshotAt)
  absent : doc.get? "source_unavailable" = absentAt.map sourceUnavailable

section

variable {sellerId identity : String} {snapshotAt observed : Int} {absentAt : Option Int}
variable {doc : Doc} {product : Product}

theorem shape_productSnapshot : Shape sellerId identity (floorMs observed) none
    (storedFields (productSnapshot sellerId identity product observed)) := by
  refine ⟨?_, ?_, ?_, ?_⟩ <;> rw [Doc.get?_storedFields] <;> rfl

theorem shape_absentSnapshot : Shape sellerId identity (floorMs observed) (some (floorMs observed))
    (storedFields ((absentSnapshot sellerId identity observed).set
      "source_unavailable" (sourceUnavailable observed))) := by
  refine ⟨?_, ?_, ?_, ?_⟩ <;> rw [Doc.get?_storedFields] <;> rfl

theorem stored_sourceUnavailable :
    (sourceUnavailable observed).stored = sourceUnavailable (floorMs observed) := rfl

theorem Shape.mark (h : Shape sellerId identity snapshotAt absentAt doc) :
    Shape sellerId identity snapshotAt (some (floorMs observed))
      (doc.set "source_unavailable" (sourceUnavailable observed).stored) := by
  refine ⟨?_, ?_, ?_, ?_⟩ <;> rw [Doc.get?_set]
  · exact h.id
  · exact h.seller
  · exact h.snapshot
  · rfl

theorem Shape.latest_eq (h : Shape sellerId identity snapshotAt absentAt doc) :
    latest (some doc) = max (snapshotAt : WithBot Int) (absentAt.elim ⊥ fun t => (t : WithBot Int)) := by
  have hsnapshot : dateAt ["snapshot_at"] doc = (snapshotAt : WithBot Int) := by
    have hlookup : doc.lookup "snapshot_at" = some (.date snapshotAt) := h.snapshot
    simp only [dateAt, follow, hlookup, Option.bind_some]
  have habsent : dateAt ["source_unavailable", "observed_at"] doc =
      absentAt.elim ⊥ fun t => (t : WithBot Int) := by
    have hlookup : doc.lookup "source_unavailable" = absentAt.map sourceUnavailable := h.absent
    rw [dateAt, follow, hlookup]
    cases absentAt with
    | none => rfl
    | some t => rfl
  rw [latest, hsnapshot, habsent]

theorem notNewer_some {path : List String} {t : Int}
    (h : (Value.document doc).reach path = [.date t]) :
    notNewer path observed doc = true ↔ t ≤ floorMs observed := by
  simp [notNewer, h, lteDateMatches, existsMatches, candidates, isDateBy]

theorem notNewer_none {path : List String} (h : (Value.document doc).reach path = []) :
    notNewer path observed doc = true := by
  simp [notNewer, h, existsMatches]

/-- The filter passes what is not newer. -/
theorem Shape.filter_iff (h : Shape sellerId identity snapshotAt absentAt doc) :
    catalogSnapshotFilter sellerId identity observed doc = true ↔
      latest (some doc) ≤ (floorMs observed : WithBot Int) := by
  have hkey : Doc.matchesAll [("_id", .string (snapshotId sellerId identity)),
      ("seller_id", .string sellerId)] doc = true := by
    simp [Doc.matchesAll, h.id, h.seller, eqMatches, candidates, stored, Value.compare]
  have hsnapshot : (Value.document doc).reach ["snapshot_at"] = [.date snapshotAt] := by
    have hlookup : doc.lookup "snapshot_at" = some (.date snapshotAt) := h.snapshot
    rw [reach, hlookup]
    rfl
  have hlookup : doc.lookup "source_unavailable" = absentAt.map sourceUnavailable := h.absent
  rw [catalogSnapshotFilter, hkey, Bool.true_and, Bool.and_eq_true, notNewer_some hsnapshot,
    h.latest_eq, max_le_iff, WithBot.coe_le_coe]
  refine and_congr_right fun _ => ?_
  cases absentAt with
  | none =>
      have hreach : (Value.document doc).reach ["source_unavailable", "observed_at"] = [] := by
        rw [reach, hlookup]
        rfl
      simp [notNewer_none hreach]
  | some t =>
      have hreach : (Value.document doc).reach ["source_unavailable", "observed_at"] =
          [.date t] := by
        rw [reach, hlookup]
        rfl
      rw [notNewer_some hreach]
      exact WithBot.coe_le_coe.symm

end

/-! ### One write -/

/-- A document as the writes leave it, or none yet. -/
def Kept (sellerId identity : String) : Option Doc → Prop
  | none => True
  | some doc => ∃ snapshotAt absentAt, Shape sellerId identity snapshotAt absentAt doc

/-- What is stored is an observation's: its snapshot, or its absence. -/
def Shows (sellerId identity : String) (held : Option Doc) (observation : Observation) : Prop :=
  ∃ doc, held = some doc ∧
    match observation.outcome with
    | .found product =>
        doc.get? "source_unavailable" = none ∧
          doc = storedFields (productSnapshot sellerId identity product observation.observed)
    | .notFound => doc.get? "source_unavailable" =
        some (sourceUnavailable (floorMs observation.observed))

section

variable {sellerId identity : String} {held : Option Doc} {observation : Observation}
variable {order after : List Observation} {bound : WithBot Int}

/-- What one write does: nothing to what is newer, and otherwise it shows its observation. -/
structure Wrote (sellerId identity : String) (held : Option Doc) (observation : Observation)
    (result : Option Doc) : Prop where
  kept : Kept sellerId identity result
  refused : ¬ latest held ≤ (floorMs observation.observed : WithBot Int) → result = held
  taken : latest held ≤ (floorMs observation.observed : WithBot Int) →
    latest result = (floorMs observation.observed : WithBot Int) ∧
      Shows sellerId identity result observation

theorem wrote_snapshot {product : Product} (found : observation.outcome = .found product) :
    Wrote sellerId identity held observation
        (some (storedFields (productSnapshot sellerId identity product observation.observed))) ∨
      ¬ latest held ≤ (floorMs observation.observed : WithBot Int) := by
  by_cases h : latest held ≤ (floorMs observation.observed : WithBot Int)
  · have hshape := @shape_productSnapshot sellerId identity observation.observed product
    refine .inl ⟨⟨_, _, hshape⟩, fun hnot => absurd h hnot, fun _ => ⟨?_, _, rfl, ?_⟩⟩
    · rw [hshape.latest_eq]
      exact max_eq_left bot_le
    · rw [found]
      exact ⟨hshape.absent, rfl⟩
  · exact .inr h

theorem wrote_write (h : Kept sellerId identity held) :
    Wrote sellerId identity held observation (write sellerId identity held observation) := by
  cases held with
  | none =>
      rw [write.eq_def]
      cases houtcome : observation.outcome with
      | found product =>
          obtain hwrote | hnot := wrote_snapshot houtcome
          · exact hwrote
          · exact absurd (show latest none ≤ _ from bot_le) hnot
      | notFound =>
          have hshape := @shape_absentSnapshot sellerId identity observation.observed
          refine ⟨⟨_, _, hshape⟩, fun hnot => absurd bot_le hnot, fun _ => ⟨?_, _, rfl, ?_⟩⟩
          · rw [hshape.latest_eq]
            exact max_self _
          · rw [houtcome]
            exact hshape.absent
  | some doc =>
      obtain ⟨snapshotAt, absentAt, hshape⟩ := h
      rw [write.eq_def]
      by_cases hpasses : latest (some doc) ≤ (floorMs observation.observed : WithBot Int)
      · simp only [if_pos (hshape.filter_iff.mpr hpasses)]
        cases houtcome : observation.outcome with
        | found product =>
            obtain hwrote | hnot := wrote_snapshot houtcome
            · exact hwrote
            · exact absurd hpasses hnot
        | notFound =>
            have hmarked := @Shape.mark _ _ _ observation.observed _ _ hshape
            refine ⟨⟨_, _, hmarked⟩, fun hnot => absurd hpasses hnot,
              fun _ => ⟨?_, _, rfl, ?_⟩⟩
            · rw [hmarked.latest_eq]
              rw [hshape.latest_eq] at hpasses
              exact max_eq_right ((le_max_left _ _).trans hpasses)
            · rw [houtcome]
              exact hmarked.absent
      · simp only [if_neg (fun hfilter => hpasses (hshape.filter_iff.mp hfilter))]
        exact ⟨⟨_, _, hshape⟩, fun _ => rfl, fun h => absurd h hpasses⟩

/-- No write lowers the larger of the two instants. -/
theorem Wrote.latest_le {result : Option Doc} (h : Wrote sellerId identity held observation result) :
    latest held ≤ latest result := by
  by_cases hpasses : latest held ≤ (floorMs observation.observed : WithBot Int)
  · rw [(h.taken hpasses).1]
    exact hpasses
  · rw [h.refused hpasses]

/-! ### All writes -/

theorem kept_foldl (h : Kept sellerId identity held) :
    Kept sellerId identity (order.foldl (write sellerId identity) held) := by
  induction order generalizing held with
  | nil => exact h
  | cons observation rest ih => exact ih (wrote_write h).kept

theorem latest_foldl_le (h : Kept sellerId identity held) (start : latest held ≤ bound)
    (within : ∀ o ∈ order, (floorMs o.observed : WithBot Int) ≤ bound) :
    latest (order.foldl (write sellerId identity) held) ≤ bound := by
  induction order generalizing held with
  | nil => exact start
  | cons observation rest ih =>
      have hwrote : Wrote sellerId identity held observation _ := wrote_write h
      refine ih hwrote.kept ?_ fun o mem => within o (List.mem_cons_of_mem _ mem)
      by_cases hpasses : latest held ≤ (floorMs observation.observed : WithBot Int)
      · rw [(hwrote.taken hpasses).1]
        exact within observation List.mem_cons_self
      · rw [hwrote.refused hpasses]
        exact start

theorem foldl_older (h : Kept sellerId identity held)
    (older : ∀ o ∈ after, (floorMs o.observed : WithBot Int) < latest held) :
    after.foldl (write sellerId identity) held = held := by
  induction after with
  | nil => rfl
  | cons observation rest ih =>
      rw [List.foldl_cons, (wrote_write h).refused (not_le.mpr (older _ List.mem_cons_self))]
      exact ih fun o mem => older o (List.mem_cons_of_mem _ mem)

/-- The last write among those of the newest millisecond stays. -/
theorem shows_writes {before after : List Observation} {last : Observation}
    (split : order = before ++ last :: after)
    (earlier : ∀ o ∈ before, floorMs o.observed ≤ floorMs last.observed)
    (later : ∀ o ∈ after, floorMs o.observed < floorMs last.observed) :
    Shows sellerId identity (writes sellerId identity order) last := by
  have hbefore : Kept sellerId identity (writes sellerId identity before) :=
    kept_foldl (show Kept sellerId identity none from trivial)
  have hlatest : latest (writes sellerId identity before) ≤
      (floorMs last.observed : WithBot Int) :=
    latest_foldl_le (show Kept sellerId identity none from trivial) bot_le
      fun o mem => WithBot.coe_le_coe.mpr (earlier o mem)
  have hwrote : Wrote sellerId identity _ last _ := wrote_write hbefore
  obtain ⟨heq, hshows⟩ := hwrote.taken hlatest
  have hafter : writes sellerId identity order =
      write sellerId identity (writes sellerId identity before) last := by
    rw [split, writes, List.foldl_append, List.foldl_cons]
    refine foldl_older hwrote.kept fun o mem => ?_
    rw [← writes, heq]
    exact WithBot.coe_lt_coe.mpr (later o mem)
  rw [hafter]
  exact hshows

end

/-! ### The newest observation -/

/-- The last write among those of the millisecond of an observation. -/
def lastWritten (order : List Observation) (newest : Observation) : Option Observation :=
  (order.filter fun o => floorMs o.observed = floorMs newest.observed).getLast?

/-- Two observations that leave the same: one snapshot, or an absence. -/
def SameOutcome (sellerId identity : String) (a b : Observation) : Prop :=
  match a.outcome, b.outcome with
  | .found p, .found q => storedFields (productSnapshot sellerId identity p a.observed) =
      storedFields (productSnapshot sellerId identity q b.observed)
  | .notFound, .notFound => True
  | _, _ => False

/-- What is to hold of all writes. -/
structure KeepsNewest (sellerId identity : String) (order : List Observation)
    (newest : Observation) : Prop where
  shows : Shows sellerId identity (writes sellerId identity order) newest
  never_lowers : ∀ before observation after, order = before ++ observation :: after →
    latest (writes sellerId identity before) ≤
      latest (writes sellerId identity (before ++ [observation]))

theorem split_of_getLast?_filter {α : Type} {p : α → Bool} {xs : List α} {x : α}
    (h : (xs.filter p).getLast? = some x) :
    ∃ before after, xs = before ++ x :: after ∧ p x = true ∧ ∀ y ∈ after, p y = false := by
  induction xs using List.reverseRecOn with
  | nil => cases h
  | append_singleton xs y ih =>
      rw [List.filter_append] at h
      cases hy : p y with
      | true =>
          rw [List.filter_singleton, hy] at h
          obtain rfl := Option.some.inj (List.getLast?_concat.symm.trans h)
          exact ⟨xs, [], rfl, hy, by simp⟩
      | false =>
          rw [List.filter_singleton, hy] at h
          obtain ⟨before, after, rfl, hx, hafter⟩ := ih (by simpa using h)
          refine ⟨before, after ++ [y], by simp, hx, ?_⟩
          intro z mem
          obtain mem | mem := List.mem_append.mp mem
          · exact hafter z mem
          · exact List.mem_singleton.mp mem ▸ hy

section

variable {sellerId identity : String} {order : List Observation} {newest : Observation}

theorem Shows.iff_sameOutcome {held : Option Doc} {last : Observation}
    (h : Shows sellerId identity held last)
    (same : floorMs last.observed = floorMs newest.observed) :
    Shows sellerId identity held newest ↔ SameOutcome sellerId identity last newest := by
  obtain ⟨doc, rfl, hlast⟩ := h
  rw [SameOutcome]
  cases hl : last.outcome with
  | found p =>
      rw [hl] at hlast
      cases hn : newest.outcome with
      | found q =>
          constructor
          · rintro ⟨doc', heq, hdoc⟩
            obtain rfl := Option.some.inj heq
            rw [hn] at hdoc
            exact hlast.2.symm.trans hdoc.2
          · intro heq
            refine ⟨doc, rfl, ?_⟩
            rw [hn]
            exact ⟨hlast.1, hlast.2.trans heq⟩
      | notFound =>
          refine ⟨?_, False.elim⟩
          rintro ⟨doc', heq, hdoc⟩
          obtain rfl := Option.some.inj heq
          rw [hn] at hdoc
          cases hlast.1.symm.trans hdoc
  | notFound =>
      rw [hl] at hlast
      cases hn : newest.outcome with
      | found q =>
          refine ⟨?_, False.elim⟩
          rintro ⟨doc', heq, hdoc⟩
          obtain rfl := Option.some.inj heq
          rw [hn] at hdoc
          cases hdoc.1.symm.trans hlast
      | notFound =>
          refine ⟨fun _ => trivial, fun _ => ⟨doc, rfl, ?_⟩⟩
          rw [hn]
          exact same ▸ hlast

/-- The newest observation stays exactly when the last one written of its millisecond leaves the
same. -/
theorem keepsNewest_iff (mem : newest ∈ order) (max : ∀ o ∈ order, o.observed ≤ newest.observed) :
    KeepsNewest sellerId identity order newest ↔
      ∃ last, lastWritten order newest = some last ∧
        SameOutcome sellerId identity last newest := by
  have hlast : ∃ last, lastWritten order newest = some last := by
    refine Option.isSome_iff_exists.mp (List.getLast?_isSome.mpr ?_)
    exact List.ne_nil_of_mem (List.mem_filter.mpr ⟨mem, by simp⟩)
  obtain ⟨last, hlast⟩ := hlast
  obtain ⟨before, after, hsplit, hsame, hafter⟩ := split_of_getLast?_filter hlast
  have hsame : floorMs last.observed = floorMs newest.observed := of_decide_eq_true hsame
  have hle : ∀ o ∈ order, floorMs o.observed ≤ floorMs last.observed := by
    intro o ho
    rw [hsame]
    exact floorMs_mono (max o ho)
  have hshows : Shows sellerId identity (writes sellerId identity order) last := by
    refine shows_writes hsplit (fun o ho => hle o ?_) fun o ho => lt_of_le_of_ne (hle o ?_) ?_
    · rw [hsplit]
      exact List.mem_append_left _ ho
    · rw [hsplit]
      exact List.mem_append_right _ (List.mem_cons_of_mem _ ho)
    · rw [hsame]
      exact of_decide_eq_false (hafter o ho)
  have hnever : ∀ before observation after, order = before ++ observation :: after →
      latest (writes sellerId identity before) ≤
        latest (writes sellerId identity (before ++ [observation])) := by
    intro before observation after _
    have hkept : Kept sellerId identity (writes sellerId identity before) :=
      kept_foldl (show Kept sellerId identity none from trivial)
    rw [writes, writes, List.foldl_concat]
    exact (wrote_write hkept).latest_le
  rw [hlast]
  constructor
  · intro h
    exact ⟨last, rfl, (hshows.iff_sameOutcome hsame).mp h.shows⟩
  · rintro ⟨other, heq, houtcome⟩
    obtain rfl := Option.some.inj heq
    exact ⟨(hshows.iff_sameOutcome hsame).mpr houtcome, hnever⟩

end

/-- A product with a title and nothing else. -/
def titled (title : String) : Product := ⟨title, .null, .null, .null, .null⟩

theorem keepsNewest_found : KeepsNewest "7" "MLA1"
    [⟨5000, .found (titled "new")⟩, ⟨1000, .notFound⟩] ⟨5000, .found (titled "new")⟩ :=
  (keepsNewest_iff (by simp) (by simp)).mpr ⟨⟨5000, .found (titled "new")⟩, rfl, rfl⟩

/-- Two reads of one millisecond, the later one written first: the earlier one stays. -/
theorem sameMillisecond_older : ¬ KeepsNewest "7" "MLA1"
    [⟨2, .found (titled "new")⟩, ⟨1, .found (titled "old")⟩] ⟨2, .found (titled "new")⟩ := by
  intro h
  obtain ⟨doc, heq, -, hdoc⟩ := h.shows
  have hwritten : (writes "7" "MLA1" [⟨2, .found (titled "new")⟩,
      ⟨1, .found (titled "old")⟩]).bind (·.get? "title") = some (.string "old") := by
    decide +kernel
  rw [heq, hdoc] at hwritten
  exact absurd hwritten (by decide +kernel)

end ZelerPlatform.Sheets.Snapshots
