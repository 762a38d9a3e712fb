import Mathlib.Data.Prod.Lex
import ZelerPlatform.Devoluciones.Readback
import ZelerPlatform.Library.Keyset
import ZelerPlatform.Library.Utf8

/-!
# Reading claims in pages

`read_devoluciones_claims_keyset` reads the claims of a range page by page, each page after the last
claim of the one before. The database compares identities by their bytes and cuts the bounds of the
range to milliseconds; the reader compares identities by code points.
-/

namespace ZelerPlatform.Devoluciones

open Mongo Mongo.Value Fallible Sorted Keyset

/-- A `datetime`: its instant, and whether it has a zone. -/
structure Moment where
  instant : Int
  aware : Bool

inductive KeysetError
  | value (message : String)
  | coverage (error : CoverageError)
  deriving DecidableEq

section

variable {ε : Type} {inventory : String → ε} {start stop : Moment}

/-- `_validated_utc_range`, with what it raises. -/
def validatedUtcRange (inventory : String → ε) (start stop : Moment) : Except ε (Int × Int) := do
  raiseIf (start.aware = false ∨ stop.aware = false)
    (inventory "claim inventory bounds must be timezone-aware")
  raiseIf (stop.instant ≤ start.instant) (inventory "claim inventory end must be after start")
  return (start.instant, stop.instant)

theorem validatedUtcRange_ok (haware : start.aware = true ∧ stop.aware = true)
    (hrange : start.instant < stop.instant) :
    validatedUtcRange inventory start stop = .ok (start.instant, stop.instant) := by
  rw [validatedUtcRange, raiseIf_of_not (by simp [haware]), pure_bind,
    raiseIf_of_not (not_le.mpr hrange), pure_bind]
  rfl

end

/-! ### A page -/

/-- `{"$gt": last, "$lt": stop}`. -/
def dateAfter (last stop : Int) (value : Option Value) : Bool :=
  match value.bind (·.date?) with
  | some us => decide (floorMs last < us) && decide (us < floorMs stop)
  | none => false

/-- A field that equals a date. -/
def dateIs (last : Int) (value : Option Value) : Bool :=
  value.bind (·.date?) == some (floorMs last)

/-- `{"$gt": last}` on texts. -/
def textAfter (last : String) (value : Option Value) : Bool :=
  match value.bind (·.str?) with
  | some text => decide (Utf8.bytes last < Utf8.bytes text)
  | none => false

/-- The filter of a page. -/
def pageFilter (sellerId : String) (start stop : Int) (last : Option (Int × String)) (claim : Doc) :
    Bool :=
  sellerMatches sellerId claim && eqMatches (claim.get? "type") (.string "returns") &&
    dateWithin start stop (claim.get? "date_created") &&
    last.all fun before =>
      dateAfter before.1 stop (claim.get? "date_created") ||
        dateIs before.1 (claim.get? "date_created") && textAfter before.2 (claim.get? "_id")

/-- The instant of creation. -/
def createdOf (claim : Doc) : Int := ((claim.get? "date_created").bind (·.date?)).getD 0

/-- The text of `_id`. -/
def idOf (claim : Doc) : String := ((claim.get? "_id").bind (·.str?)).getD ""

/-- The order of `.sort([("date_created", 1), ("_id", 1)])`. -/
def indexBefore (a b : Doc) : Prop :=
  createdOf a < createdOf b ∨
    createdOf a = createdOf b ∧ ¬ Utf8.bytes (idOf b) < Utf8.bytes (idOf a)

instance : DecidableRel indexBefore := fun a b => by
  unfold indexBefore
  infer_instance

/-- One page, `to_list(length=page_size)`. -/
def readPage (claims : List Doc) (sellerId : String) (start stop : Int) (pageSize : Nat)
    (last : Option (Int × String)) : List Doc :=
  ((claims.filter (pageFilter sellerId start stop last)).insertionSort indexBefore).take pageSize

/-! ### The loop -/

/-- `documents`, `seen_ids`, and `last_date` with `last_id`. -/
structure KeysetRead where
  documents : List Doc
  seenIds : List String
  last : Option (Int × String)

/-- The loop over a page, on one claim. -/
def KeysetRead.take (read : KeysetRead) (claim : Doc) : Except CoverageError KeysetRead := do
  let id := textOf (claim.get? "_id")
  let created ← utcDatetime (claim.get? "date_created") "claim date_created" "claim_date_created"
  raiseIf (id = "" ∨ id ∈ read.seenIds)
    (.verification "claim keyset contains a missing or duplicate identity"
      "claim_keyset_identity_invalid")
  raiseIf (∃ before ∈ read.last, created < before.1 ∨ created = before.1 ∧ id ≤ before.2)
    (.verification "claim keyset did not advance" "claim_keyset_not_advancing")
  return {
    documents := read.documents ++ [claim]
    seenIds := id :: read.seenIds
    last := some (created, id) }

/-- The loop over the pages; nothing where the fuel does not reach. -/
def readPages (claims : List Doc) (sellerId : String) (start stop : Int) (pageSize : Nat) :
    Nat → KeysetRead → Option (Except CoverageError (List Doc))
  | 0, _ => none
  | fuel + 1, read =>
      let page := readPage claims sellerId start stop pageSize read.last
      if page = [] then some (.ok read.documents)
      else
        match page.foldlM KeysetRead.take read with
        | .error error => some (.error error)
        | .ok next =>
            if page.length < pageSize then some (.ok next.documents)
            else readPages claims sellerId start stop pageSize fuel next

/-- `read_devoluciones_claims_keyset`. -/
def readClaimsKeyset (claims : List Doc) (sellerId : String) (start stop : Moment) (pageSize : Int)
    (fuel : Nat) : Option (Except KeysetError (List Doc)) :=
  if pageSize < 1 then some (.error (.value "page_size must be positive"))
  else
    match validatedUtcRange .runtime start stop with
    | .error error => some (.error (.coverage error))
    | .ok (start, stop) =>
        (readPages claims sellerId start stop pageSize.toNat fuel ⟨[], [], none⟩).map
          (·.mapError .coverage)

/-! ### The claims of a range -/

/-- An identity that is a text without surrounding whitespace, and an instant of creation in
milliseconds. -/
structure Keyed (claim : Doc) : Prop where
  id : ∃ text, claim.get? "_id" = some (.string text) ∧ text ≠ "" ∧ pyStrip text = text
  created : ∃ us, claim.get? "date_created" = some (.date us) ∧ floorMs us = us

/-- The returns claims of a seller created in `[start, stop)`. -/
def returnsWithin (sellerId : String) (start stop : Int) (claim : Doc) : Bool :=
  sellerMatches sellerId claim && eqMatches (claim.get? "type") (.string "returns") &&
    (decide (start ≤ createdOf claim) && decide (createdOf claim < stop))

/-- The instant of creation, then the identity. -/
def claimKey (claim : Doc) : Lex (Int × String) := toLex (createdOf claim, idOf claim)

section

variable {claims done rest page : List Doc} {claim : Doc} {sellerId : String} {start stop : Int}
variable {pageSize fuel : Nat} {last : Option (Int × String)}

theorem Keyed.get?_id (h : Keyed claim) : claim.get? "_id" = some (.string (idOf claim)) := by
  obtain ⟨text, hid, -⟩ := h.id
  rw [idOf, hid]
  rfl

theorem Keyed.get?_created (h : Keyed claim) :
    claim.get? "date_created" = some (.date (createdOf claim)) := by
  obtain ⟨us, hcreated, -⟩ := h.created
  rw [createdOf, hcreated]
  rfl

theorem Keyed.idOf_ne (h : Keyed claim) : idOf claim ≠ "" := by
  obtain ⟨text, hid, hne, -⟩ := h.id
  rw [idOf, hid]
  exact hne

theorem Keyed.floorMs_created (h : Keyed claim) : floorMs (createdOf claim) = createdOf claim := by
  obtain ⟨us, hcreated, hms⟩ := h.created
  rw [createdOf, hcreated]
  exact hms

theorem Keyed.textOf_id (h : Keyed claim) : textOf (claim.get? "_id") = idOf claim := by
  obtain ⟨text, hid, hne, hstrip⟩ := h.id
  have htruthy : (Value.string text).truthy = true := by
    simpa [Value.truthy] using hne
  rw [textOf, idOf, hid, Option.filter_some_pos (by simpa using htruthy)]
  exact hstrip

theorem Keyed.utcDatetime_created (h : Keyed claim) (field reason : String) :
    utcDatetime (claim.get? "date_created") field reason = .ok (createdOf claim) := by
  rw [h.get?_created]
  rfl

theorem claimKey_lt {a b : Doc} : claimKey a < claimKey b ↔
    createdOf a < createdOf b ∨ createdOf a = createdOf b ∧ idOf a < idOf b :=
  Prod.Lex.toLex_lt_toLex

/-- The index orders claims by their keys. -/
theorem indexBefore_iff {a b : Doc} : indexBefore a b ↔ claimKey a ≤ claimKey b := by
  rw [indexBefore, Utf8.bytes_lt_iff, not_lt, claimKey, claimKey, Prod.Lex.toLex_le_toLex]

theorem dateWithin_created (h : Keyed claim) :
    dateWithin start stop (claim.get? "date_created") =
      (decide (floorMs start ≤ createdOf claim) && decide (createdOf claim < floorMs stop)) := by
  rw [h.get?_created]
  rfl

/-- The two branches of the filter say that the key is greater. -/
theorem after_key (h : Keyed claim) {created : Int} {id : String} (hms : floorMs created = created)
    (hstop : createdOf claim < floorMs stop) :
    (dateAfter created stop (claim.get? "date_created") ||
        dateIs created (claim.get? "date_created") && textAfter id (claim.get? "_id")) =
      after claimKey (some (toLex (created, id))) claim := by
  have hafter : dateAfter created stop (claim.get? "date_created") =
      (decide (created < createdOf claim) && decide (createdOf claim < floorMs stop)) := by
    rw [h.get?_created, dateAfter, hms]
    rfl
  have his : dateIs created (claim.get? "date_created") = decide (created = createdOf claim) := by
    rw [h.get?_created, dateIs, hms, Bool.eq_iff_iff, beq_iff_eq, decide_eq_true_eq]
    exact ⟨fun h => (Option.some.inj h).symm, fun h => congrArg some h.symm⟩
  have htext : textAfter id (claim.get? "_id") = decide (id < idOf claim) := by
    rw [h.get?_id]
    exact decide_eq_decide.mpr (Utf8.bytes_lt_iff _ _)
  have hkey : after claimKey (some (toLex (created, id))) claim =
      decide (created < createdOf claim ∨ created = createdOf claim ∧ id < idOf claim) :=
    decide_eq_decide.mpr Prod.Lex.toLex_lt_toLex
  rw [hafter, his, htext, hkey, decide_eq_true hstop, Bool.and_true, Bool.decide_or,
    Bool.decide_and]

/-- A page is selected from the claims of the range after the last key. -/
theorem pageFilter_eq (h : Keyed claim) (hlast : ∀ before ∈ last, floorMs before.1 = before.1) :
    pageFilter sellerId start stop last claim =
      (returnsWithin sellerId (floorMs start) (floorMs stop) claim &&
        after claimKey (last.map toLex) claim) := by
  rw [pageFilter, returnsWithin, dateWithin_created h]
  cases last with
  | none => rfl
  | some before =>
      obtain ⟨created, id⟩ := before
      by_cases hstop : createdOf claim < floorMs stop
      · rw [Option.all_some, after_key h (hlast _ rfl) hstop, Option.map_some]
      · simp [hstop]

/-! ### Pages -/

/-- The state of the loop after some claims. -/
def readOf (done : List Doc) : KeysetRead where
  documents := done
  seenIds := (done.map idOf).reverse
  last := done.getLast?.map fun claim => (createdOf claim, idOf claim)

/-- The claim after those that were read passes the checks. -/
theorem take_readOf (h : Keyed claim) (fresh : idOf claim ∉ done.map idOf)
    (advance : ∀ before ∈ done.getLast?, claimKey before < claimKey claim) :
    (readOf done).take claim = .ok (readOf (done ++ [claim])) := by
  have hid : ¬ (idOf claim = "" ∨ idOf claim ∈ (readOf done).seenIds) := by
    rintro (hempty | hseen)
    · exact h.idOf_ne hempty
    · exact fresh (List.mem_reverse.mp hseen)
  have hadvance : ¬ ∃ before ∈ (readOf done).last,
      createdOf claim < before.1 ∨ createdOf claim = before.1 ∧ idOf claim ≤ before.2 := by
    rintro ⟨before, mem, hbehind⟩
    obtain ⟨earlier, hearlier, rfl⟩ := Option.mem_map.mp mem
    refine (advance earlier hearlier).not_ge (Prod.Lex.toLex_le_toLex.mpr ?_)
    exact hbehind
  have hstate : readOf (done ++ [claim]) =
      { documents := done ++ [claim]
        seenIds := idOf claim :: (readOf done).seenIds
        last := some (createdOf claim, idOf claim) } := by
    rw [readOf, List.getLast?_concat, List.map_append, List.reverse_append]
    rfl
  rw [KeysetRead.take, h.textOf_id, h.utcDatetime_created, hstate]
  change (raiseIf _ _ >>= fun _ => raiseIf _ _ >>= fun _ => _) = _
  rw [raiseIf_of_not hid, pure_bind, raiseIf_of_not hadvance, pure_bind]
  rfl

/-- A page of the claims that come next passes the checks. -/
theorem foldlM_take (keyed : ∀ claim ∈ page, Keyed claim) (once : ((done ++ page).map idOf).Nodup)
    (ascending : (done ++ page).Pairwise fun a b => claimKey a < claimKey b) :
    page.foldlM KeysetRead.take (readOf done) = .ok (readOf (done ++ page)) := by
  induction page generalizing done with
  | nil =>
      rw [List.append_nil]
      rfl
  | cons claim page ih =>
      have hsplit : done ++ claim :: page = done ++ [claim] ++ page := by
        rw [List.append_assoc]
        rfl
      have fresh : idOf claim ∉ done.map idOf := by
        rw [List.map_append, List.nodup_append] at once
        exact fun mem => once.2.2 _ mem _ List.mem_cons_self rfl
      have advance : ∀ before ∈ done.getLast?, claimKey before < claimKey claim :=
        fun before mem => (List.pairwise_append.mp ascending).2.2 before
          (List.mem_of_mem_getLast? mem) claim List.mem_cons_self
      rw [hsplit] at once ascending
      rw [List.foldlM_cons, take_readOf (keyed claim List.mem_cons_self) fresh advance, hsplit]
      exact ih (fun other mem => keyed other (List.mem_cons_of_mem _ mem)) once ascending

theorem nodup_claimKey (once : (claims.map idOf).Nodup) : (claims.map claimKey).Nodup := by
  have hids : ((claims.map claimKey).map fun key => (ofLex key).2).Nodup := by
    rw [List.map_map]
    exact once
  exact hids.of_map

/-- The page after the claims that were read has the next of the rest. -/
theorem readPage_readOf (keyed : ∀ claim ∈ claims, Keyed claim) (once : (claims.map idOf).Nodup)
    (hall : sortedBy claimKey
      (claims.filter (returnsWithin sellerId (floorMs start) (floorMs stop))) = done ++ rest) :
    readPage claims sellerId start stop pageSize (readOf done).last = rest.take pageSize := by
  have distinct (p : Doc → Bool) : ((claims.filter p).map claimKey).Nodup :=
    (nodup_claimKey once).sublist ((List.filter_sublist (p := p)).map claimKey)
  have hkey : (readOf done).last.map toLex = done.getLast?.map claimKey := by
    rw [readOf, Option.map_map]
    rfl
  have hms : ∀ before ∈ (readOf done).last, floorMs before.1 = before.1 := by
    intro before mem
    obtain ⟨earlier, hearlier, rfl⟩ := Option.mem_map.mp mem
    have hfound : earlier ∈ done ++ rest :=
      List.mem_append_left _ (List.mem_of_mem_getLast? hearlier)
    rw [← hall, (sortedBy_perm _ _).mem_iff] at hfound
    exact (keyed earlier (List.mem_of_mem_filter hfound)).floorMs_created
  have hfilter : claims.filter (pageFilter sellerId start stop (readOf done).last) =
      claims.filter fun claim =>
        returnsWithin sellerId (floorMs start) (floorMs stop) claim &&
          after claimKey (done.getLast?.map claimKey) claim := by
    refine List.filter_congr fun claim mem => ?_
    rw [pageFilter_eq (keyed claim mem) hms, hkey]
  rw [readPage, hfilter,
    insertionSort_eq_sortedBy (r := indexBefore) (fun a b => indexBefore_iff) (distinct _),
    sortedBy_after (distinct _) hall]

/-- The pages after a beginning of the sorted claims read the rest of them. -/
theorem readPages_readOf (keyed : ∀ claim ∈ claims, Keyed claim) (once : (claims.map idOf).Nodup)
    (hpage : 1 ≤ pageSize)
    (hall : sortedBy claimKey
      (claims.filter (returnsWithin sellerId (floorMs start) (floorMs stop))) = done ++ rest)
    (hfuel : rest.length < fuel) :
    readPages claims sellerId start stop pageSize fuel (readOf done) = some (.ok (done ++ rest)) := by
  induction fuel generalizing done rest with
  | zero => exact absurd hfuel (Nat.not_lt_zero _)
  | succ fuel ih =>
      have mem_claims (claim : Doc) (mem : claim ∈ done ++ rest) : claim ∈ claims := by
        rw [← hall, (sortedBy_perm _ _).mem_iff] at mem
        exact List.mem_of_mem_filter mem
      have hpageOf : readPage claims sellerId start stop pageSize (readOf done).last =
          rest.take pageSize := readPage_readOf keyed once hall
      have hsplit : done ++ rest = done ++ rest.take pageSize ++ rest.drop pageSize := by
        rw [List.append_assoc, List.take_append_drop]
      rw [readPages]
      simp only [hpageOf]
      by_cases hempty : rest.take pageSize = []
      · have hrest : rest = [] := by
          rcases List.take_eq_nil_iff.mp hempty with h | h
          · omega
          · exact h
        rw [if_pos hempty, hrest, List.append_nil]
        rfl
      · have keyedPage : ∀ claim ∈ rest.take pageSize, Keyed claim := fun claim mem =>
          keyed claim (mem_claims claim (List.mem_append_right _ (List.mem_of_mem_take mem)))
        have ascending := sortedBy_ascending ((nodup_claimKey once).sublist
          ((List.filter_sublist (p := returnsWithin sellerId (floorMs start) (floorMs stop))).map
            claimKey))
        have distinct : ((done ++ rest).map idOf).Nodup := by
          rw [← hall]
          exact ((sortedBy_perm _ _).map idOf).nodup_iff.mpr
            (once.sublist (List.filter_sublist.map idOf))
        rw [hall] at ascending
        rw [hsplit] at ascending distinct
        rw [List.map_append] at distinct
        rw [if_neg hempty, foldlM_take keyedPage (List.nodup_append.mp distinct).1
          (List.pairwise_append.mp ascending).1]
        by_cases hshort : (rest.take pageSize).length < pageSize
        · have hwhole : rest.take pageSize = rest := by
            rw [List.length_take] at hshort
            exact List.take_of_length_le (by omega)
          simp only [if_pos hshort]
          rw [hwhole]
          rfl
        · have hfewer : (rest.drop pageSize).length < fuel := by
            rw [List.length_take] at hshort
            rw [List.length_drop]
            omega
          simp only [if_neg hshort]
          rw [ih (hall.trans hsplit) hfewer, ← hsplit]

/-- The claims of the range, whatever the size of the pages. -/
theorem readClaimsKeyset_exact (claims : List Doc) (sellerId : String) (start stop : Moment)
    (keyed : ∀ claim ∈ claims, Keyed claim) (once : (claims.map (·.get? "_id")).Nodup)
    (haware : start.aware = true ∧ stop.aware = true) (hrange : start.instant < stop.instant) :
    ∃ found : List Doc,
      found.Perm (claims.filter
        (returnsWithin sellerId (floorMs start.instant) (floorMs stop.instant))) ∧
      (found.Pairwise fun a b => claimKey a < claimKey b) ∧
      ∀ pageSize : Int, 1 ≤ pageSize → ∀ fuel, claims.length < fuel →
        readClaimsKeyset claims sellerId start stop pageSize fuel = some (.ok found) := by
  have distinct : (claims.map idOf).Nodup := by
    refine List.Nodup.of_map (fun id => some (Value.string id)) ?_
    rw [List.map_map]
    rwa [List.map_congr_left fun claim mem => (keyed claim mem).get?_id] at once
  refine ⟨_, sortedBy_perm claimKey _, sortedBy_ascending ((nodup_claimKey distinct).sublist
    (List.filter_sublist.map claimKey)), fun pageSize hpage fuel hfuel => ?_⟩
  have hshorter : (sortedBy claimKey (claims.filter
      (returnsWithin sellerId (floorMs start.instant) (floorMs stop.instant)))).length < fuel :=
    ((sortedBy_perm claimKey _).length_eq.trans_le (List.length_filter_le _ _)).trans_lt hfuel
  have hread : readPages claims sellerId start.instant stop.instant pageSize.toNat fuel ⟨[], [], none⟩ =
      some (.ok ([] ++ _)) :=
    readPages_readOf keyed distinct (by omega) (List.nil_append _).symm hshorter
  rw [readClaimsKeyset, if_neg (not_lt.mpr hpage), validatedUtcRange_ok haware hrange]
  simp only [hread]
  rfl

end

/-- A returns claim of the seller `S`. -/
def returnsClaim (id : String) (created : Int) : Doc :=
  [("_id", .string id), ("seller_id", .string "S"), ("type", .string "returns"),
    ("date_created", .date created)]

theorem keyed_returnsClaim {id : String} {created : Int} (hid : id ≠ "" ∧ pyStrip id = id)
    (hms : floorMs created = created) : Keyed (returnsClaim id created) :=
  ⟨⟨id, rfl, hid⟩, ⟨created, rfl, hms⟩⟩

/-- Three claims of one instant. -/
theorem readClaimsKeyset_sample :
    ∃ found : List Doc,
      found.Perm ([returnsClaim "b" 0, returnsClaim "c" 0, returnsClaim "a" 0].filter
        (returnsWithin "S" (floorMs 0) (floorMs 1000))) ∧
      (found.Pairwise fun a b => claimKey a < claimKey b) ∧
      ∀ pageSize : Int, 1 ≤ pageSize → ∀ fuel, 3 < fuel →
        readClaimsKeyset [returnsClaim "b" 0, returnsClaim "c" 0, returnsClaim "a" 0] "S" ⟨0, true⟩
          ⟨1000, true⟩ pageSize fuel = some (.ok found) := by
  refine readClaimsKeyset_exact [returnsClaim "b" 0, returnsClaim "c" 0, returnsClaim "a" 0] "S"
    ⟨0, true⟩ ⟨1000, true⟩ ?_ (by decide) ⟨rfl, rfl⟩ (by decide)
  intro claim mem
  simp only [List.mem_cons, List.not_mem_nil, or_false] at mem
  rcases mem with rfl | rfl | rfl
  · exact keyed_returnsClaim (by decide) rfl
  · exact keyed_returnsClaim (by decide) rfl
  · exact keyed_returnsClaim (by decide) rfl

/-- A range that begins inside a millisecond reads a claim before it, and a range that ends inside
one leaves out a claim before its end. -/
theorem readClaimsKeyset_submillisecond :
    readClaimsKeyset [returnsClaim "a" 0] "S" ⟨500, true⟩ ⟨2000, true⟩ 500 2 =
        some (.ok [returnsClaim "a" 0]) ∧
      returnsWithin "S" 500 2000 (returnsClaim "a" 0) = false ∧
      readClaimsKeyset [returnsClaim "a" 1000] "S" ⟨0, true⟩ ⟨1500, true⟩ 500 2 = some (.ok []) ∧
      returnsWithin "S" 0 1500 (returnsClaim "a" 1000) = true ∧
      Keyed (returnsClaim "a" 0) ∧ Keyed (returnsClaim "a" 1000) := by
  refine ⟨by decide +kernel, by decide +kernel, by decide +kernel, by decide +kernel, ?_, ?_⟩
  · exact keyed_returnsClaim (by decide) rfl
  · exact keyed_returnsClaim (by decide) rfl

end ZelerPlatform.Devoluciones
