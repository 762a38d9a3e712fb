import ZelerPlatform.Devoluciones.ClaimsKeyset

/-!
# The inventory of claims

`verify_claim_inventory` lists the claims of a range from a search that shows no row from the ten
thousandth on. A range with more rows is halved, at microseconds, while the search is asked for
milliseconds: its range text names the bounds, both exclusive, cut to milliseconds. The call count
of the search goes through all calls; there is no deadline, no recorder and no heartbeat here.
-/

namespace ZelerPlatform.Devoluciones

open Mongo Mongo.Value Fallible

inductive InventoryError
  | inventory (message : String)
  | overflow
  deriving DecidableEq

/-- `str` of a value that is neither a string nor an integer, and `str.lower`. -/
structure InventoryTexts where
  str : Value → String
  lower : String → String

/-! ### Search -/

/-- The parts of `%Y-%m-%dT%H:%M:%S` and `.%03d` of a text of an instant. -/
structure MeliDatetime where
  second : Int
  millisecond : Int
  deriving DecidableEq

/-- `_format_meli_datetime`. -/
def formatMeliDatetime (us : Int) : MeliDatetime := ⟨us / 1000000, us % 1000000 / 1000⟩

/-- The instant that the text names. -/
def MeliDatetime.instant (text : MeliDatetime) : Int :=
  text.second * 1000000 + text.millisecond * 1000

structure SearchParams where
  userId : String
  role : String
  dateCreated : MeliDatetime
  after : MeliDatetime
  before : MeliDatetime
  sort : String
  offset : Int
  limit : Int

/-- `datetime.min`. -/
def Moment.earliest : Int := -62135596800000000

def maxClaimSearchLimit : Int := 100

def maxClaimSearchOffset : Int := 9999

/-- `MIN_SPLIT_WINDOW`. -/
def minSplitWindow : Int := 1000

/-- `claim_inventory_search_params`. -/
def claimInventorySearchParams (sellerId : String) (start stop offset limit : Int) :
    Except InventoryError SearchParams := do
  let range ← validatedUtcRange .inventory ⟨start, true⟩ ⟨stop, true⟩
  raiseIf (¬ (0 ≤ offset ∧ offset < 9999)) (.inventory "offset must be an integer below 9999")
  raiseIf (¬ (1 ≤ limit ∧ limit ≤ 100)) (.inventory "limit must be an integer no greater than 100")
  raiseIf (range.1 - minSplitWindow < Moment.earliest) .overflow
  return {
    userId := sellerId
    role := "respondent"
    dateCreated := formatMeliDatetime range.1
    after := formatMeliDatetime (range.1 - minSplitWindow)
    before := formatMeliDatetime range.2
    sort := "date_created:asc"
    offset
    limit }

section

variable (texts : InventoryTexts)

/-! ### Rows -/

/-- `str(value)`. -/
def InventoryTexts.pyStr : Value → String
  | .string s => s
  | .int n | .long n => toString n
  | value => texts.str value

/-- `str(value or "").strip()`. -/
def InventoryTexts.trimmed (value : Option Value) : String :=
  match value with
  | some value => if value.truthy then pyStrip (texts.pyStr value) else ""
  | none => ""

/-- `ClaimInventoryEntry`; its two trusted fields are read off its source. -/
structure ClaimInventoryEntry where
  claimId : String
  lastUpdated : String
  dateCreated : Option String
  source : Doc

/-- `_normalized_relevance_value` of a field of the source. -/
def ClaimInventoryEntry.trusted (entry : ClaimInventoryEntry) (field : String) : String :=
  texts.lower (texts.trimmed (entry.source.get? field))

/-- `_inventory_entry`. -/
def inventoryEntry (row : Doc) : Except InventoryError ClaimInventoryEntry := do
  let claimId := texts.trimmed (row.get? "id")
  let lastUpdated := texts.trimmed (row.get? "last_updated")
  raiseIf (claimId = "" ∨ lastUpdated = "")
    (.inventory "claim inventory row is missing id or last_updated")
  return {
    claimId
    lastUpdated
    dateCreated := ((row.get? "date_created").filter (· ≠ .null)).map texts.pyStr
    source := row }

/-- What `_inventory_fingerprint` digests of an entry. -/
def fingerprintRow (entry : ClaimInventoryEntry) :
    String × String × Option String × String × String :=
  (entry.claimId, entry.lastUpdated, entry.dateCreated, entry.trusted texts "type",
    entry.trusted texts "status")

/-- A field that is an integer. -/
def integerField (fields : Doc) (key : String) : Option Int := (fields.get? key).bind (·.integer?)

/-- `_validated_page`: the rows, the offset and the total. -/
def validatedPage (payload : Doc) (requestedOffset : Int) :
    Except InventoryError (List Doc × Int × Int) :=
  match payload.get? "paging", payload.get? "data" with
  | some (.document paging), some (.array data) =>
      match integerField paging "offset", integerField paging "limit",
        integerField paging "total" with
      | some offset, some limit, some total => do
          raiseIf (offset ≠ requestedOffset)
            (.inventory "claim inventory response offset did not echo request")
          raiseIf (¬ (1 ≤ limit ∧ limit ≤ maxClaimSearchLimit))
            (.inventory "claim inventory response limit is invalid")
          raiseIf (total < 0) (.inventory "claim inventory total is invalid")
          match data.mapM Value.document? with
          | some rows => return (rows, offset, total)
          | none => throw (.inventory "claim inventory data rows must be objects")
      | _, _, _ => throw (.inventory "claim inventory paging values must be integers")
  | _, _ => throw (.inventory "claim inventory response is missing data or paging")

/-! ### Pages -/

/-- `offset`, `stable_total`, `entries` and `seen_ids`. -/
structure Paging where
  offset : Int
  stableTotal : Option Int
  entries : List ClaimInventoryEntry
  seenIds : List String

/-- The rows of a page. -/
def takeRow (seen : List ClaimInventoryEntry × List String) (row : Doc) :
    Except InventoryError (List ClaimInventoryEntry × List String) := do
  let entry ← inventoryEntry texts row
  raiseIf (entry.claimId ∈ seen.2) (.inventory "duplicate claim id in inventory page")
  return (seen.1 ++ [entry], entry.claimId :: seen.2)

/-- What one page leaves: the entries of the window, more rows than the search shows, or the next
page. -/
inductive Turn
  | found (entries : List ClaimInventoryEntry)
  | overfull
  | next (paging : Paging)

variable (search : Nat → SearchParams → Except Unit Doc) (sellerId : String) (limit : Int)

/-- The request of a page in `_inventory_window`: its rows, its offset and the total. -/
def searchPage (start stop offset : Int) (calls : Nat) :
    Except InventoryError (List Doc × Int × Int) := do
  let params ← claimInventorySearchParams sellerId start stop offset limit
  let payload ← (search calls params).mapError fun _ =>
    .inventory "claim inventory source request failed"
  validatedPage payload offset

/-- One turn of the loop of `_inventory_window` from its page on. -/
def turnPage (paging : Paging) (page : List Doc × Int × Int) : Except InventoryError Turn := do
  let (data, responseOffset, total) := page
  raiseIf (∃ stable ∈ paging.stableTotal, stable ≠ total)
    (.inventory "claim inventory total changed during paging")
  if maxClaimSearchOffset + 1 ≤ total then return .overfull
  else
    let (entries, seenIds) ← data.foldlM (takeRow texts) (paging.entries, paging.seenIds)
    let nextOffset := responseOffset + data.length
    if nextOffset = total then return .found entries
    else
      raiseIf (total < nextOffset) (.inventory "claim inventory page exceeds stable total")
      raiseIf (data = [] ∨ nextOffset ≤ paging.offset)
        (.inventory "claim inventory nonterminal page did not advance")
      raiseIf (maxClaimSearchOffset ≤ nextOffset)
        (.inventory "claim inventory offset cap reached before terminal page")
      return .next ⟨nextOffset, some total, entries, seenIds⟩

/-- One turn of the loop of `_inventory_window`. -/
def inventoryPage (start stop : Int) (paging : Paging) (calls : Nat) :
    Except InventoryError Turn :=
  searchPage search sellerId limit start stop paging.offset calls >>= turnPage texts paging

/-- The pages of a window; no entries where it has to be halved, and nothing where the fuel does
not reach. -/
def inventoryPages (start stop : Int) :
    Nat → Paging → Nat → Option (Except InventoryError (Option (List ClaimInventoryEntry)) × Nat)
  | 0, _, _ => none
  | fuel + 1, paging, calls =>
      match inventoryPage texts search sellerId limit start stop paging calls with
      | .error error => some (.error error, calls + 1)
      | .ok (.found entries) => some (.ok (some entries), calls + 1)
      | .ok .overfull => some (.ok none, calls + 1)
      | .ok (.next paging) => inventoryPages start stop fuel paging (calls + 1)

/-! ### Windows -/

/-- Half of a width in microseconds, to even. -/
def halfWidth (width : Int) : Int := if width % 4 = 3 then width / 2 + 1 else width / 2

/-- `_inventory_window`. -/
def inventoryWindow :
    Nat → Int → Int → Nat → Option (Except InventoryError (List ClaimInventoryEntry) × Nat)
  | 0, _, _, _ => none
  | fuel + 1, start, stop, calls =>
      match inventoryPages texts search sellerId limit start stop fuel ⟨0, none, [], []⟩ calls with
      | none => none
      | some (.error error, calls) => some (.error error, calls)
      | some (.ok (some entries), calls) => some (.ok entries, calls)
      | some (.ok none, calls) =>
          if stop - start ≤ minSplitWindow then
            some (.error (.inventory "claim inventory offset cap is unsplittable"), calls)
          else
            let midpoint := start + halfWidth (stop - start)
            match inventoryWindow fuel start midpoint calls with
            | none => none
            | some (.error error, calls) => some (.error error, calls)
            | some (.ok left, calls) =>
                match inventoryWindow fuel midpoint stop calls with
                | none => none
                | some (.error error, calls) => some (.error error, calls)
                | some (.ok right, calls) => some (.ok (left ++ right), calls)

/-- `_inventory_pass`. -/
def inventoryPass (start stop : Int) (fuel calls : Nat) :
    Option (Except InventoryError (List ClaimInventoryEntry) × Nat) :=
  match inventoryWindow texts search sellerId limit fuel start stop calls with
  | some (.ok entries, calls) =>
      if (entries.map ClaimInventoryEntry.claimId).Nodup then some (.ok entries, calls)
      else some (.error (.inventory "duplicate claim id across inventory windows"), calls)
  | result => result

/-- `verify_claim_inventory`, with the digest of the fingerprints. -/
def verifyClaimInventory {δ : Type} [DecidableEq δ]
    (digest : List (String × String × Option String × String × String) → δ)
    (start stop : Moment) (fuel : Nat) :
    Option (Except InventoryError (List ClaimInventoryEntry × δ)) :=
  match validatedUtcRange .inventory start stop with
  | .error error => some (.error error)
  | .ok (start, stop) =>
      match inventoryPass texts search sellerId limit start stop fuel 0 with
      | none => none
      | some (.error error, _) => some (.error error)
      | some (.ok first, calls) =>
          match inventoryPass texts search sellerId limit start stop fuel calls with
          | none => none
          | some (.error error, _) => some (.error error)
          | some (.ok second, _) =>
              let fingerprint := digest (first.map (fingerprintRow texts))
              if fingerprint ≠ digest (second.map (fingerprintRow texts)) then
                some (.error (.inventory "claim inventory fingerprint changed between passes"))
              else some (.ok (first, fingerprint))

end

/-! ### The source -/

/-- A claim of the seller as the source has it. -/
structure SourceClaim (texts : InventoryTexts) where
  row : Doc
  created : Int
  milliseconds : floorMs created = created
  id : texts.trimmed (row.get? "id") ≠ ""
  updated : texts.trimmed (row.get? "last_updated") ≠ ""

namespace SourceClaim

variable {texts : InventoryTexts}

def claimId (claim : SourceClaim texts) : String := texts.trimmed (claim.row.get? "id")

def entry (claim : SourceClaim texts) : ClaimInventoryEntry where
  claimId := claim.claimId
  lastUpdated := texts.trimmed (claim.row.get? "last_updated")
  dateCreated := ((claim.row.get? "date_created").filter (· ≠ .null)).map texts.pyStr
  source := claim.row

end SourceClaim

/-- A source that lists the claims strictly between two instants in an order that does not change,
in pages of any size. -/
structure ClaimSource (texts : InventoryTexts) (claims : List (SourceClaim texts)) where
  listing : Int → Int → List (SourceClaim texts)
  size : Nat → SearchParams → Nat
  limit : Nat → SearchParams → Int
  lists : ∀ after before,
    (listing after before).Perm
      (claims.filter fun claim => after < claim.created ∧ claim.created < before)
  nonempty : ∀ calls params, 1 ≤ size calls params
  limited : ∀ calls params, 1 ≤ limit calls params ∧ limit calls params ≤ 100

section

variable {texts : InventoryTexts} {claims : List (SourceClaim texts)}

/-- The payload of one search. -/
def ClaimSource.search (source : ClaimSource texts claims) (calls : Nat) (params : SearchParams) :
    Except Unit Doc :=
  let rows := source.listing params.after.instant params.before.instant
  .ok [("paging", .document [("offset", .int params.offset),
      ("limit", .int (source.limit calls params)), ("total", .int rows.length)]),
    ("data", .array (((rows.drop params.offset.toNat).take (source.size calls params)).map
      fun claim => .document claim.row))]

variable {listed done rest : List (SourceClaim texts)} {claim : SourceClaim texts}

theorem instant_formatMeliDatetime (us : Int) : (formatMeliDatetime us).instant = floorMs us := by
  rw [MeliDatetime.instant, formatMeliDatetime, floorMs]
  simp only
  omega

theorem inventoryEntry_row (claim : SourceClaim texts) :
    inventoryEntry texts claim.row = .ok claim.entry := by
  rw [inventoryEntry]
  rw [raiseIf_of_not (not_or.mpr ⟨claim.id, claim.updated⟩), pure_bind]
  rfl

/-- The entries and the identities of the rows that were taken. -/
def takenOf (done : List (SourceClaim texts)) : List ClaimInventoryEntry × List String :=
  (done.map SourceClaim.entry, (done.map SourceClaim.claimId).reverse)

theorem takeRow_takenOf (fresh : claim.claimId ∉ done.map SourceClaim.claimId) :
    takeRow texts (takenOf done) claim.row = .ok (takenOf (done ++ [claim])) := by
  have hseen : claim.entry.claimId ∉ (takenOf done).2 := fun mem =>
    fresh (List.mem_reverse.mp mem)
  have hstate : takenOf (done ++ [claim]) =
      ((takenOf done).1 ++ [claim.entry], claim.entry.claimId :: (takenOf done).2) := by
    rw [takenOf, List.map_append, List.map_append, List.reverse_append]
    rfl
  rw [takeRow, inventoryEntry_row, hstate]
  change (raiseIf _ _ >>= fun _ => _) = _
  rw [raiseIf_of_not hseen]
  rfl

/-- The rows of a page are taken where no identity comes twice. -/
theorem foldlM_takeRow (once : ((done ++ rest).map SourceClaim.claimId).Nodup) :
    (rest.map SourceClaim.row).foldlM (takeRow texts) (takenOf done) =
      .ok (takenOf (done ++ rest)) := by
  induction rest generalizing done with
  | nil =>
      rw [List.append_nil]
      rfl
  | cons claim rest ih =>
      have hsplit : done ++ claim :: rest = done ++ [claim] ++ rest := by
        rw [List.append_assoc]
        rfl
      have fresh : claim.claimId ∉ done.map SourceClaim.claimId := by
        rw [List.map_append, List.nodup_append] at once
        exact fun mem => once.2.2 _ mem _ List.mem_cons_self rfl
      rw [hsplit] at once ⊢
      rw [List.map_cons, List.foldlM_cons, takeRow_takenOf fresh]
      exact ih once

/-! ### One window -/

variable {source : ClaimSource texts claims} {sellerId : String} {start stop limit offset : Int}
variable {calls fuel k : Nat}

/-- The claims that the search lists for a window. -/
def ClaimSource.window (source : ClaimSource texts claims) (start stop : Int) :
    List (SourceClaim texts) :=
  source.listing (floorMs (start - minSplitWindow)) (floorMs stop)

/-- The bounds and the page size that the search accepts. -/
structure Askable (start stop limit : Int) : Prop where
  earliest : Moment.earliest + minSplitWindow ≤ start
  range : start < stop
  limit : 1 ≤ limit ∧ limit ≤ 100

/-- The parameters of a page of a window. -/
def windowParams (sellerId : String) (start stop offset limit : Int) : SearchParams where
  userId := sellerId
  role := "respondent"
  dateCreated := formatMeliDatetime start
  after := formatMeliDatetime (start - minSplitWindow)
  before := formatMeliDatetime stop
  sort := "date_created:asc"
  offset
  limit

theorem Askable.params (h : Askable start stop limit) (hoffset : 0 ≤ offset ∧ offset < 9999) :
    claimInventorySearchParams sellerId start stop offset limit =
      .ok (windowParams sellerId start stop offset limit) := by
  have hmin : ¬ start - minSplitWindow < Moment.earliest := by
    have := h.earliest
    omega
  rw [claimInventorySearchParams, validatedUtcRange_ok ⟨rfl, rfl⟩ h.range]
  change (raiseIf _ _ >>= fun _ => raiseIf _ _ >>= fun _ => raiseIf _ _ >>= fun _ => _) = _
  rw [raiseIf_of_not (not_not.mpr hoffset), pure_bind, raiseIf_of_not (not_not.mpr h.limit),
    pure_bind, raiseIf_of_not hmin, pure_bind]
  rfl

theorem mapM_document (rows : List (SourceClaim texts)) :
    (rows.map fun claim => Value.document claim.row).mapM Value.document? =
      some (rows.map SourceClaim.row) := by
  rw [List.mapM_map]
  exact Sorted.mapM_eq_some fun claim mem => rfl

theorem validatedPage_payload {pageLimit total : Int} {rows : List (SourceClaim texts)}
    (hlimit : 1 ≤ pageLimit ∧ pageLimit ≤ 100) (htotal : 0 ≤ total) :
    validatedPage [("paging", .document [("offset", .int offset), ("limit", .int pageLimit),
        ("total", .int total)]),
      ("data", .array (rows.map fun claim => .document claim.row))] offset =
      .ok (rows.map SourceClaim.row, offset, total) := by
  change (raiseIf (offset ≠ offset) _ >>= fun _ => raiseIf (¬ (1 ≤ pageLimit ∧ pageLimit ≤ 100)) _ >>=
    fun _ => raiseIf (total < 0) _ >>= fun _ => _) = _
  rw [raiseIf_of_not (not_not.mpr rfl), pure_bind, raiseIf_of_not (not_not.mpr hlimit), pure_bind,
    raiseIf_of_not (not_lt.mpr htotal), pure_bind, mapM_document]
  rfl

/-- The search shows rows of the window from the offset on, at least one where there is one. -/
theorem searchPage_ok (source : ClaimSource texts claims) (sellerId : String) (calls : Nat)
    (h : Askable start stop limit) (hoffset : 0 ≤ offset ∧ offset < 9999) :
    ∃ size, 1 ≤ size ∧ searchPage source.search sellerId limit start stop offset calls =
      .ok ((((source.window start stop).drop offset.toNat).take size).map SourceClaim.row, offset,
        ((source.window start stop).length : Int)) := by
  refine ⟨_, source.nonempty calls (windowParams sellerId start stop offset limit), ?_⟩
  rw [searchPage, h.params hoffset, ClaimSource.window, ← instant_formatMeliDatetime,
    ← instant_formatMeliDatetime]
  exact validatedPage_payload (source.limited calls _) (Int.natCast_nonneg _)

/-- The loop of a window after its first rows. -/
def pagingOf (listed : List (SourceClaim texts)) (k : Nat) : Paging where
  offset := k
  stableTotal := if k = 0 then none else some listed.length
  entries := (takenOf (listed.take k)).1
  seenIds := (takenOf (listed.take k)).2

theorem pagingOf_zero (listed : List (SourceClaim texts)) : pagingOf listed 0 = ⟨0, none, [], []⟩ := by
  rw [pagingOf, List.take_zero]
  rfl

theorem stableTotal_pagingOf :
    ¬ ∃ stable ∈ (pagingOf listed k).stableTotal, stable ≠ (listed.length : Int) := by
  rintro ⟨stable, mem, hne⟩
  rw [pagingOf] at mem
  split at mem
  · cases mem
  · exact hne (Option.some.inj mem).symm

/-- A window with more rows than the search shows. -/
theorem turnPage_overfull {data : List Doc} (hfull : 9999 < listed.length) :
    turnPage texts (pagingOf listed k) (data, offset, (listed.length : Int)) = .ok .overfull := by
  have htotal : maxClaimSearchOffset + 1 ≤ (listed.length : Int) := by
    rw [maxClaimSearchOffset]
    omega
  change (raiseIf _ _ >>= fun _ => _) = _
  rw [raiseIf_of_not stableTotal_pagingOf, pure_bind, if_pos htotal]
  rfl

/-- The rows of a page after the first rows of the window. -/
theorem turnPage_pagingOf {m : Nat} (once : (listed.map SourceClaim.claimId).Nodup)
    (hfit : listed.length ≤ 9999) (hm : k + m ≤ listed.length) (advance : m ≠ 0 ∨ listed = []) :
    turnPage texts (pagingOf listed k)
        (((listed.drop k).take m).map SourceClaim.row, k, (listed.length : Int)) =
      .ok (if k + m = listed.length then .found (listed.map SourceClaim.entry)
        else .next (pagingOf listed (k + m))) := by
  have hlength : ((((listed.drop k).take m).map SourceClaim.row).length : Int) = m := by
    rw [List.length_map, List.length_take, List.length_drop]
    omega
  have hshown : ¬ maxClaimSearchOffset + 1 ≤ (listed.length : Int) := by
    rw [maxClaimSearchOffset]
    omega
  have hrows : (((listed.drop k).take m).map SourceClaim.row).foldlM (takeRow texts)
      (takenOf (listed.take k)) = .ok (takenOf (listed.take (k + m))) := by
    rw [List.take_add]
    refine foldlM_takeRow ?_
    rw [← List.take_add]
    exact once.sublist ((List.take_sublist _ _).map _)
  change (raiseIf _ _ >>= fun _ => _) = _
  rw [raiseIf_of_not stableTotal_pagingOf, pure_bind, if_neg hshown]
  change (List.foldlM _ (takenOf (listed.take k)) _ >>= fun _ => _) = _
  rw [hrows]
  change (if (k : Int) + _ = _ then _ else _) = _
  rw [hlength]
  by_cases hlast : k + m = listed.length
  · rw [if_pos (by omega), if_pos hlast, hlast, List.take_length]
    rfl
  · have hm0 : m ≠ 0 := by
      rcases advance with h | h
      · exact h
      · rw [h, List.length_nil] at hm hlast
        omega
    have hnonempty : ¬ (((listed.drop k).take m).map SourceClaim.row = [] ∨
        (k : Int) + m ≤ (pagingOf listed k).offset) := by
      rintro (hnil | hle)
      · rw [hnil] at hlength
        simp only [List.length_nil] at hlength
        omega
      · rw [pagingOf] at hle
        simp only at hle
        omega
    have hcap : ¬ maxClaimSearchOffset ≤ (k : Int) + m := by
      rw [maxClaimSearchOffset]
      omega
    rw [if_neg (by omega), if_neg hlast, raiseIf_of_not (by omega), pure_bind,
      raiseIf_of_not hnonempty, pure_bind, raiseIf_of_not hcap, pure_bind, pagingOf,
      if_neg (by omega), Nat.cast_add]
    rfl

/-- A page has the next rows of the window, at least one where there is one. -/
theorem inventoryPage_pagingOf (source : ClaimSource texts claims) (sellerId : String)
    (calls : Nat) (h : Askable start stop limit) (hshown : k < 9999)
    (hk : k ≤ (source.window start stop).length) :
    ∃ m, k + m ≤ (source.window start stop).length ∧
      (m = 0 → k = (source.window start stop).length) ∧
      inventoryPage texts source.search sellerId limit start stop
          (pagingOf (source.window start stop) k) calls =
        turnPage texts (pagingOf (source.window start stop) k)
          ((((source.window start stop).drop k).take m).map SourceClaim.row, k,
            ((source.window start stop).length : Int)) := by
  have hoffset : 0 ≤ (k : Int) ∧ (k : Int) < 9999 := by omega
  obtain ⟨size, hsize, hpage⟩ := searchPage_ok source sellerId calls h hoffset
  refine ⟨min size ((source.window start stop).drop k).length, ?_, ?_, ?_⟩
  · rw [List.length_drop]
    omega
  · rw [List.length_drop]
    omega
  · rw [inventoryPage, ← List.take_eq_take_min]
    change searchPage _ _ _ _ _ (k : Int) _ >>= _ = _
    rw [hpage]
    rfl

/-- The pages of a window that the search shows, from some of its first rows on. -/
theorem inventoryPages_pagingOf (source : ClaimSource texts claims) (sellerId : String)
    (calls : Nat) (h : Askable start stop limit)
    (once : ((source.window start stop).map SourceClaim.claimId).Nodup)
    (hfit : (source.window start stop).length ≤ 9999)
    (hk : k < (source.window start stop).length ∨ k = 0)
    (hfuel : (source.window start stop).length - k < fuel) :
    ∃ calls', inventoryPages texts source.search sellerId limit start stop fuel
      (pagingOf (source.window start stop) k) calls =
        some (.ok (some ((source.window start stop).map SourceClaim.entry)), calls') := by
  induction fuel generalizing k calls with
  | zero => exact absurd hfuel (Nat.not_lt_zero _)
  | succ fuel ih =>
      obtain ⟨m, hm, hnext, hpage⟩ := inventoryPage_pagingOf source sellerId calls h (k := k)
        (by omega) (by omega)
      have advance : m ≠ 0 ∨ source.window start stop = [] := by
        by_cases hm0 : m = 0
        · exact .inr (List.length_eq_zero_iff.mp (by have := hnext hm0; omega))
        · exact .inl hm0
      rw [turnPage_pagingOf once hfit hm advance] at hpage
      rw [inventoryPages, hpage]
      by_cases hlast : k + m = (source.window start stop).length
      · rw [if_pos hlast]
        exact ⟨_, rfl⟩
      · rw [if_neg hlast]
        refine ih _ (.inl (by omega)) ?_
        rcases advance with hm0 | hnil
        · omega
        · rw [hnil, List.length_nil] at hm hlast
          omega

/-- The pages of a window with more rows than the search shows. -/
theorem inventoryPages_overfull (source : ClaimSource texts claims) (sellerId : String)
    (calls : Nat) (h : Askable start stop limit)
    (hfull : 9999 < (source.window start stop).length) (hfuel : 0 < fuel) :
    ∃ calls', inventoryPages texts source.search sellerId limit start stop fuel
      (pagingOf (source.window start stop) 0) calls = some (.ok none, calls') := by
  obtain ⟨fuel, rfl⟩ : ∃ n, fuel = n + 1 := ⟨fuel - 1, by omega⟩
  obtain ⟨m, -, -, hpage⟩ := inventoryPage_pagingOf source sellerId calls h (k := 0) (by omega)
    (Nat.zero_le _)
  rw [turnPage_overfull hfull] at hpage
  rw [inventoryPages, hpage]
  exact ⟨_, rfl⟩

/-! ### Windows over windows -/

/-- The claims created in `[start, stop)`. -/
def within (claims : List (SourceClaim texts)) (start stop : Int) : List (SourceClaim texts) :=
  claims.filter fun claim => start ≤ claim.created ∧ claim.created < stop

theorem within_append {middle : Int} (hstart : start ≤ middle) (hstop : middle ≤ stop) :
    (within claims start middle ++ within claims middle stop).Perm (within claims start stop) := by
  have hfirst : within claims start middle =
      (within claims start stop).filter fun claim => claim.created < middle := by
    rw [within, within, List.filter_filter]
    refine List.filter_congr fun claim _ => ?_
    rw [← Bool.decide_and, decide_eq_decide]
    omega
  have hsecond : within claims middle stop =
      (within claims start stop).filter fun claim => !decide (claim.created < middle) := by
    rw [within, within, List.filter_filter]
    refine List.filter_congr fun claim _ => ?_
    rw [← decide_not, ← Bool.decide_and, decide_eq_decide]
    omega
  rw [hfirst, hsecond]
  exact List.filter_append_perm _ _

/-- The search lists the claims of the window with its bounds cut to milliseconds. -/
theorem window_perm (source : ClaimSource texts claims) (start stop : Int) :
    (source.window start stop).Perm (within claims (floorMs start) (floorMs stop)) := by
  have hfilter : (claims.filter fun claim =>
      floorMs (start - minSplitWindow) < claim.created ∧ claim.created < floorMs stop) =
        within claims (floorMs start) (floorMs stop) := by
    refine List.filter_congr fun claim _ => ?_
    have hms := claim.milliseconds
    rw [decide_eq_decide]
    simp only [floorMs, minSplitWindow] at hms ⊢
    omega
  rw [← hfilter]
  exact source.lists _ _

theorem halfWidth_spec {width : Int} (h : 1000 < width) :
    0 < halfWidth width ∧ halfWidth width < width := by
  rw [halfWidth]
  split
  · omega
  · omega

/-- What becomes of a window: its claims, or one of its milliseconds has more claims than the
search shows. -/
def Inventoried (claims : List (SourceClaim texts)) (start stop : Int) :
    Except InventoryError (List ClaimInventoryEntry) → Prop
  | .ok entries => entries.Perm ((within claims start stop).map SourceClaim.entry)
  | .error error => error = .inventory "claim inventory offset cap is unsplittable" ∧
      ∃ t, floorMs t = t ∧ start ≤ t ∧ t < stop ∧
        9999 < (claims.filter fun claim => claim.created = t).length

/-- A window of at most a millisecond asks for the claims of one. -/
theorem inventoried_unsplittable (hshort : stop - start ≤ minSplitWindow)
    (hfull : 9999 < (within claims (floorMs start) (floorMs stop)).length) :
    Inventoried claims (floorMs start) (floorMs stop)
      (.error (.inventory "claim inventory offset cap is unsplittable")) := by
  have hsome : ∃ claim ∈ within claims (floorMs start) (floorMs stop), True := by
    obtain ⟨claim, mem⟩ := List.exists_mem_of_length_pos (Nat.lt_trans (by decide) hfull)
    exact ⟨claim, mem, trivial⟩
  obtain ⟨claim, mem, -⟩ := hsome
  obtain ⟨hle, hlt⟩ := of_decide_eq_true (List.mem_filter.mp mem).2
  have hwithin : within claims (floorMs start) (floorMs stop) =
      claims.filter fun claim => claim.created = floorMs start := by
    refine List.filter_congr fun other _ => ?_
    have hms := other.milliseconds
    rw [decide_eq_decide]
    simp only [floorMs, minSplitWindow] at hms hshort hle hlt ⊢
    omega
  rw [hwithin] at hfull
  exact ⟨rfl, floorMs start, floorMs_floorMs start, le_rfl, hle.trans_lt hlt, hfull⟩

/-- Two windows side by side. -/
theorem Inventoried.append {middle : Int} {left right : List ClaimInventoryEntry}
    (hstart : start ≤ middle) (hstop : middle ≤ stop)
    (hleft : Inventoried claims start middle (.ok left))
    (hright : Inventoried claims middle stop (.ok right)) :
    Inventoried claims start stop (.ok (left ++ right)) := by
  refine (List.Perm.append hleft hright).trans ?_
  rw [← List.map_append]
  exact (within_append hstart hstop).map _

theorem Inventoried.wider {start' stop' : Int} {error : InventoryError} (hstart : start ≤ start')
    (hstop : stop' ≤ stop) (h : Inventoried claims start' stop' (.error error)) :
    Inventoried claims start stop (.error error) := by
  obtain ⟨herror, t, hms, hle, hlt, hfull⟩ := h
  exact ⟨herror, t, hms, hstart.trans hle, hlt.trans_le hstop, hfull⟩

/-- A window ends with the same result whatever the sizes of the pages. -/
theorem inventoryWindow_inventoried (source : ClaimSource texts claims) (sellerId : String)
    (once : (claims.map SourceClaim.claimId).Nodup) (h : Askable start stop limit) :
    ∃ result, Inventoried claims (floorMs start) (floorMs stop) result ∧
      ∀ fuel, (stop - start).toNat + 10000 < fuel → ∀ calls, ∃ calls',
        inventoryWindow texts source.search sellerId limit fuel start stop calls =
          some (result, calls') := by
  induction hwidth : (stop - start).toNat using Nat.strong_induction_on
    generalizing start stop with
  | _ width ih =>
      have hperm := window_perm source start stop
      have onceWindow : ((source.window start stop).map SourceClaim.claimId).Nodup :=
        (hperm.map _).nodup_iff.mpr (once.sublist (List.filter_sublist.map _))
      by_cases hfit : (source.window start stop).length ≤ 9999
      · refine ⟨.ok ((source.window start stop).map SourceClaim.entry), hperm.map _,
          fun fuel hfuel calls => ?_⟩
        obtain ⟨fuel, rfl⟩ : ∃ n, fuel = n + 1 := ⟨fuel - 1, by omega⟩
        obtain ⟨calls', hpages⟩ := inventoryPages_pagingOf source sellerId calls h (k := 0)
          onceWindow hfit (.inr rfl) (show _ < fuel by omega)
        rw [inventoryWindow, ← pagingOf_zero (source.window start stop), hpages]
        exact ⟨_, rfl⟩
      · have hpages (fuel calls : Nat) (hfuel : 0 < fuel) :=
          inventoryPages_overfull source sellerId calls h (not_le.mp hfit) hfuel
        simp only [pagingOf_zero] at hpages
        by_cases hshort : stop - start ≤ minSplitWindow
        · refine ⟨_, inventoried_unsplittable hshort ?_, fun fuel hfuel calls => ?_⟩
          · rw [← hperm.length_eq]
            omega
          · obtain ⟨fuel, rfl⟩ : ∃ n, fuel = n + 1 := ⟨fuel - 1, by omega⟩
            obtain ⟨calls₁, hcalls⟩ := hpages fuel calls (by omega)
            simp only [inventoryWindow, hcalls, if_pos hshort]
            exact ⟨_, rfl⟩
        · have hhalf : 0 < halfWidth (stop - start) ∧ halfWidth (stop - start) < stop - start :=
            halfWidth_spec (not_le.mp hshort)
          have hleft : Askable start (start + halfWidth (stop - start)) limit :=
            ⟨h.earliest, by omega, h.limit⟩
          have hright : Askable (start + halfWidth (stop - start)) stop limit :=
            ⟨h.earliest.trans (by omega), by omega, h.limit⟩
          have hcut := And.intro (floorMs_mono hleft.range.le) (floorMs_mono hright.range.le)
          obtain ⟨left, hleftSpec, hleftRun⟩ := ih _ (by omega) hleft rfl
          obtain ⟨right, hrightSpec, hrightRun⟩ := ih _ (by omega) hright rfl
          cases left with
          | error error =>
              refine ⟨.error error, hleftSpec.wider le_rfl hcut.2, fun fuel hfuel calls => ?_⟩
              obtain ⟨fuel, rfl⟩ : ∃ n, fuel = n + 1 := ⟨fuel - 1, by omega⟩
              obtain ⟨calls₁, hcalls⟩ := hpages fuel calls (by omega)
              obtain ⟨calls₂, hwindow⟩ := hleftRun fuel (by omega) calls₁
              simp only [inventoryWindow, hcalls, if_neg hshort, hwindow]
              exact ⟨_, rfl⟩
          | ok first =>
              refine ⟨right.map (first ++ ·), ?_, fun fuel hfuel calls => ?_⟩
              · cases right with
                | error error => exact hrightSpec.wider hcut.1 le_rfl
                | ok second => exact hleftSpec.append hcut.1 hcut.2 hrightSpec
              · obtain ⟨fuel, rfl⟩ : ∃ n, fuel = n + 1 := ⟨fuel - 1, by omega⟩
                obtain ⟨calls₁, hcalls⟩ := hpages fuel calls (by omega)
                obtain ⟨calls₂, hwindow⟩ := hleftRun fuel (by omega) calls₁
                obtain ⟨calls₃, hsecond⟩ := hrightRun fuel (by omega) calls₂
                simp only [inventoryWindow, hcalls, if_neg hshort, hwindow, hsecond]
                cases right with
                | error error => exact ⟨_, rfl⟩
                | ok second => exact ⟨_, rfl⟩

/-- A pass ends as its window does. -/
theorem inventoryPass_eq {result : Except InventoryError (List ClaimInventoryEntry)}
    {calls' : Nat} (once : (claims.map SourceClaim.claimId).Nodup)
    (hspec : Inventoried claims (floorMs start) (floorMs stop) result)
    (hwindow : inventoryWindow texts source.search sellerId limit fuel start stop calls =
      some (result, calls')) :
    inventoryPass texts source.search sellerId limit start stop fuel calls =
      some (result, calls') := by
  rw [inventoryPass, hwindow]
  cases result with
  | error error => rfl
  | ok entries =>
      have hids : (entries.map ClaimInventoryEntry.claimId).Nodup := by
        have hperm := List.Perm.map ClaimInventoryEntry.claimId hspec
        rw [List.map_map] at hperm
        exact hperm.nodup_iff.mpr (once.sublist (List.filter_sublist.map _))
      exact if_pos hids

/-- The inventory of a range has its claims, each once, or one millisecond of the range has more
claims than the search shows. -/
theorem verifyClaimInventory_partition {δ : Type} [DecidableEq δ]
    (digest : List (String × String × Option String × String × String) → δ)
    (source : ClaimSource texts claims) (sellerId : String) (start stop : Moment) (limit : Int)
    (once : (claims.map SourceClaim.claimId).Nodup)
    (haware : start.aware = true ∧ stop.aware = true)
    (hms : floorMs start.instant = start.instant ∧ floorMs stop.instant = stop.instant)
    (hrange : start.instant < stop.instant) (hlimit : 1 ≤ limit ∧ limit ≤ 100)
    (hearliest : Moment.earliest < start.instant) :
    (∃ entries : List ClaimInventoryEntry,
        entries.Perm ((within claims start.instant stop.instant).map SourceClaim.entry) ∧
        ∀ fuel, (stop.instant - start.instant).toNat + 10000 < fuel →
          verifyClaimInventory texts source.search sellerId limit digest start stop fuel =
            some (.ok (entries, digest (entries.map (fingerprintRow texts))))) ∨
      (∃ t, floorMs t = t ∧ start.instant ≤ t ∧ t < stop.instant ∧
          9999 < (claims.filter fun claim => claim.created = t).length) ∧
        ∀ fuel, (stop.instant - start.instant).toNat + 10000 < fuel →
          verifyClaimInventory texts source.search sellerId limit digest start stop fuel =
            some (.error (.inventory "claim inventory offset cap is unsplittable")) := by
  have h : Askable start.instant stop.instant limit := by
    refine ⟨?_, hrange, hlimit⟩
    have hstart := hms.1
    rw [floorMs] at hstart
    rw [Moment.earliest] at hearliest ⊢
    rw [minSplitWindow]
    omega
  obtain ⟨result, hspec, hrun⟩ := inventoryWindow_inventoried source sellerId once h
  have hpass (fuel : Nat) (hfuel : (stop.instant - start.instant).toNat + 10000 < fuel)
      (calls : Nat) : ∃ calls', inventoryPass texts source.search sellerId limit start.instant
        stop.instant fuel calls = some (result, calls') := by
    obtain ⟨calls', hwindow⟩ := hrun fuel hfuel calls
    exact ⟨calls', inventoryPass_eq once hspec hwindow⟩
  rw [hms.1, hms.2] at hspec
  cases result with
  | ok entries =>
      refine .inl ⟨entries, hspec, fun fuel hfuel => ?_⟩
      obtain ⟨calls₁, hfirst⟩ := hpass fuel hfuel 0
      obtain ⟨calls₂, hsecond⟩ := hpass fuel hfuel calls₁
      simp only [verifyClaimInventory, validatedUtcRange_ok haware hrange, hfirst, hsecond]
      exact if_neg (not_not.mpr rfl)
  | error error =>
      obtain ⟨rfl, hfull⟩ := hspec
      refine .inr ⟨hfull, fun fuel hfuel => ?_⟩
      obtain ⟨calls₁, hfirst⟩ := hpass fuel hfuel 0
      simp only [verifyClaimInventory, validatedUtcRange_ok haware hrange, hfirst]

end

/-- Texts of values that are strings or integers. -/
def asciiTexts : InventoryTexts where
  str _ := ""
  lower text := String.ofList (text.toList.map Char.toLower)

/-- A source with full pages in the order of the claims. -/
def plainSource (claims : List (SourceClaim asciiTexts)) : ClaimSource asciiTexts claims where
  listing after before := claims.filter fun claim => after < claim.created ∧ claim.created < before
  size _ _ := 100
  limit _ _ := 100
  lists _ _ := .rfl
  nonempty _ _ := by decide
  limited _ _ := by decide

theorem floorMs_epoch : Value.floorMs 0 = 0 := rfl

/-- A claim created at zero. -/
def firstClaim : SourceClaim asciiTexts where
  row := [("id", .int 1), ("last_updated", .string "2026-01-01T00:00:00.000+0000")]
  created := 0
  milliseconds := floorMs_epoch
  id := by decide +kernel
  updated := by decide +kernel

theorem verifyClaimInventory_firstClaim :
    (∃ entries : List ClaimInventoryEntry,
        entries.Perm ((within [firstClaim] 0 2000).map SourceClaim.entry) ∧
        ∀ fuel, 12000 < fuel →
          verifyClaimInventory asciiTexts (plainSource [firstClaim]).search "S" 100 id ⟨0, true⟩
            ⟨2000, true⟩ fuel =
              some (.ok (entries, entries.map (fingerprintRow asciiTexts)))) ∨
      (∃ t, floorMs t = t ∧ 0 ≤ t ∧ t < 2000 ∧
          9999 < ([firstClaim].filter fun claim => claim.created = t).length) ∧
        ∀ fuel, 12000 < fuel →
          verifyClaimInventory asciiTexts (plainSource [firstClaim]).search "S" 100 id ⟨0, true⟩
            ⟨2000, true⟩ fuel =
              some (.error (.inventory "claim inventory offset cap is unsplittable")) :=
  verifyClaimInventory_partition id (plainSource [firstClaim]) "S" ⟨0, true⟩ ⟨2000, true⟩ 100
    (List.nodup_singleton _) ⟨rfl, rfl⟩ ⟨rfl, rfl⟩ (by decide) (by decide) (by decide)

/-- No range can begin at the first instant of all, as there is no instant before it, and a row
needs an instant of its last update. -/
theorem verifyClaimInventory_refused :
    floorMs Moment.earliest = Moment.earliest ∧
      verifyClaimInventory asciiTexts (plainSource []).search "S" 100 id
          ⟨Moment.earliest, true⟩ ⟨0, true⟩ 3 = some (.error .overflow) ∧
      verifyClaimInventory asciiTexts
          (fun _ params => .ok [("paging", .document [("offset", .int params.offset),
              ("limit", .int 100), ("total", .int 1)]),
            ("data", .array [.document [("id", .int 1)]])])
          "S" 100 id ⟨0, true⟩ ⟨2000, true⟩ 3 =
        some (.error (.inventory "claim inventory row is missing id or last_updated")) :=
  ⟨rfl, rfl, rfl⟩

end ZelerPlatform.Devoluciones
