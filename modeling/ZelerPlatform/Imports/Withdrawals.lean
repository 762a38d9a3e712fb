import Mathlib.Algebra.BigOperators.Group.List.Basic
import ZelerPlatform.Imports.Segments
import ZelerPlatform.Library.Collection
import ZelerPlatform.Library.Joined
import ZelerPlatform.Library.PyValue

/-!
# Imported withdrawals

A withdrawal record lists packages, and a package products; either list may be missing, and
then the record or the package stands for the one thing in it. Every product of a package that
was made in the interval becomes a row, under a text joined from the seller, the withdrawal,
the package and the product.
-/

namespace ZelerPlatform.Imports

open Fallible Mongo

/-! ### Rows -/

structure FullWithdrawal where
  id : String
  sellerId : String
  withdrawalId : String
  withdrawalDetailId : String
  inventoryId : Option String
  itemId : Option String
  sku : Option String
  title : Option String
  requestedQuantity : Option Int
  createdAt : Int
  deliveredAt : Option Int
  source : String
  historyBasis : String
  coverageBasis : String
  schemaVersion : Int
  deriving DecidableEq

/-- A package of a record and its place among the packages of that record. -/
structure Package where
  record : Doc
  package : Doc
  index : Nat

/-- `_packages`. -/
def packages (record : Doc) : List Doc :=
  match orElse [record.getD "bultos", record.getD "packages"] with
  | .array raw => raw.filterMap Value.document?
  | _ => [record]

/-- `_products`. -/
def products (package : Doc) : List Doc :=
  match orElse [package.getD "products", package.getD "items"] with
  | .array raw => raw.filterMap Value.document?
  | _ => [package]

/-- The packages of the records, counted from one in each. -/
def placed (records : List Doc) : List Package :=
  records.flatMap fun record => ((packages record).zipIdx 1).map fun (package, index) =>
    ⟨record, package, index⟩

/-- A number without its fraction. -/
def truncate (q : ℚ) : Int := q.num.tdiv q.den

/-- `_int`. -/
def intOf : Value → Except ImportError (Option Int)
  | .int n | .long n => return nonnegative n
  | .double bits => match Value.ofBits bits with
      | .fin q => return nonnegative (truncate q)
      | .nan => return none
      | .negInf | .posInf => throw .overflow
  | .string text => return (intOfText text).bind nonnegative
  | _ => return none
where
  nonnegative (parsed : Int) : Option Int := if 0 ≤ parsed then some parsed else none

section

variable (texts : Texts)

def withdrawalIdOf (record : Doc) : Option String :=
  strOf texts (orElse [record.getD "withdrawal_id", record.getD "id"])

def Package.detailId (p : Package) : Option String :=
  strOf texts (orElse [p.package.getD "withdrawal_detail_id", p.package.getD "detail_id",
    p.package.getD "bulto_id", p.package.getD "package_id", .int p.index])

def identityOf (product : Doc) : Option String :=
  strOf texts (orElse [product.getD "inventory_id", product.getD "item_id", product.getD "sku"])

def withdrawalKey (sellerId withdrawalId detailId identity : String) : String :=
  sellerId ++ ":" ++ withdrawalId ++ ":" ++ detailId ++ ":" ++ identity

/-- The row of a product, if the three parts of its key are there. -/
def productRow (sellerId : String) (p : Package) (createdAt : Int) (product : Doc) :
    Except ImportError (Option FullWithdrawal) :=
  match withdrawalIdOf texts p.record, p.detailId texts, identityOf texts product with
  | some withdrawalId, some detailId, some identity => do
      let requestedQuantity ← intOf (orElse [product.getD "quantity", product.getD "qty"])
      let deliveredAt ← firstDatetime texts
        [product.getD "date_delivery", p.package.getD "date_delivery"]
      return some
        { id := withdrawalKey sellerId withdrawalId detailId identity
          sellerId
          withdrawalId
          withdrawalDetailId := detailId
          inventoryId := strOf texts (product.getD "inventory_id")
          itemId := strOf texts (product.getD "item_id")
          sku := strOf texts (product.getD "sku")
          title := strOf texts (product.getD "title")
          requestedQuantity
          createdAt
          deliveredAt
          source := "legacy_history_import"
          historyBasis := "legacy_imported"
          coverageBasis := "legacy_imported"
          schemaVersion := 1 }
  | _, _, _ => return none

/-- What a package adds: a row or a gap for each product, a gap if its date or its products
are missing, and nothing if it is from outside the interval. -/
def packageRows (sellerId : String) (interval : ReadInterval) (p : Package) :
    Except ImportError (List (Option FullWithdrawal)) := do
  match ← firstDatetime texts [p.package.getD "date_created", p.record.getD "date_created"] with
  | none => return [none]
  | some createdAt =>
      if interval.start ≤ createdAt ∧ createdAt < interval.stop then
        match products p.package with
        | [] => return [none]
        | first :: rest => (first :: rest).mapM (productRow texts sellerId p createdAt)
      else return []

/-- `_full_withdrawal_documents`. -/
def fullWithdrawalDocuments (sellerId : String) (records : List Doc) (interval : ReadInterval) :
    Except ImportError (BuildResult FullWithdrawal) := do
  let rows ← (placed records).mapM (packageRows texts sellerId interval)
  let documents := rows.flatten.filterMap id
  return {
    documents
    sourceInventoryCount := rows.flatten.length
    coverageComplete := 0 < rows.flatten.length &&
      (rows.flatten.filter Option.isNone).isEmpty &&
      documents.length = rows.flatten.length }

end

/-- `_write_documents` with one `replace_one` with `upsert` for each document; BSON has no
integers of more than 64 bits. -/
def writeDocuments : Collection FullWithdrawal.id → List FullWithdrawal →
    Except ImportError (Collection FullWithdrawal.id)
  | rows, [] => return rows
  | rows, document :: rest => do
      raiseIf (document.requestedQuantity.any (2 ^ 63 ≤ ·)) .overflow
      writeDocuments (rows.put document) rest

/-! ### Products of the interval -/

section

variable (texts : Texts)

/-- When a package was made, on an unbounded calendar. -/
def Package.createdAt (p : Package) : Option Int :=
  (instantOf texts (p.package.getD "date_created")).or
    (instantOf texts (p.record.getD "date_created"))

/-- The products of a package made in the interval. -/
def Package.source (interval : ReadInterval) (p : Package) : List (Package × Doc) :=
  if (p.createdAt texts).any fun t => interval.start ≤ t && t < interval.stop then
    (products p.package).map (p, ·)
  else []

/-- The source products in the interval, each with its package. -/
def sourceProducts (interval : ReadInterval) (records : List Doc) : List (Package × Doc) :=
  (placed records).flatMap (Package.source texts interval)

/-- The parts of the key of a product. -/
def keyParts (p : Package × Doc) : Option String × Option String × Option String :=
  (withdrawalIdOf texts p.1.record, p.1.detailId texts, identityOf texts p.2)

/-- The quantity a product asks for. -/
def quantityOf (p : Package × Doc) : Option Int :=
  match intOf (orElse [p.2.getD "quantity", p.2.getD "qty"]) with
  | .ok quantity => quantity
  | .error _ => none

/-- A row made from a product. -/
def RowOf (sellerId : String) (p : Package × Doc) (document : FullWithdrawal) : Prop :=
  ∃ withdrawalId detailId identity,
    keyParts texts p = (some withdrawalId, some detailId, some identity) ∧
      document.id = withdrawalKey sellerId withdrawalId detailId identity ∧
      document.requestedQuantity = quantityOf p

end

variable {texts : Texts} {sellerId : String} {interval : ReadInterval} {records : List Doc}
variable {p : Package}

theorem maybeDatetime_instant {value : Value} {instant : Option Int}
    (h : maybeDatetime texts value = .ok instant) : instant = instantOf texts value := by
  by_cases hconvertible : Convertible texts value
  · exact (Except.ok.inj ((maybeDatetime_ok hconvertible).symm.trans h)).symm
  · rw [maybeDatetime_error hconvertible] at h
    cases h

theorem firstDatetime_instant {a b : Value} {instant : Option Int}
    (h : firstDatetime texts [a, b] = .ok instant) :
    instant = (instantOf texts a).or (instantOf texts b) := by
  obtain ⟨first, hfirst, h⟩ := bind_ok h
  obtain rfl := maybeDatetime_instant hfirst
  cases hinstant : instantOf texts a with
  | some t =>
      rw [hinstant] at h
      exact (pure_ok h).symm
  | none =>
      rw [hinstant] at h
      obtain ⟨second, hsecond, h⟩ := bind_ok h
      obtain rfl := maybeDatetime_instant hsecond
      cases hinstant' : instantOf texts b with
      | some t =>
          rw [hinstant'] at h
          exact (pure_ok h).symm
      | none =>
          rw [hinstant'] at h
          exact (pure_ok h).symm

theorem productRow_some {createdAt : Int} {product : Doc} {document : FullWithdrawal}
    (h : productRow texts sellerId p createdAt product = .ok (some document)) :
    RowOf texts sellerId (p, product) document := by
  unfold productRow at h
  split at h
  · next withdrawalId detailId identity hw hd hi =>
      obtain ⟨quantity, hquantity, h⟩ := bind_ok h
      obtain ⟨deliveredAt, -, h⟩ := bind_ok h
      obtain rfl := Option.some.inj (pure_ok h)
      refine ⟨withdrawalId, detailId, identity, by rw [keyParts, hw, hd, hi], rfl, ?_⟩
      rw [quantityOf, hquantity]
  · cases h

theorem forall₂_some {α β : Type} {f : α → Except ImportError (Option β)} {R : α → β → Prop}
    {xs : List α} {rows : List (Option β)} (h : List.Forall₂ (fun x row => f x = .ok row) xs rows)
    (whole : none ∉ rows) (some_row : ∀ x b, f x = .ok (some b) → R x b) :
    List.Forall₂ (fun x row => ∃ b, row = some b ∧ R x b) xs rows := by
  induction h with
  | nil => exact .nil
  | @cons x row xs rows hrow _ ih =>
      rw [List.mem_cons, not_or] at whole
      cases row with
      | none => exact absurd rfl whole.1
      | some b => exact .cons ⟨b, rfl, some_row x b hrow⟩ (ih whole.2)

theorem forall₂_filterMap {α β : Type} {R : α → β → Prop} {xs : List α} {rows : List (Option β)}
    (h : List.Forall₂ (fun x row => ∃ b, row = some b ∧ R x b) xs rows) :
    List.Forall₂ R xs (rows.filterMap id) := by
  induction h with
  | nil => exact .nil
  | cons hrow _ ih =>
      obtain ⟨b, rfl, hb⟩ := hrow
      exact .cons hb ih

/-- A package without gaps gives a row for each of its products in the interval. -/
theorem packageRows_rows {rows : List (Option FullWithdrawal)}
    (h : packageRows texts sellerId interval p = .ok rows) (whole : none ∉ rows) :
    List.Forall₂ (fun source row => ∃ document, row = some document ∧
      RowOf texts sellerId source document) (p.source texts interval) rows := by
  obtain ⟨createdAt, hcreated, h⟩ := bind_ok h
  have hinstant : createdAt = p.createdAt texts := firstDatetime_instant hcreated
  unfold Package.source
  rw [← hinstant]
  cases createdAt with
  | none =>
      rw [← pure_ok h] at whole
      simp at whole
  | some t =>
      by_cases hin : interval.start ≤ t ∧ t < interval.stop
      · rw [if_pos (by simpa using hin), List.forall₂_map_left_iff]
        simp only [if_pos hin] at h
        cases hproducts : products p.package with
        | nil =>
            rw [hproducts] at h
            rw [← pure_ok h] at whole
            simp at whole
        | cons first rest =>
            rw [hproducts] at h
            exact forall₂_some (mapM_forall₂ h) whole fun _ _ hrow => productRow_some hrow
      · rw [if_neg (by simpa using hin)]
        simp only [if_neg hin] at h
        rw [← pure_ok h]
        exact .nil

variable {result : BuildResult FullWithdrawal}

/-- Complete coverage means a row for every product of the interval, and no others. -/
theorem fullWithdrawalDocuments_rows
    (built : fullWithdrawalDocuments texts sellerId records interval = .ok result)
    (complete : result.coverageComplete) :
    List.Forall₂ (RowOf texts sellerId) (sourceProducts texts interval records)
        result.documents ∧
      result.documents.length = result.sourceInventoryCount := by
  obtain ⟨rows, hrows, h⟩ := bind_ok built
  obtain rfl := pure_ok h
  simp only [Bool.and_eq_true, decide_eq_true_eq, List.isEmpty_iff] at complete
  obtain ⟨⟨-, hnone⟩, hlength⟩ := complete
  refine ⟨?_, hlength⟩
  have hwhole : none ∉ rows.flatten := by
    intro mem
    have : none ∈ rows.flatten.filter Option.isNone := List.mem_filter.mpr ⟨mem, rfl⟩
    rw [hnone] at this
    cases this
  have hpackages : List.Forall₂ (List.Forall₂ fun source row => ∃ document, row = some document ∧
      RowOf texts sellerId source document)
      ((placed records).map (Package.source texts interval)) rows := by
    rw [List.forall₂_map_left_iff]
    refine List.Forall₂.mp ?_ (mapM_forall₂ hrows) (?_ : List.Forall₂ (fun _ row => none ∉ row) _ _)
    · exact fun p row h whole => packageRows_rows h whole
    · refine List.forall₂_iff_zip.mpr ⟨(mapM_forall₂ hrows).length_eq, fun mem => ?_⟩
      exact fun hmem => hwhole (List.mem_flatten.mpr ⟨_, (List.of_mem_zip mem).2, hmem⟩)
  exact forall₂_filterMap (List.rel_flatten hpackages)

/-! ### Writing -/

/-- The quantity of a document is an integer of BSON. -/
def FullWithdrawal.Encodable (document : FullWithdrawal) : Prop :=
  ∀ quantity, document.requestedQuantity = some quantity → quantity < 2 ^ 63

theorem encodable_iff {document : FullWithdrawal} :
    document.Encodable ↔ ¬ document.requestedQuantity.any (2 ^ 63 ≤ ·) := by
  cases h : document.requestedQuantity <;> simp [FullWithdrawal.Encodable, h]

variable {rows stored : Collection FullWithdrawal.id} {documents : List FullWithdrawal}

theorem writeDocuments_returns (h : ∀ document ∈ documents, document.Encodable) :
    ∃ stored, writeDocuments rows documents = .ok stored := by
  induction documents generalizing rows with
  | nil => exact ⟨rows, rfl⟩
  | cons document rest ih =>
      have hfits := encodable_iff.mp (h document List.mem_cons_self)
      rw [writeDocuments, raiseIf_of_not hfits]
      exact ih fun d mem => h d (List.mem_cons_of_mem document mem)

theorem encodable_of_written (h : writeDocuments rows documents = .ok stored) :
    ∀ document ∈ documents, document.Encodable := by
  induction documents generalizing rows with
  | nil => simp
  | cons document rest ih =>
      obtain ⟨hfits, h⟩ := raiseIf_ok h
      intro d mem
      cases mem with
      | head => exact encodable_iff.mpr hfits
      | tail _ mem => exact ih h d mem

theorem byKey_written_of_not_mem (h : writeDocuments rows documents = .ok stored) {k : String}
    (other : k ∉ documents.map FullWithdrawal.id) : stored.byKey k = rows.byKey k := by
  induction documents generalizing rows with
  | nil => rw [pure_ok h]
  | cons document rest ih =>
      obtain ⟨-, h⟩ := raiseIf_ok h
      rw [List.map_cons, List.mem_cons, not_or] at other
      rw [ih h other.2, Collection.byKey_put, if_neg other.1]

/-- Of documents with distinct ids each one is stored as it was given. -/
theorem byKey_written (h : writeDocuments rows documents = .ok stored)
    (distinct : (documents.map FullWithdrawal.id).Nodup) {document : FullWithdrawal}
    (mem : document ∈ documents) : stored.byKey document.id = some document := by
  induction documents generalizing rows with
  | nil => cases mem
  | cons first rest ih =>
      obtain ⟨-, h⟩ := raiseIf_ok h
      obtain ⟨hfirst, hrest⟩ := List.nodup_cons.mp distinct
      cases mem with
      | head => rw [byKey_written_of_not_mem h hfirst, Collection.byKey_put, if_pos rfl]
      | tail _ mem => exact ih h hrest mem

/-- The rows stored under the ids of the documents. -/
def writtenRows (stored : Collection FullWithdrawal.id) (documents : List FullWithdrawal) :
    List FullWithdrawal :=
  stored.find fun row => (documents.map FullWithdrawal.id).contains row.id

theorem writtenRows_perm (h : writeDocuments rows documents = .ok stored)
    (distinct : (documents.map FullWithdrawal.id).Nodup) :
    (writtenRows stored documents).Perm documents := by
  have hstored : (writtenRows stored documents).Nodup :=
    (List.Nodup.of_map _ stored.nodup).filter _
  refine (List.perm_ext_iff_of_nodup hstored (List.Nodup.of_map _ distinct)).mpr fun row => ?_
  rw [writtenRows, Collection.find_mem]
  constructor
  · rintro ⟨hmem, hid⟩
    obtain ⟨document, hdocument, hkey⟩ := List.mem_map.mp (List.contains_iff_mem.mp hid)
    obtain ⟨hmem', -⟩ := Collection.byKey_some.mp (byKey_written h distinct hdocument)
    rwa [← stored.eq_of_key hmem' hmem hkey]
  · intro hmem
    exact ⟨(Collection.byKey_some.mp (byKey_written h distinct hmem)).1,
      List.contains_iff_mem.mpr (List.mem_map_of_mem hmem)⟩

/-! ### Keys -/

/-- The key of a product; it counts only where all three parts are there. -/
def joinedKey (texts : Texts) (sellerId : String) (p : Package × Doc) : String :=
  match keyParts texts p with
  | (some withdrawalId, some detailId, some identity) =>
      withdrawalKey sellerId withdrawalId detailId identity
  | _ => ""

/-- What is asked of the sources: within a withdrawal no two products share the package and the
identity, keys that read the same have their colons in the same parts, and quantities fit. -/
structure KeysApart (texts : Texts) (sellerId : String) (interval : ReadInterval)
    (records : List Doc) : Prop where
  apart : ∀ record ∈ records, ((sourceProducts texts interval [record]).map fun p =>
    (p.1.detailId texts, identityOf texts p.2)).Nodup
  colons : ∀ p ∈ sourceProducts texts interval records,
    ∀ q ∈ sourceProducts texts interval records, ∀ w d i w' d' i',
      keyParts texts p = (some w, some d, some i) → keyParts texts q = (some w', some d', some i') →
        withdrawalKey sellerId w d i = withdrawalKey sellerId w' d' i' →
          w.toList.count ':' = w'.toList.count ':' ∧ d.toList.count ':' = d'.toList.count ':'
  fits : ∀ p ∈ sourceProducts texts interval records, ∀ quantity,
    quantityOf p = some quantity → quantity < 2 ^ 63

/-- The documents have distinct ids, and after their write there is a row for every product,
with the quantities of the products. -/
structure NothingLost (texts : Texts) (interval : ReadInterval) (records : List Doc)
    (result : BuildResult FullWithdrawal) : Prop where
  distinct : (result.documents.map FullWithdrawal.id).Nodup
  written : ∀ rows, ∃ stored, writeDocuments rows result.documents = .ok stored ∧
    (writtenRows stored result.documents).length = result.sourceInventoryCount ∧
    ((writtenRows stored result.documents).map fun row => row.requestedQuantity.getD 0).sum =
      ((sourceProducts texts interval records).map fun p => (quantityOf p).getD 0).sum

theorem withdrawalKey_inj {w d i w' d' i' : String}
    (h : withdrawalKey sellerId w d i = withdrawalKey sellerId w' d' i')
    (hw : w.toList.count ':' = w'.toList.count ':')
    (hd : d.toList.count ':' = d'.toList.count ':') : w = w' ∧ d = d' ∧ i = i' := by
  have hlist := congrArg String.toList h
  simp only [withdrawalKey, String.toList_append, List.append_assoc] at hlist
  have hrest := List.append_cancel_left hlist
  obtain ⟨hw', hrest⟩ := Joined.append_cons_inj (List.append_cancel_left hrest) hw
  obtain ⟨hd', hi'⟩ := Joined.append_cons_inj hrest hd
  exact ⟨String.toList_inj.mp hw', String.toList_inj.mp hd', String.toList_inj.mp hi'⟩

theorem RowOf.id_eq {source : Package × Doc} {document : FullWithdrawal}
    (h : RowOf texts sellerId source document) : document.id = joinedKey texts sellerId source := by
  obtain ⟨w, d, i, hparts, hid, -⟩ := h
  rw [hid, joinedKey, hparts]

theorem map_eq_of_forall₂ {α β γ : Type} {R : α → β → Prop} {f : α → γ} {g : β → γ} {xs : List α}
    {ys : List β} (h : List.Forall₂ R xs ys) (same : ∀ x y, R x y → g y = f x) :
    ys.map g = xs.map f := by
  induction h with
  | nil => rfl
  | cons hr _ ih => rw [List.map_cons, List.map_cons, same _ _ hr, ih]

theorem mem_sourceProducts_single {record : Doc} {source : Package × Doc}
    (mem : source ∈ sourceProducts texts interval [record]) : source.1.record = record := by
  obtain ⟨p, hp, hsource⟩ := List.mem_flatMap.mp mem
  have hrecord : p.record = record := by
    simp only [placed, List.flatMap_cons, List.flatMap_nil, List.append_nil, List.mem_map] at hp
    obtain ⟨_, -, rfl⟩ := hp
    rfl
  unfold Package.source at hsource
  split at hsource
  · obtain ⟨_, -, rfl⟩ := List.mem_map.mp hsource
    exact hrecord
  · cases hsource

theorem sourceProducts_cons (record : Doc) (rest : List Doc) :
    sourceProducts texts interval (record :: rest) =
      sourceProducts texts interval [record] ++ sourceProducts texts interval rest := by
  simp [sourceProducts, placed]

theorem exists_record {source : Package × Doc}
    (mem : source ∈ sourceProducts texts interval records) : source.1.record ∈ records := by
  induction records with
  | nil => cases mem
  | cons record rest ih =>
      rw [sourceProducts_cons, List.mem_append] at mem
      obtain mem | mem := mem
      · rw [mem_sourceProducts_single mem]
        exact List.mem_cons_self
      · exact List.mem_cons_of_mem record (ih mem)

/-- Products of different withdrawals differ in the first part of the key, those of one
withdrawal in the others. -/
theorem keyParts_nodup (distinct : (records.filterMap (withdrawalIdOf texts)).Nodup)
    (named : ∀ p ∈ sourceProducts texts interval records,
      (withdrawalIdOf texts p.1.record).isSome)
    (apart : ∀ record ∈ records, ((sourceProducts texts interval [record]).map fun p =>
      (p.1.detailId texts, identityOf texts p.2)).Nodup) :
    ((sourceProducts texts interval records).map (keyParts texts)).Nodup := by
  induction records with
  | nil => exact List.nodup_nil
  | cons record rest ih =>
      rw [sourceProducts_cons] at named ⊢
      rw [List.map_append, List.nodup_append]
      refine ⟨?_, ?_, ?_⟩
      · have hpairs := apart record List.mem_cons_self
        refine List.Nodup.of_map Prod.snd ?_
        rwa [List.map_map]
      · refine ih ?_ (fun p mem => named p (List.mem_append_right _ mem))
          fun r mem => apart r (List.mem_cons_of_mem record mem)
        exact distinct.sublist ((List.sublist_cons_self record rest).filterMap _)
      · intro a ha b hb heq
        obtain ⟨p, hp, rfl⟩ := List.mem_map.mp ha
        obtain ⟨q, hq, rfl⟩ := List.mem_map.mp hb
        obtain ⟨w, hw⟩ := Option.isSome_iff_exists.mp (named p (List.mem_append_left _ hp))
        have hsame : withdrawalIdOf texts q.1.record = some w := by
          rw [← hw]
          exact (congrArg Prod.fst heq).symm
        rw [mem_sourceProducts_single hp] at hw
        rw [List.filterMap_cons_some hw] at distinct
        exact (List.nodup_cons.mp distinct).1
          (List.mem_filterMap.mpr ⟨q.1.record, exists_record hq, hsame⟩)

theorem sourceProducts_sublist {record : Doc} (mem : record ∈ records) :
    (sourceProducts texts interval [record]).Sublist (sourceProducts texts interval records) := by
  obtain ⟨before, after, rfl⟩ := List.append_of_mem mem
  have hsplit : sourceProducts texts interval (before ++ record :: after) =
      sourceProducts texts interval before ++ (sourceProducts texts interval [record] ++
        sourceProducts texts interval after) := by
    simp [sourceProducts, placed]
  rw [hsplit]
  exact (List.sublist_append_left _ _).trans (List.sublist_append_right _ _)

theorem keysApart_of_distinct
    (rows : List.Forall₂ (RowOf texts sellerId) (sourceProducts texts interval records)
      result.documents)
    (distinct : (result.documents.map FullWithdrawal.id).Nodup)
    (fits : ∀ document ∈ result.documents, document.Encodable) :
    KeysApart texts sellerId interval records := by
  rw [map_eq_of_forall₂ rows fun _ _ h => h.id_eq] at distinct
  refine ⟨fun record mem => ?_, fun p hp q hq w d i w' d' i' hparts hparts' hkey => ?_, ?_⟩
  · -- within one withdrawal the key is a function of the two other parts
    have hnodup := distinct.sublist ((sourceProducts_sublist mem).map _)
    have hfactor : (sourceProducts texts interval [record]).map (joinedKey texts sellerId) =
        ((sourceProducts texts interval [record]).map fun p =>
          (p.1.detailId texts, identityOf texts p.2)).map fun parts =>
            match withdrawalIdOf texts record, parts.1, parts.2 with
            | some w, some d, some i => withdrawalKey sellerId w d i
            | _, _, _ => "" := by
      rw [List.map_map]
      refine List.map_congr_left fun p hp => ?_
      simp only [joinedKey, keyParts, Function.comp_apply, mem_sourceProducts_single hp]
      cases withdrawalIdOf texts record <;> cases p.1.detailId texts <;>
        cases identityOf texts p.2 <;> rfl
    rw [hfactor] at hnodup
    exact List.Nodup.of_map _ hnodup
  · have hsame : p = q := by
      refine List.inj_on_of_nodup_map distinct hp hq ?_
      rw [joinedKey, joinedKey, hparts, hparts']
      exact hkey
    rw [hsame, hparts'] at hparts
    simp only [Prod.mk.injEq, Option.some.injEq] at hparts
    obtain ⟨rfl, rfl, rfl⟩ := hparts
    exact ⟨rfl, rfl⟩
  · intro p hp quantity hquantity
    obtain ⟨document, hdocument, hrow⟩ := forall₂_left rows hp
    obtain ⟨_, _, _, -, -, hrequested⟩ := hrow
    exact fits document hdocument quantity (hrequested.trans hquantity)

/-- An import that reports complete coverage loses no row exactly if its keys are apart. -/
theorem withdrawals_lossless_iff
    (distinct : (records.filterMap (withdrawalIdOf texts)).Nodup)
    (built : fullWithdrawalDocuments texts sellerId records interval = .ok result)
    (complete : result.coverageComplete) :
    NothingLost texts interval records result ↔ KeysApart texts sellerId interval records := by
  obtain ⟨hrows, hcount⟩ := fullWithdrawalDocuments_rows built complete
  constructor
  · intro h
    obtain ⟨stored, hstored, -⟩ := h.written .empty
    exact keysApart_of_distinct hrows h.distinct (encodable_of_written hstored)
  · intro h
    have hnamed : ∀ p ∈ sourceProducts texts interval records,
        (withdrawalIdOf texts p.1.record).isSome := by
      intro p hp
      obtain ⟨_, -, w, d, i, hparts, -, -⟩ := forall₂_left hrows hp
      rw [show withdrawalIdOf texts p.1.record = some w from congrArg Prod.fst hparts]
      rfl
    have hparts := keyParts_nodup distinct hnamed h.apart
    have hids : (result.documents.map FullWithdrawal.id).Nodup := by
      rw [map_eq_of_forall₂ hrows fun _ _ hrow => hrow.id_eq]
      refine List.Nodup.map_on (fun p hp q hq hkey => ?_) (List.Nodup.of_map _ hparts)
      obtain ⟨_, -, w, d, i, hp', -, -⟩ := forall₂_left hrows hp
      obtain ⟨_, -, w', d', i', hq', -, -⟩ := forall₂_left hrows hq
      refine List.inj_on_of_nodup_map hparts hp hq ?_
      rw [joinedKey, joinedKey, hp', hq'] at hkey
      obtain ⟨hw, hd⟩ := h.colons p hp q hq w d i w' d' i' hp' hq' hkey
      obtain ⟨rfl, rfl, rfl⟩ := withdrawalKey_inj hkey hw hd
      rw [hp', hq']
    have hfits : ∀ document ∈ result.documents, document.Encodable := by
      intro document hdocument quantity hquantity
      obtain ⟨p, hp, _, _, _, -, -, hrequested⟩ := forall₂_right hrows hdocument
      exact h.fits p hp quantity (hrequested.symm.trans hquantity)
    refine ⟨hids, fun rows => ?_⟩
    obtain ⟨stored, hstored⟩ : ∃ stored, writeDocuments rows result.documents = .ok stored :=
      writeDocuments_returns hfits
    have hperm := writtenRows_perm hstored hids
    refine ⟨stored, hstored, hperm.length_eq.trans hcount, ?_⟩
    rw [(hperm.map _).sum_eq]
    refine congrArg List.sum (map_eq_of_forall₂ hrows fun p document hrow => ?_)
    obtain ⟨_, _, _, -, -, hrequested⟩ := hrow
    rw [hrequested]

/-- One package with two products of one inventory id, of which one and two pieces are asked. -/
def splitInventory : Doc :=
  [("withdrawal_id", .string "W1"), ("date_created", .date 0),
    ("packages", .array [.document [("detail_id", .string "B1"),
      ("products", .array
        [.document [("inventory_id", .string "I1"), ("quantity", .int 1)],
          .document [("inventory_id", .string "I1"), ("quantity", .int 2)]])]])]

def firstSecond : ReadInterval := ⟨0, 1000000, by decide⟩

theorem splitInventory_built : ∃ result,
    fullWithdrawalDocuments plainTexts "1" [splitInventory] firstSecond = .ok result ∧
      result.coverageComplete ∧ result.sourceInventoryCount = 2 ∧
      result.documents.map FullWithdrawal.id = ["1:W1:B1:I1", "1:W1:B1:I1"] :=
  ⟨_, rfl, by decide, by decide, by decide⟩

/-- Both products are counted and have documents, under the same id. -/
theorem splitInventory_loses_row : ∃ result,
    fullWithdrawalDocuments plainTexts "1" [splitInventory] firstSecond = .ok result ∧
      result.coverageComplete ∧ result.sourceInventoryCount = 2 ∧
      ¬ NothingLost plainTexts firstSecond [splitInventory] result := by
  obtain ⟨result, built, complete, count, ids⟩ := splitInventory_built
  refine ⟨result, built, complete, count, fun h => ?_⟩
  have hdistinct := h.distinct
  rw [ids] at hdistinct
  exact absurd hdistinct (by decide)

theorem splitInventory_lossless_iff : ∃ result,
    fullWithdrawalDocuments plainTexts "1" [splitInventory] firstSecond = .ok result ∧
      (NothingLost plainTexts firstSecond [splitInventory] result ↔
        KeysApart plainTexts "1" firstSecond [splitInventory]) := by
  obtain ⟨result, built, complete, -⟩ := splitInventory_built
  exact ⟨result, built, withdrawals_lossless_iff (by decide) built complete⟩

end ZelerPlatform.Imports
