import Mathlib.Data.List.Dedup
import Mathlib.Data.List.Sort
import Mathlib.Data.String.Basic
import ZelerPlatform.Devoluciones.Lease
import ZelerPlatform.Library.Fallible
import ZelerPlatform.Library.Mongo.Document

/-!
# Reading the joint facts back

Before a certificate is published, renewed or proved again, the claims and orders stored
for its range are read in the same transaction, checked to be complete, and digested. The
digests themselves are parameters. Only strings and integers stand in the fields whose
text is asked for.
-/

namespace ZelerPlatform.Devoluciones

open Mongo Mongo.Value Fallible

inductive CoverageError
  | unavailable (message : String)
  | verification (message reason : String)
  | lost (message : String)
  | missing (field : String)
  | runtime (message : String)
  deriving DecidableEq

/-- The binding of a run of the source, `RunBinding`. -/
structure RunBinding where
  authorizationId : String
  cohortId : String
  sellerId : String
  scope : String
  start : Int
  stop : Int
  partitionVersion : String
  releaseFingerprints : List (String × String)
  deriving DecidableEq

/-- What the acquisition fingerprint of a run keeps of one window. -/
structure WindowEvidence where
  index : Nat
  start : Int
  stop : Int
  expectedCount : Int
  sourceFingerprint : String
  readModelFingerprint : String

/-- The SHA-256 digests, as functions of what is digested. The digest of the read model
fails on rows it cannot normalise. -/
structure Digests where
  identity : (sellerId kind sourceIdentity : String) → String
  runId : RunBinding → String
  sources : List String → String
  acquisition : String → List WindowEvidence → String
  membership : List String → String
  readModel : String → List Doc → List Doc → Except CoverageError String

/-- The facts of a certificate that a readback has to reproduce. -/
structure Facts where
  currentMembershipHash : String
  currentReadModelFingerprint : String
  certifiedCount : Int
  deriving DecidableEq

/-! ### Fields -/

/-- `str(value or "").strip()`. -/
def textOf (value : Option Value) : String :=
  pyStrip (((value.filter (·.truthy)).bind identityString).getD "")

/-- `_required_text`. -/
def requiredText (value : Option Value) (field reason : String) : Except CoverageError String := do
  raiseIf (textOf value = "") (.verification s!"{field} is required" s!"{reason}_required")
  return textOf value

/-- `_utc_datetime`. -/
def utcDatetime (value : Option Value) (field reason : String) : Except CoverageError Int :=
  match value.bind (·.date?) with
  | some us => .ok us
  | none => .error (.verification s!"{field} must be a datetime" s!"{reason}_not_datetime")

/-- A `datetime` bound in a filter; the bound is written as BSON. -/
def dateWithin (start stop : Int) (value : Option Value) : Bool :=
  match value.bind (·.date?) with
  | some us => decide (floorMs start ≤ us) && decide (us < floorMs stop)
  | none => false

def sellerMatches (sellerId : String) (doc : Doc) : Bool :=
  eqMatches (doc.get? "seller_id") (.string sellerId)

/-! ### Reading -/

/-- The checks of the keyset on claims in the order of the index, after `last`. -/
def keyset : Option (Int × String) → List String → List Doc → Except CoverageError (List Doc)
  | _, _, [] => .ok []
  | last, seen, claim :: rest => do
      let id := textOf (claim.get? "_id")
      let created ← utcDatetime (claim.get? "date_created") "claim date_created"
        "claim_date_created"
      raiseIf (id = "" ∨ id ∈ seen)
        (.verification "claim keyset contains a missing or duplicate identity"
          "claim_keyset_identity_invalid")
      raiseIf (last.any fun before =>
          decide (created < before.1) || decide (created = before.1) && decide (id ≤ before.2))
        (.verification "claim keyset did not advance" "claim_keyset_not_advancing")
      let documents ← keyset (some (created, id)) (id :: seen) rest
      return claim :: documents

/-- The claims come in the order of creation, then of identity. -/
def claimBefore (a b : Doc) : Prop :=
  let date := fun claim : Doc => ((claim.get? "date_created").bind (·.date?)).getD 0
  date a < date b ∨ date a = date b ∧ textOf (a.get? "_id") ≤ textOf (b.get? "_id")

instance : DecidableRel claimBefore := fun a b => by
  unfold claimBefore
  infer_instance

/-- `read_devoluciones_claims_keyset`, whose pages are one sorted read here. -/
def readClaims (sellerId : String) (start stop : Int) (claims : List Doc) :
    Except CoverageError (List Doc) := do
  raiseIf (stop ≤ start) (.runtime "claim inventory end must be after start")
  keyset none []
    ((claims.filter fun claim => sellerMatches sellerId claim &&
      eqMatches (claim.get? "type") (.string "returns") &&
      dateWithin start stop (claim.get? "date_created")).insertionSort claimBefore)

/-- `read_devoluciones_orders_by_id_keyset`; `_id` tells the orders apart. -/
def readOrders (sellerId : String) (orderIds : List String) (orders : List Doc) : List Doc :=
  (orders.filter fun order => sellerMatches sellerId order &&
    orderIds.any fun id => order.get? "_id" == some (.string id)).insertionSort
      fun a b => textOf (a.get? "_id") ≤ textOf (b.get? "_id")

/-- The checks of `verify_devoluciones_read_model` on one claim; its order and its item. -/
def verifyClaim (sellerId : String) (claim : Doc) : Except CoverageError (String × String) := do
  let orderId ← requiredText (claim.get? "order_id") "claim order_id" "claim_order_id"
  let itemId ← requiredText (claim.get? "item_id") "claim item_id" "claim_item_id"
  let _ ← requiredText (claim.get? "status") "claim status" "claim_status"
  raiseIf ((claim.get? "claim_version").bind (·.integer?) = none)
    (.verification "claim source version is required" "persisted_claim_version_missing")
  let _ ← utcDatetime (claim.get? "last_updated") "claim last_updated" "claim_last_updated"
  let _ ← utcDatetime (claim.get? "return_last_updated") "claim return_last_updated"
    "claim_return_last_updated"
  raiseIf ((claim.get? "seller_id").bind identityString ≠ some sellerId ∨
      claim.get? "type" ≠ some (.string "returns"))
    (.verification "claim scope is not canonical" "persisted_claim_scope_not_canonical")
  raiseIf (claim.get? "productive" ≠ some (.bool true))
    (.verification "only positive integral v2 return proof is complete"
      "persisted_claim_not_productive")
  raiseIf (((claim.get? "returned_quantity").bind (·.integer?)).all (· < 1) ∨
      claim.get? "return_quantity_basis" ≠ some (.string "v2_return_order"))
    (.verification "productive claim lacks exact v2 return quantity"
      "persisted_claim_quantity_not_v2")
  raiseIf (textOf (claim.get? "_id") = "")
    (.verification "claim identity is required" "persisted_claim_identity_missing")
  return (orderId, itemId)

/-- One unique line of the claim's order names the claim's item. -/
def verifyLine (sellerId : String) (orders : List Doc) (line : String × String) :
    Except CoverageError Unit := do
  match orders.find? fun order => textOf (order.get? "_id") = line.1 with
  | none => throw (.verification "required canonical orders are missing" "persisted_orders_missing")
  | some order =>
      raiseIf ((order.get? "seller_id").bind identityString ≠ some sellerId)
        (.verification "order seller does not match claim seller" "persisted_order_seller_mismatch")
      match order.get? "items" with
      | some (.array items) =>
          match items.filter fun item =>
              item.document?.any fun fields => textOf (fields.get? "item_id") = line.2 with
          | [_] => return ()
          | [] => throw (.verification "claim item does not have one unique canonical order line"
              "persisted_order_line_missing")
          | _ => throw (.verification "claim item does not have one unique canonical order line"
              "persisted_order_line_ambiguous")
      | _ => throw (.verification "canonical order items are missing"
          "persisted_order_items_missing")

/-- `verify_devoluciones_read_model` without a fingerprint to compare. -/
def verifyReadModel (sellerId : String) (start stop : Int) (expectedClaimIds : List String)
    (claims orders : List Doc) : Except CoverageError Unit := do
  let found ← readClaims sellerId start stop claims
  let persistedIds := found.map fun claim => textOf (claim.get? "_id")
  let expectedIds := (expectedClaimIds.map pyStrip).filter (!·.isEmpty)
  raiseIf (¬ (persistedIds ⊆ expectedIds ∧ expectedIds ⊆ persistedIds))
    (.verification "persisted claim identities do not match authoritative inventory"
      "persisted_claims_differ_from_inventory")
  let lines ← found.mapM (verifyClaim sellerId)
  let required := readOrders sellerId (lines.map Prod.fst) orders
  raiseIf (lines.any fun line => required.all fun order => textOf (order.get? "_id") ≠ line.1)
    (.verification "required canonical orders are missing" "persisted_orders_missing")
  lines.forM (verifyLine sellerId required)

/-- `current_certificate_facts`. -/
def currentCertificateFacts (digests : Digests) (sellerId : String) (start stop : Int)
    (claims orders : List Doc) : Except CoverageError Facts := do
  let found ← readClaims sellerId start stop claims
  let identities := found.map fun claim => textOf (claim.get? "_id")
  verifyReadModel sellerId start stop identities claims orders
  let required := readOrders sellerId (found.map fun claim => textOf (claim.get? "order_id")) orders
  let fingerprint ← digests.readModel sellerId found required
  return {
    currentMembershipHash :=
      digests.membership (identities.dedup.insertionSort (· ≤ ·))
    currentReadModelFingerprint := fingerprint
    certifiedCount := identities.length }

end ZelerPlatform.Devoluciones
