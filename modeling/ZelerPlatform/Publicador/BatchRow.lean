import ZelerPlatform.Library.Mongo.Python
import ZelerPlatform.Library.PyNumber

/-!
# Rows of a batch

A row of a batch sheet is checked field by field, each failed check leaves an error, and only a
row without errors is to be published. `str.isdigit` and `float` accept more texts than a barcode
and a price are.
-/

namespace ZelerPlatform.Publicador.LegacyBatch

open Mongo

/-- `str.lower` and `str.upper`. -/
structure Casing where
  lower : String → String
  upper : String → String
  upper_eq_empty : ∀ text, upper text = "" ↔ text = ""

/-- `ACCEPTED_LOGISTICS`. -/
def acceptedLogistics : List String :=
  ["default", "drop off", "fulfillment", "pick up", "cross docking", "xd drop off", "self service",
    "turbo", "custom", "no especificado", "drop_shipping", "cross_docking", "flex"]

/-- `ACCEPTED_LISTING_TYPES`. -/
def acceptedListingTypes : List String :=
  ["premium", "clasica", "clásica", "oro premium", "oro", "plata", "bronce", "gratuita"]

/-- `ACCEPTED_FREE_SHIPPING`. -/
def acceptedFreeShipping : List String := ["si", "no"]

/-- `ParsedBatchImage`. -/
structure BatchImage where
  filename : String
  contentType : String
  width : Nat
  height : Nat
  hash : String
  data : List UInt8
  deriving DecidableEq, Repr

/-- A row by its headers. -/
abbrev RawRow := List (String × String)

/-- The images by their folders. -/
abbrev ImageMap := List (String × List BatchImage)

/-- `ParsedBatchRow`. -/
structure BatchRow where
  rowNumber : Nat
  sku : String
  codigoBarras : String
  price : PyFloat
  logisticsType : String
  listingType : String
  freeShipping : Bool
  publicar : String
  raw : RawRow
  images : List BatchImage
  errors : List String

/-- `raw.get(header, default)`. -/
def RawRow.getOr (raw : RawRow) (header default : String) : String :=
  (raw.lookup header).getD default

/-- `str(raw.get(header, "")).strip()`. -/
def field (raw : RawRow) (header : String) : String := pyStrip (raw.getOr header "")

/-- The price, or zero when the text is no number. -/
def priceOf (text : String) : PyFloat := (PyFloat.ofText text).getD (.finite 0)

def errorIf (failed : Prop) [Decidable failed] (message : String) : List String :=
  if failed then [message] else []

/-- The errors of the images of a row that is to be published. -/
def imageErrors (sku : String) (images : List BatchImage) : List String :=
  errorIf (images.length < 3 ∨ 10 < images.length)
      s!"SKU folder {sku} must contain between 3 and 10 images" ++
    images.flatMap fun image => errorIf (image.width < 500 ∨ image.height < 500)
      s!"{image.filename} resolution must be at least 500x500"

/-- `str(raw.get("Publicar", "SI")).strip().upper() or "SI"`. -/
def publicarOf (casing : Casing) (raw : RawRow) : String :=
  let publicar := casing.upper (pyStrip (raw.getOr "Publicar" "SI"))
  if publicar = "" then "SI" else publicar

/-- `image_map.get(sku, [])`. -/
def imagesOf (imageMap : ImageMap) (raw : RawRow) : List BatchImage :=
  (imageMap.lookup (field raw "SKU")).getD []

/-- The errors of `_parse_row`, in its order. -/
def rowErrors (casing : Casing) (raw : RawRow) (imageMap : ImageMap) : List String :=
  let logistics := casing.lower (field raw "TipoLogistica")
  let listing := casing.lower (field raw "TipoPublicacion")
  let shipping := casing.lower (field raw "EnvioGratis")
  let publicar := publicarOf casing raw
  errorIf (field raw "SKU" = "") "SKU is required" ++
  errorIf (isDigitText (field raw "CodigoBarras") = false) "CodigoBarras must be numeric" ++
  errorIf ((priceOf (field raw "Precio")).leZero = true) "Precio must be greater than 0" ++
  errorIf (logistics ∉ acceptedLogistics) s!"TipoLogistica {logistics} is not accepted" ++
  errorIf (listing ∉ acceptedListingTypes) s!"TipoPublicacion {listing} is not accepted" ++
  errorIf (shipping ∉ acceptedFreeShipping) s!"EnvioGratis {shipping} is not accepted" ++
  errorIf (publicar ≠ "SI") s!"Publicar is {publicar} in the Excel row" ++
  if publicar = "SI" then imageErrors (field raw "SKU") (imagesOf imageMap raw) else []

/-- `_parse_row`. -/
def parseRow (casing : Casing) (rowNumber : Nat) (raw : RawRow) (imageMap : ImageMap) :
    BatchRow where
  rowNumber := rowNumber
  sku := field raw "SKU"
  codigoBarras := field raw "CodigoBarras"
  price := priceOf (field raw "Precio")
  logisticsType := casing.lower (field raw "TipoLogistica")
  listingType := casing.lower (field raw "TipoPublicacion")
  freeShipping := casing.lower (field raw "EnvioGratis") = "si"
  publicar := if rowErrors casing raw imageMap = [] then publicarOf casing raw else "NO"
  raw := raw
  images := imagesOf imageMap raw
  errors := rowErrors casing raw imageMap

/-! ### Which rows are accepted -/

variable {casing : Casing} {rowNumber : Nat} {raw : RawRow} {imageMap : ImageMap}

/-- The checks that are not about the barcode and the price. -/
structure OtherwiseValid (casing : Casing) (raw : RawRow) (imageMap : ImageMap) : Prop where
  sku : field raw "SKU" ≠ ""
  logistics : casing.lower (field raw "TipoLogistica") ∈ acceptedLogistics
  listing : casing.lower (field raw "TipoPublicacion") ∈ acceptedListingTypes
  shipping : casing.lower (field raw "EnvioGratis") ∈ acceptedFreeShipping
  publicar : pyStrip (raw.getOr "Publicar" "SI") = "" ∨
    casing.upper (pyStrip (raw.getOr "Publicar" "SI")) = "SI"
  images : 3 ≤ (imagesOf imageMap raw).length ∧ (imagesOf imageMap raw).length ≤ 10
  resolution : ∀ image ∈ imagesOf imageMap raw, 500 ≤ image.width ∧ 500 ≤ image.height

/-- A row that may be published. -/
structure Publishable (casing : Casing) (raw : RawRow) (imageMap : ImageMap) : Prop
    extends OtherwiseValid casing raw imageMap where
  barcode : isDecimalText (field raw "CodigoBarras") = true
  price : ∃ value : ℚ, PyFloat.ofText (field raw "Precio") = some (.finite value) ∧ 0 < value

theorem errorIf_eq_nil {failed : Prop} [Decidable failed] {message : String} :
    errorIf failed message = [] ↔ ¬ failed := by
  rw [errorIf]
  split
  case isTrue h => exact ⟨fun hnil => absurd hnil (List.cons_ne_nil _ _), fun hnot => absurd h hnot⟩
  case isFalse h => exact ⟨fun _ => h, fun _ => rfl⟩

theorem imageErrors_eq_nil {sku : String} {images : List BatchImage} :
    imageErrors sku images = [] ↔ (3 ≤ images.length ∧ images.length ≤ 10) ∧
      ∀ image ∈ images, 500 ≤ image.width ∧ 500 ≤ image.height := by
  rw [imageErrors, List.append_eq_nil_iff, errorIf_eq_nil, List.flatMap_eq_nil_iff, not_or, not_lt,
    not_lt]
  simp only [errorIf_eq_nil, not_or, not_lt]

theorem publicarOf_eq_si : publicarOf casing raw = "SI" ↔
    pyStrip (raw.getOr "Publicar" "SI") = "" ∨
      casing.upper (pyStrip (raw.getOr "Publicar" "SI")) = "SI" := by
  rw [publicarOf]
  split
  case isTrue h => exact ⟨fun _ => .inl ((casing.upper_eq_empty _).mp h), fun _ => rfl⟩
  case isFalse h =>
      refine ⟨.inr, fun hsi => hsi.resolve_left fun hempty => h ?_⟩
      exact (casing.upper_eq_empty _).mpr hempty

/-- What the checks of a row accept. -/
theorem rowErrors_eq_nil : rowErrors casing raw imageMap = [] ↔
    OtherwiseValid casing raw imageMap ∧ isDigitText (field raw "CodigoBarras") = true ∧
      (priceOf (field raw "Precio")).leZero = false := by
  simp only [rowErrors, List.append_eq_nil_iff, errorIf_eq_nil]
  constructor
  · rintro ⟨⟨⟨⟨⟨⟨⟨hsku, hbarcode⟩, hprice⟩, hlogistics⟩, hlisting⟩, hshipping⟩, hpublicar⟩, himages⟩
    rw [not_not] at hpublicar
    rw [if_pos hpublicar, imageErrors_eq_nil] at himages
    exact ⟨⟨hsku, not_not.mp hlogistics, not_not.mp hlisting, not_not.mp hshipping,
      publicarOf_eq_si.mp hpublicar, himages.1, himages.2⟩, by simpa using hbarcode,
      by simpa using hprice⟩
  · rintro ⟨h, hbarcode, hprice⟩
    have hpublicar := publicarOf_eq_si.mpr h.publicar
    rw [if_pos hpublicar, imageErrors_eq_nil]
    exact ⟨⟨⟨⟨⟨⟨⟨h.sku, by simpa using hbarcode⟩, by simpa using hprice⟩, not_not.mpr h.logistics⟩,
      not_not.mpr h.listing⟩, not_not.mpr h.shipping⟩, not_not.mpr hpublicar⟩, h.images,
      h.resolution⟩

/-- A row is withheld exactly when it has errors. -/
theorem publicar_eq_no : (parseRow casing rowNumber raw imageMap).publicar = "NO" ↔
    (parseRow casing rowNumber raw imageMap).errors ≠ [] := by
  rw [parseRow]
  split
  case isTrue h =>
      rw [publicarOf_eq_si.mpr (rowErrors_eq_nil.mp h).1.publicar]
      have hdiffer : "SI" ≠ "NO" := by decide
      exact ⟨fun hno => absurd hno hdiffer, fun hnot => absurd h hnot⟩
  case isFalse h => exact ⟨fun _ => h, fun _ => rfl⟩

/-- `math.isfinite` of the price. -/
def isFinite : PyFloat → Bool
  | .finite _ => true
  | _ => false

theorem price_iff {text : String} : (∃ value : ℚ, PyFloat.ofText text = some (.finite value) ∧
    0 < value) ↔ (priceOf text).leZero = false ∧ isFinite (priceOf text) = true := by
  rw [priceOf]
  cases PyFloat.ofText text with
  | none => simp [PyFloat.leZero]
  | some price =>
      cases price with
      | finite value => simp [PyFloat.leZero, isFinite]
      | infinity negative => simp [isFinite]
      | nan => simp [isFinite]

/-- A row that is accepted otherwise has a barcode of decimal digits and a finite price. -/
def Usual (casing : Casing) (raw : RawRow) (imageMap : ImageMap) : Prop :=
  OtherwiseValid casing raw imageMap → isDigitText (field raw "CodigoBarras") = true →
    (priceOf (field raw "Precio")).leZero = false →
      isDecimalText (field raw "CodigoBarras") = true ∧
        isFinite (priceOf (field raw "Precio")) = true

theorem accepted_iff_usual (casing : Casing) (rowNumber : Nat) (raw : RawRow)
    (imageMap : ImageMap) :
    ((((parseRow casing rowNumber raw imageMap).errors = [] ↔ Publishable casing raw imageMap) ∧
      ((parseRow casing rowNumber raw imageMap).publicar = "NO" ↔
        (parseRow casing rowNumber raw imageMap).errors ≠ [])) ↔ Usual casing raw imageMap) := by
  have herrors : (parseRow casing rowNumber raw imageMap).errors = rowErrors casing raw imageMap :=
    rfl
  rw [and_iff_left publicar_eq_no, herrors, rowErrors_eq_nil]
  constructor
  · intro h hvalid hbarcode hprice
    have hpublishable := h.mp ⟨hvalid, hbarcode, hprice⟩
    exact ⟨hpublishable.barcode, (price_iff.mp hpublishable.price).2⟩
  · refine fun usual => ⟨fun ⟨hvalid, hbarcode, hprice⟩ => ?_, fun h => ?_⟩
    · obtain ⟨hdecimal, hfinite⟩ := usual hvalid hbarcode hprice
      exact ⟨hvalid, hdecimal, price_iff.mpr ⟨hprice, hfinite⟩⟩
    · exact ⟨h.toOtherwiseValid, isDigitText_of_isDecimalText h.barcode, (price_iff.mp h.price).1⟩

/-- The casing of ASCII texts. -/
def asciiCasing : Casing where
  lower text := String.ofList (text.toList.map Char.toLower)
  upper text := String.ofList (text.toList.map Char.toUpper)
  upper_eq_empty text := by simp

/-- A row that is valid but for its price. -/
def nanRow : RawRow :=
  [("SKU", "A1"), ("CodigoBarras", "7501"), ("Precio", "nan"), ("TipoLogistica", "flex"),
    ("TipoPublicacion", "oro"), ("EnvioGratis", "si")]

def threeImages : ImageMap :=
  [("A1", List.replicate 3 ⟨"a.png", "image/png", 500, 500, "", []⟩)]

/-- A row whose price is NaN is accepted, and published. -/
theorem nan_accepted : (parseRow asciiCasing 3 nanRow threeImages).errors = [] ∧
    (parseRow asciiCasing 3 nanRow threeImages).publicar = "SI" ∧
    ¬ Publishable asciiCasing nanRow threeImages := by
  refine ⟨by decide +kernel, by decide +kernel, fun h => ?_⟩
  have hnan : isFinite (priceOf (field nanRow "Precio")) = false := by decide +kernel
  exact absurd (price_iff.mp h.price).2 (hnan ▸ Bool.false_ne_true)

end ZelerPlatform.Publicador.LegacyBatch
