import Mathlib
import ZelerPlatform.Library.Dict
import ZelerPlatform.Library.Fallible
import ZelerPlatform.Library.Sorted
import ZelerPlatform.Publicador.BatchRow
import ZelerPlatform.Publicador.Publication

/-!
# Sheets of a batch

The rows of the first sheet of a workbook are read cell by cell, a cell in the column that the
letters of its reference name. The second row has the headers, and the rows after it that are
not blank become the rows of the batch. They are numbered one after another from 3 on, which is
where they stand in the sheet only when no blank or omitted row comes before them.
-/

namespace ZelerPlatform.Publicador.LegacyBatch

open Fallible Mongo Sorted

/-- `char.isalpha()`, and `ord(char.upper())` unless that is several characters. -/
structure Letters where
  isAlpha : Char → Bool
  upperOrd : Char → Option Nat
  isAlpha_digit : ∀ c : Char, c.isDigit = true → isAlpha c = false
  upper_letter : ∀ n < 26, isAlpha (Char.ofNat (65 + n)) = true ∧
    upperOrd (Char.ofNat (65 + n)) = some (65 + n)

/-! ### Reading -/

/-- A `c` element: its attributes `r` and `t`, and the texts of its `is` and `v`. -/
structure XmlCell where
  reference : Option String
  type : Option String
  inline : Option String
  value : Option String
  deriving DecidableEq, Repr

/-- `REQUIRED_COLUMNS`. -/
def requiredColumns : List String :=
  ["SKU", "CodigoBarras", "Precio", "TipoLogistica", "TipoPublicacion", "EnvioGratis"]

/-- `_column_index`, of the letters after some that are read. -/
def columnIndex (letters : Letters) : Nat → List Char → Except PublicadorError Nat
  | result, [] => .ok result
  | result, c :: rest =>
      match letters.upperOrd c with
      | some ord => columnIndex letters (result * 26 + ord - 64) rest
      | none => .error (.other "TypeError")

/-- The column of a reference. -/
def columnOf (letters : Letters) (reference : String) : Except PublicadorError Nat :=
  columnIndex letters 0 (reference.toList.filter letters.isAlpha)

/-- `xs[n]`, where a negative index counts from the end. -/
def pyIndex (xs : List String) (n : Int) : Option String :=
  if 0 ≤ n then xs[n.toNat]?
  else if 0 ≤ xs.length + n then xs[(xs.length + n).toNat]? else none

/-- `_cell_value`. -/
def cellValue (shared : List String) (cell : XmlCell) : Except PublicadorError String :=
  if cell.type = some "inlineStr" then .ok (cell.inline.getD "")
  else match cell.value with
    | none => .ok ""
    | some raw =>
        if cell.type = some "s" then
          match intOfText raw with
          | none => .error (.value "invalid literal for int()")
          | some n => match pyIndex shared n with
            | some text => .ok text
            | none => .error (.other "IndexError")
        else .ok raw

/-- The columns and the texts of the cells of a row. -/
def readCell (letters : Letters) (shared : List String) (cell : XmlCell) :
    Except PublicadorError (Nat × String) := do
  let column ← columnOf letters (cell.reference.getD "A1")
  let value ← cellValue shared cell
  return (column, value)

/-- One row of `_sheet_rows`. -/
def rowValues (letters : Letters) (shared : List String) (cells : List XmlCell) :
    Except PublicadorError (List String) := do
  let values ← cells.mapM (readCell letters shared)
  let width := (values.map Prod.fst).foldr max 0
  return (List.range' 1 width).map fun index => ((Dict.ofPairs values).lookup index).getD ""

/-- `any(value.strip() for value in row)`. -/
def isFilled (row : List String) : Bool := row.any fun value => pyStrip value ≠ ""

/-- A row by the headers. -/
def rawRow (headers row : List String) : RawRow :=
  Dict.ofPairs (headers.zipIdx.map fun header => (header.1, ((row[header.2]?).map pyStrip).getD ""))

/-- `_read_xlsx_rows`, of the rows of the first sheet. -/
def readXlsxRows (letters : Letters) (shared : List String) (sheet : List (List XmlCell)) :
    Except PublicadorError (String × List RawRow) := do
  let rows ← sheet.mapM (rowValues letters shared)
  let first := rows.headD []
  raiseIf (rows.length < 2 ∨ first.length < 2) (.legacyBatchContract
    "El archivo Excel no tiene el formato esperado para la cuenta en la celda B1.")
  raiseIf (pyStrip (first.getD 0 "") ≠ "Cuenta Mercado Libre:") (.legacyBatchContract
    "La celda A1 debe contener el texto 'Cuenta Mercado Libre:'")
  let accountId := pyStrip (first.getD 1 "")
  raiseIf (accountId = "") (.legacyBatchContract
    "El nombre de la cuenta en la celda B1 del Excel no puede estar vacío.")
  let headers := ((rows.drop 1).headD []).map pyStrip
  let missing := requiredColumns.filter fun column => column ∉ headers
  raiseIf (missing ≠ []) (.legacyBatchContract
    ("Faltan columnas requeridas en el Excel: " ++ ", ".intercalate missing))
  return (accountId, ((rows.drop 2).filter isFilled).map (rawRow headers))

/-- What is read from the ZIP. -/
structure Archive where
  sheet : List (List XmlCell)
  shared : List String
  images : ImageMap
  imageWarnings : List String

/-- `ParsedLegacyBatch`. -/
structure ParsedLegacyBatch where
  accountId : String
  rows : List BatchRow
  globalWarnings : List String

/-- `parse_legacy_batch_zip`. -/
def parseLegacyBatch (letters : Letters) (casing : Casing) (archive : Archive) :
    Except PublicadorError ParsedLegacyBatch := do
  let (accountId, excelRows) ← readXlsxRows letters archive.shared archive.sheet
  let excelSkus := excelRows.map fun row => field row "SKU"
  let absent := (archive.images.map Prod.fst).eraseDups.filter fun sku => sku ∉ excelSkus
  let warnings := (sortedBy id absent).map fun sku =>
    s!"SKU folder {sku} is not present in Excel rows"
  return ⟨accountId,
    excelRows.mapIdx fun index row => parseRow casing (index + 3) row archive.images,
    warnings ++ archive.imageWarnings⟩

/-! ### Worksheets -/

/-- The letters of a column, of which there are at most as many as its number. -/
def columnLetters : Nat → Nat → List Char
  | 0, _ => []
  | fuel + 1, column =>
      if column = 0 then []
      else columnLetters fuel ((column - 1) / 26) ++ [Char.ofNat (65 + (column - 1) % 26)]

/-- `A` to `Z`, `AA` and so on. -/
def columnName (column : Nat) : List Char := columnLetters column column

/-- A cell in its column. -/
structure SheetCell where
  column : Nat
  type : Option String
  inline : Option String
  value : Option String

/-- A row with its number; cells that are left out are empty. -/
structure SheetRow where
  number : Nat
  cells : List SheetCell
  ascending : cells.Pairwise fun a b => a.column < b.column
  positive : ∀ cell ∈ cells, 0 < cell.column

/-- The rows of a sheet; rows after the header that are left out are blank. -/
structure Worksheet where
  account : SheetRow
  header : SheetRow
  data : List SheetRow
  account_number : account.number = 1
  header_number : header.number = 2
  ascending : (header :: data).Pairwise fun a b => a.number < b.number

def SheetCell.xml (number : Nat) (cell : SheetCell) : XmlCell :=
  ⟨some (String.ofList (columnName cell.column ++ (toString number).toList)), cell.type,
    cell.inline, cell.value⟩

def SheetRow.xml (row : SheetRow) : List XmlCell := row.cells.map (SheetCell.xml row.number)

def Worksheet.xml (sheet : Worksheet) : List (List XmlCell) :=
  (sheet.account :: sheet.header :: sheet.data).map SheetRow.xml

/-- The text of a cell. -/
def SheetCell.text (shared : List String) (number : Nat) (cell : SheetCell) : String :=
  (cellValue shared (cell.xml number)).toOption.getD ""

/-- The text of a row in a column. -/
def SheetRow.text (shared : List String) (row : SheetRow) (column : Nat) : String :=
  ((row.cells.find? fun cell => cell.column = column).map
    (SheetCell.text shared row.number)).getD ""

/-- The last column of a row. -/
def SheetRow.width (row : SheetRow) : Nat := (row.cells.map (·.column)).foldr max 0

/-- A row that is not blank. -/
def SheetRow.filled (shared : List String) (row : SheetRow) : Bool :=
  row.cells.any fun cell => pyStrip (cell.text shared row.number) ≠ ""

/-- A column has a header that no other column has. -/
def Worksheet.HasHeader (shared : List String) (sheet : Worksheet) (header : String)
    (column : Nat) : Prop :=
  ∀ other, (1 ≤ other ∧ other ≤ sheet.header.width ∧
    pyStrip (sheet.header.text shared other) = header) ↔ other = column

/-- The rows of the batch are the filled rows of the sheet, with their numbers and texts. -/
def Attributed (shared : List String) (sheet : Worksheet) (batch : ParsedLegacyBatch) : Prop :=
  List.Forall₂ (fun row (parsed : BatchRow) => parsed.rowNumber = row.number ∧
      ∀ header column, sheet.HasHeader shared header column →
        parsed.raw.lookup header = some (pyStrip (row.text shared column)))
    (sheet.data.filter (SheetRow.filled shared)) batch.rows

/-- No blank or omitted row comes before a filled one. -/
def Worksheet.Compact (shared : List String) (sheet : Worksheet) : Prop :=
  ∀ row ∈ sheet.data, row.filled shared = true → ∀ n, 3 ≤ n → n < row.number →
    ∃ other ∈ sheet.data, other.filled shared = true ∧ other.number = n

/-! ### References -/

section

variable {letters : Letters}

theorem columnIndex_append (letters : Letters) (result : Nat) (xs ys : List Char) :
    columnIndex letters result (xs ++ ys) =
      columnIndex letters result xs >>= fun next => columnIndex letters next ys := by
  induction xs generalizing result with
  | nil => rfl
  | cons c rest ih =>
      rw [List.cons_append, columnIndex, columnIndex]
      cases letters.upperOrd c with
      | some ord => exact ih _
      | none => rfl

theorem columnIndex_columnLetters (letters : Letters) {fuel column : Nat} (h : column ≤ fuel) :
    columnIndex letters 0 (columnLetters fuel column) = .ok column := by
  induction fuel generalizing column with
  | zero =>
      obtain rfl : column = 0 := Nat.le_zero.mp h
      rfl
  | succ fuel ih =>
      rw [columnLetters]
      split
      case isTrue hzero => rw [hzero, columnIndex]
      case isFalse hpos =>
          have hlast := (letters.upper_letter ((column - 1) % 26) (Nat.mod_lt _ (by decide))).2
          rw [columnIndex_append, ih (by omega)]
          change columnIndex letters ((column - 1) / 26) [Char.ofNat (65 + (column - 1) % 26)] = _
          rw [columnIndex, hlast]
          change columnIndex letters ((column - 1) / 26 * 26 + (65 + (column - 1) % 26) - 64) [] = _
          rw [columnIndex, Except.ok.injEq]
          omega

theorem isAlpha_of_mem_columnLetters {fuel column : Nat} {c : Char}
    (mem : c ∈ columnLetters fuel column) : letters.isAlpha c = true := by
  induction fuel generalizing column with
  | zero => cases mem
  | succ fuel ih =>
      rw [columnLetters] at mem
      split at mem
      case isTrue => cases mem
      case isFalse =>
          obtain mem | mem := List.mem_append.mp mem
          · exact ih mem
          · rw [List.mem_singleton.mp mem]
            exact (letters.upper_letter _ (Nat.mod_lt _ (by decide))).1

/-- A cell is read in its column. -/
theorem columnOf_reference (letters : Letters) (number column : Nat) :
    columnOf letters (String.ofList (columnName column ++ (toString number).toList)) =
      .ok column := by
  have hletters : (columnName column).filter letters.isAlpha = columnName column :=
    List.filter_eq_self.mpr fun c mem => isAlpha_of_mem_columnLetters mem
  have hdigits : (toString number).toList.filter letters.isAlpha = [] := by
    refine List.filter_eq_nil_iff.mpr fun c mem => ?_
    have hdigit : c.isDigit = true :=
      Nat.isDigit_of_mem_toDigits (by decide) le_rfl (by simpa [Nat.repr] using mem)
    rw [letters.isAlpha_digit c hdigit]
    exact Bool.false_ne_true
  rw [columnOf, String.toList_ofList, List.filter_append, hletters, hdigits, List.append_nil]
  exact columnIndex_columnLetters letters le_rfl

end

/-! ### Rows -/

section

variable {letters : Letters} {shared : List String} {row : SheetRow}

theorem readCell_xml {number : Nat} {cell : SheetCell} {entry : Nat × String}
    (h : readCell letters shared (cell.xml number) = .ok entry) :
    entry = (cell.column, cell.text shared number) := by
  obtain ⟨column, hcolumn, hrest⟩ := bind_ok h
  obtain ⟨value, hvalue, hpure⟩ := bind_ok hrest
  obtain rfl := Except.ok.inj hpure
  obtain rfl := Except.ok.inj ((columnOf_reference letters number cell.column).symm.trans hcolumn)
  rw [SheetCell.text, hvalue]
  rfl

theorem SheetRow.nodup_columns (row : SheetRow) : (row.cells.map (·.column)).Nodup :=
  List.pairwise_map.mpr (row.ascending.imp fun hlt => hlt.ne)

/-- The texts of a row. -/
def SheetRow.texts (shared : List String) (row : SheetRow) : List String :=
  (List.range' 1 row.width).map (row.text shared)

theorem rowValues_xml {values : List String} (h : rowValues letters shared row.xml = .ok values) :
    values = row.texts shared := by
  obtain ⟨entries, hentries, hpure⟩ := bind_ok h
  obtain rfl := Except.ok.inj hpure
  rw [SheetRow.xml, List.mapM_map] at hentries
  obtain rfl := mapM_eq_map hentries fun cell _ entry hentry => readCell_xml hentry
  have honce : ((row.cells.map fun cell => (cell.column, cell.text shared row.number)).map
      Prod.fst).Nodup := by
    rw [List.map_map]
    exact row.nodup_columns
  rw [Dict.ofPairs_of_nodup honce, List.map_map]
  refine List.map_congr_left fun column _ => ?_
  rw [Dict.lookup_map, SheetRow.text]

theorem le_width {cell : SheetCell} (mem : cell ∈ row.cells) : cell.column ≤ row.width :=
  List.le_max_of_le' _ (List.mem_map_of_mem mem) le_rfl

theorem text_of_width_lt {column : Nat} (h : row.width < column) : row.text shared column = "" := by
  have hnone : row.cells.find? (fun cell => cell.column = column) = none := by
    refine List.find?_eq_none.mpr fun cell mem heq => ?_
    exact absurd (le_width mem) (by simpa using (of_decide_eq_true heq) ▸ h)
  rw [SheetRow.text, hnone]
  rfl

theorem text_of_mem {cell : SheetCell} (mem : cell ∈ row.cells) :
    row.text shared cell.column = cell.text shared row.number := by
  have hfind : row.cells.find? (fun other => other.column = cell.column) = some cell := by
    obtain ⟨other, hother⟩ : ∃ other, row.cells.find? (fun other => other.column = cell.column) =
        some other :=
      Option.isSome_iff_exists.mp (List.find?_isSome.mpr ⟨cell, mem, decide_eq_true rfl⟩)
    have hcolumn : other.column = cell.column := by simpa using List.find?_some hother
    rw [hother, List.inj_on_of_nodup_map row.nodup_columns (List.mem_of_find?_eq_some hother) mem
      hcolumn]
  rw [SheetRow.text, hfind]
  rfl

/-- A row is kept exactly when a cell of it has a text. -/
theorem isFilled_texts : isFilled (row.texts shared) = row.filled shared := by
  rw [Bool.eq_iff_iff, isFilled, SheetRow.filled, List.any_eq_true, List.any_eq_true]
  constructor
  · rintro ⟨value, mem, hvalue⟩
    obtain ⟨column, -, rfl⟩ := List.mem_map.mp mem
    cases hfind : row.cells.find? (fun cell => cell.column = column) with
    | none =>
        rw [SheetRow.text, hfind] at hvalue
        exact absurd rfl (of_decide_eq_true hvalue)
    | some cell =>
        rw [SheetRow.text, hfind] at hvalue
        exact ⟨cell, List.mem_of_find?_eq_some hfind, hvalue⟩
  · rintro ⟨cell, mem, hcell⟩
    refine ⟨row.text shared cell.column, List.mem_map_of_mem ?_, ?_⟩
    · rw [List.mem_range'_1]
      exact ⟨row.positive cell mem, by have := le_width mem; omega⟩
    · rw [text_of_mem mem]
      exact hcell

/-- The value of a row under a header. -/
theorem texts_getElem? (column : Nat) (h : 1 ≤ column) :
    (((row.texts shared)[column - 1]?).map pyStrip).getD "" = pyStrip (row.text shared column) := by
  rw [SheetRow.texts, List.getElem?_map]
  by_cases hwidth : column ≤ row.width
  · rw [List.getElem?_range' (by omega)]
    have hcolumn : 1 + 1 * (column - 1) = column := by omega
    rw [hcolumn]
    rfl
  · rw [List.getElem?_eq_none (by rw [List.length_range']; omega),
      text_of_width_lt (not_le.mp hwidth)]
    rfl

theorem rawRow_texts (header : SheetRow) : rawRow ((header.texts shared).map pyStrip)
      (row.texts shared) =
    Dict.ofPairs ((List.range' 1 header.width).map fun column =>
      (pyStrip (header.text shared column), pyStrip (row.text shared column))) := by
  rw [rawRow]
  refine congrArg Dict.ofPairs (List.ext_getElem? fun i => ?_)
  rw [List.getElem?_map, List.getElem?_zipIdx, List.getElem?_map, SheetRow.texts.eq_1 shared header,
    List.getElem?_map, List.getElem?_map]
  by_cases hi : i < header.width
  · rw [List.getElem?_range' hi]
    have hvalue : (((row.texts shared)[1 + 1 * i - 1]?).map pyStrip).getD "" = _ :=
      texts_getElem? (1 + 1 * i) (by omega)
    rw [show 1 + 1 * i - 1 = i by omega] at hvalue
    simp only [Option.map_some, Nat.zero_add, hvalue, Function.comp_apply]
  · rw [List.getElem?_eq_none (by rw [List.length_range']; omega)]
    rfl

/-- A row of the batch has the text of its row in the column of a header. -/
theorem lookup_rawRow {sheet : Worksheet} {header : String} {column : Nat}
    (h : sheet.HasHeader shared header column) :
    (rawRow ((sheet.header.texts shared).map pyStrip) (row.texts shared)).lookup header =
      some (pyStrip (row.text shared column)) := by
  obtain ⟨hpos, hwidth, rfl⟩ := (h column).mpr rfl
  have hsplit : List.range' 1 sheet.header.width = List.range' 1 (column - 1) ++
      column :: List.range' (column + 1) (sheet.header.width - column) := by
    have htail : column :: List.range' (column + 1) (sheet.header.width - column) =
        List.range' (1 + (column - 1)) (sheet.header.width - column + 1) := by
      rw [List.range'_succ, show 1 + (column - 1) = column by omega]
    rw [htail, List.range'_append_1]
    congr 1
    omega
  rw [rawRow_texts, hsplit, List.map_append, List.map_cons]
  refine Dict.lookup_ofPairs fun pair mem heq => ?_
  obtain ⟨other, hother, rfl⟩ := List.mem_map.mp mem
  rw [List.mem_range'_1] at hother
  have hsame := (h other).mp ⟨by omega, by omega, heq⟩
  omega

theorem readXlsxRows_xml {sheet : Worksheet} {accountId : String} {rows : List RawRow}
    (h : readXlsxRows letters shared sheet.xml = .ok (accountId, rows)) :
    rows = (sheet.data.filter (SheetRow.filled shared)).map fun row =>
      rawRow ((sheet.header.texts shared).map pyStrip) (row.texts shared) := by
  obtain ⟨values, hvalues, hshape⟩ := bind_ok h
  obtain ⟨-, hfirst⟩ := raiseIf_ok hshape
  obtain ⟨-, haccount⟩ := raiseIf_ok hfirst
  obtain ⟨-, hheaders⟩ := raiseIf_ok haccount
  obtain ⟨-, hpure⟩ := raiseIf_ok hheaders
  have hrows := (Prod.mk.inj (Except.ok.inj hpure)).2
  rw [Worksheet.xml, List.mapM_map] at hvalues
  obtain rfl := mapM_eq_map hvalues fun row _ values hrow => rowValues_xml hrow
  rw [← hrows]
  simp only [List.map_cons, List.drop_succ_cons, List.drop_zero, List.headD_cons]
  rw [List.filter_map, List.map_map]
  exact congrArg (List.map _) (List.filter_congr fun row _ => isFilled_texts)

end

/-! ### Attribution -/

section

variable {letters : Letters} {casing : Casing} {shared : List String} {sheet : Worksheet}

theorem filled_numbers (sheet : Worksheet) (shared : List String) :
    ((sheet.data.filter (SheetRow.filled shared)).map (·.number)).Pairwise (· < ·) ∧
      ∀ n ∈ (sheet.data.filter (SheetRow.filled shared)).map (·.number), 3 ≤ n := by
  obtain ⟨hheader, hdata⟩ := List.pairwise_cons.mp sheet.ascending
  refine ⟨List.pairwise_map.mpr (hdata.sublist List.filter_sublist), fun n mem => ?_⟩
  obtain ⟨row, hrow, rfl⟩ := List.mem_map.mp mem
  have hlt := hheader row (List.mem_of_mem_filter hrow)
  rw [sheet.header_number] at hlt
  exact hlt

theorem compact_iff : sheet.Compact shared ↔
    (sheet.data.filter (SheetRow.filled shared)).map (·.number) =
      List.range' 3 (sheet.data.filter (SheetRow.filled shared)).length := by
  obtain ⟨hascending, hleast⟩ := filled_numbers sheet shared
  have hrange := eq_range'_iff hascending hleast
  rw [List.length_map] at hrange
  rw [hrange, Worksheet.Compact]
  simp only [List.mem_map, List.mem_filter]
  constructor
  · rintro h x ⟨row, ⟨mem, hfilled⟩, rfl⟩ n hle hlt
    obtain ⟨other, hother, hotherFilled, rfl⟩ := h row mem hfilled n hle hlt
    exact ⟨other, ⟨hother, hotherFilled⟩, rfl⟩
  · intro h row mem hfilled n hle hlt
    obtain ⟨other, ⟨hother, hotherFilled⟩, rfl⟩ := h row.number ⟨row, ⟨mem, hfilled⟩, rfl⟩ n hle hlt
    exact ⟨other, hother, hotherFilled, rfl⟩

/-- The rows of the batch are the filled rows of the sheet, numbered from 3 on. -/
theorem parse_rows {images : ImageMap} {warnings : List String} {batch : ParsedLegacyBatch}
    (h : parseLegacyBatch letters casing ⟨sheet.xml, shared, images, warnings⟩ = .ok batch) :
    batch.rows = (sheet.data.filter (SheetRow.filled shared)).mapIdx fun index row =>
      parseRow casing (index + 3)
        (rawRow ((sheet.header.texts shared).map pyStrip) (row.texts shared)) images := by
  obtain ⟨⟨accountId, rows⟩, hrows, hpure⟩ := bind_ok h
  obtain rfl := Except.ok.inj hpure
  rw [readXlsxRows_xml hrows]
  refine List.ext_getElem? fun i => ?_
  rw [List.getElem?_mapIdx, List.getElem?_mapIdx, List.getElem?_map, Option.map_map]
  rfl

/-- Rows that are numbered from 3 on have the numbers of a compact sheet. -/
theorem attributed_of_rows {images : ImageMap} {batch : ParsedLegacyBatch}
    (hrows : batch.rows = (sheet.data.filter (SheetRow.filled shared)).mapIdx fun index row =>
      parseRow casing (index + 3)
        (rawRow ((sheet.header.texts shared).map pyStrip) (row.texts shared)) images) :
    Attributed shared sheet batch ↔ sheet.Compact shared := by
  rw [compact_iff, Attributed, hrows, List.forall₂_iff_get]
  constructor
  · rintro ⟨-, hget⟩
    refine List.ext_getElem (by simp) fun i hi hrange => ?_
    rw [List.length_map] at hi
    obtain ⟨hrow, -⟩ := hget i hi (by rwa [List.length_mapIdx])
    rw [List.get_eq_getElem, List.getElem_mapIdx] at hrow
    have hnumber : i + 3 = (sheet.data.filter (SheetRow.filled shared))[i].number := hrow
    rw [List.getElem_map, List.getElem_range', ← hnumber]
    omega
  · intro hnumbers
    refine ⟨List.length_mapIdx.symm, fun i hi hi' => ?_⟩
    have hnumber : ((sheet.data.filter (SheetRow.filled shared)).map (·.number))[i]? =
        (List.range' 3 (sheet.data.filter (SheetRow.filled shared)).length)[i]? := by
      rw [hnumbers]
    rw [List.getElem?_map, List.getElem?_eq_getElem hi, List.getElem?_range' hi] at hnumber
    have hsame : (sheet.data.filter (SheetRow.filled shared))[i].number = 3 + 1 * i :=
      Option.some_inj.mp hnumber
    rw [List.get_eq_getElem, List.get_eq_getElem, List.getElem_mapIdx]
    refine ⟨?_, fun header column hheader => lookup_rawRow hheader⟩
    change i + 3 = (sheet.data.filter (SheetRow.filled shared))[i].number
    omega

theorem attributed_iff (letters : Letters) (casing : Casing) (shared : List String)
    (sheet : Worksheet) (images : ImageMap) (warnings : List String) (batch : ParsedLegacyBatch)
    (h : parseLegacyBatch letters casing ⟨sheet.xml, shared, images, warnings⟩ = .ok batch) :
    Attributed shared sheet batch ↔ sheet.Compact shared :=
  attributed_of_rows (parse_rows h)

end

/-! ### A row that is left out -/

/-- The letters of ASCII. -/
def asciiLetters : Letters where
  isAlpha := Char.isAlpha
  upperOrd c := some c.toUpper.toNat
  isAlpha_digit c h := by
    simp only [Char.isDigit, ge_iff_le, UInt32.le_iff_toNat_le, UInt32.reduceToNat,
      Bool.and_eq_true, decide_eq_true_eq, Char.reduceVal, Char.toNat_val] at h
    simp [Char.isAlpha, Char.isUpper, Char.isLower, UInt32.le_iff_toNat_le]
    omega
  upper_letter := by decide

def accountRow : SheetRow :=
  ⟨1, [⟨1, none, none, some "Cuenta Mercado Libre:"⟩, ⟨2, none, none, some "tienda"⟩], by decide,
    by decide⟩

def headerRow : SheetRow :=
  ⟨2, [⟨1, none, none, some "SKU"⟩, ⟨2, none, none, some "CodigoBarras"⟩,
    ⟨3, none, none, some "Precio"⟩, ⟨4, none, none, some "TipoLogistica"⟩,
    ⟨5, none, none, some "TipoPublicacion"⟩, ⟨6, none, none, some "EnvioGratis"⟩], by decide,
    by decide⟩

/-- A row with an SKU alone. -/
def skuRow (number : Nat) : SheetRow := ⟨number, [⟨1, none, none, some "A1"⟩], by simp, by simp⟩

def oneRowSheet (number : Nat) (h : 2 < number) : Worksheet :=
  ⟨accountRow, headerRow, [skuRow number], rfl, rfl, by simpa [skuRow, headerRow] using h⟩

theorem oneRowSheet_parsed : ∀ number ∈ [3, 4], ∀ h : 2 < number,
    (parseLegacyBatch asciiLetters asciiCasing
      ⟨(oneRowSheet number h).xml, [], [], []⟩).toOption.isSome = true := by
  decide +kernel

theorem exists_oneRowBatch {number : Nat} (mem : number ∈ [3, 4]) (h : 2 < number) :
    ∃ batch, parseLegacyBatch asciiLetters asciiCasing
      ⟨(oneRowSheet number h).xml, [], [], []⟩ = .ok batch := by
  have hparsed := oneRowSheet_parsed number mem h
  cases hbatch : parseLegacyBatch asciiLetters asciiCasing
      ⟨(oneRowSheet number h).xml, [], [], []⟩ with
  | error error =>
      rw [hbatch] at hparsed
      cases hparsed
  | ok batch => exact ⟨batch, rfl⟩

/-- Row 3 is left out, and row 4 is said to be row 3. -/
theorem gap_misattributed : ∃ batch, parseLegacyBatch asciiLetters asciiCasing
      ⟨(oneRowSheet 4 (by decide)).xml, [], [], []⟩ = .ok batch ∧
    ¬ Attributed [] (oneRowSheet 4 (by decide)) batch := by
  obtain ⟨batch, hbatch⟩ := exists_oneRowBatch (by decide) (by decide : 2 < 4)
  refine ⟨batch, hbatch, fun h => ?_⟩
  have hcompact := (attributed_of_rows (parse_rows hbatch)).mp h
  obtain ⟨other, mem, -, hnumber⟩ :=
    hcompact (skuRow 4) List.mem_cons_self (by decide +kernel) 3 le_rfl (by decide)
  obtain rfl := List.mem_singleton.mp mem
  exact absurd hnumber (by decide)

theorem attributed_oneRow : ∃ batch, parseLegacyBatch asciiLetters asciiCasing
      ⟨(oneRowSheet 3 (by decide)).xml, [], [], []⟩ = .ok batch ∧
    (Attributed [] (oneRowSheet 3 (by decide)) batch ↔
      (oneRowSheet 3 (by decide)).Compact []) := by
  obtain ⟨batch, hbatch⟩ := exists_oneRowBatch (by decide) (by decide : 2 < 3)
  exact ⟨batch, hbatch, attributed_iff _ _ _ _ _ _ batch hbatch⟩

end ZelerPlatform.Publicador.LegacyBatch
