import N8n.DataTableColumnsProofs
import N8n.JsonTextProofs

/-! # The CSV export — reading back what `buildCsvContent` writes

    The export joins escaped values by commas and rows by line feeds.
    `readCsv` reads such text as RFC 4180 describes it, and strictly: quotes
    and carriage returns stand in quoted fields alone.

    The engine is `read_escapeCsvValue`: an escaped value is read as the
    value, up to the end of its field. -/

namespace N8nDataTableCsv

open N8nJsonText N8nDataTableColumns List

/-! ## The export -/

def comma : CodeUnit := 44

def quote : CodeUnit := 34

def lineFeed : CodeUnit := 10

def carriageReturn : CodeUnit := 13

def space : CodeUnit := 32

instance lawfulCodeUnit : LawfulBEq CodeUnit := inferInstance

/-- Of a value that `String` has made a text of. -/
def escapeCsvValue (str : JsString) : JsString :=
  let hasLeadingOrTrailingSpace := str.head? = some space ∨ str.getLast? = some space
  if comma ∈ str ∨ quote ∈ str ∨ lineFeed ∈ str ∨ carriageReturn ∈ str
      ∨ hasLeadingOrTrailingSpace then
    quote :: str.flatMap (fun u => if u = quote then [quote, quote] else [u]) ++ [quote]
  else str

/-- What JavaScript makes of a value that is not null: `String(value)`, and
    the text of a date or of a string that may be one. -/
structure ValueTexts (V : Type) where
  toText : V → JsString
  formatDateForCsv : V → JsString
  /-- A `Date` or a string. -/
  mayBeDate : V → Bool

/-- A row; `none` is a value that is null or missing. -/
structure DataTableRowReturn (V : Type) where
  id : V
  values : String → Option V
  createdAt : V
  updatedAt : V

section

variable {V : Type} (texts : ValueTexts V) (rows : List (DataTableRowReturn V))
  (columns : List DataTableColumn)

def formatValueForCsv (value : Option V) (columnType : DataTableColumnType) : JsString :=
  match value with
  | none => []
  | some value =>
    if columnType = .date ∧ texts.mayBeDate value then texts.formatDateForCsv value
    else texts.toText value

/-- The texts of the export, before they are escaped. -/
def csvRows : List (List JsString) :=
  let sortedColumns := columns.mergeSort fun a b => a.index ≤ b.index
  (ofString "id" :: sortedColumns.map (fun col => ofString col.name)
      ++ [ofString "createdAt", ofString "updatedAt"])
    :: rows.map fun row =>
      texts.toText row.id
        :: sortedColumns.map (fun column =>
          formatValueForCsv texts (row.values column.name) column.type)
        ++ [texts.formatDateForCsv row.createdAt, texts.formatDateForCsv row.updatedAt]

def joinValues (values : List JsString) : JsString := [comma].intercalate (values.map escapeCsvValue)

def buildCsvContent : JsString :=
  [lineFeed].intercalate ((csvRows texts rows columns).map joinValues)

end

/-! ## The reader -/

/-- Where the reader is in a field: at its start, in it, inside of quotes,
    or behind a quote that may be the last. -/
inductive Place where
  | start | plain | quoted | closed
deriving DecidableEq

/-- The rest of the row, which begins with the field so far, and the rows
    after it. -/
def read : Place → JsString → JsString → Option (List JsString × List (List JsString))
  | place, field, [] => if place = .quoted then none else some ([field], [])
  | place, field, u :: rest =>
    if place = .quoted then
      if u = quote then read .closed field rest else read .quoted (field ++ [u]) rest
    else if u = comma then (read .start [] rest).map fun p => (field :: p.1, p.2)
    else if u = lineFeed then (read .start [] rest).map fun p => ([field], p.1 :: p.2)
    else if u = quote then
      if place = .start then read .quoted [] rest
      else if place = .closed then read .quoted (field ++ [quote]) rest
      else none
    else if place = .closed ∨ u = carriageReturn then none
    else read .plain (field ++ [u]) rest

def readCsv (text : JsString) : Option (List (List JsString)) :=
  (read .start [] text).map fun p => p.1 :: p.2

/-! ## What is written is read -/

/-- A field ends here. -/
def Ends (rest : JsString) : Prop := ∀ u, rest.head? = some u → u = comma ∨ u = lineFeed

theorem lineFeed_ne_comma : lineFeed ≠ comma := by decide

variable {rest : JsString}

theorem read_of_ends {place : Place} (h : Ends rest) (hplace : place ≠ .quoted)
    (field : JsString) : read place field rest = read .plain field rest := by
  cases rest with
  | nil => simp [read, hplace]
  | cons u rest => rcases h u rfl with rfl | rfl <;> simp [read, hplace]

theorem read_plain (str field : JsString) (h : ∀ u ∈ str,
      u ≠ comma ∧ u ≠ quote ∧ u ≠ lineFeed ∧ u ≠ carriageReturn) :
    read .plain field (str ++ rest) = read .plain (field ++ str) rest := by
  induction str generalizing field with
  | nil => rw [nil_append, append_nil]
  | cons u str ih =>
    obtain ⟨⟨hcomma, hquote, hline, hreturn⟩, h⟩ := forall_mem_cons.mp h
    rw [cons_append, read, if_neg (by decide), if_neg hcomma, if_neg hline, if_neg hquote,
      if_neg (by simpa using hreturn), ih _ h, append_assoc, singleton_append]

theorem read_quoted (str field : JsString) (h : Ends rest) :
    read .quoted field (str.flatMap (fun u => if u = quote then [quote, quote] else [u])
      ++ quote :: rest) = read .plain (field ++ str) rest := by
  induction str generalizing field with
  | nil =>
    rw [flatMap_nil, nil_append, append_nil, read, if_pos rfl, if_pos rfl]
    exact read_of_ends h (by decide) field
  | cons u str ih =>
    rw [flatMap_cons, append_assoc, append_cons field, ← ih]
    split
    · next hu =>
      subst hu
      rfl
    · next hu => rw [singleton_append, read, if_pos rfl, if_neg hu]

/-- **AN ESCAPED VALUE** is read as the value. -/
theorem read_escapeCsvValue (str : JsString) (h : Ends rest) :
    read .start [] (escapeCsvValue str ++ rest) = read .plain str rest := by
  rw [escapeCsvValue]
  split
  · rw [cons_append, cons_append, append_assoc, singleton_append]
    exact read_quoted str [] h
  · next hplain =>
    simp only [not_or] at hplain
    obtain ⟨hcomma, hquote, hline, hreturn, -⟩ := hplain
    have hother : ∀ v ∈ str, v ≠ comma ∧ v ≠ quote ∧ v ≠ lineFeed ∧ v ≠ carriageReturn := by
      rintro v hv
      refine ⟨?_, ?_, ?_, ?_⟩ <;> (rintro rfl; contradiction)
    rw [← nil_append str, ← read_plain str [] hother]
    cases str with
    | nil => exact read_of_ends h (by decide) []
    | cons u str =>
      have hquote := (hother u (mem_cons_self ..)).2.1
      simp [read, hquote]

theorem read_joinValues (value : JsString) (values : List JsString)
    (h : rest = [] ∨ ∃ next, rest = lineFeed :: next) :
    read .start [] (joinValues (value :: values) ++ rest)
      = (read .plain [] rest).map fun p => (value :: values, p.2) := by
  induction values generalizing value with
  | nil =>
    have hends : Ends rest := by
      rcases h with rfl | ⟨next, rfl⟩ <;> simp [Ends]
    rw [joinValues, map_singleton, intercalate_singleton, read_escapeCsvValue value hends]
    rcases h with rfl | ⟨next, rfl⟩ <;> simp [read, lineFeed_ne_comma, Function.comp_def]
  | cons next values ih =>
    have hjoin : joinValues (value :: next :: values)
        = escapeCsvValue value ++ comma :: joinValues (next :: values) := by
      simp [joinValues]
    rw [hjoin, append_assoc, cons_append, read_escapeCsvValue value (by simp [Ends])]
    simp [read, ih next, Function.comp_def]

theorem read_rows (row : List JsString) (rows : List (List JsString))
    (h : ∀ values ∈ row :: rows, values ≠ []) :
    read .start [] ([lineFeed].intercalate ((row :: rows).map joinValues)) = some (row, rows) := by
  induction rows generalizing row with
  | nil =>
    obtain ⟨value, values, rfl⟩ := exists_cons_of_ne_nil (h row (mem_cons_self ..))
    have hrow := read_joinValues value values (.inl (Eq.refl []))
    simpa [read] using hrow
  | cons next rows ih =>
    obtain ⟨hrow, hrows⟩ := forall_mem_cons.mp h
    obtain ⟨value, values, rfl⟩ := exists_cons_of_ne_nil hrow
    have hnext := ih next hrows
    rw [map_cons] at hnext
    rw [map_cons, map_cons, intercalate_cons_cons, append_assoc, singleton_append,
      read_joinValues value values (.inr ⟨_, rfl⟩)]
    simp [read, lineFeed_ne_comma, hnext]

end N8nDataTableCsv
