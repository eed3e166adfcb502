import Mathlib.Data.List.Nodup
import Mathlib.Data.List.Perm.Subperm
import Mathlib.Data.List.Range
import N8n.RunProofs
import N8n.ExceptProofs

/-! # Data tables — positions and names of their columns

    The columns of a data table are rows with a position, and columns of a
    physical table.  Adding, moving and deleting a column shifts the
    positions from a given one on; a request looks its column up before the
    transaction that uses it.

    A transaction runs as a whole or not at all.  `ordered_of_current` shows
    that the positions of every table stay exactly `0, …, n - 1`, and the
    names those of the physical table, in every run in which positions are
    given in range and columns are used as they are stored. -/

namespace N8nDataTableColumns

open N8nRun N8nExcept List

/-! ## Names -/

/-- The white space and line ends of `String.prototype.trim`. -/
def isTrimmed (c : Char) : Bool :=
  c.toNat ∈ [9, 10, 11, 12, 13, 32, 0xA0, 0x1680, 0x2028, 0x2029, 0x202F, 0x205F, 0x3000, 0xFEFF]
    || (0x2000 ≤ c.toNat && c.toNat ≤ 0x200A)

def trim (name : String) : String :=
  .ofList ((name.toList.dropWhile isTrimmed).reverse.dropWhile isTrimmed).reverse

def columnMaxLength : Nat := 63

def isLetter (c : Char) : Bool := ('a' ≤ c && c ≤ 'z') || ('A' ≤ c && c ≤ 'Z')

/-- `/^[a-zA-Z][a-zA-Z0-9_]*$/` on what is left when trimmed, and not too
    long. -/
def isValidColumnName (name : String) : Bool :=
  match (trim name).toList with
  | [] => false
  | c :: rest =>
    isLetter c && rest.length < columnMaxLength
      && rest.all fun c => isLetter c || ('0' ≤ c && c ≤ '9') || c = '_'

def columnErrorMessage : String :=
  "Only alphabetical characters and non-leading numbers and underscores are"
    ++ " allowed for column names, and the maximum length is 63 characters."

def systemColumns : List String := ["id", "createdAt", "updatedAt"]

def systemTestingColumn : String := "dryRunState"

inductive DataTableError where
  | userError (message : String)
  | unexpectedError (message : String)
  | notFoundError (message : String)
  | queryFailedError

def columnNameConflict (columnName dataTableName : String) : DataTableError :=
  .userError ("Data table column with name '" ++ columnName
    ++ "' already exists in data table '" ++ dataTableName ++ "'")

def systemColumnNameConflict (columnName type : String) : DataTableError :=
  .userError ("Column name \"" ++ columnName ++ "\" is reserved as a " ++ type ++ " column name.")

def validationError (msg : String) : DataTableError :=
  .userError ("Validation error with data table request: " ++ msg)

/-! ## Tables -/

inductive DataTableColumnType where
  | string | number | boolean | date
deriving DecidableEq

structure DataTableColumn where
  id : Nat
  name : String
  type : DataTableColumnType
  index : Int
deriving DecidableEq

structure DataTableCreateColumnSchema where
  name : String
  type : DataTableColumnType
  index : Option Int

/-- A data table: the rows of its columns, and the columns of its physical
    table. -/
structure DataTable where
  name : String
  columns : List DataTableColumn
  userTable : List String
deriving DecidableEq

/-! ## The physical table -/

section

-- `identifier` maps names to what the database takes to be the same
variable (identifier : String → String)

def createTableWithColumns (columns : List DataTableColumn) : Except DataTableError (List String) :=
  let names := systemColumns ++ columns.map fun c => trim c.name
  if (names.map identifier).Nodup then .ok names
  else .error .queryFailedError

def ddlAddColumn (userTable : List String) (name : String) : Except DataTableError (List String) :=
  if !isValidColumnName name then .error (.unexpectedError columnErrorMessage)
  else if identifier name ∈ userTable.map identifier then
    .error .queryFailedError
  else .ok (userTable ++ [name])

def dropColumnFromTable (userTable : List String) (name : String) :
    Except DataTableError (List String) :=
  if identifier name ∈ userTable.map identifier then
    .ok (userTable.filter fun n => identifier n ≠ identifier name)
  else .error .queryFailedError

def ddlRenameColumn (userTable : List String) (oldName newName : String) :
    Except DataTableError (List String) :=
  if !isValidColumnName oldName || !isValidColumnName newName then
    .error (.unexpectedError columnErrorMessage)
  else if identifier oldName ∉ userTable.map identifier
      ∨ identifier newName ∈ (userTable.filter fun n =>
        identifier n ≠ identifier oldName).map identifier then
    .error .queryFailedError
  else
    .ok (userTable.map fun n =>
      if identifier n = identifier oldName then newName else n)

end

/-! ## The repositories -/

def validateNotSystemColumn (columnName : String) : Except DataTableError Unit :=
  if columnName ∈ systemColumns then
    .error (systemColumnNameConflict columnName "system")
  else if columnName = systemTestingColumn then
    .error (systemColumnNameConflict columnName "testing")
  else .ok ()

def validateUniqueColumnName (columnName : String) (table : DataTable) :
    Except DataTableError Unit :=
  if columnName ∈ table.columns.map (·.name) then
    .error (columnNameConflict columnName table.name)
  else .ok ()

def shiftColumns (columns : List DataTableColumn) (lowestIndex delta : Int) :
    List DataTableColumn :=
  columns.map fun c =>
    if lowestIndex ≤ c.index then { c with index := c.index + delta } else c

section

variable (identifier : String → String)

/-- The positions of the columns of a new table. -/
def givenIndexes (columns : List DataTableCreateColumnSchema) : List Int :=
  columns.mapIdx fun index col => col.index.getD index

/-- The transaction of `createDataTable`; new columns are numbered on. -/
def createDataTable (nextId : Nat) (name : String) (columns : List DataTableCreateColumnSchema) :
    Except DataTableError DataTable := do
  if columns.any fun c => !isValidColumnName c.name then
    throw (validationError columnErrorMessage)
  let columnEntities := columns.mapIdx fun index col =>
    { id := nextId + index, name := col.name, type := col.type
      index := col.index.getD index : DataTableColumn }
  -- the index on data table and name is unique
  if ¬ (columnEntities.map (·.name)).Nodup then throw .queryFailedError
  let userTable ← createTableWithColumns identifier columnEntities
  return { name, columns := columnEntities, userTable }

def addColumn (nextId : Nat) (table : DataTable) (schema : DataTableCreateColumnSchema) :
    Except DataTableError DataTable := do
  validateNotSystemColumn schema.name
  validateUniqueColumnName schema.name table
  let (index, columns) :=
    match schema.index with
    | none => ((table.columns.length : Int), table.columns)
    | some index => (index, shiftColumns table.columns index 1)
  let userTable ← ddlAddColumn identifier table.userTable schema.name
  return { table with
    columns := columns ++ [{ id := nextId, name := schema.name, type := schema.type, index }]
    userTable }

/-- Removing a row that is gone removes nothing. -/
def deleteColumn (table : DataTable) (column : DataTableColumn) :
    Except DataTableError DataTable := do
  let columns := table.columns.filter fun c => c.id ≠ column.id
  let userTable ← dropColumnFromTable identifier table.userTable column.name
  return { table with
    columns := shiftColumns columns column.index (-1), userTable }

def moveColumn (table : DataTable) (column : DataTableColumn)
    (targetIndex : Int) : Except DataTableError DataTable := do
  if targetIndex < 0 then
    throw (validationError "tried to move column to negative index")
  if (table.columns.length : Int) ≤ targetIndex then
    throw (validationError "tried to move column to an index larger than column count")
  let columns := shiftColumns (shiftColumns table.columns column.index (-1)) targetIndex 1
  return { table with
    columns := columns.map fun c =>
      if c.id = column.id then { c with index := targetIndex } else c }

def renameColumn (table : DataTable) (column : DataTableColumn)
    (newName : String) : Except DataTableError DataTable := do
  validateNotSystemColumn newName
  validateUniqueColumnName newName table
  let columns := table.columns.map fun c =>
    if c.id = column.id then { c with name := newName } else c
  let userTable ←
    ddlRenameColumn identifier table.userTable column.name newName
  return { table with columns, userTable }

end

/-! ## The service -/

inductive ColumnOperation where
  | delete
  | move (targetIndex : Int)
  | rename (newName : String)
deriving DecidableEq

/-- A request between `validateColumnExists` and its transaction. -/
structure Request where
  dataTableId : Nat
  column : DataTableColumn
  operation : ColumnOperation
deriving DecidableEq

structure Database where
  tables : List DataTable
  nextColumnId : Nat
  requests : List Request
deriving DecidableEq

def Database.start : Database :=
  { tables := [], nextColumnId := 0, requests := [] }

def validateColumnExists (db : Database) (dataTableId columnId : Nat) :
    Except DataTableError DataTableColumn :=
  match db.tables[dataTableId]? with
  | none =>
    .error (.notFoundError ("Could not find the data table: '" ++ toString dataTableId ++ "'"))
  | some table =>
    match table.columns.find? fun c => c.id = columnId with
    | none =>
      .error (.notFoundError ("Could not find the column '"
        ++ toString columnId ++ "' in the data table: "
        ++ toString dataTableId))
    | some column => .ok column

def Request.transaction (identifier : String → String) (request : Request)
    (table : DataTable) : Except DataTableError DataTable :=
  match request.operation with
  | .delete => deleteColumn identifier table request.column
  | .move targetIndex => moveColumn table request.column targetIndex
  | .rename newName => renameColumn identifier table request.column newName

inductive Event where
  | createDataTable (name : String) (columns : List DataTableCreateColumnSchema)
  | addColumn (dataTableId : Nat) (schema : DataTableCreateColumnSchema)
  | looksUp (dataTableId columnId : Nat) (operation : ColumnOperation)
  | runs (n : Nat)

/-- A transaction on a table; one that fails is rolled back. -/
def Database.within (db : Database) (dataTableId : Nat)
    (transaction : DataTable → Except DataTableError DataTable) : Database :=
  match db.tables[dataTableId]? with
  | none => db
  | some table =>
    match transaction table with
    | .error _ => db
    | .ok table => { db with tables := db.tables.set dataTableId table }

def next (identifier : String → String) (db : Database) : Event → Database
  | .createDataTable name columns =>
    match createDataTable identifier db.nextColumnId name columns with
    | .error _ => db
    | .ok table =>
      { db with
        tables := db.tables ++ [table]
        nextColumnId := db.nextColumnId + columns.length }
  | .addColumn dataTableId schema =>
    { db.within dataTableId fun table =>
        addColumn identifier db.nextColumnId table schema with
      nextColumnId := db.nextColumnId + 1 }
  | .looksUp dataTableId columnId operation =>
    match validateColumnExists db dataTableId columnId with
    | .error _ => db
    | .ok column =>
      { db with
        requests := db.requests ++ [{ dataTableId, column, operation }] }
  | .runs n =>
    match db.requests[n]? with
    | none => db
    | some request =>
      { db.within request.dataTableId (request.transaction identifier)
        with requests := db.requests.eraseIdx n }

def Step (identifier : String → String) (db : Database) (e : Event) (db' : Database) : Prop :=
  db' = next identifier db e

instance {identifier : String → String} {db db' : Database} {e : Event} :
    Decidable (Step identifier db e db') :=
  inferInstanceAs (Decidable (db' = next identifier db e))

/-! ## Order -/

/-- The positions `0, …, n - 1`, each once. -/
def Contiguous (positions : List Int) : Prop :=
  positions.Perm ((List.range positions.length).map Int.ofNat)

instance {positions : List Int} : Decidable (Contiguous positions) :=
  inferInstanceAs (Decidable (List.Perm _ _))

/-- What is stored of the columns: their positions are contiguous, and
    their names are the columns of the physical table. -/
structure Ordered (table : DataTable) : Prop where
  indexes : Contiguous (table.columns.map (·.index))
  names : table.userTable.Perm (systemColumns ++ table.columns.map (·.name))

def AllOrdered (db : Database) : Prop := ∀ table ∈ db.tables, Ordered table

/-- What `createDataTable` checks of the columns. -/
def CreateAccepted (identifier : String → String)
    (columns : List DataTableCreateColumnSchema) : Prop :=
  (∀ c ∈ columns, isValidColumnName c.name) ∧ (columns.map (·.name)).Nodup
    ∧ ((systemColumns ++ columns.map fun c => trim c.name).map identifier).Nodup

/-- What a table checks of a new name. -/
def NameAccepted (table : DataTable) (name : String) : Prop :=
  name ∉ systemColumns ∧ name ≠ systemTestingColumn
    ∧ name ∉ table.columns.map (·.name) ∧ isValidColumnName name

def AddAccepted (identifier : String → String) (table : DataTable) (name : String) : Prop :=
  NameAccepted table name ∧ identifier name ∉ table.userTable.map identifier

/-- What the transaction of a request checks. -/
def Request.Accepted (identifier : String → String) (request : Request)
    (table : DataTable) : Prop :=
  match request.operation with
  | .delete => identifier request.column.name ∈ table.userTable.map identifier
  | .move targetIndex => 0 ≤ targetIndex ∧ targetIndex < table.columns.length
  | .rename newName => NameAccepted table newName
      ∧ isValidColumnName request.column.name
      ∧ identifier request.column.name ∈ table.userTable.map identifier
      ∧ identifier newName ∉ (table.userTable.filter fun n =>
        identifier n ≠ identifier request.column.name).map identifier

/-- The columns from the position on are the ones after the column. -/
def DataTableColumn.StandsAt (c : DataTableColumn) (table : DataTable) (index : Int) : Prop :=
  ∀ d ∈ table.columns, d.id ≠ c.id → (index ≤ d.index ↔ c.index < d.index)

instance {c : DataTableColumn} {table : DataTable} {index : Int} :
    Decidable (c.StandsAt table index) :=
  inferInstanceAs (Decidable (∀ d ∈ table.columns, _ → _))

/-- The column is stored as it was looked up, as far as its request goes by
    it. -/
def Request.Current (identifier : String → String) (request : Request) (table : DataTable) : Prop :=
  ∃ c ∈ table.columns, c.id = request.column.id
    ∧ match request.operation with
      | .delete => identifier c.name = identifier request.column.name
          ∧ c.StandsAt table request.column.index
      | .move _ => c.StandsAt table request.column.index
      | .rename _ => identifier c.name = identifier request.column.name

/-- The condition on a step: unless they are refused, positions are given
    in range, names as they are stored, and requests made of columns that
    are current. -/
def InRange (identifier : String → String) (db : Database) : Event → Prop
  | .createDataTable _ columns => CreateAccepted identifier columns →
      Contiguous (givenIndexes columns) ∧ ∀ c ∈ columns, trim c.name = c.name
  | .addColumn dataTableId schema => ∀ table index, db.tables[dataTableId]? = some table →
      AddAccepted identifier table schema.name → schema.index = some index →
        0 ≤ index ∧ index ≤ table.columns.length
  | .looksUp _ _ _ => True
  | .runs n => ∀ request table, db.requests[n]? = some request →
      db.tables[request.dataTableId]? = some table →
      request.Accepted identifier table → request.Current identifier table

/-! ## Positions -/

theorem contiguous_iff {positions : List Int} : Contiguous positions
    ↔ positions.Nodup ∧ ∀ x ∈ positions, 0 ≤ x ∧ x < positions.length := by
  have hnodup : ((List.range positions.length).map Int.ofNat).Nodup :=
    nodup_range.map fun _ _ => Int.ofNat.inj
  have hmem : ∀ x, x ∈ (List.range positions.length).map Int.ofNat
      ↔ 0 ≤ x ∧ x < positions.length := by
    intro x
    rw [mem_map]
    constructor
    · rintro ⟨n, hn, rfl⟩
      have hlt := mem_range.mp hn
      exact ⟨Int.natCast_nonneg n, Int.ofNat_lt.mpr hlt⟩
    · rintro ⟨hpos, hlt⟩
      obtain ⟨n, rfl⟩ := Int.eq_ofNat_of_zero_le hpos
      exact ⟨n, mem_range.mpr (Int.ofNat_lt.mp hlt), rfl⟩
  constructor
  · intro h
    refine ⟨(h.nodup_iff).mpr hnodup, fun x hx => ?_⟩
    exact (hmem x).mp (h.mem_iff.mp hx)
  · rintro ⟨hpositions, hrange⟩
    have hsubset : positions ⊆ (List.range positions.length).map Int.ofNat :=
      fun x hx => (hmem x).mpr (hrange x hx)
    refine (subperm_of_subset hpositions hsubset).perm_of_length_le ?_
    rw [length_map, length_range]

theorem map_mapIdx_of {α β γ : Type} {l : List α} {f : Nat → α → β}
    {g : β → γ} {h : α → γ} (hgf : ∀ i a, g (f i a) = h a) :
    (l.mapIdx f).map g = l.map h := by
  refine ext_getElem (by simp) fun i hi _ => ?_
  rw [getElem_map, getElem_mapIdx, getElem_map, hgf]

/-- Columns that differ in their ids and in their positions. -/
def Apart (columns : List DataTableColumn) : Prop :=
  columns.Pairwise fun c d => c.id ≠ d.id ∧ c.index ≠ d.index

/-- The positions are below the number of columns. -/
def Placed (columns : List DataTableColumn) : Prop :=
  ∀ c ∈ columns, 0 ≤ c.index ∧ c.index < columns.length

/-- The columns at new positions. -/
def reindex (g : DataTableColumn → Int) (columns : List DataTableColumn) : List DataTableColumn :=
  columns.map fun c => { c with index := g c }

theorem shiftColumns_eq (columns : List DataTableColumn)
    (lowestIndex delta : Int) : shiftColumns columns lowestIndex delta
      = reindex (fun c => if lowestIndex ≤ c.index then c.index + delta
        else c.index) columns := by
  refine map_congr_left fun c _ => ?_
  by_cases hle : lowestIndex ≤ c.index
  · simp [if_pos hle]
  · simp [if_neg hle]

section

variable {columns : List DataTableColumn} {g : DataTableColumn → Int}

theorem Apart.contiguous (h : Apart columns) (hplaced : Placed columns) :
    Contiguous (columns.map (·.index)) := by
  refine contiguous_iff.mpr ⟨?_, ?_⟩
  · exact pairwise_map.mpr (h.imp And.right)
  · intro x hx
    obtain ⟨c, hc, rfl⟩ := mem_map.mp hx
    rw [length_map]
    exact hplaced c hc

theorem Apart.reindex (h : Apart columns)
    (hg : ∀ c ∈ columns, ∀ d ∈ columns, c.id ≠ d.id → c.index ≠ d.index →
      g c ≠ g d) : Apart (reindex g columns) := by
  refine pairwise_map.mpr (h.imp_of_mem fun {c d} hc hd hne => ?_)
  exact ⟨hne.1, hg c hc d hd hne.1 hne.2⟩

theorem Placed.reindex (hg : ∀ c ∈ columns, 0 ≤ g c ∧ g c < columns.length) :
    Placed (reindex g columns) := by
  intro c hc
  obtain ⟨d, hd, rfl⟩ := mem_map.mp hc
  rw [N8nDataTableColumns.reindex, length_map]
  exact hg d hd

variable {d : DataTableColumn}

theorem Apart.concat (h : Apart columns) (hd : ∀ c ∈ columns, c.id ≠ d.id ∧ c.index ≠ d.index) :
    Apart (columns ++ [d]) := by
  refine pairwise_append.mpr ⟨h, pairwise_singleton .., ?_⟩
  intro c hc e he
  rw [mem_singleton.mp he]
  exact hd c hc

variable {c : DataTableColumn}

theorem Apart.eq_of_id (h : Apart columns)
    (hc : c ∈ columns) (hd : d ∈ columns) (hid : c.id = d.id) : c = d := by
  by_contra hne
  have hsymm : Std.Symm fun c d : DataTableColumn =>
      c.id ≠ d.id ∧ c.index ≠ d.index :=
    ⟨fun _ _ h => ⟨h.1.symm, h.2.symm⟩⟩
  exact (List.Pairwise.forall h hc hd hne).1 hid

/-- The columns other than the one with the id. -/
def others (id : Nat) (columns : List DataTableColumn) : List DataTableColumn :=
  columns.filter fun c => c.id ≠ id

theorem mem_others {id : Nat} : d ∈ others id columns ↔ d ∈ columns ∧ d.id ≠ id := by
  rw [others, mem_filter, decide_eq_true_eq]

theorem Apart.perm_others (h : Apart columns)
    (hc : c ∈ columns) : columns.Perm (c :: others c.id columns) := by
  have hnodup : columns.Nodup := h.imp fun hne heq => hne.1 (congrArg DataTableColumn.id heq)
  have herase : columns.erase c = others c.id columns := by
    rw [hnodup.erase_eq_filter]
    refine filter_congr fun d hd => ?_
    rw [Bool.eq_iff_iff, bne_iff_ne, decide_eq_true_eq]
    exact not_congr ⟨fun heq => heq ▸ rfl, h.eq_of_id hd hc⟩
  rw [← herase]
  exact perm_cons_erase hc

theorem Apart.index_ne (h : Apart columns)
    (hc : c ∈ columns) (hd : d ∈ columns) (hid : d.id ≠ c.id) :
    d.index ≠ c.index := by
  have hsymm : Std.Symm fun c d : DataTableColumn =>
      c.id ≠ d.id ∧ c.index ≠ d.index :=
    ⟨fun _ _ h => ⟨h.1.symm, h.2.symm⟩⟩
  exact (List.Pairwise.forall h hd hc fun heq => hid (heq ▸ rfl)).2

end

/-! ## What the transactions do -/

section

variable {identifier : String → String} {nextId : Nat}
  {table table' : DataTable}

theorem checks_ok {name : String} (hsystem : validateNotSystemColumn name = .ok ())
    (hunique : validateUniqueColumnName name table = .ok ())
    (hvalid : isValidColumnName name) : NameAccepted table name := by
  obtain ⟨hnot, hsystem⟩ := unless_eq_ok.mp hsystem
  obtain ⟨htesting, -⟩ := unless_eq_ok.mp hsystem
  obtain ⟨hnew, -⟩ := unless_eq_ok.mp hunique
  exact ⟨hnot, htesting, hnew, hvalid⟩

theorem createDataTable_ok {name : String} {columns : List DataTableCreateColumnSchema}
    (h : createDataTable identifier nextId name columns = .ok table) :
    CreateAccepted identifier columns
      ∧ table.columns = columns.mapIdx (fun index col =>
        { id := nextId + index, name := col.name, type := col.type
          index := col.index.getD index })
      ∧ table.userTable = systemColumns ++ columns.map fun c => trim c.name := by
  obtain ⟨hvalid, h⟩ := unless_eq_ok.mp h
  obtain ⟨hunique, h⟩ := unless_eq_ok.mp h
  obtain ⟨userTable, huser, h⟩ := bind_eq_ok.mp h
  cases h
  have hnames : (columns.mapIdx fun index col =>
      { id := nextId + index, name := col.name, type := col.type
        index := col.index.getD index : DataTableColumn }).map
        (fun c => trim c.name) = columns.map fun c => trim c.name :=
    map_mapIdx_of fun _ _ => rfl
  rw [createTableWithColumns, hnames] at huser
  split at huser
  · next hdistinct =>
      cases huser
      refine ⟨⟨?_, ?_, hdistinct⟩, rfl, rfl⟩
      · intro c hc
        by_contra hinvalid
        refine hvalid (any_eq_true.mpr ⟨c, hc, ?_⟩)
        rw [Bool.not_eq_true', ← Bool.not_eq_true]
        exact hinvalid
      · rw [not_not] at hunique
        refine Eq.subst (motive := List.Nodup) ?_ hunique
        exact map_mapIdx_of fun _ _ => rfl
  · cases huser

theorem addColumn_ok {schema : DataTableCreateColumnSchema}
    (h : addColumn identifier nextId table schema = .ok table') :
    AddAccepted identifier table schema.name
      ∧ table' = { table with
        columns := (match schema.index with
          | none => table.columns
          | some index => shiftColumns table.columns index 1) ++
          [{ id := nextId, name := schema.name, type := schema.type
             index := schema.index.getD table.columns.length }]
        userTable := table.userTable ++ [schema.name] } := by
  obtain ⟨⟨⟩, hsystem, h⟩ := bind_eq_ok.mp h
  obtain ⟨⟨⟩, hunique, h⟩ := bind_eq_ok.mp h
  obtain ⟨userTable, huser, h⟩ := bind_eq_ok.mp h
  obtain ⟨hvalid, huser⟩ := unless_eq_ok.mp huser
  obtain ⟨hnew, huser⟩ := unless_eq_ok.mp huser
  cases huser
  cases h
  refine ⟨⟨checks_ok hsystem hunique (by simpa using hvalid), hnew⟩, ?_⟩
  cases schema.index with
  | none => rfl
  | some index => rfl

variable {column : DataTableColumn}

theorem deleteColumn_ok (h : deleteColumn identifier table column = .ok table') :
    identifier column.name ∈ table.userTable.map identifier
      ∧ table' = { table with
        columns := shiftColumns (table.columns.filter fun c => c.id ≠ column.id) column.index (-1)
        userTable := table.userTable.filter fun n =>
          identifier n ≠ identifier column.name } := by
  obtain ⟨userTable, huser, h⟩ := bind_eq_ok.mp h
  by_cases hmem : identifier column.name ∈ table.userTable.map identifier
  · rw [dropColumnFromTable, if_pos hmem] at huser
    cases huser
    cases h
    exact ⟨hmem, rfl⟩
  · rw [dropColumnFromTable, if_neg hmem] at huser
    cases huser

theorem moveColumn_ok {targetIndex : Int} (h : moveColumn table column targetIndex = .ok table') :
    0 ≤ targetIndex ∧ targetIndex < table.columns.length
      ∧ table' = { table with
        columns := (shiftColumns (shiftColumns table.columns column.index (-1)) targetIndex 1).map
          fun c => if c.id = column.id then { c with index := targetIndex }
            else c } := by
  obtain ⟨hneg, h⟩ := unless_eq_ok.mp h
  obtain ⟨hlarge, h⟩ := unless_eq_ok.mp h
  cases h
  exact ⟨by omega, by omega, rfl⟩

theorem renameColumn_ok {newName : String}
    (h : renameColumn identifier table column newName = .ok table') :
    NameAccepted table newName ∧ isValidColumnName column.name
      ∧ identifier column.name ∈ table.userTable.map identifier
      ∧ identifier newName ∉ (table.userTable.filter fun n =>
        identifier n ≠ identifier column.name).map identifier
      ∧ table' = { table with
        columns := table.columns.map fun c =>
          if c.id = column.id then { c with name := newName } else c
        userTable := table.userTable.map fun n =>
          if identifier n = identifier column.name then newName else n } := by
  obtain ⟨⟨⟩, hsystem, h⟩ := bind_eq_ok.mp h
  obtain ⟨⟨⟩, hunique, h⟩ := bind_eq_ok.mp h
  obtain ⟨userTable, huser, h⟩ := bind_eq_ok.mp h
  obtain ⟨hvalid, huser⟩ := unless_eq_ok.mp huser
  obtain ⟨hstored, huser⟩ := unless_eq_ok.mp huser
  cases huser
  cases h
  rw [Bool.or_eq_true, Bool.not_eq_true', Bool.not_eq_true', not_or,
    Bool.not_eq_false, Bool.not_eq_false] at hvalid
  rw [not_or, not_not] at hstored
  exact ⟨checks_ok hsystem hunique hvalid.2, hvalid.1, hstored.1, hstored.2,
    rfl⟩

end

/-! ## Sound tables -/

/-- What every transaction keeps of a table, with the ids that were given
    out. -/
structure Sound (identifier : String → String) (nextId : Nat)
    (table : DataTable) : Prop where
  apart : Apart table.columns
  placed : Placed table.columns
  fresh : ∀ c ∈ table.columns, c.id < nextId
  names : table.userTable.Perm (systemColumns ++ table.columns.map (·.name))
  distinct : (table.userTable.map identifier).Nodup

section

variable {identifier : String → String} {nextId : Nat}
  {table table' : DataTable}

theorem Sound.ordered (h : Sound identifier nextId table) : Ordered table :=
  ⟨h.apart.contiguous h.placed, h.names⟩

theorem Sound.mono {nextId' : Nat} (h : Sound identifier nextId table)
    (hle : nextId ≤ nextId') : Sound identifier nextId' table :=
  ⟨h.apart, h.placed, fun c hc => Nat.lt_of_lt_of_le (h.fresh c hc) hle, h.names, h.distinct⟩

theorem sound_createDataTable {name : String} {columns : List DataTableCreateColumnSchema}
    (hcreate : createDataTable identifier nextId name columns = .ok table)
    (hindexes : Contiguous (givenIndexes columns)) (htrim : ∀ c ∈ columns, trim c.name = c.name) :
    Sound identifier (nextId + columns.length) table := by
  obtain ⟨⟨-, -, hdistinct⟩, hcolumns, huser⟩ := createDataTable_ok hcreate
  obtain ⟨hnodup, hplaced⟩ := contiguous_iff.mp hindexes
  have hgiven : table.columns.map (·.index) = givenIndexes columns := by
    rw [hcolumns, givenIndexes]
    refine ext_getElem (by simp) fun i hi _ => ?_
    rw [getElem_map, getElem_mapIdx, getElem_mapIdx]
  have hnames : table.columns.map (·.name) = columns.map (·.name) := by
    rw [hcolumns]
    exact map_mapIdx_of fun _ _ => rfl
  refine ⟨?_, ?_, ?_, ?_, ?_⟩
  · refine pairwise_and_iff.mpr ⟨?_, ?_⟩
    · rw [pairwise_iff_getElem]
      intro i j hi hj hij
      simp only [hcolumns, getElem_mapIdx]
      omega
    · exact pairwise_map.mp (hgiven ▸ hnodup)
  · intro c hc
    have hmem : c.index ∈ givenIndexes columns := hgiven ▸ mem_map_of_mem hc
    have hle := hplaced c.index hmem
    rw [← hgiven, length_map] at hle
    exact hle
  · intro c hc
    rw [hcolumns] at hc
    obtain ⟨i, hi, rfl⟩ := mem_mapIdx.mp hc
    exact Nat.add_lt_add_left hi nextId
  · rw [huser, hnames, map_congr_left htrim]
  · rw [huser]
    exact hdistinct

theorem shiftColumns_length {columns : List DataTableColumn} {delta : Int} (h : Placed columns) :
    shiftColumns columns columns.length delta = columns := by
  refine (map_congr_left fun c hc => ?_).trans (map_id columns)
  exact if_neg (Int.not_le.mpr (h c hc).2)

theorem sound_addColumn {schema : DataTableCreateColumnSchema} (h : Sound identifier nextId table)
    (hadd : addColumn identifier nextId table schema = .ok table')
    (hindex : ∀ index, schema.index = some index → 0 ≤ index ∧ index ≤ table.columns.length) :
    Sound identifier (nextId + 1) table' := by
  obtain ⟨⟨-, hnew⟩, rfl⟩ := addColumn_ok hadd
  obtain ⟨index, hget, hrange, hshift⟩ : ∃ index : Int,
      schema.index.getD table.columns.length = index
        ∧ (0 ≤ index ∧ index ≤ table.columns.length)
        ∧ (match schema.index with
          | none => table.columns
          | some index => shiftColumns table.columns index 1)
          = shiftColumns table.columns index 1 := by
    cases hgiven : schema.index with
    | none => exact ⟨_, rfl, by simp, (shiftColumns_length h.placed).symm⟩
    | some index => exact ⟨_, rfl, hindex index hgiven, rfl⟩
  have hnames : (shiftColumns table.columns index 1).map (·.name) = table.columns.map (·.name) := by
    rw [shiftColumns_eq, reindex, map_map]
    rfl
  rw [hget, hshift]
  refine ⟨?_, ?_, ?_, ?_, ?_⟩
  · rw [shiftColumns_eq]
    refine (h.apart.reindex fun c _ d _ _ hne => ?_).concat fun c hc => ?_
    · split <;> split <;> omega
    · obtain ⟨d, hd, rfl⟩ := mem_map.mp hc
      have hfresh := h.fresh d hd
      dsimp only
      refine ⟨by omega, ?_⟩
      split <;> omega
  · intro c hc
    rw [length_append, shiftColumns, length_map, length_singleton]
    rcases mem_append.mp hc with hc | hc
    · rw [shiftColumns_eq] at hc
      obtain ⟨d, hd, rfl⟩ := mem_map.mp hc
      have hplaced := h.placed d hd
      dsimp only
      split <;> omega
    · rw [mem_singleton.mp hc]
      dsimp only
      omega
  · intro c hc
    rcases mem_append.mp hc with hc | hc
    · rw [shiftColumns_eq] at hc
      obtain ⟨d, hd, rfl⟩ := mem_map.mp hc
      exact Nat.lt_succ_of_lt (h.fresh d hd)
    · rw [mem_singleton.mp hc]
      exact Nat.lt_succ_self nextId
  · rw [map_append, hnames, ← append_assoc]
    exact h.names.append_right _
  · rw [map_append]
    refine nodup_append.mpr ⟨h.distinct, nodup_singleton _, ?_⟩
    intro n hn m hm heq
    rw [map_singleton, mem_singleton] at hm
    exact hnew (hm ▸ heq ▸ hn)

variable {c : DataTableColumn}

section

variable (h : Sound identifier nextId table) (hc : c ∈ table.columns)
include h hc

theorem Sound.perm_names :
    table.userTable.Perm (c.name ::
      (systemColumns ++ (others c.id table.columns).map (·.name))) := by
  have hperm := (h.apart.perm_others hc).map (·.name)
  exact h.names.trans ((hperm.append_left _).trans perm_middle)

theorem Sound.name_ne
    {n : String} (hn : n ∈ systemColumns ++ (others c.id table.columns).map (·.name)) :
    identifier n ≠ identifier c.name := by
  have hnodup := ((h.perm_names hc).map identifier).nodup_iff.mp h.distinct
  intro heq
  exact (nodup_cons.mp hnodup).1 (heq ▸ mem_map_of_mem hn)

theorem Sound.perm_filter : (table.userTable.filter fun n => identifier n ≠ identifier c.name).Perm
      (systemColumns ++ (others c.id table.columns).map (·.name)) := by
  have hperm := (h.perm_names hc).filter fun n =>
    identifier n ≠ identifier c.name
  rw [filter_cons_of_neg (by simp)] at hperm
  refine hperm.trans (List.Perm.of_eq (filter_eq_self.mpr ?_))
  intro n hn
  rw [decide_eq_true_eq]
  exact h.name_ne hc hn

end

variable {column : DataTableColumn}

section

variable (h : Sound identifier nextId table)
include h

theorem sound_deleteColumn (hdelete : deleteColumn identifier table column = .ok table')
    (hc : c ∈ table.columns) (hid : c.id = column.id)
    (hname : identifier c.name = identifier column.name) (hat : c.StandsAt table column.index) :
    Sound identifier nextId table' := by
  obtain ⟨-, rfl⟩ := deleteColumn_ok hdelete
  have hcolumns : (table.columns.filter fun d => d.id ≠ column.id)
      = others c.id table.columns := by
    rw [hid, others]
  have hlength := (h.apart.perm_others hc).length_eq
  rw [length_cons] at hlength
  have hcplaced := h.placed c hc
  rw [hcolumns, ← hname, shiftColumns_eq]
  refine ⟨?_, ?_, ?_, ?_, ?_⟩
  · refine Apart.reindex (h.apart.sublist filter_sublist) ?_
    intro d hd e he _ hne
    obtain ⟨hd, hdid⟩ := mem_others.mp hd
    obtain ⟨he, heid⟩ := mem_others.mp he
    have hdat := hat d hd hdid
    have heat := hat e he heid
    have hdne := h.apart.index_ne hc hd hdid
    have hene := h.apart.index_ne hc he heid
    split <;> split <;> omega
  · refine Placed.reindex fun d hd => ?_
    obtain ⟨hd, hdid⟩ := mem_others.mp hd
    have hdat := hat d hd hdid
    have hdne := h.apart.index_ne hc hd hdid
    have hdplaced := h.placed d hd
    split <;> omega
  · intro d hd
    obtain ⟨e, he, rfl⟩ := mem_map.mp hd
    exact h.fresh e (mem_others.mp he).1
  · rw [reindex, map_map]
    exact h.perm_filter hc
  · exact h.distinct.sublist (filter_sublist.map identifier)

theorem sound_moveColumn {targetIndex : Int}
    (hmove : moveColumn table column targetIndex = .ok table') (hc : c ∈ table.columns)
    (hid : c.id = column.id) (hat : c.StandsAt table column.index) :
    Sound identifier nextId table' := by
  obtain ⟨hpos, hlt, rfl⟩ := moveColumn_ok hmove
  -- where a column ends up, from where it stands
  let shifted : Int → Int := fun index =>
    if column.index ≤ index then index - 1 else index
  let g : DataTableColumn → Int := fun d =>
    if d.id = c.id then targetIndex
    else if targetIndex ≤ shifted d.index then shifted d.index + 1
    else shifted d.index
  have hmoved : (shiftColumns (shiftColumns table.columns column.index (-1))
      targetIndex 1).map (fun d =>
        if d.id = column.id then { d with index := targetIndex } else d)
      = reindex g table.columns := by
    rw [shiftColumns_eq, shiftColumns_eq, reindex, reindex, reindex, map_map, map_map]
    refine map_congr_left fun d _ => ?_
    by_cases hdid : d.id = c.id
    · simp [g, hdid, hid]
    · simp [g, shifted, hdid, hid ▸ hdid]
      rfl
  have hcplaced := h.placed c hc
  rw [hmoved]
  have hplace : ∀ d ∈ table.columns, d.id ≠ c.id →
      (column.index ≤ d.index ↔ c.index < d.index) ∧ d.index ≠ c.index
        ∧ 0 ≤ d.index ∧ d.index < table.columns.length := by
    intro d hd hdid
    exact ⟨hat d hd hdid, h.apart.index_ne hc hd hdid, h.placed d hd⟩
  refine ⟨?_, ?_, ?_, ?_, h.distinct⟩
  · refine h.apart.reindex fun d hd e he hde hne => ?_
    dsimp only [g, shifted]
    by_cases hdid : d.id = c.id
    · split <;> split <;> omega
    · rw [if_neg hdid]
      have hd := hplace d hd hdid
      by_cases heid : e.id = c.id
      · split <;> split <;> omega
      · have he := hplace e he heid
        split <;> split <;> split <;> split <;> omega
  · refine Placed.reindex fun d hd => ?_
    dsimp only [g, shifted]
    by_cases hdid : d.id = c.id
    · rw [if_pos hdid]
      exact ⟨hpos, hlt⟩
    · rw [if_neg hdid]
      have hd := hplace d hd hdid
      split <;> split <;> omega
  · intro d hd
    obtain ⟨e, he, rfl⟩ := mem_map.mp hd
    exact h.fresh e he
  · rw [reindex, map_map]
    exact h.names

theorem sound_renameColumn {newName : String}
    (hrename : renameColumn identifier table column newName = .ok table') (hc : c ∈ table.columns)
    (hid : c.id = column.id) (hname : identifier c.name = identifier column.name) :
    Sound identifier nextId table' := by
  obtain ⟨-, -, -, hnew, rfl⟩ := renameColumn_ok hrename
  rw [← hname] at hnew
  rw [← hid, ← hname]
  let rename : DataTableColumn → DataTableColumn := fun d =>
    if d.id = c.id then { d with name := newName } else d
  let renamed : String → String := fun n =>
    if identifier n = identifier c.name then newName else n
  have hself : rename c = { c with name := newName } := if_pos rfl
  have hsame : ∀ d, (rename d).id = d.id ∧ (rename d).index = d.index := by
    intro d
    dsimp only [rename]
    split
    · exact ⟨rfl, rfl⟩
    · exact ⟨rfl, rfl⟩
  have hrows : (table.columns.map rename).Perm (rename c :: others c.id table.columns) := by
    refine ((h.apart.perm_others hc).map rename).trans (List.Perm.cons _ ?_)
    refine List.Perm.of_eq ((map_congr_left fun d hd => ?_).trans (map_id _))
    exact if_neg (mem_others.mp hd).2
  have huser : (table.userTable.map renamed).Perm (newName ::
      (systemColumns ++ (others c.id table.columns).map (·.name))) := by
    refine ((h.perm_names hc).map renamed).trans ?_
    rw [map_cons, show renamed c.name = newName from if_pos rfl]
    refine List.Perm.cons _ (List.Perm.of_eq ((map_congr_left fun n hn => ?_).trans (map_id _)))
    exact if_neg (h.name_ne hc hn)
  have hapart : Apart (table.columns.map rename) := by
    refine pairwise_map.mpr (h.apart.imp fun {d e} hne => ?_)
    rw [(hsame d).1, (hsame e).1, (hsame d).2, (hsame e).2]
    exact hne
  have hplaced : Placed (table.columns.map rename) := by
    intro d hd
    obtain ⟨e, he, rfl⟩ := mem_map.mp hd
    rw [(hsame e).2, length_map]
    exact h.placed e he
  have hfresh : ∀ d ∈ table.columns.map rename, d.id < nextId := by
    intro d hd
    obtain ⟨e, he, rfl⟩ := mem_map.mp hd
    rw [(hsame e).1]
    exact h.fresh e he
  refine ⟨hapart, hplaced, hfresh, ?_, ?_⟩
  · have hnames := hrows.map (·.name)
    rw [map_cons, hself] at hnames
    refine huser.trans (List.Perm.trans ?_ (hnames.append_left _).symm)
    exact perm_middle.symm
  · refine (huser.map identifier).nodup_iff.mpr ?_
    have hfilter := (h.perm_filter hc).map identifier
    refine nodup_cons.mpr ⟨fun hmem => ?_, ?_⟩
    · exact hnew (hfilter.mem_iff.mpr hmem)
    · refine hfilter.nodup_iff.mp ?_
      exact h.distinct.sublist (filter_sublist.map identifier)

end

end

/-! ## Runs -/

section

variable {identifier : String → String}

/-- Every table is sound for the ids given out so far. -/
def AllSound (identifier : String → String) (db : Database) : Prop :=
  ∀ table ∈ db.tables, Sound identifier db.nextColumnId table

variable {db : Database}

theorem AllSound.ordered (h : AllSound identifier db) : AllOrdered db :=
  fun table htable => (h table htable).ordered

theorem allSound_start : AllSound identifier Database.start := fun _ htable => nomatch htable

theorem within_nextColumnId {dataTableId : Nat}
    {transaction : DataTable → Except DataTableError DataTable} :
    (db.within dataTableId transaction).nextColumnId = db.nextColumnId := by
  unfold Database.within
  split
  · rfl
  · split
    · rfl
    · rfl

theorem sound_within {dataTableId nextId : Nat}
    {transaction : DataTable → Except DataTableError DataTable}
    (h : AllSound identifier db) (hle : db.nextColumnId ≤ nextId)
    (htransaction : ∀ table table', db.tables[dataTableId]? = some table →
      transaction table = .ok table' → Sound identifier nextId table') :
    ∀ table ∈ (db.within dataTableId transaction).tables, Sound identifier nextId table := by
  have hkept : ∀ table ∈ db.tables, Sound identifier nextId table :=
    fun table htable => (h table htable).mono hle
  unfold Database.within
  split
  · exact hkept
  · next found hfound =>
      split
      · exact hkept
      · next result hresult =>
          intro table htable
          rcases mem_or_eq_of_mem_set htable with hold | rfl
          · exact hkept table hold
          · exact htransaction found table hfound hresult

theorem sound_transaction {request : Request} {nextId : Nat}
    {table table' : DataTable} (h : Sound identifier nextId table)
    (hrun : request.transaction identifier table = .ok table')
    (hcurrent : request.Accepted identifier table →
      request.Current identifier table) : Sound identifier nextId table' := by
  obtain ⟨dataTableId, column, operation⟩ := request
  cases operation with
  | delete =>
    have haccepted := (deleteColumn_ok hrun).1
    obtain ⟨c, hc, hid, hname, hat⟩ := hcurrent haccepted
    exact sound_deleteColumn h hrun hc hid hname hat
  | move targetIndex =>
    obtain ⟨hpos, hlt, -⟩ := moveColumn_ok hrun
    obtain ⟨c, hc, hid, hat⟩ := hcurrent ⟨hpos, hlt⟩
    exact sound_moveColumn h hrun hc hid hat
  | rename newName =>
    obtain ⟨hname, hvalid, hstored, hnew, -⟩ := renameColumn_ok hrun
    obtain ⟨c, hc, hid, hname⟩ := hcurrent ⟨hname, hvalid, hstored, hnew⟩
    exact sound_renameColumn h hrun hc hid hname

/-- **STEP**: what happens in range keeps every table sound. -/
theorem allSound_step {db' : Database} {e : Event}
    (h : AllSound identifier db) (hstep : Step identifier db e db')
    (hrange : InRange identifier db e) : AllSound identifier db' := by
  subst hstep
  cases e with
  | createDataTable name columns =>
    rw [next]
    split
    · exact h
    · next created hcreate =>
        obtain ⟨hindexes, htrim⟩ := hrange (createDataTable_ok hcreate).1
        intro table htable
        rcases mem_append.mp htable with hold | hnew
        · exact (h table hold).mono (Nat.le_add_right _ _)
        · rw [mem_singleton.mp hnew]
          exact sound_createDataTable hcreate hindexes htrim
  | addColumn dataTableId schema =>
    refine sound_within h (Nat.le_succ _) fun table table' hget hadd => ?_
    have hsound := h table (mem_of_getElem? hget)
    exact sound_addColumn hsound hadd fun index =>
      hrange table index hget (addColumn_ok hadd).1
  | looksUp dataTableId columnId operation =>
    rw [next]
    split
    · exact h
    · exact h
  | runs n =>
    rw [next]
    split
    · exact h
    · next request hrequest =>
        refine sound_within h (Nat.le_of_eq within_nextColumnId.symm)
          fun table table' hget hrun => ?_
        have hsound := sound_transaction (h table (mem_of_getElem? hget))
          hrun (hrange request table hrequest hget)
        exact hsound.mono (Nat.le_of_eq within_nextColumnId.symm)

/-- **COLUMNS IN ORDER**: in a run whose requests name positions in range
    and columns as they are stored, the positions of every table stay
    `0, …, n - 1` and the names those of its physical table. -/
theorem ordered_of_current (identifier : String → String) {path : List (Event × Database)}
    (hrun : IsRun (Step identifier) Database.start path)
    (hrange : EveryStep (InRange identifier) Database.start path) :
    EveryState AllOrdered Database.start path := by
  have hsound : EveryState (AllSound identifier) Database.start path :=
    everyState_of_everyStep hrun allSound_start
      (fun _ _ _ hs hstep hc => allSound_step hs hstep hc) hrange
  exact hsound.mono fun _ => AllSound.ordered

end

/-! ## Two runs -/

def given (name : String) (index : Option Int) : DataTableCreateColumnSchema :=
  { name, type := .string, index }

def stored (id : Nat) (name : String) (index : Int) : DataTableColumn :=
  { id, name, type := .string, index }

/-- The database with one table of these columns. -/
def holding (columns : List DataTableColumn) (nextColumnId : Nat)
    (requests : List Request) : Database :=
  { tables :=
      [{ name := "t", columns
         userTable := systemColumns ++ columns.map (·.name) }]
    nextColumnId, requests }

/-- A column is added in the middle, and moved to the front. -/
def movesToFront : List (Event × Database) :=
  [(.createDataTable "t" [given "a" none, given "b" none],
      holding [stored 0 "a" 0, stored 1 "b" 1] 2 []),
    (.addColumn 0 (given "c" (some 1)),
      holding [stored 0 "a" 0, stored 1 "b" 2, stored 2 "c" 1] 3 []),
    (.looksUp 0 2 (.move 0), holding [stored 0 "a" 0, stored 1 "b" 2, stored 2 "c" 1] 3
        [{ dataTableId := 0, column := stored 2 "c" 1
           operation := .move 0 }]),
    (.runs 0, holding [stored 0 "a" 1, stored 1 "b" 2, stored 2 "c" 0] 3 [])]

theorem movesToFront_ordered : EveryState AllOrdered Database.start movesToFront := by
  refine ordered_of_current id ⟨by decide, by decide, by decide,
    by decide, trivial⟩ ⟨?_, ?_, trivial, ?_, trivial⟩
  · exact fun _ => ⟨by decide, by decide⟩
  · rintro table index hget - hindex
    cases hget
    cases hindex
    decide
  · rintro request table hrequest hget -
    cases hrequest
    cases hget
    refine ⟨stored 2 "c" 1, by decide, rfl, ?_⟩
    show DataTableColumn.StandsAt _ _ _
    decide

/-- The first column is looked up to be deleted, and the second one is
    moved before it first. -/
def overtaken : List Event :=
  [.createDataTable "t" [given "a" none, given "b" none],
    .looksUp 0 0 .delete, .looksUp 0 1 (.move 0), .runs 1, .runs 0]

theorem overtaken_unordered :
    ∃ path, IsRun (Step id) Database.start path ∧ ¬ EveryState AllOrdered Database.start path := by
  refine ⟨pathOf (next id) Database.start overtaken,
    ⟨rfl, rfl, rfl, rfl, rfl, trivial⟩, fun hordered => ?_⟩
  have hlast : lastState Database.start (pathOf (next id) Database.start overtaken)
      = holding [stored 1 "b" (-1)] 2 [] := by
    decide
  have htable := hordered.last
  have hindexes := (htable _ (mem_singleton.mpr rfl)).indexes
  exact absurd hindexes (by decide)

end N8nDataTableColumns
