import Rustgresql.Basic
import Rustgresql.Lib.HashMap
import Rustgresql.Lib.StateSpec

/-!
# System tables and catalog management

Table definitions, and the table manager with the rows of every table. The manager's own catalog
tables `pg_table` and `pg_column` are two of its tables.
-/

namespace Rustgresql

open StateSpec

/-! ## Values and types -/

/-- Values of rows. Floating-point numbers are their bits. -/
inductive Value
  | integer (i : ℤ)
  | string (s : String)
  | boolean (b : Bool)
  | float (bits : UInt64)
  | timestamp (nanos : ℤ)
  | list (vs : List Value)
  | null

/-- Equality of IEEE numbers: not a number equals nothing, and the two zeros are equal. -/
def floatEq (x y : UInt64) : Bool :=
  let magnitude := fun z : UInt64 => z &&& 0x7fffffffffffffff
  magnitude x ≤ 0x7ff0000000000000 && magnitude y ≤ 0x7ff0000000000000 &&
    (x == y || (magnitude x == 0 && magnitude y == 0))

namespace Value

mutual

/-- The derived `PartialEq`. -/
def eq : Value → Value → Bool
  | integer i, integer j => i == j
  | string s, string t => s == t
  | boolean b, boolean c => b == c
  | float x, float y => floatEq x y
  | timestamp m, timestamp n => m == n
  | list vs, list ws => eqList vs ws
  | null, null => true
  | _, _ => false

def eqList : List Value → List Value → Bool
  | [], [] => true
  | v :: vs, w :: ws => eq v w && eqList vs ws
  | _, _ => false

end

def isNull : Value → Bool
  | null => true
  | _ => false

end Value

/-- Data type kinds -/
inductive DataTypeKind
  | smallInt | integer | bigInt | real | doublePrecision
  | numeric (precision scale : ℕ)
  | decimal (precision scale : ℕ)
  | char (length : ℕ)
  | varchar (length : ℕ)
  | text | bytea | date | time | timeWithTimeZone | timestamp | timestampWithTimeZone | interval
  | boolean | inet | cidr | macAddr | macAddr8 | uuid | json | jsonB
  | array (element : DataTypeKind)
  | serial | bigSerial
  deriving DecidableEq

/-! ## Definitions -/

/-- Column definition -/
structure ColumnDef where
  columnId : ℕ
  name : String
  dataType : DataTypeKind
  nullable : Bool
  defaultValue : Option Value
  primaryKey : Bool
  unique : Bool
  checkConstraint : Option String

/-- Table constraint -/
inductive TableConstraint
  | primaryKey (columns : List String)
  | foreignKey (columns : List String) (referencedTable : String) (referencedColumns : List String)
  | unique (columns : List String)
  | check (condition : String)
  | notNull (column : String)
  deriving DecidableEq

/-- Table definition -/
structure TableDef where
  tableId : ℕ
  name : String
  schemaId : ℕ
  columns : List ColumnDef
  constraints : List TableConstraint

abbrev Row := List Value

/-- System catalog table -/
structure SystemTable where
  definition : TableDef
  data : List Row

namespace SystemTable

/-- Insert data into a table -/
def insert (row : Row) (t : SystemTable) : SystemTable := { t with data := t.data ++ [row] }

/-- Update a row in a table by row index -/
def updateRow (rowIndex : ℕ) (newRow : Row) (t : SystemTable) : SystemTable :=
  { t with data := t.data.set rowIndex newRow }

/-- Delete a row from a table by row index -/
def deleteRow (rowIndex : ℕ) (t : SystemTable) : SystemTable :=
  { t with data := t.data.eraseIdx rowIndex }

end SystemTable

/-! ## Table manager -/

/-- System table manager -/
structure SystemTableManager where
  tables : HashMap String SystemTable
  nextTableId : ℕ

namespace SystemTableManager

abbrev Call (α : Type) := EStateM Failure SystemTableManager α

/-- A column of a built-in table. -/
def builtinColumn (columnId : ℕ) (name : String) (dataType : DataTypeKind) (primaryKey unique : Bool) :
    ColumnDef :=
  ⟨columnId, name, dataType, false, none, primaryKey, unique, none⟩

/-- The definition of `pg_table`. -/
def pgTableDef : TableDef :=
  ⟨0, "pg_table", 0, [builtinColumn 0 "table_id" .integer true false,
    builtinColumn 1 "table_name" .text false true, builtinColumn 2 "schema_id" .integer false false], []⟩

/-- The definition of `pg_column`. -/
def pgColumnDef : TableDef :=
  ⟨1, "pg_column", 0, [builtinColumn 0 "column_id" .integer true false,
    builtinColumn 1 "table_id" .integer false false, builtinColumn 2 "column_name" .text false false], []⟩

/-- The catalog tables, and a counter that starts at 1. -/
def new : SystemTableManager where
  tables := ((∅ : HashMap String SystemTable).insert "pg_table" ⟨pgTableDef, []⟩).insert "pg_column"
    ⟨pgColumnDef, []⟩
  nextTableId := 1

/-- The rows of `pg_column` for a table. -/
def columnRows (tableId : ℕ) (columns : List ColumnDef) : List Row :=
  columns.zipIdx.map fun p => [.integer p.2, .integer tableId, .string p.1.name]

/-- Create a new table. A table of the same name is replaced. -/
def createTable (name : String) (columns : List ColumnDef) : Call ℕ := do
  let tableId := (← get).nextTableId
  modify fun m => { m with nextTableId := tableId + 1 }
  modify fun m => { m with tables := m.tables.insert name ⟨⟨tableId, name, 1, columns, []⟩, []⟩ }
  modify fun m => { m with
    tables := HashMap.adjust "pg_table"
      (fun t => t.insert [.integer tableId, .string name, .integer 1]) m.tables }
  modify fun m => { m with
    tables := HashMap.adjust "pg_column"
      (fun t => { t with data := t.data ++ columnRows tableId columns }) m.tables }
  return tableId

/-- Drop a table -/
def dropTable (name : String) : Call Unit := modify fun m => { m with tables := m.tables.erase name }

/-- Get table definition by name -/
def getTable (name : String) (m : SystemTableManager) : Option TableDef :=
  (m.tables.lookup name).map SystemTable.definition

end SystemTableManager

end Rustgresql
