import Rustgresql.Basic

/-!
# DDL errors (`executor/ddl_error.rs`)

The errors of DDL statements. They reach the client as texts with a code, the operation and the object.
-/

namespace Rustgresql

/-- DDL operation types for error context -/
inductive DdlOperation
  | create | drop | alter
  deriving DecidableEq

def DdlOperation.display : DdlOperation → String
  | create => "CREATE"
  | drop => "DROP"
  | alter => "ALTER"

/-- DDL object types for error context -/
inductive DdlObjectType
  | table | index | column | constraint
  deriving DecidableEq

def DdlObjectType.display : DdlObjectType → String
  | table => "table"
  | index => "index"
  | column => "column"
  | constraint => "constraint"

/-- The text of an error. Its SQL state depends on its code. -/
def ddlError (code : ℕ) (sqlState message : String) (operation : DdlOperation) (objectType : DdlObjectType)
    (objectName : Option String) : RustgreSQLError :=
  let object := match objectName with
    | some name => s!"{objectType.display} '{name}'"
    | none => objectType.display
  .ddl s!"DDL Error {code}: {message} during {operation.display} operation on {object} (SQLSTATE: {sqlState})"

namespace RustgreSQLError

def tableNotFound (tableName : String) (operation : DdlOperation) : RustgreSQLError :=
  ddlError 4000 "42P01" s!"Table '{tableName}' does not exist" operation .table (some tableName)

def tableAlreadyExists (tableName : String) : RustgreSQLError :=
  ddlError 4001 "42P07" s!"Table '{tableName}' already exists" .create .table (some tableName)

def columnNotFound (columnName tableName : String) (operation : DdlOperation) : RustgreSQLError :=
  ddlError 4100 "42P01" s!"Column '{columnName}' does not exist in table '{tableName}'" operation .column
    (some columnName)

def columnAlreadyExists (columnName tableName : String) : RustgreSQLError :=
  ddlError 4101 "42P07" s!"Column '{columnName}' already exists in table '{tableName}'" .alter .column
    (some columnName)

def columnInUse (columnName : String) : RustgreSQLError :=
  ddlError 4102 "55006"
    s!"Column '{columnName}' cannot be dropped because it is referenced by constraints or indexes" .alter
    .column (some columnName)

def constraintNotFound (constraintName reason : String) : RustgreSQLError :=
  ddlError 4200 "42P01" s!"Constraint '{constraintName}' not found: {reason}" .alter .constraint
    (some constraintName)

def constraintAlreadyExists (constraintName reason : String) : RustgreSQLError :=
  ddlError 4201 "42P07" s!"Constraint '{constraintName}' already exists: {reason}" .alter .constraint
    (some constraintName)

def constraintViolation (constraintName details : String) : RustgreSQLError :=
  ddlError 4202 "XX000" s!"Constraint '{constraintName}' violated: {details}" .create .constraint
    (some constraintName)

def invalidConstraintDefinition (constraintName reason : String) : RustgreSQLError :=
  ddlError 4203 "XX000" s!"Invalid constraint definition '{constraintName}': {reason}" .create .constraint
    (some constraintName)

def invalidCheckCondition (reason : String) : RustgreSQLError :=
  ddlError 4203 "XX000" s!"Invalid CHECK condition: {reason}" .create .constraint none

def indexNotFound (indexName : String) (operation : DdlOperation) : RustgreSQLError :=
  ddlError 4300 "42P01" s!"Index '{indexName}' does not exist" operation .index (some indexName)

/-- With one dependent object its name is in the message, otherwise their number. -/
def dependencyExists (objectName : String) (objectType : DdlObjectType) (dependents : List String) :
    RustgreSQLError :=
  let message := match dependents with
    | [dependent] =>
      s!"{objectType.display} '{objectName}' cannot be dropped because it depends on '{dependent}'"
    | _ =>
      s!"{objectType.display} '{objectName}' cannot be dropped because it has {dependents.length} dependent objects"
  ddlError 4004 "2BP01" message .drop objectType (some objectName)

def ddlTransaction (message : String) : RustgreSQLError :=
  ddlError 4600 "XX000" message .create .table none

def concurrentDdlConflict (objectName : String) (operation : DdlOperation) : RustgreSQLError :=
  ddlError 4602 "XX000" s!"Concurrent DDL operation detected on '{objectName}'" operation .table
    (some objectName)

def unsupportedOperation (operation reason : String) : RustgreSQLError :=
  ddlError 4701 "XX000" s!"Unsupported DDL operation '{operation}': {reason}" .create .table none

end RustgreSQLError

end Rustgresql
