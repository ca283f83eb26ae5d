import RepoPolicy.Sql.Grammar.Basic

set_option autoImplicit false

/-! # Names of data types

A data type is one of the built-in names, which may take several words and arguments, or any other
name. -/

namespace RepoPolicy.Sql.Grammar

/-- The kinds of data types that the grammar tells apart. -/
inductive TypeName where
  | interval
  | builtin
  /-- A name that is no built-in type. -/
  | custom
  deriving DecidableEq, Repr

/-- Built-in types whose name is one word. -/
def simpleTypes : List String :=
  ["BOOLEAN", "BOOL", "REAL", "FLOAT", "FLOAT4", "FLOAT8", "FLOAT32", "FLOAT64", "TINYINT",
    "INT2", "SMALLINT", "MEDIUMINT", "INT", "INT4", "INT8", "INT16", "INT32", "INT64", "INT128",
    "INT256", "INTEGER", "BIGINT", "UINT8", "UINT16", "UINT32", "UINT64", "UINT128", "UINT256",
    "VARCHAR", "NVARCHAR", "CLOB", "BINARY", "VARBINARY", "BLOB", "TINYBLOB", "MEDIUMBLOB",
    "LONGBLOB", "BYTES", "UUID", "DATE", "DATE32", "DATETIME", "DATETIME64", "TIMESTAMPTZ",
    "TIMETZ", "JSON", "JSONB", "REGCLASS", "STRING", "FIXEDSTRING", "TEXT", "TINYTEXT",
    "MEDIUMTEXT", "LONGTEXT", "BYTEA", "NUMERIC", "DECIMAL", "DEC", "BIGNUMERIC", "BIGDECIMAL",
    "TRIGGER"]

/-- Arguments of a type up to the closing parenthesis, at most `fuel` tokens. -/
def typeArguments : Nat → Parser Unit
  | 0 => fail
  | fuel + 1 => do
    match ← next with
    | .symbol ")" => return
    | .symbol "," => typeArguments fuel
    | .word _ _ => typeArguments fuel
    | .number => typeArguments fuel
    | .string _ => typeArguments fuel
    | _ => fail

def optionalTypeArguments : Parser Unit := do
  if ← symbol? "(" then typeArguments ((← get).length + 1)

def timeZone? : Parser Unit := do
  if ← keyword? "WITH" then
    expectKeyword "TIME"
    expectKeyword "ZONE"
  else if ← keyword? "WITHOUT" then
    expectKeyword "TIME"
    expectKeyword "ZONE"

def elementType : Parser TypeName := do
  match ← get with
  | .word _ spelling :: rest =>
    if spelling == "INTERVAL" then
      set rest
      return .interval
    else if spelling == "DOUBLE" then
      set rest
      let _ ← keyword? "PRECISION"
      optionalTypeArguments
      return .builtin
    else if spelling == "CHAR" || spelling == "CHARACTER" then
      set rest
      if !(← keyword? "VARYING") then
        let _ ← keywords? ["LARGE", "OBJECT"]
      optionalTypeArguments
      return .builtin
    else if spelling == "BIT" then
      set rest
      let _ ← keyword? "VARYING"
      optionalTypeArguments
      return .builtin
    else if spelling == "TIMESTAMP" || spelling == "TIME" then
      set rest
      optionalTypeArguments
      timeZone?
      return .builtin
    else if spelling == "ENUM" || spelling == "SET" then
      set rest
      expectSymbol "("
      typeArguments ((← get).length + 1)
      return .builtin
    else if simpleTypes.contains spelling then
      set rest
      optionalTypeArguments
      let _ ← keyword? "UNSIGNED"
      return .builtin
    else
      let _ ← objectName
      optionalTypeArguments
      return .custom
  | _ =>
    let _ ← objectName
    optionalTypeArguments
    return .custom

/-- Brackets after a type, at most `fuel` pairs; the result says whether there are any. -/
def arrayBrackets : Nat → Parser Bool
  | 0 => return false
  | fuel + 1 => do
    if ← symbol? "[" then
      if (← peek) == some .number then
        let _ ← next
      expectSymbol "]"
      let _ ← arrayBrackets fuel
      return true
    else return false

def dataType : Parser TypeName := do
  let element ← elementType
  if ← arrayBrackets ((← get).length + 1) then return .builtin else return element

/-- A unit of time, or another word that stands for a part of a date. -/
def dateField : Parser Unit := do
  match ← next with
  | .word _ _ => return
  | .string _ => return
  | _ => fail

/-- The words that name units of time. -/
def timeUnits : List String :=
  ["CENTURY", "DAY", "DAYS", "DAYOFWEEK", "DAYOFYEAR", "DECADE", "DOW", "DOY", "EPOCH", "HOUR",
    "HOURS", "ISODOW", "ISOWEEK", "ISOYEAR", "JULIAN", "MICROSECOND", "MICROSECONDS", "MILLENIUM",
    "MILLENNIUM", "MILLISECOND", "MILLISECONDS", "MINUTE", "MINUTES", "MONTH", "MONTHS",
    "NANOSECOND", "NANOSECONDS", "QUARTER", "SECOND", "SECONDS", "TIMEZONE", "TIMEZONE_ABBR",
    "TIMEZONE_HOUR", "TIMEZONE_MINUTE", "TIMEZONE_REGION", "WEEK", "WEEKS", "YEAR", "YEARS"]

end RepoPolicy.Sql.Grammar
