import FunctionSymbols.Catalog.Word
import FunctionSymbols.LexemeMap

/-!
# Statements of a catalog

What one line of a catalog says: it opens a table, or gives a key its value. A value is a number or,
on the same line, a table of numbers; no other value has a place in a catalog.
-/

namespace FunctionSymbols.Catalog

/-- What a key may be given. -/
inductive Value where
  | number (n : UInt32)
  | table (entries : LexemeMap UInt32)

/-- What a line says, if it is not blank. -/
inductive Statement where
  /-- The lines that follow are about the table with this path. -/
  | header (path : List String)
  /-- The key with this path has this value. -/
  | assignment (path : List String) (value : Value)

/-- A key: a quoted one, or a plain word of bare characters. -/
def key? : Word → Option String
  | .plain text => if text.all isBareChar then some (String.ofList text) else none
  | .quoted text => some (String.ofList text)
  | .mark _ => none

/-- Keys with points between them, and the words that follow. -/
def path? : List Word → Option (List String × List Word)
  | [] => none
  | w :: .mark '.' :: rest =>
    match key? w, path? rest with
    | some key, some (keys, rest) => some (key :: keys, rest)
    | _, _ => none
  | w :: rest => (key? w).map fun key => ([key], rest)

/-- Entries of a table on one line, up to the closing brace that ends the line. Every key occurs once
and a comma stands only between entries. -/
def entries? (entries : LexemeMap UInt32) : List Word → Option (LexemeMap UInt32)
  | w :: .mark '=' :: .plain digits :: .mark c :: rest =>
    match key? w, word? digits with
    | some key, some n =>
      match entries.insert? key n with
      | some grown =>
        if c = ',' then entries? grown rest
        else if c = '\x7d' ∧ rest = [] then some grown
        else none
      | none => none
    | _, _ => none
  | _ => none

/-- The value that the words of a line end with. -/
def value? : List Word → Option Value
  | [.plain digits] => (word? digits).map .number
  | .mark '\x7b' :: rest =>
    if rest = [.mark '\x7d'] then some (.table .empty) else (entries? .empty rest).map .table
  | _ => none

/-- What the words of a line say. -/
def statement? : List Word → Option Statement
  | .mark '[' :: rest =>
    match path? rest with
    | some (path, [.mark ']']) => some (.header path)
    | _ => none
  | words =>
    match path? words with
    | some (path, .mark '=' :: rest) => (value? rest).map (.assignment path)
    | _ => none

end FunctionSymbols.Catalog
