import FunctionSymbols.Diagnostic

/-!
# Language standards

The revisions of the language standard, by their command line names.
-/

namespace FunctionSymbols

/-- A revision of the standard. -/
inductive Standard where
  | year98
  | year03
  | year11
  | year14
  | year17
  | year20
  | year23
deriving DecidableEq, Repr

namespace Standard

/-- Every revision, oldest first. -/
def all : List Standard := [year98, year03, year11, year14, year17, year20, year23]

/-- The name of a revision. -/
def name : Standard → String
  | year98 => "c++98"
  | year03 => "c++03"
  | year11 => "c++11"
  | year14 => "c++14"
  | year17 => "c++17"
  | year20 => "c++20"
  | year23 => "c++23"

/-- The position of a revision in `all`. -/
def index (standard : Standard) : Nat := all.idxOf standard

/-- The revision of this name, in ASCII letters of either case. -/
def ofString (text : String) : Except Diagnostic Standard :=
  match all.find? fun standard => standard.name == text.map Char.toLower with
  | some standard => .ok standard
  | none => .error (.malformedCatalog ("unknown language standard `" ++ text ++ "`"))

end Standard

end FunctionSymbols
