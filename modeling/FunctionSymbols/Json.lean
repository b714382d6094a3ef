import FunctionSymbols.Diagnostic

/-!
# JSON trees

The values that nodes of the grammar are written to and read from, and the ways in which reading one
fails.
-/

namespace FunctionSymbols

/-- A JSON value. -/
inductive Json where
  | null
  | bool (flag : Bool)
  /-- A number with so many digits behind the point. -/
  | number (mantissa : Int) (places : Nat)
  | string (text : String)
  | array (items : List Json)
  /-- An object, by its keys and their values in the order in which it has them. A key may come twice. -/
  | object (fields : List (String × Json))
deriving Inhabited

/-- Why a value is not the written form of a node. -/
inductive DecodeError where
  /-- It has the wrong shape. -/
  | shape
  /-- It has a text that the node does not accept. -/
  | text (cause : Diagnostic)
deriving DecidableEq

/-- What is said about the failure beyond the fact. -/
def DecodeError.message? : DecodeError → Option String
  | shape => none
  | text cause => some cause.message

end FunctionSymbols
