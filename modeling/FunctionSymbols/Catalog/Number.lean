/-!
# Numbers in a catalog

The integers of a TOML document, as far as they are tags: 32 bits without a sign. Decimal numbers may
have a sign and no leading zero; `0x`, `0o` and `0b` introduce other bases; a single underscore may
stand between two digits.
-/

namespace FunctionSymbols.Catalog

/-- The value of a digit in any base up to 16. -/
def digit? (c : Char) : Option Nat :=
  if c.isDigit then some (c.toNat - 48)
  else if 'a' ≤ c ∧ c ≤ 'f' then some (c.toNat - 87)
  else if 'A' ≤ c ∧ c ≤ 'F' then some (c.toNat - 55)
  else none

/-- The value of a digit below `base`. -/
def digitBelow? (base : Nat) (c : Char) : Option Nat := (digit? c).filter (· < base)

/-- Reads digits behind the value `value`. `owed` says that a digit has to come next: at the start
and after an underscore. -/
def digitsFrom? (base value : Nat) (owed : Bool) : List Char → Option Nat
  | [] => if owed then none else some value
  | c :: rest =>
    if c = '_' then (if owed then none else digitsFrom? base value true rest)
    else
      match digitBelow? base c with
      | some d => digitsFrom? base (base * value + d) false rest
      | none => none

/-- Digits with single underscores between them. -/
def digits? (base : Nat) (text : List Char) : Option Nat := digitsFrom? base 0 true text

/-- Decimal digits without a leading zero. -/
def decimal? (text : List Char) : Option Nat :=
  match text with
  | '0' :: _ :: _ => none
  | _ => digits? 10 text

/-- A number that is not negative. Zero may have either sign. -/
def natural? (text : List Char) : Option Nat :=
  match text with
  | '0' :: 'x' :: rest => digits? 16 rest
  | '0' :: 'o' :: rest => digits? 8 rest
  | '0' :: 'b' :: rest => digits? 2 rest
  | '+' :: rest => decimal? rest
  | '-' :: rest => (decimal? rest).filter (· = 0)
  | _ => decimal? text

/-- A number of 32 bits. -/
def word? (text : List Char) : Option UInt32 :=
  match natural? text with
  | some n => if n < UInt32.size then some (UInt32.ofNat n) else none
  | none => none

end FunctionSymbols.Catalog
