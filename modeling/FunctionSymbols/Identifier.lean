import FunctionSymbols.Diagnostic

/-!
# Identifiers

An identifier is `[_a-zA-Z][_a-zA-Z0-9]*`, ASCII only. Whether a text is one is decided on its UTF-8
bytes: every byte of a character beyond ASCII is at least `0x80` and belongs to neither class, so the
scan never stops inside a character. The lexer reads characters and uses the two character classes.
-/

namespace FunctionSymbols

/-- A byte that may open an identifier: the underscore or an ASCII letter. -/
def isStartByte (b : UInt8) : Bool :=
  b == 0x5F || (0x41 ≤ b && b ≤ 0x5A) || (0x61 ≤ b && b ≤ 0x7A)

/-- A byte that may follow in an identifier: also the ASCII digits. -/
def isContinueByte (b : UInt8) : Bool := isStartByte b || (0x30 ≤ b && b ≤ 0x39)

/-- A character that may open an identifier. -/
def isStartChar (c : Char) : Bool := c == '_' || c.isAlpha

/-- A character that may follow in an identifier. -/
def isContinueChar (c : Char) : Bool := c == '_' || c.isAlphanum

/-- The number of bytes in the longest identifier that `bytes` begin with, 0 if there is none. -/
def prefixLengthOfBytes : List UInt8 → Nat
  | [] => 0
  | b :: rest => if isStartByte b then 1 + (rest.takeWhile isContinueByte).length else 0

/-- The length of the longest identifier that `text` begins with, 0 if there is none. -/
def identifierPrefixLength (text : String) : Nat :=
  prefixLengthOfBytes text.toByteArray.data.toList

/-- The whole of a nonempty text is its longest identifier prefix. -/
def IsIdentifier (text : String) : Prop :=
  text ≠ "" ∧ identifierPrefixLength text = text.utf8ByteSize

instance (text : String) : Decidable (IsIdentifier text) :=
  inferInstanceAs (Decidable (_ ∧ _))

/-- A text that has been found to be an identifier. -/
structure Identifier where
  text : String
  isIdentifier : IsIdentifier text
deriving DecidableEq

namespace Identifier

/-- Accepts exactly the identifiers and reports any other text as it is. -/
def ofString (text : String) : Except Diagnostic Identifier :=
  if h : IsIdentifier text then .ok ⟨text, h⟩ else .error (.invalidIdentifier text)

/-- The number of characters. -/
def length (name : Identifier) : Nat := name.text.length

/-- Identifiers are in the order of their bytes, which is that of their code points. -/
instance : Ord Identifier where
  compare a b := compareOfLessAndEq a.text b.text

theorem text_injective {a b : Identifier} (h : a.text = b.text) : a = b := by
  cases a
  cases b
  simp only at h
  subst h
  rfl

@[simp] theorem ofString_text (name : Identifier) : ofString name.text = .ok name := by
  simp [ofString, name.isIdentifier]

theorem ofString_eq_ok_iff {text : String} {name : Identifier} :
    ofString text = .ok name ↔ name.text = text := by
  constructor
  · intro h
    unfold ofString at h
    split at h
    · cases h
      rfl
    · cases h
  · rintro rfl
    exact ofString_text name

theorem ofString_eq_error_iff {text : String} {d : Diagnostic} :
    ofString text = .error d ↔ ¬ IsIdentifier text ∧ d = .invalidIdentifier text := by
  unfold ofString
  split <;> simp_all [eq_comm]

end Identifier

end FunctionSymbols
