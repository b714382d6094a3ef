/-!
# Tags and tokens

A token is a lexeme with a tag. Tags are numbers chosen by whoever writes the keyword and punctuator
tables, except for the three smallest, which the lexer keeps for itself.
-/

namespace FunctionSymbols

/-- The number that classifies a token. -/
structure Tag where
  raw : UInt32
deriving DecidableEq, Repr

namespace Tag

/-- The tag of the end of the input. -/
def eof : Tag := ⟨0⟩

/-- The tag of a single character that no table knows. -/
def unknown : Tag := ⟨1⟩

/-- The tag of an identifier that is no keyword. -/
def identifier : Tag := ⟨2⟩

/-- The end of the input, unknown characters and identifiers have tags that no table may assign. -/
def isReserved (tag : Tag) : Bool := tag.raw ≤ identifier.raw

/-- The tag in decimal. -/
def text (tag : Tag) : String := toString tag.raw.toNat

/-- The tag as a reader of a dump sees it: reserved tags by name, all others by number. -/
def label (tag : Tag) : String :=
  if tag = eof then "Tag::EOF"
  else if tag = unknown then "Tag::UNKNOWN"
  else if tag = identifier then "Tag::ID"
  else "Tag(" ++ tag.text ++ ")"

theorem isReserved_iff {tag : Tag} :
    tag.isReserved = true ↔ tag = eof ∨ tag = unknown ∨ tag = identifier := by
  obtain ⟨raw⟩ := tag
  simp only [isReserved, eof, unknown, identifier, mk.injEq, decide_eq_true_eq,
    UInt32.le_iff_toNat_le, ← UInt32.toNat_inj]
  simp
  omega

theorem ne_eof_of_not_isReserved {tag : Tag} (h : tag.isReserved = false) : tag ≠ eof := by
  rintro rfl
  simp [isReserved, eof, identifier] at h

end Tag

/-- A lexeme with its tag. -/
structure Token where
  lexeme : String
  tag : Tag
deriving DecidableEq, Repr

namespace Token

/-- The token that stands for the end of the input. -/
def eof : Token := ⟨"", .eof⟩

/-- A token is the end of the input by its tag alone. -/
def isEof (token : Token) : Bool := token.tag == .eof

/-- A token is an identifier by its tag alone. -/
def isIdentifier (token : Token) : Bool := token.tag == .identifier

/-- The share of a token in a count of the tokens in front of the end. -/
def weight (token : Token) : Nat := if token.isEof then 0 else 1

/-- The token as diagnostics quote it. -/
def text (token : Token) : String :=
  if token.isEof then "end of input" else "`" ++ token.lexeme ++ "`"

@[simp] theorem isEof_eof : eof.isEof = true := rfl

@[simp] theorem isIdentifier_eof : eof.isIdentifier = false := rfl

theorem weight_of_not_isEof {token : Token} (h : token.isEof = false) : token.weight = 1 := by
  simp [weight, h]

theorem weight_le_one (token : Token) : token.weight ≤ 1 := by
  unfold weight
  split <;> omega

theorem isEof_eq_false_of_isIdentifier {token : Token} (h : token.isIdentifier = true) :
    token.isEof = false := by
  simp only [isIdentifier, beq_iff_eq] at h
  simp [isEof, h, Tag.identifier, Tag.eof]

end Token

end FunctionSymbols
