import FunctionSymbols.Name

/-!
# Type specifiers

The specifiers that may precede a declarator: the ten built-in type keywords, and type names with or
without enclosing scopes.
-/

namespace FunctionSymbols

/-- The built-in types. -/
inductive BuiltinType where
  | int
  | float
  | bool
  | char
  | wcharT
  | short
  | long
  | signed
  | unsigned
  | double
deriving DecidableEq, Repr

namespace BuiltinType

/-- Every built-in type. -/
def all : List BuiltinType :=
  [int, float, bool, char, wcharT, short, long, signed, unsigned, double]

/-- The keyword that names a built-in type. -/
def keyword : BuiltinType → String
  | int => "int"
  | float => "float"
  | bool => "bool"
  | char => "char"
  | wcharT => "wchar_t"
  | short => "short"
  | long => "long"
  | signed => "signed"
  | unsigned => "unsigned"
  | double => "double"

/-- The built-in type that `text` names. -/
def ofKeyword? (text : String) : Option BuiltinType := all.find? fun type => type.keyword == text

theorem mem_all (type : BuiltinType) : type ∈ all := by
  cases type <;> decide

/-- A spelling that tells the built-in types apart finds each of them. -/
theorem find?_all_eq_some_iff {spelling : BuiltinType → String} (distinct : (all.map spelling).Nodup)
    {text : String} {type : BuiltinType} :
    all.find? (fun other => spelling other == text) = some type ↔ spelling type = text := by
  constructor
  · intro found
    have same := List.find?_some found
    exact beq_iff_eq.1 same
  · rintro rfl
    obtain ⟨front, back, split⟩ := List.append_of_mem type.mem_all
    rw [split, List.map_append, List.map_cons, List.nodup_append] at distinct
    obtain ⟨-, -, apart⟩ := distinct
    refine List.find?_eq_some_iff_append.2 ⟨beq_self_eq_true _, front, back, split, ?_⟩
    intro other member
    have different := apart _ (List.mem_map_of_mem member) _ List.mem_cons_self
    rw [beq_eq_false_iff_ne.2 different]
    rfl

theorem keyword_of_ofKeyword? {text : String} {type : BuiltinType}
    (h : ofKeyword? text = some type) : type.keyword = text :=
  (find?_all_eq_some_iff (by decide)).1 h

@[simp] theorem ofKeyword?_keyword (type : BuiltinType) : ofKeyword? type.keyword = some type :=
  (find?_all_eq_some_iff (by decide)).2 rfl

end BuiltinType

/-- One specifier of a declaration. -/
inductive TypeSpecifier where
  | builtin (type : BuiltinType)
  | named (name : Identifier)
  | qualified (name : QualifiedName)
deriving DecidableEq

namespace TypeSpecifier

/-- A type name from the scopes that were read and the identifier behind them. -/
def ofParts : List Identifier → Identifier → TypeSpecifier
  | [], last => named last
  | segment :: rest, last => qualified ⟨⟨segment :: rest⟩, last⟩

/-- A single word is a built-in type if it is spelled so, and a type name otherwise. -/
def ofWord (text : String) : Except Diagnostic TypeSpecifier :=
  match BuiltinType.ofKeyword? text with
  | some type => .ok (builtin type)
  | none => (Identifier.ofString text).map named

/-- The keyword of a built-in type. -/
def keyword? : TypeSpecifier → Option String
  | builtin type => some type.keyword
  | named _ => none
  | qualified _ => none

/-- The identifier of a type name, without its scopes. -/
def typeName? : TypeSpecifier → Option Identifier
  | builtin _ => none
  | named name => some name
  | qualified name => some name.last

/-- The scopes of a qualified type name. -/
def nested? : TypeSpecifier → Option NestedName
  | builtin _ => none
  | named _ => none
  | qualified name => some name.nested

/-- The specifier is an unqualified type name. -/
def isNamed : TypeSpecifier → Bool
  | named _ => true
  | _ => false

/-- The specifier is a qualified type name. -/
def isQualified : TypeSpecifier → Bool
  | qualified _ => true
  | _ => false

/-- The specifier as it is written in a source. -/
def text : TypeSpecifier → String
  | builtin type => type.keyword
  | named name => name.text
  | qualified name => name.text

theorem text_ofParts (segments : List Identifier) (last : Identifier) :
    (ofParts segments last).text = NestedName.text ⟨segments⟩ ++ last.text := by
  cases segments with
  | nil => simp [ofParts, text]
  | cons segment rest => rfl

end TypeSpecifier

/-- The specifiers of one declaration, in source order. -/
structure SpecifierSequence where
  specifiers : List TypeSpecifier
deriving DecidableEq

namespace SpecifierSequence

/-- The specifiers with one space between neighbours. -/
def text (sequence : SpecifierSequence) : String :=
  " ".intercalate (sequence.specifiers.map TypeSpecifier.text)

end SpecifierSequence

end FunctionSymbols
