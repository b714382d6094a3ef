import FunctionSymbols.Identifier

/-!
# Names

The names of the declarator grammar: runs of enclosing scopes, names qualified by such a run, and
id-expressions, which are one or the other.
-/

namespace FunctionSymbols

/-- The scopes that enclose a name, outermost first. -/
structure NestedName where
  segments : List Identifier
deriving DecidableEq

namespace NestedName

/-- The outermost scope. -/
def outer? (nested : NestedName) : Option Identifier := nested.segments.head?

/-- Each scope followed by `::`. -/
def text (nested : NestedName) : String :=
  nested.segments.foldr (fun segment rest => segment.text ++ "::" ++ rest) ""

@[simp] theorem text_nil : text ⟨[]⟩ = "" := rfl

@[simp] theorem text_cons (segment : Identifier) (rest : List Identifier) :
    text ⟨segment :: rest⟩ = segment.text ++ "::" ++ text ⟨rest⟩ := rfl

end NestedName

/-- A name behind the scopes that enclose it. -/
structure QualifiedName where
  nested : NestedName
  last : Identifier
deriving DecidableEq

/-- The scopes and then the name. -/
def QualifiedName.text (name : QualifiedName) : String := name.nested.text ++ name.last.text

/-- A name as the grammar's id-expression. A qualified one may still have no scope at all. -/
inductive IdExpression where
  | unqualified (name : Identifier)
  | qualified (name : QualifiedName)
deriving DecidableEq

namespace IdExpression

/-- An id-expression from the scopes that were read and the identifier behind them. -/
def ofParts : List Identifier → Identifier → IdExpression
  | [], last => unqualified last
  | segment :: rest, last => qualified ⟨⟨segment :: rest⟩, last⟩

/-- The identifier, if no scope is written. -/
def unqualified? : IdExpression → Option Identifier
  | unqualified name => some name
  | qualified _ => none

/-- The name with its scopes, if it is qualified. -/
def qualified? : IdExpression → Option QualifiedName
  | unqualified _ => none
  | qualified name => some name

/-- The innermost identifier. -/
def innermost : IdExpression → Identifier
  | unqualified name => name
  | qualified name => name.last

/-- The name as it is written in a source. -/
def text : IdExpression → String
  | unqualified name => name.text
  | qualified name => name.text

@[simp] theorem innermost_ofParts (segments : List Identifier) (last : Identifier) :
    (ofParts segments last).innermost = last := by
  cases segments <;> rfl

theorem text_ofParts (segments : List Identifier) (last : Identifier) :
    (ofParts segments last).text = NestedName.text ⟨segments⟩ ++ last.text := by
  cases segments with
  | nil => simp [ofParts, text]
  | cons segment rest => rfl

end IdExpression

end FunctionSymbols
