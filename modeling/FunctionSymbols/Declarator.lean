import FunctionSymbols.Name

/-!
# Declarators

A declarator is an id-expression with at most one parameter clause, and a clause lists nothing or an
ellipsis. Only a declarator with a clause names a function.
-/

namespace FunctionSymbols

/-- What stands between the parentheses of a function declarator. -/
inductive ParameterClause where
  | empty
  | variadic
deriving DecidableEq, Repr

namespace ParameterClause

/-- The clause ends in an ellipsis. -/
def isVariadic : ParameterClause → Bool
  | empty => false
  | variadic => true

/-- The clause that has an ellipsis or has none. -/
def ofIsVariadic : Bool → ParameterClause
  | false => empty
  | true => variadic

/-- The clause without its parentheses. -/
def innerText : ParameterClause → String
  | empty => ""
  | variadic => "..."

/-- The clause as it is written in a source. -/
def text (clause : ParameterClause) : String := "(" ++ clause.innerText ++ ")"

@[simp] theorem ofIsVariadic_isVariadic (clause : ParameterClause) :
    ofIsVariadic clause.isVariadic = clause := by
  cases clause <;> rfl

@[simp] theorem isVariadic_ofIsVariadic (b : Bool) : (ofIsVariadic b).isVariadic = b := by
  cases b <;> rfl

end ParameterClause

/-- A name with or without a parameter clause. -/
structure Declarator where
  id : IdExpression
  parameters : Option ParameterClause
deriving DecidableEq

namespace Declarator

/-- The name, then the clause if there is one. -/
def text (declarator : Declarator) : String :=
  declarator.id.text ++ (declarator.parameters.elim "" ParameterClause.text)

/-- The declarator read as a function: an absent clause lists no parameters. -/
def asFunction (declarator : Declarator) : Declarator :=
  ⟨declarator.id, some (declarator.parameters.getD .empty)⟩

@[simp] theorem text_none (id : IdExpression) : text ⟨id, none⟩ = id.text := by
  simp [text]

@[simp] theorem text_some (id : IdExpression) (clause : ParameterClause) :
    text ⟨id, some clause⟩ = id.text ++ clause.text := rfl

end Declarator

end FunctionSymbols
