import FunctionSymbols.Declarator
import FunctionSymbols.Parser
import FunctionSymbols.TypeSpecifier

/-!
# The productions of the grammar

    declarator   = id-expression [ "(" [ "..." | "void" ] ")" ]
    id-expression = { identifier "::" } identifier
    specifiers   = ( builtin | id-expression ) { builtin }

No production backtracks. Two tokens decide whether a scope is read, one token decides all else.
-/

namespace FunctionSymbols.Parser

variable {σ : Type} [TokenSource σ]

/-- Takes the current token. -/
def advance : Production σ Token := fun parser => .ok parser.current parser.advanced

/-- Nothing may follow. -/
def expectEnd : Production σ Unit := fun parser =>
  if parser.isAtEnd then .ok () parser
  else .error (.trailingInput parser.current.lexeme) parser

/-- Takes this punctuator; `expected` names it in a complaint. -/
def punctuator (lexeme expected : String) : Production σ Unit := fun parser =>
  if parser.isAtPunctuator lexeme then .ok () parser.advanced
  else .error (parser.unexpected expected) parser

/-- Takes an identifier. -/
def identifier : Production σ Identifier := fun parser =>
  if parser.isAtIdentifier then
    match Identifier.ofString parser.current.lexeme with
    | .ok name => .ok name parser.advanced
    | .error d => .error d parser.advanced
  else .error (parser.unexpected "identifier") parser

/-- Takes identifiers as long as each has `::` behind it, and these `::` as well. -/
def scopes (parser : Parser σ) : EStateM.Result Diagnostic (Parser σ) (List Identifier) :=
  if _h : parser.isAtIdentifier ∧ parser.isBeforePunctuator "::" then
    match Identifier.ofString parser.current.lexeme with
    | .ok name =>
      match scopes parser.advanced.advanced with
      | .ok names after => .ok (name :: names) after
      | .error d after => .error d after
    | .error d => .error d parser.advanced
  else .ok [] parser
termination_by parser.bound
decreasing_by
  exact Nat.lt_of_le_of_lt (bound_advanced_le_bound _)
    (bound_advanced_lt (Token.isEof_eq_false_of_isIdentifier _h.1))

/-- The scopes in front of a name, possibly none. -/
def nestedName : Production σ NestedName := do
  return ⟨← scopes⟩

/-- A name with the scopes in front of it. -/
def idExpression : Production σ IdExpression := do
  let names ← scopes
  let last ← identifier
  return .ofParts names last

/-- The built-in type that the current token names, if the language has its keyword. -/
def builtin? (parser : Parser σ) : Option BuiltinType :=
  if parser.isAtKeyword parser.current.lexeme then BuiltinType.ofKeyword? parser.current.lexeme
  else none

omit [TokenSource σ] in
theorem isEof_of_builtin? {parser : Parser σ} {type : BuiltinType}
    (h : parser.builtin? = some type) : parser.current.isEof = false := by
  unfold builtin? at h
  split at h
  · next hk => exact Language.isEof_of_isKeyword hk
  · cases h

/-- A type name with the scopes in front of it. -/
def typeName : Production σ TypeSpecifier := do
  let names ← scopes
  let last ← identifier
  return .ofParts names last

/-- A built-in type or a type name. -/
def typeSpecifier : Production σ TypeSpecifier := fun parser =>
  match parser.builtin? with
  | some type => .ok (.builtin type) parser.advanced
  | none =>
    if parser.isAtIdentifier then typeName parser
    else .error (parser.unexpected "type specifier") parser

theorem bound_of_scopes {parser after : Parser σ} {names : List Identifier}
    (taken : scopes parser = .ok names after) : after.bound ≤ parser.bound := by
  fun_induction scopes parser generalizing names with
  | case1 parser _ name _ more behind found ih =>
    cases taken
    have first := bound_advanced_le_bound parser
    have second := bound_advanced_le_bound parser.advanced
    exact Nat.le_trans (ih found) (Nat.le_trans second first)
  | case2 | case3 => cases taken
  | case4 parser =>
    cases taken
    exact Nat.le_refl _

theorem bound_of_identifier {parser after : Parser σ} {name : Identifier}
    (taken : identifier parser = .ok name after) : after.bound < parser.bound := by
  unfold identifier at taken
  split at taken
  · next named =>
    have more := bound_advanced_lt (Token.isEof_eq_false_of_isIdentifier named)
    split at taken
    · cases taken
      exact more
    · cases taken
  · cases taken

theorem bound_of_typeName {parser after : Parser σ} {specifier : TypeSpecifier}
    (taken : typeName parser = .ok specifier after) : after.bound < parser.bound := by
  simp only [typeName, bind, EStateM.bind] at taken
  split at taken
  · next names behind front =>
    split at taken
    · next last ended back =>
      cases taken
      exact Nat.lt_of_lt_of_le (bound_of_identifier back) (bound_of_scopes front)
    · cases taken
  · cases taken

/-- A specifier takes at least one token. -/
theorem bound_of_typeSpecifier {parser after : Parser σ} {specifier : TypeSpecifier}
    (taken : typeSpecifier parser = .ok specifier after) : after.bound < parser.bound := by
  unfold typeSpecifier at taken
  split at taken
  · next type found =>
    cases taken
    exact bound_advanced_lt (isEof_of_builtin? found)
  · split at taken
    · exact bound_of_typeName taken
    · cases taken

/-- Takes specifiers behind those that have been taken, as long as there are any. A type name is taken in
first position only: an identifier further on is the declarator's. -/
def specifiers (taken : List TypeSpecifier) (parser : Parser σ) :
    EStateM.Result Diagnostic (Parser σ) (List TypeSpecifier) :=
  if (taken.isEmpty && parser.isAtIdentifier) || parser.builtin?.isSome then
    match _h : typeSpecifier parser with
    | .ok specifier after => specifiers (taken ++ [specifier]) after
    | .error d after => .error d after
  else .ok taken parser
termination_by parser.bound
decreasing_by exact bound_of_typeSpecifier _h

/-- One or more specifiers. -/
def specifierSequence : Production σ SpecifierSequence := fun parser =>
  match specifiers [] parser with
  | .ok taken after =>
    if taken.isEmpty then .error (after.unexpected "declaration specifier") after
    else .ok ⟨taken⟩ after
  | .error d after => .error d after

/-- What may stand between the parentheses: an ellipsis, `void`, or nothing. -/
def clauseContent : Production σ ParameterClause := fun parser =>
  if parser.isAtPunctuator "..." then .ok .variadic parser.advanced
  else if parser.isAtKeyword "void" then .ok .empty parser.advanced
  else .ok .empty parser

/-- What follows an opening parenthesis. -/
def clauseTail : Production σ ParameterClause := do
  let clause ← clauseContent
  punctuator ")" "`)`"
  return clause

/-- The parameter clause, if the current token opens one. -/
def parameters : Production σ (Option ParameterClause) := fun parser =>
  if parser.isAtPunctuator "(" then (some <$> clauseTail) parser.advanced
  else .ok none parser

/-- A name and the parameter clause that may follow it. -/
def declarator : Production σ Declarator := do
  let id ← idExpression
  let clause ← parameters
  return ⟨id, clause⟩

/-- A declarator that nothing follows. -/
def wholeDeclarator : Production σ Declarator := do
  let result ← declarator
  expectEnd
  return result

end FunctionSymbols.Parser

namespace FunctionSymbols

/-- The result without the state. -/
def resultOf {ε σ α : Type} : EStateM.Result ε σ α → Except ε α
  | .ok a _ => .ok a
  | .error e _ => .error e

theorem resultOf_eq_ok_iff {ε σ α : Type} {r : EStateM.Result ε σ α} {a : α} :
    resultOf r = .ok a ↔ ∃ s, r = .ok a s := by
  cases r <;> simp [resultOf]

theorem resultOf_eq_error_iff {ε σ α : Type} {r : EStateM.Result ε σ α} {e : ε} :
    resultOf r = .error e ↔ ∃ s, r = .error e s := by
  cases r <;> simp [resultOf]

/-- The declarator that a text is as a whole. -/
def Declarator.ofString (language : Language) (text : String) : Except Diagnostic Declarator :=
  resultOf (Parser.wholeDeclarator (Parser.ofLexer (Lexer.ofSource language text)))

end FunctionSymbols
