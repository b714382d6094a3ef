import FunctionSymbols.Parser.Production

/-!
# Parser operations

What may be asked of a parser, as data, so that a run is a list of operations.
-/

namespace FunctionSymbols.Parser

/-- A request to a parser. -/
inductive Operation where
  /-- The current token. -/
  | current
  /-- The token after it. -/
  | peek
  /-- The current token, which is consumed. -/
  | advance
  /-- Whether the current token is the end token. -/
  | isAtEnd
  /-- Nothing may follow. -/
  | expectEnd
  /-- The scopes in front of a name. -/
  | nestedName
  /-- A name with its scopes. -/
  | idExpression
  /-- One type specifier. -/
  | typeSpecifier
  /-- One or more specifiers. -/
  | specifierSequence
  /-- The parameter clause, if there is one. -/
  | parameters
  /-- A name and its parameter clause. -/
  | declarator
deriving DecidableEq, Repr

/-- The answer to a request that did not fail. -/
inductive Answer where
  | token (token : Token)
  | flag (flag : Bool)
  | done
  | nestedName (nested : NestedName)
  | idExpression (id : IdExpression)
  | typeSpecifier (specifier : TypeSpecifier)
  | specifierSequence (sequence : SpecifierSequence)
  | parameters (clause : Option ParameterClause)
  | declarator (declarator : Declarator)
deriving DecidableEq

variable {σ : Type} [TokenSource σ]

/-- Carries out one operation. -/
def perform : Operation → Production σ Answer
  | .current => fun parser => .ok (.token parser.current) parser
  | .peek => fun parser => .ok (.token parser.peek) parser
  | .advance => .token <$> advance
  | .isAtEnd => fun parser => .ok (.flag parser.isAtEnd) parser
  | .expectEnd => (fun _ => .done) <$> expectEnd
  | .nestedName => .nestedName <$> nestedName
  | .idExpression => .idExpression <$> idExpression
  | .typeSpecifier => .typeSpecifier <$> typeSpecifier
  | .specifierSequence => .specifierSequence <$> specifierSequence
  | .parameters => .parameters <$> parameters
  | .declarator => .declarator <$> declarator

/-- Carries out one operation and keeps the state that it leaves, whether it fails or not. -/
def execute (parser : Parser σ) (operation : Operation) : Except Diagnostic Answer × Parser σ :=
  match perform operation parser with
  | .ok answer after => (.ok answer, after)
  | .error d after => (.error d, after)

/-- Carries out operations in order, also behind one that fails. -/
def run (parser : Parser σ) : List Operation → List (Except Diagnostic Answer) × Parser σ
  | [] => ([], parser)
  | operation :: rest =>
    let (answer, after) := parser.execute operation
    let (answers, last) := after.run rest
    (answer :: answers, last)

end FunctionSymbols.Parser
