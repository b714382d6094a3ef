import FunctionSymbols.Parser.Operation

/-!
# Reading a list of tokens

The operations of a parser once more, as functions of what is registered and of the tokens ahead. There
is no state: each gives a result and the number of tokens that it takes off the list. Behind the list
there are only end tokens.
-/

namespace FunctionSymbols

/-- The identifier that a token spells, if it is tagged as one. -/
def Token.name? (token : Token) : Option Identifier :=
  if token.isIdentifier then (Identifier.ofString token.lexeme).toOption else none

/-- A result, and how many tokens were taken for it. -/
structure Reading (α : Type) where
  result : Except Diagnostic α
  taken : Nat

/-- The same number of tokens for another result. -/
def Reading.map {α β : Type} (f : α → β) (reading : Reading α) : Reading β :=
  ⟨reading.result.map f, reading.taken⟩

/-- What is registered, and with which tags. -/
structure Lexicon where
  keyword : String → Option Tag
  punctuator : String → Option Tag

/-- The registered lexemes of a language, without the lengths that its lexer tries. -/
def Language.lexicon (language : Language) : Lexicon :=
  ⟨language.keywords.lookup, language.punctuators.lookup⟩

/-- The complaint about the first of the tokens ahead. -/
def complaint (expected : String) (ahead : List Token) : Diagnostic :=
  .unexpectedToken expected (ahead.headD .eof).text

namespace Lexicon

variable (lexicon : Lexicon)

/-- The token is the registered punctuator `lexeme`. -/
def isPunctuator (token : Token) (lexeme : String) : Bool :=
  token.lexeme == lexeme && lexicon.punctuator lexeme == some token.tag

/-- The token is the registered keyword `lexeme`. -/
def isKeyword (token : Token) (lexeme : String) : Bool :=
  token.lexeme == lexeme && lexicon.keyword lexeme == some token.tag

/-- The built-in type whose keyword the token is. -/
def builtin? (token : Token) : Option BuiltinType :=
  if lexicon.isKeyword token token.lexeme then BuiltinType.ofKeyword? token.lexeme else none

/-- The names of the longest run of a name and `::`. -/
def scopes : List Token → List Identifier
  | token :: colons :: rest =>
    match token.name? with
    | some name => if lexicon.isPunctuator colons "::" then name :: scopes rest else []
    | none => []
  | _ => []

/-- The longest run of scopes and a name behind it. -/
def named {α : Type} (ofParts : List Identifier → Identifier → α) (ahead : List Token) : Reading α :=
  let names := lexicon.scopes ahead
  let behind := ahead.drop (2 * names.length)
  match behind.head?.bind Token.name? with
  | some last => ⟨.ok (ofParts names last), 2 * names.length + 1⟩
  | none => ⟨.error (complaint "identifier" behind), 2 * names.length⟩

/-- The longest run of built-in types. -/
def builtins : List Token → List BuiltinType
  | [] => []
  | token :: rest =>
    match lexicon.builtin? token with
    | some type => type :: builtins rest
    | none => []

/-- A built-in type or a type name. -/
def typeSpecifier (ahead : List Token) : Reading TypeSpecifier :=
  let head := ahead.headD .eof
  match lexicon.builtin? head with
  | some type => ⟨.ok (.builtin type), 1⟩
  | none =>
    if head.isIdentifier then lexicon.named .ofParts ahead
    else ⟨.error (complaint "type specifier" ahead), 0⟩

/-- One specifier of any kind and the longest run of built-in types behind it. -/
def specifierSequence (ahead : List Token) : Reading SpecifierSequence :=
  let head := ahead.headD .eof
  if head.isIdentifier || (lexicon.builtin? head).isSome then
    match lexicon.typeSpecifier ahead with
    | ⟨.ok first, taken⟩ =>
      let more := lexicon.builtins (ahead.drop taken)
      ⟨.ok ⟨first :: more.map .builtin⟩, taken + more.length⟩
    | ⟨.error d, taken⟩ => ⟨.error d, taken⟩
  else ⟨.error (complaint "declaration specifier" ahead), 0⟩

/-- What stands behind an opening parenthesis, and its number of tokens. -/
def clauseContent (ahead : List Token) : ParameterClause × Nat :=
  let head := ahead.headD .eof
  if lexicon.isPunctuator head "..." then (.variadic, 1)
  else if lexicon.isKeyword head "void" then (.empty, 1)
  else (.empty, 0)

/-- The parameter clause, if the tokens begin with one. -/
def parameters (ahead : List Token) : Reading (Option ParameterClause) :=
  if lexicon.isPunctuator (ahead.headD .eof) "(" then
    let (clause, inner) := lexicon.clauseContent ahead.tail
    let behind := ahead.tail.drop inner
    if lexicon.isPunctuator (behind.headD .eof) ")" then ⟨.ok (some clause), inner + 2⟩
    else ⟨.error (complaint "`)`" behind), inner + 1⟩
  else ⟨.ok none, 0⟩

/-- A name and its parameter clause. -/
def declarator (ahead : List Token) : Reading Declarator :=
  match lexicon.named IdExpression.ofParts ahead with
  | ⟨.ok id, taken⟩ =>
    let clause := lexicon.parameters (ahead.drop taken)
    ⟨clause.result.map fun parameters => ⟨id, parameters⟩, taken + clause.taken⟩
  | ⟨.error d, taken⟩ => ⟨.error d, taken⟩

/-- What a parser operation gives in front of these tokens. -/
def perform (ahead : List Token) : Parser.Operation → Reading Parser.Answer
  | .current => ⟨.ok (.token (ahead.headD .eof)), 0⟩
  | .peek => ⟨.ok (.token (ahead.tail.headD .eof)), 0⟩
  | .advance => ⟨.ok (.token (ahead.headD .eof)), 1⟩
  | .isAtEnd => ⟨.ok (.flag ahead.isEmpty), 0⟩
  | .expectEnd =>
    match ahead with
    | [] => ⟨.ok .done, 0⟩
    | token :: _ => ⟨.error (.trailingInput token.lexeme), 0⟩
  | .nestedName => ⟨.ok (.nestedName ⟨lexicon.scopes ahead⟩), 2 * (lexicon.scopes ahead).length⟩
  | .idExpression => (lexicon.named IdExpression.ofParts ahead).map .idExpression
  | .typeSpecifier => (lexicon.typeSpecifier ahead).map .typeSpecifier
  | .specifierSequence => (lexicon.specifierSequence ahead).map .specifierSequence
  | .parameters => (lexicon.parameters ahead).map .parameters
  | .declarator => (lexicon.declarator ahead).map .declarator

/-- The answers to operations in order, and the place in the stream that they lead to. Each operation
sees the stream from its place on. -/
def run (stream : List Token) :
    Nat → List Parser.Operation → List (Except Diagnostic Parser.Answer) × Nat
  | place, [] => ([], place)
  | place, operation :: rest =>
    let reading := lexicon.perform (stream.drop place) operation
    let (answers, last) := run stream (place + reading.taken) rest
    (reading.result :: answers, last)

end Lexicon

end FunctionSymbols
