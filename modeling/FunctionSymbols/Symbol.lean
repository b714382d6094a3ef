import FunctionSymbols.Parser.Production

/-!
# Symbols

The symbol of a function is a marker, the length of its name, the name, and a letter for its
parameters: `foo()` is `_Z3foov` and `bar(...)` is `_Z3barz`. Only unqualified names have symbols. As
the length comes first and has no leading zero, a symbol determines its declarator.
-/

namespace FunctionSymbols.Symbol

/-- What every symbol begins with. -/
def marker : String := "_Z"

/-- A name behind its length in decimal. -/
def sourceName (name : Identifier) : String := toString name.length ++ name.text

/-- The letters for the parameters of a function. -/
def clauseCode : ParameterClause → String
  | .empty => "v"
  | .variadic => "z"

/-- The parameters that the end of a symbol stands for. -/
def clauseOfCode? (code : List Char) : Option ParameterClause :=
  if code = ['v'] then some .empty
  else if code = ['z'] then some .variadic
  else none

/-- The symbol of the function with this name and these parameters. -/
def ofFunction (name : Identifier) (clause : ParameterClause) : String :=
  marker ++ sourceName name ++ clauseCode clause

/-- The name of a function, which has to be unqualified. -/
def functionName (declarator : Declarator) : Except Diagnostic Identifier :=
  match declarator.id.unqualified? with
  | some name => .ok name
  | none => .error (.unsupportedName declarator.id.text)

/-- The parameters of a function, which have to be written. -/
def functionClause (declarator : Declarator) : Except Diagnostic ParameterClause :=
  match declarator.parameters with
  | some clause => .ok clause
  | none => .error (.missingParameterClause declarator.text)

/-- The symbol of a declarator. An unsupported name is reported before a missing clause. -/
def ofDeclarator (declarator : Declarator) : Except Diagnostic String := do
  let name ← functionName declarator
  let clause ← functionClause declarator
  return ofFunction name clause

/-- The symbol of the function that a text declares: the text is read as a declarator that nothing
follows. Without a parameter clause it is a function that takes no parameters. -/
def ofText (language : Language) (text : String) : Except Diagnostic String :=
  match Parser.declarator (Parser.ofLexer (Lexer.ofSource language text)) with
  | .ok declarator parser => do
    resultOf (Parser.expectEnd parser)
    let name ← functionName declarator
    return ofFunction name (declarator.parameters.getD .empty)
  | .error d _ => .error d

/-- Reading a text for its symbol refuses what reading it for its declarator refuses. -/
theorem ofText_eq (language : Language) (text : String) :
    ofText language text =
      Declarator.ofString language text >>= fun declarator =>
        functionName declarator >>= fun name =>
          pure (ofFunction name (declarator.parameters.getD .empty)) := by
  simp only [ofText, Declarator.ofString, Parser.wholeDeclarator, bind, EStateM.bind]
  cases Parser.declarator (Parser.ofLexer (Lexer.ofSource language text)) with
  | error d after => rfl
  | ok declarator after =>
    dsimp only
    cases Parser.expectEnd after <;> rfl

/-- The text of a symbol behind its marker. -/
def dropMarker? : List Char → Option (List Char)
  | '_' :: 'Z' :: rest => some rest
  | _ => none

/-- Lengths are 64-bit numbers. -/
def lengthBound : Nat := UInt64.size

/-- Reads a length, and what follows it. A length has no leading zero and stays below the bound. -/
def readLength? (text : List Char) : Option (Nat × List Char) :=
  match text.takeWhile Char.isDigit with
  | [] => none
  | '0' :: _ => none
  | digits =>
    let length := Nat.ofDigitChars 10 digits 0
    if length < lengthBound then some (length, text.dropWhile Char.isDigit) else none

/-- Cuts a text behind its first `n` bytes in UTF-8. There is no such place inside a character or
behind the end. -/
def splitAtByte? : Nat → List Char → Option (List Char × List Char)
  | 0, text => some ([], text)
  | _ + 1, [] => none
  | n + 1, c :: rest =>
    if c.utf8Size ≤ n + 1 then
      (splitAtByte? (n + 1 - c.utf8Size) rest).map fun (front, back) => (c :: front, back)
    else none

/-- The declarator with this symbol. -/
def declarator? (symbol : String) : Option Declarator := do
  let encoded ← dropMarker? symbol.toList
  let (length, rest) ← readLength? encoded
  let (front, back) ← splitAtByte? length rest
  let name ← (Identifier.ofString (String.ofList front)).toOption
  let clause ← clauseOfCode? back
  return ⟨.unqualified name, some clause⟩

/-- The text of the declarator with this symbol. -/
def demangle? (symbol : String) : Option String := (declarator? symbol).map Declarator.text

end FunctionSymbols.Symbol
