import FunctionSymbols.Token

/-!
# Diagnostics

Everything that building a table, reading a declarator or forming a symbol can report. A `Diagnostic`
is the cause with the texts it concerns; its wording, its kind and its code are functions of it.
-/

namespace FunctionSymbols

/-- The part of the work that a diagnostic comes from. -/
inductive Phase where
  /-- Token tables and language catalogs. -/
  | tables
  /-- Identifiers and the grammar. -/
  | grammar
  /-- Symbols. -/
  | symbols
deriving DecidableEq, Repr

/-- What sort of mistake a diagnostic reports. -/
inductive DiagnosticKind where
  /-- A text does not have the expected form. -/
  | format
  /-- The request does not fit the state it meets. -/
  | invalidOperation
  /-- The value is one that is never accepted. -/
  | invalidArgument
deriving DecidableEq, Repr

/-- The kind in words. -/
def DiagnosticKind.name : DiagnosticKind → String
  | .format => "format error"
  | .invalidOperation => "invalid operation"
  | .invalidArgument => "invalid argument"

/-- The cause of a diagnostic, without the texts it concerns. -/
inductive DiagnosticCode where
  | duplicateLexeme
  | unknownLexeme
  | emptyLexeme
  | reservedTag
  | malformedCatalog
  | invalidIdentifier
  | unexpectedToken
  | trailingInput
  | missingParameterClause
  | unsupportedName
deriving DecidableEq, Repr

namespace DiagnosticCode

/-- Every code, by phase and then by number. -/
def all : List DiagnosticCode :=
  [duplicateLexeme, unknownLexeme, emptyLexeme, reservedTag, malformedCatalog,
   invalidIdentifier, unexpectedToken, trailingInput,
   missingParameterClause, unsupportedName]

/-- The stable spelling of a code. Its first digit is the phase. -/
def text : DiagnosticCode → String
  | duplicateLexeme => "E0001"
  | unknownLexeme => "E0002"
  | emptyLexeme => "E0003"
  | reservedTag => "E0004"
  | malformedCatalog => "E0005"
  | invalidIdentifier => "E1001"
  | unexpectedToken => "E1002"
  | trailingInput => "E1003"
  | missingParameterClause => "E2001"
  | unsupportedName => "E2002"

/-- One line on what the code means. -/
def description : DiagnosticCode → String
  | duplicateLexeme => "lexeme already registered"
  | unknownLexeme => "lexeme not registered"
  | emptyLexeme => "empty lexeme"
  | reservedTag => "reserved tag"
  | malformedCatalog => "malformed language catalog"
  | invalidIdentifier => "invalid identifier"
  | unexpectedToken => "unexpected token"
  | trailingInput => "input not parsed entirely"
  | missingParameterClause => "missing parameter clause"
  | unsupportedName => "unsupported name form"

/-- The phase that reports a code. -/
def phase : DiagnosticCode → Phase
  | duplicateLexeme | unknownLexeme | emptyLexeme | reservedTag | malformedCatalog => .tables
  | invalidIdentifier | unexpectedToken | trailingInput => .grammar
  | missingParameterClause | unsupportedName => .symbols

/-- The code with exactly this spelling. -/
def ofText? (text : String) : Option DiagnosticCode := all.find? fun code => code.text == text

/-- The position of a code in `all`. -/
def index (code : DiagnosticCode) : Nat := all.idxOf code

end DiagnosticCode

/-- A failure with the texts it concerns. -/
inductive Diagnostic where
  /-- The table already has this lexeme. -/
  | duplicateLexeme (lexeme : String)
  /-- The table does not have this lexeme. -/
  | unknownLexeme (lexeme : String)
  /-- The empty lexeme would match everywhere. -/
  | emptyLexeme
  /-- The tag belongs to the lexer. -/
  | reservedTag (lexeme : String) (tag : Tag)
  /-- The catalog or the standard it asks for cannot be used. -/
  | malformedCatalog (detail : String)
  /-- The text is no identifier. -/
  | invalidIdentifier (text : String)
  /-- The grammar wants something else at this token. -/
  | unexpectedToken (expected found : String)
  /-- The grammar ends before the input does. -/
  | trailingInput (lexeme : String)
  /-- Only a declarator with a parameter clause names a function. -/
  | missingParameterClause (declarator : String)
  /-- Qualified names have no symbol. -/
  | unsupportedName (name : String)
deriving DecidableEq, Repr

namespace Diagnostic

/-- The cause alone. -/
def code : Diagnostic → DiagnosticCode
  | duplicateLexeme _ => .duplicateLexeme
  | unknownLexeme _ => .unknownLexeme
  | emptyLexeme => .emptyLexeme
  | reservedTag _ _ => .reservedTag
  | malformedCatalog _ => .malformedCatalog
  | invalidIdentifier _ => .invalidIdentifier
  | unexpectedToken _ _ => .unexpectedToken
  | trailingInput _ => .trailingInput
  | missingParameterClause _ => .missingParameterClause
  | unsupportedName _ => .unsupportedName

/-- The sort of mistake. -/
def kind : Diagnostic → DiagnosticKind
  | duplicateLexeme _ | unknownLexeme _ => .invalidOperation
  | emptyLexeme | reservedTag _ _ => .invalidArgument
  | malformedCatalog _ | invalidIdentifier _ | unexpectedToken _ _ | trailingInput _
  | missingParameterClause _ | unsupportedName _ => .format

/-- The diagnostic in words; the texts it concerns are copied in as they are. -/
def message : Diagnostic → String
  | duplicateLexeme lexeme => "lexeme `" ++ lexeme ++ "` is already registered"
  | unknownLexeme lexeme => "lexeme `" ++ lexeme ++ "` is not registered"
  | emptyLexeme => "cannot register an empty lexeme"
  | reservedTag lexeme tag =>
    "tag " ++ tag.text ++ " is reserved and cannot be assigned to `" ++ lexeme ++ "`"
  | malformedCatalog detail => "invalid language catalog: " ++ detail
  | invalidIdentifier text =>
    "`" ++ text ++ "` is not an identifier (expected [_a-zA-Z][_a-zA-Z0-9]*)"
  | unexpectedToken expected found => "expected " ++ expected ++ ", found " ++ found
  | trailingInput lexeme => "not parsed entirely: unexpected `" ++ lexeme ++ "`"
  | missingParameterClause declarator =>
    "declarator `" ++ declarator ++ "` has no parameter clause"
  | unsupportedName name =>
    "cannot mangle `" ++ name ++ "`: only unqualified names are supported"

/-- The message with its code and kind in front. -/
def report (d : Diagnostic) : String :=
  "error[" ++ d.code.text ++ "]: " ++ d.kind.name ++ ": " ++ d.message

end Diagnostic

end FunctionSymbols
