import FunctionSymbols.TokenSource

/-!
# The parser state

A parser holds one token, the current one, and takes further tokens from its source. It recognises a
punctuator or a keyword by its lexeme and by the tag that the language registers for that lexeme, and
an identifier by its tag alone. A construct whose punctuators are not registered never matches.

A `Production` runs from a state to a result and a new state. One that fails leaves the state as it
was when it met the offending token: nothing that was consumed is given back.
-/

namespace FunctionSymbols

namespace Language

/-- The token is the registered punctuator `lexeme`. -/
def isPunctuator (language : Language) (token : Token) (lexeme : String) : Bool :=
  token.lexeme == lexeme && language.punctuators.lookup lexeme == some token.tag

/-- The token is the registered keyword `lexeme`. -/
def isKeyword (language : Language) (token : Token) (lexeme : String) : Bool :=
  token.lexeme == lexeme && language.keywords.lookup lexeme == some token.tag

theorem isEof_of_isKeyword {language : Language} {token : Token} {lexeme : String}
    (h : language.isKeyword token lexeme = true) : token.isEof = false := by
  simp only [isKeyword, Bool.and_eq_true, beq_iff_eq] at h
  simpa [Token.isEof] using
    Tag.ne_eof_of_not_isReserved (TokenTable.isReserved_of_lookup h.2)

end Language

/-- A place in a token source, with the token under it already taken out of the source. -/
structure Parser (σ : Type) where
  language : Language
  source : σ
  current : Token

/-- What reads part of a declaration: a result or a diagnostic, and the state it leaves. -/
abbrev Production (σ α : Type) : Type := EStateM Diagnostic (Parser σ) α

namespace Parser

variable {σ : Type} [TokenSource σ]

/-- The parser at the first token of a source. -/
def ofSource (language : Language) (source : σ) : Parser σ :=
  ⟨language, (TokenSource.next source).2, (TokenSource.next source).1⟩

/-- The parser at the first token that a lexer still yields. -/
def ofLexer (lexer : Lexer) : Parser Lexer := ofSource lexer.language lexer

/-- The token after the current one. -/
def peek (parser : Parser σ) : Token := (TokenSource.next parser.source).1

/-- The state behind the current token. -/
def advanced (parser : Parser σ) : Parser σ := ofSource parser.language parser.source

/-- The current token is the end token. -/
def isAtEnd (parser : Parser σ) : Bool := parser.current.isEof

/-- The current token is an identifier. -/
def isAtIdentifier (parser : Parser σ) : Bool := parser.current.isIdentifier

/-- The current token is this punctuator. -/
def isAtPunctuator (parser : Parser σ) (lexeme : String) : Bool :=
  parser.language.isPunctuator parser.current lexeme

/-- The current token is this keyword. -/
def isAtKeyword (parser : Parser σ) (lexeme : String) : Bool :=
  parser.language.isKeyword parser.current lexeme

/-- The token after the current one is this punctuator. -/
def isBeforePunctuator (parser : Parser σ) (lexeme : String) : Bool :=
  parser.language.isPunctuator parser.peek lexeme

/-- The complaint that something else should stand at the current token. -/
def unexpected (parser : Parser σ) (expected : String) : Diagnostic :=
  .unexpectedToken expected parser.current.text

/-- A bound on the tokens in front of the end, the current one included. -/
def bound (parser : Parser σ) : Nat :=
  TokenSource.bound parser.source + parser.current.weight

/-- Whatever stands under the parser, behind it there is less. -/
theorem bound_advanced_le (parser : Parser σ) :
    parser.advanced.bound ≤ TokenSource.bound parser.source :=
  TokenSource.bound_next parser.source

theorem bound_advanced_lt {parser : Parser σ} (h : parser.current.isEof = false) :
    parser.advanced.bound < parser.bound := by
  have := parser.bound_advanced_le
  unfold bound at *
  rw [Token.weight_of_not_isEof h]
  omega

theorem bound_source_le (parser : Parser σ) : TokenSource.bound parser.source ≤ parser.bound := by
  unfold bound
  omega

theorem bound_advanced_le_bound (parser : Parser σ) : parser.advanced.bound ≤ parser.bound :=
  Nat.le_trans parser.bound_advanced_le parser.bound_source_le

end Parser

end FunctionSymbols
