import FunctionSymbols.Identifier
import FunctionSymbols.Language

/-!
# The lexer

At each position blanks are skipped first. Then the longest identifier is taken, with its tag in the
keyword table if it has one; failing that, the longest registered punctuator; failing that, a single
character. At the end of the input there is only the end token, as often as it is asked for.

`scan` reads one token off a text and returns what follows, `tokens` reads them all, and a `Lexer` is
a place in a source from which `scan` goes on.
-/

namespace FunctionSymbols

/-- The characters that separate tokens: space, tab, carriage return and line feed. -/
def isBlank (c : Char) : Bool := c == ' ' || c == '\t' || c == '\r' || c == '\n'

/-- The identifier that begins with `c`, as a keyword if it is one, and what follows. -/
def wordAt (keywords : TokenTable) (c : Char) (rest : List Char) : Token × List Char :=
  let lexeme := String.ofList (c :: rest.takeWhile isContinueChar)
  (⟨lexeme, (keywords.lookup lexeme).getD .identifier⟩, rest.dropWhile isContinueChar)

/-- The punctuator of exactly `n` characters that the text begins with, and what follows. -/
def punctuatorOfLength? (punctuators : TokenTable) (text : List Char) (n : Nat) :
    Option (Token × List Char) :=
  let candidate := text.take n
  if candidate.length = n then
    (punctuators.lookup (String.ofList candidate)).map fun tag =>
      (⟨String.ofList candidate, tag⟩, text.drop n)
  else none

/-- The longest punctuator that the text begins with, and what follows. -/
def punctuatorAt? (punctuators : TokenTable) (text : List Char) : Option (Token × List Char) :=
  punctuators.lengths.findSome? (punctuatorOfLength? punctuators text)

/-- The token that the text begins with, blanks included, and what follows. -/
def tokenAt (language : Language) : List Char → Token × List Char
  | [] => (.eof, [])
  | c :: rest =>
    if isStartChar c then wordAt language.keywords c rest
    else
      match punctuatorAt? language.punctuators (c :: rest) with
      | some found => found
      | none => (⟨String.ofList [c], .unknown⟩, rest)

/-- The next token of the text, and what follows it. -/
def scan (language : Language) (text : List Char) : Token × List Char :=
  tokenAt language (text.dropWhile isBlank)

theorem isEof_wordAt (keywords : TokenTable) (c : Char) (rest : List Char) :
    (wordAt keywords c rest).1.isEof = false := by
  simp only [wordAt, Token.isEof, beq_eq_false_iff_ne]
  cases h : keywords.lookup (String.ofList (c :: rest.takeWhile isContinueChar)) with
  | none => simp [Tag.identifier, Tag.eof]
  | some tag => exact Tag.ne_eof_of_not_isReserved (TokenTable.isReserved_of_lookup h)

theorem punctuatorOfLength?_eq_some {punctuators : TokenTable} {text rest : List Char} {n : Nat}
    {token : Token} (h : punctuatorOfLength? punctuators text n = some (token, rest)) :
    text = token.lexeme.toList ++ rest ∧ punctuators.lookup token.lexeme = some token.tag := by
  simp only [punctuatorOfLength?] at h
  split at h
  · obtain ⟨tag, htag, heq⟩ := Option.map_eq_some_iff.1 h
    cases heq
    exact ⟨by simp, htag⟩
  · cases h

/-- A punctuator is a registered lexeme at the front of the text. -/
theorem punctuatorAt?_eq_some {punctuators : TokenTable} {text rest : List Char} {token : Token}
    (h : punctuatorAt? punctuators text = some (token, rest)) :
    text = token.lexeme.toList ++ rest ∧ punctuators.lookup token.lexeme = some token.tag := by
  obtain ⟨n, -, hn⟩ := List.exists_of_findSome?_eq_some h
  exact punctuatorOfLength?_eq_some hn

/-- A token is cut off the front of a text that does not begin with a blank. -/
theorem lexeme_append_tokenAt (language : Language) (text : List Char) :
    (tokenAt language text).1.lexeme.toList ++ (tokenAt language text).2 = text := by
  cases text with
  | nil => rfl
  | cons c rest =>
    simp only [tokenAt]
    split
    · simp [wordAt]
    · split
      · next found hfound => exact (punctuatorAt?_eq_some hfound).1.symm
      · simp

/-- Only the empty text gives the end token. -/
theorem isEof_tokenAt (language : Language) (text : List Char) :
    (tokenAt language text).1.isEof = text.isEmpty := by
  cases text with
  | nil => rfl
  | cons c rest =>
    simp only [tokenAt]
    split
    · exact isEof_wordAt _ _ _
    · split
      · next found hfound =>
        have := TokenTable.isReserved_of_lookup (punctuatorAt?_eq_some hfound).2
        simpa [Token.isEof] using Tag.ne_eof_of_not_isReserved this
      · rfl

/-- Every text but the empty one gives a token with a lexeme. -/
theorem toList_lexeme_tokenAt_ne_nil {language : Language} {text : List Char} (h : text ≠ []) :
    (tokenAt language text).1.lexeme.toList ≠ [] := by
  cases text with
  | nil => exact absurd rfl h
  | cons c rest =>
    simp only [tokenAt]
    split
    · simp [wordAt]
    · split
      · next found hfound =>
        simpa using TokenTable.ne_empty_of_lookup (punctuatorAt?_eq_some hfound).2
      · simp

theorem tokenAt_suffix (language : Language) (text : List Char) :
    (tokenAt language text).2 <:+ text :=
  ⟨_, lexeme_append_tokenAt language text⟩

theorem scan_suffix (language : Language) (text : List Char) : (scan language text).2 <:+ text :=
  (tokenAt_suffix _ _).trans (List.dropWhile_suffix _)

/-- What follows a token other than the end token is shorter than the text. -/
theorem length_scan_lt {language : Language} {text : List Char}
    (h : (scan language text).1.isEof = false) : (scan language text).2.length < text.length := by
  unfold scan at h ⊢
  rw [isEof_tokenAt, List.isEmpty_eq_false_iff] at h
  have hpos := List.length_pos_iff.2 (@toList_lexeme_tokenAt_ne_nil language _ h)
  have happ := congrArg List.length (lexeme_append_tokenAt language (text.dropWhile isBlank))
  have hdrop := (List.dropWhile_suffix (l := text) isBlank).length_le
  simp only [List.length_append] at happ
  omega

/-- All tokens of a text in front of the end token. -/
def tokens (language : Language) (text : List Char) : List Token :=
  match scan language text, @length_scan_lt language text with
  | (token, rest), _ => if token.isEof then [] else token :: tokens language rest
termination_by text.length
decreasing_by simp_all

theorem tokens_eq (language : Language) (text : List Char) :
    tokens language text =
      if (scan language text).1.isEof then []
      else (scan language text).1 :: tokens language (scan language text).2 := by
  rw [tokens]

/-- At the end the scan stays at the end. -/
theorem scan_eq_of_isEof {language : Language} {text : List Char}
    (h : (scan language text).1.isEof = true) : scan language text = (.eof, []) := by
  unfold scan at h ⊢
  rw [isEof_tokenAt, List.isEmpty_iff] at h
  rw [h]
  rfl

@[simp] theorem tokens_nil (language : Language) : tokens language [] = [] := by
  rw [tokens_eq]
  rfl

/-- A place in a source. -/
structure Lexer where
  language : Language
  source : String
  /-- What has not been read. -/
  rest : List Char
  rest_suffix : rest <:+ source.toList

namespace Lexer

/-- The lexer at the start of a source. -/
def ofSource (language : Language) (source : String) : Lexer :=
  ⟨language, source, source.toList, List.suffix_rfl⟩

/-- The lexer at the start of another source. -/
def reset (lexer : Lexer) (source : String) : Lexer := ofSource lexer.language source

/-- The place as a number of bytes from the start of the source in UTF-8. -/
def offset (lexer : Lexer) : Nat :=
  lexer.source.utf8ByteSize - (String.ofList lexer.rest).utf8ByteSize

/-- The length of the source in characters. -/
def length (lexer : Lexer) : Nat := lexer.source.length

/-- Reads a token. At the end this is the end token, again and again. -/
def next (lexer : Lexer) : Token × Lexer :=
  ((scan lexer.language lexer.rest).1,
   { lexer with
     rest := (scan lexer.language lexer.rest).2
     rest_suffix := (scan_suffix _ _).trans lexer.rest_suffix })

/-- Reads a token other than the end token. -/
def next? (lexer : Lexer) : Option Token × Lexer :=
  let (token, after) := lexer.next
  (if token.isEof then none else some token, after)

/-- The `n`-th token from here, where 0 counts as 1. -/
def lookAhead (lexer : Lexer) : Nat → Token
  | 0 => lexer.next.1
  | 1 => lexer.next.1
  | n + 2 => lexer.next.2.lookAhead (n + 1)

/-- The tokens from here to the end. -/
def remaining (lexer : Lexer) : List Token := tokens lexer.language lexer.rest

/-- Reads all tokens up to the end. -/
def drain (lexer : Lexer) : List Token × Lexer :=
  (lexer.remaining, { lexer with rest := [], rest_suffix := List.nil_suffix })

@[simp] theorem language_next (lexer : Lexer) : lexer.next.2.language = lexer.language := rfl

@[simp] theorem source_next (lexer : Lexer) : lexer.next.2.source = lexer.source := rfl

end Lexer

end FunctionSymbols
