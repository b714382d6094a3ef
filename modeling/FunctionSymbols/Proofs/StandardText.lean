import FunctionSymbols.Proofs.Respacing
import FunctionSymbols.Proofs.SymbolText

/-!
# Texts in the language of a standard

The language that comes with a standard has no keywords and no punctuators. Its tokens are the longest
words and the other characters one by one, so that only a name between blanks declares a function.
`Symbol.BareOutcome` says, on the characters of a text, what becomes of it: every text has an outcome
there (`Symbol.exists_bareOutcome`), and it is the one that is computed (`Symbol.BareOutcome.ofText_eq`).
-/

namespace FunctionSymbols

/-! ## What becomes of a text -/

/-- The lexeme that a text begins with where nothing is registered: the longest word, or a character
with which no word begins. -/
inductive BareLexeme : List Char → List Char → Prop where
  | word {word rest : List Char} (isWord : IsWord word) (stop : Stops isContinueChar rest) :
      BareLexeme (word ++ rest) word
  | char {c : Char} {rest : List Char} (unblank : isBlank c = false)
      (unstarted : isStartChar c = false) : BareLexeme (c :: rest) [c]

/-- What becomes of a text, read for its symbol, where nothing is registered. -/
inductive Symbol.BareOutcome : List Char → Except Diagnostic String → Prop where
  /-- A name between blanks is a function without parameters. -/
  | symbol {front word back : List Char} (before : ∀ c ∈ front, isBlank c = true)
      (isWord : IsWord word) (behind : ∀ c ∈ back, isBlank c = true) :
      BareOutcome (front ++ (word ++ back))
        (.ok ("_Z" ++ toString word.length ++ String.ofList word ++ "v"))
  /-- Blanks alone are no name. -/
  | absent {front : List Char} (before : ∀ c ∈ front, isBlank c = true) :
      BareOutcome front (.error (.unexpectedToken "identifier" "end of input"))
  /-- The first character that is no blank begins no name. -/
  | unstarted {front rest : List Char} {c : Char} (before : ∀ c ∈ front, isBlank c = true)
      (unblank : isBlank c = false) (unstarted : isStartChar c = false) :
      BareOutcome (front ++ c :: rest)
        (.error (.unexpectedToken "identifier" ("`" ++ String.singleton c ++ "`")))
  /-- Something follows the name. -/
  | trailing {front word gap tail lexeme : List Char} (before : ∀ c ∈ front, isBlank c = true)
      (isWord : IsWord word) (stop : Stops isContinueChar (gap ++ tail))
      (between : ∀ c ∈ gap, isBlank c = true) (begins : BareLexeme tail lexeme) :
      BareOutcome (front ++ (word ++ (gap ++ tail)))
        (.error (.trailingInput (String.ofList lexeme)))

/-! ## Tokens where nothing is registered -/

section

variable {word rest : List Char} {c : Char}

theorem tokens_bare_word (isWord : IsWord word) (stop : Stops isContinueChar rest) :
    tokens .empty (word ++ rest) =
      ⟨String.ofList word, .identifier⟩ :: tokens .empty rest := by
  rw [tokens_append_word .empty isWord stop]
  rfl

theorem tokens_bare_char (unblank : isBlank c = false) (unstarted : isStartChar c = false) :
    tokens .empty (c :: rest) = ⟨String.ofList [c], .unknown⟩ :: tokens .empty rest := by
  have found : Language.empty.lexicon.Finds (c :: rest) ⟨String.ofList [c], .unknown⟩ rest :=
    .unknown unstarted fun _ _ => rfl
  have scanned : scan .empty (c :: rest) = (⟨String.ofList [c], .unknown⟩, rest) := by
    rw [scan_of_stops .empty (stops_cons.2 unblank), tokenAt_of_finds found]
  rw [tokens_eq, scanned]
  rfl

theorem tokens_bare_blanks {blanks : List Char} (blank : ∀ c ∈ blanks, isBlank c = true) :
    tokens .empty blanks = [] := by
  have none := tokens_blanks_append .empty blank []
  rwa [List.append_nil, tokens_nil] at none

/-- The lexeme that a text begins with is that of its first token. -/
theorem BareLexeme.exists_tokens_eq {text lexeme : List Char} (begins : BareLexeme text lexeme) :
    ∃ tag rest, tokens .empty text = ⟨String.ofList lexeme, tag⟩ :: rest := by
  cases begins with
  | word isWord stop => exact ⟨_, _, tokens_bare_word isWord stop⟩
  | char unblank unstarted => exact ⟨_, _, tokens_bare_char unblank unstarted⟩

/-- A character that may begin a word begins a longest one. -/
theorem exists_isWord_append (starts : isStartChar c = true) (rest : List Char) :
    ∃ word behind, c :: rest = word ++ behind ∧ IsWord word ∧ Stops isContinueChar behind := by
  obtain ⟨more, behind, split, all, stop⟩ := exists_isRun isContinueChar rest
  exact ⟨c :: more, behind, congrArg (c :: ·) split, ⟨starts, all⟩, stop⟩

/-- A character that is no blank begins a lexeme. -/
theorem exists_bareLexeme (unblank : isBlank c = false) (rest : List Char) :
    ∃ lexeme, BareLexeme (c :: rest) lexeme := by
  cases starts : isStartChar c with
  | false => exact ⟨_, .char unblank starts⟩
  | true =>
    obtain ⟨word, behind, split, isWord, stop⟩ := exists_isWord_append starts rest
    rw [split]
    exact ⟨_, .word isWord stop⟩

/-! ## Declarators where nothing is registered -/

theorem isPunctuator_bare (token : Token) (lexeme : String) :
    Language.empty.lexicon.isPunctuator token lexeme = false :=
  Bool.and_false _

/-- A name is a declarator, and nothing behind it belongs to it. -/
theorem declarator_bare (name : Identifier) (rest : List Token) :
    Language.empty.lexicon.declarator (⟨name.text, .identifier⟩ :: rest) =
      ⟨.ok ⟨.unqualified name, none⟩, 1⟩ := by
  have named : Token.name? ⟨name.text, .identifier⟩ = some name := Token.name?_eq_some_iff.2 rfl
  have scopes : Language.empty.lexicon.scopes (⟨name.text, .identifier⟩ :: rest) = [] := by
    cases rest with
    | nil => rfl
    | cons colons rest =>
      rw [Lexicon.scopes, named, isPunctuator_bare]
      rfl
  have id : Language.empty.lexicon.named IdExpression.ofParts (⟨name.text, .identifier⟩ :: rest) =
      ⟨.ok (.unqualified name), 1⟩ := by
    rw [named_eq_ok_iff, scopes]
    exact ⟨name, named, rfl, rfl⟩
  exact declarator_eq_ok_iff.2
    ⟨1, 0, id, parameters_eq_none_iff.2 ⟨isPunctuator_bare _ _, rfl⟩, rfl⟩

namespace Symbol

variable {source : String} {list : List Token}

/-- A name that is the only token is a function without parameters. -/
theorem ofText_bare_name {name : Identifier}
    (read : tokens .empty source.toList = [⟨name.text, .identifier⟩]) :
    ofText .empty source = .ok (ofFunction name .empty) := by
  have accepted : Declarator.ofString .empty source = .ok ⟨.unqualified name, none⟩ := by
    rw [Declarator.ofString_eq_reading, read, declarator_bare]
    rfl
  exact ofText_eq_ok_iff.2 ⟨name, none, accepted, rfl⟩

/-- A token behind a name is too much. -/
theorem ofText_bare_trailing {name : Identifier} {token : Token}
    (read : tokens .empty source.toList = ⟨name.text, .identifier⟩ :: token :: list) :
    ofText .empty source = .error (.trailingInput token.lexeme) := by
  apply ofText_eq_error
  rw [Declarator.ofString_eq_reading, read, declarator_bare]
  rfl

/-- Without a name in front there is no function. -/
theorem ofText_bare_unnamed (read : tokens .empty source.toList = list)
    (unnamed : list.head?.bind Token.name? = none) :
    ofText .empty source = .error (complaint "identifier" list) := by
  apply ofText_eq_error
  rw [Declarator.ofString_eq_reading, read]
  cases list with
  | nil => rfl
  | cons token rest => rw [declarator_of_name?_eq_none _ unnamed]

/-- The outcome of a text is the one that is computed. -/
theorem BareOutcome.ofText_eq {outcome : Except Diagnostic String}
    (becomes : BareOutcome source.toList outcome) : ofText .empty source = outcome := by
  generalize whole : source.toList = text at becomes
  cases becomes with
  | @symbol front word back before isWord behind =>
    obtain ⟨name, text⟩ := Identifier.exists_of_isWord isWord
    have stop : Stops isContinueChar back := by
      intro c first
      exact isContinueChar_eq_false_of_isBlank (behind c (List.mem_of_mem_head? first))
    have read : tokens .empty source.toList = [⟨name.text, .identifier⟩] := by
      rw [whole, tokens_blanks_append .empty before, tokens_bare_word isWord stop,
        tokens_bare_blanks behind, text]
    have length : name.length = word.length := by
      rw [Identifier.length, text, String.length_ofList]
    rw [ofText_bare_name read, ofFunction, sourceName, length, text, ← String.append_assoc]
    rfl
  | absent before =>
    have read : tokens .empty source.toList = [] := by rw [whole, tokens_bare_blanks before]
    exact ofText_bare_unnamed read rfl
  | @unstarted front rest c before unblank unstarted =>
    have read : tokens .empty source.toList =
        ⟨String.ofList [c], .unknown⟩ :: tokens .empty rest := by
      rw [whole, tokens_blanks_append .empty before, tokens_bare_char unblank unstarted]
    rw [ofText_bare_unnamed read rfl, complaint, String.singleton_eq_ofList]
    rfl
  | @trailing front word gap tail lexeme before isWord stop between begins =>
    obtain ⟨name, text⟩ := Identifier.exists_of_isWord isWord
    obtain ⟨tag, rest, more⟩ := begins.exists_tokens_eq
    have read : tokens .empty source.toList =
        ⟨name.text, .identifier⟩ :: ⟨String.ofList lexeme, tag⟩ :: rest := by
      rw [whole, tokens_blanks_append .empty before, tokens_bare_word isWord stop,
        tokens_blanks_append .empty between, more, text]
    exact ofText_bare_trailing read

/-- Every text has an outcome. -/
theorem exists_bareOutcome (text : List Char) : ∃ outcome, BareOutcome text outcome := by
  obtain ⟨front, body, rfl, before, unblank⟩ := exists_isRun isBlank text
  cases body with
  | nil =>
    rw [List.append_nil]
    exact ⟨_, .absent before⟩
  | cons c rest =>
    rw [stops_cons] at unblank
    cases starts : isStartChar c with
    | false => exact ⟨_, .unstarted before unblank starts⟩
    | true =>
      obtain ⟨word, behind, split, isWord, stop⟩ := exists_isWord_append starts rest
      obtain ⟨gap, tail, rfl, between, apart⟩ := exists_isRun isBlank behind
      rw [split]
      cases tail with
      | nil =>
        rw [List.append_nil]
        exact ⟨_, .symbol before isWord between⟩
      | cons d more =>
        obtain ⟨lexeme, begins⟩ := exists_bareLexeme (stops_cons.1 apart) more
        exact ⟨_, .trailing before isWord stop between begins⟩

/-- **Symbols in the language of a standard.** With what comes with a standard, exactly the texts that are
a name between blanks have a symbol, which is the marker, the length of the name, the name, and the letter
for no parameters. Any other text is refused: where no name begins, for the character that stands there or
for the end; else for what follows the name, the longest word that begins there or the one character. -/
theorem ofText_ofStandard_iff (standard : Standard) (source : String)
    (outcome : Except Diagnostic String) :
    ofText (.ofStandard standard) source = outcome ↔ BareOutcome source.toList outcome := by
  have bare : Language.ofStandard standard = .empty := rfl
  rw [bare]
  constructor
  · rintro rfl
    obtain ⟨outcome, becomes⟩ := exists_bareOutcome source.toList
    rwa [becomes.ofText_eq]
  · exact BareOutcome.ofText_eq

/-- A character beyond ASCII ends a name, and a digit begins none. -/
example :
    ofText (.ofStandard .year17) "\t_f1 \r\n" = .ok "_Z3_f1v" ∧
    ofText (.ofStandard .year17) " fé" = .error (.trailingInput "é") ∧
    ofText (.ofStandard .year17) "f g1(" = .error (.trailingInput "g1") ∧
    ofText (.ofStandard .year17) " 1f" = .error (.unexpectedToken "identifier" "`1`") := by
  decide +kernel

end Symbol

end

end FunctionSymbols
