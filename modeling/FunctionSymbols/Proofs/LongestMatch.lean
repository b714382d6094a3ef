import FunctionSymbols.Proofs.Reading
import FunctionSymbols.Proofs.Scanning

/-!
# The next token by what is registered

What a lexer reads next, said by the lexemes that are registered and not by the lengths that the scan
tries: `Finds` relates a text to the token that it begins with. The scan skips the longest run of
blanks and finds exactly this token (`tokenAt_eq_iff_finds`), and the place of the lexer moves by the
bytes of the two.
-/

namespace FunctionSymbols

/-- The token that a text without blanks in front begins with, and what follows it. -/
inductive Lexicon.Finds (lexicon : Lexicon) : List Char → Token → List Char → Prop where
  /-- A word as long as it goes on, with its tag if it is a keyword. -/
  | word {word rest : List Char} (isWord : IsWord word) (stop : Stops isContinueChar rest) :
      Finds lexicon (word ++ rest)
        ⟨String.ofList word, (lexicon.keyword (String.ofList word)).getD .identifier⟩ rest
  /-- Where no word begins, the longest of the registered punctuators that begin the text. -/
  | punctuator {lexeme : String} {tag : Tag} {rest : List Char}
      (unstarted : Stops isStartChar (lexeme.toList ++ rest))
      (registered : lexicon.punctuator lexeme = some tag)
      (longest : ∀ other, lexicon.punctuator other ≠ none →
        other.toList <+: lexeme.toList ++ rest → other.length ≤ lexeme.length) :
      Finds lexicon (lexeme.toList ++ rest) ⟨lexeme, tag⟩ rest
  /-- Where no word and no registered punctuator begins, a single character. -/
  | unknown {c : Char} {rest : List Char} (unstarted : isStartChar c = false)
      (unregistered : ∀ lexeme, lexeme.toList <+: c :: rest → lexicon.punctuator lexeme = none) :
      Finds lexicon (c :: rest) ⟨String.ofList [c], .unknown⟩ rest
  /-- At the end only the end token. -/
  | eof : Finds lexicon [] .eof []

variable {language : Language} {text rest : List Char} {token : Token}

theorem TokenTable.lookup_ne_none_iff {table : TokenTable} {lexeme : String} :
    table.lookup lexeme ≠ none ↔ table.contains lexeme = true := by
  rw [Ne, ← TokenTable.contains_eq_false_iff, Bool.not_eq_false]

/-- Every text begins with a token, and it is the one that the scan takes. -/
theorem finds_tokenAt (language : Language) (text : List Char) :
    language.lexicon.Finds text (tokenAt language text).1 (tokenAt language text).2 := by
  cases text with
  | nil => exact .eof
  | cons c rest =>
    rw [tokenAt]
    split
    · next start =>
      have split := List.takeWhile_append_dropWhile (p := isContinueChar) (l := rest)
      have found : language.lexicon.Finds _ _ _ :=
        .word (isWord_cons_takeWhile start rest) (stops_dropWhile (p := isContinueChar) rest)
      rw [List.cons_append, split] at found
      exact found
    · next unstarted =>
      rw [Bool.not_eq_true] at unstarted
      cases found : punctuatorAt? language.punctuators (c :: rest) with
      | none => exact .unknown unstarted (punctuatorAt?_eq_none_iff.1 found)
      | some result =>
        obtain ⟨⟨lexeme, tag⟩, behind⟩ := result
        obtain ⟨split, registered, longest⟩ := punctuatorAt?_eq_some_iff.1 found
        dsimp only at split registered longest ⊢
        have starts : Stops isStartChar (lexeme.toList ++ behind) := by
          rw [← split]
          exact stops_cons.2 unstarted
        rw [split] at longest ⊢
        refine .punctuator starts registered ?_
        intro other contained begins
        exact longest other (TokenTable.lookup_ne_none_iff.1 contained) begins

/-- A text begins with one token only. -/
theorem tokenAt_of_finds (found : language.lexicon.Finds text token rest) :
    tokenAt language text = (token, rest) := by
  cases found with
  | word isWord stop => exact tokenAt_append_word language isWord stop
  | punctuator unstarted registered longest =>
    apply tokenAt_append_punctuator registered unstarted
    intro other contained begins
    exact longest other (TokenTable.lookup_ne_none_iff.2 contained) begins
  | unknown unstarted unregistered =>
    have missed := punctuatorAt?_eq_none_iff.2 unregistered
    simp only [tokenAt, unstarted, Bool.false_eq_true, if_false, missed]
  | eof => rfl

theorem tokenAt_eq_iff_finds :
    tokenAt language text = (token, rest) ↔ language.lexicon.Finds text token rest := by
  constructor
  · intro taken
    have found := finds_tokenAt language text
    rw [taken] at found
    exact found
  · exact tokenAt_of_finds

/-- The scan is a run of blanks and the token behind it. -/
theorem scan_eq_iff_finds :
    scan language text = (token, rest) ↔
      ∃ blanks behind, IsRun isBlank text blanks behind ∧
        language.lexicon.Finds behind token rest := by
  rw [scan, tokenAt_eq_iff_finds]
  constructor
  · intro found
    exact ⟨_, _, isRun_iff.2 ⟨rfl, rfl⟩, found⟩
  · rintro ⟨blanks, behind, run, found⟩
    obtain ⟨-, rfl⟩ := isRun_iff.1 run
    exact found

namespace Lexicon.Finds

theorem split {lexicon : Lexicon} (found : lexicon.Finds text token rest) :
    text = token.lexeme.toList ++ rest := by
  cases found with
  | word isWord stop => rw [String.toList_ofList]
  | punctuator unstarted registered longest => rfl
  | unknown unstarted unregistered => rw [String.toList_ofList, List.singleton_append]
  | eof => rfl

end Lexicon.Finds

namespace Lexer

/-- The offset counts the bytes of what has been read. -/
theorem offset_eq {lexer : Lexer} {read : List Char}
    (split : lexer.source.toList = read ++ lexer.rest) : lexer.offset = utf8Length read := by
  have total : utf8Length lexer.source.toList = utf8Length read + utf8Length lexer.rest := by
    rw [split, utf8Length_append]
  rw [offset, utf8ByteSize_eq_utf8Length, utf8ByteSize_eq_utf8Length, String.toList_ofList, total]
  omega

/-- **The next token.** From any place in a source a lexer skips the longest run of blanks and reads
the token that the registered lexemes make of what follows, and it stands just behind that token. -/
theorem next_eq_iff_finds (lexer : Lexer) (token : Token) (after : Lexer) :
    lexer.next = (token, after) ↔
      ∃ read blanks behind, lexer.source.toList = read ++ lexer.rest ∧
        lexer.offset = utf8Length read ∧ IsRun isBlank lexer.rest blanks behind ∧
        lexer.language.lexicon.Finds behind token after.rest ∧
        after.language = lexer.language ∧ after.source = lexer.source ∧
        after.offset = utf8Length (read ++ blanks ++ token.lexeme.toList) := by
  constructor
  · intro taken
    have scanned : scan lexer.language lexer.rest = (token, after.rest) := by
      rw [next, Prod.mk.injEq] at taken
      rw [← taken.1, ← taken.2]
    have language : after.language = lexer.language := by rw [← language_next lexer, taken]
    have source : after.source = lexer.source := by rw [← source_next lexer, taken]
    obtain ⟨blanks, behind, run, found⟩ := scan_eq_iff_finds.1 scanned
    obtain ⟨read, start⟩ := lexer.rest_suffix
    refine ⟨read, blanks, behind, start.symm, offset_eq start.symm, run, found, language, source, ?_⟩
    apply offset_eq
    rw [source, ← start, run.split, found.split]
    simp only [List.append_assoc]
  · rintro ⟨-, blanks, behind, -, -, run, found, language, source, -⟩
    have scanned := scan_eq_iff_finds.2 ⟨blanks, behind, run, found⟩
    obtain ⟨_, _, rest, _⟩ := after
    dsimp only at language source scanned
    subst language source
    simp only [next, scanned]

end Lexer

end FunctionSymbols
