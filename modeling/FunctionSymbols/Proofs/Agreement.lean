import FunctionSymbols.Proofs.LongestMatch
import FunctionSymbols.Proofs.Registration
import FunctionSymbols.TokenSource

/-!
# What the tables are asked

A scan asks the keywords for words of the text and the punctuators for parts of the text that begin
with neither a blank nor a word. Two languages that answer these questions alike read the same tokens,
whatever else they have registered: another entry may add a length to those that are tried, but at no
place of the text does anything of that length match. The answers do not depend on the order in which
the entries came.
-/

namespace FunctionSymbols

/-- A word that occurs in the text. -/
def IsWordOf (text : List Char) (lexeme : String) : Prop :=
  IsIdentifier lexeme ∧ lexeme.toList <:+: text

/-- A part of the text that begins with neither a blank nor a word. -/
def IsSignOf (text : List Char) (lexeme : String) : Prop :=
  (lexeme ≠ "" ∧ Stops isBlank lexeme.toList ∧ Stops isStartChar lexeme.toList) ∧
    lexeme.toList <:+: text

/-- The two languages have the same tags for the words of the text among their keywords, and for what
may be a punctuator of the text among their punctuators. -/
structure Language.AgreeOn (text : List Char) (a b : Language) : Prop where
  keyword : ∀ lexeme, IsWordOf text lexeme → a.keywords.lookup lexeme = b.keywords.lookup lexeme
  punctuator : ∀ lexeme, IsSignOf text lexeme →
    a.punctuators.lookup lexeme = b.punctuators.lookup lexeme

instance (text : List Char) (lexeme : String) : Decidable (IsWordOf text lexeme) :=
  inferInstanceAs (Decidable (_ ∧ _))

instance (text : List Char) (lexeme : String) : Decidable (IsSignOf text lexeme) :=
  inferInstanceAs (Decidable (_ ∧ _))

theorem TokenTable.lookup_empty_lexeme (table : TokenTable) : table.lookup "" = none := by
  cases found : table.lookup "" with
  | none => rfl
  | some tag => exact absurd rfl (ne_empty_of_lookup found)

variable {a b : Language} {text rest : List Char} {token : Token}

namespace Language.AgreeOn

theorem of_infix {part : List Char} (agree : AgreeOn text a b) (within : part <:+: text) :
    AgreeOn part a b :=
  ⟨fun lexeme word => agree.keyword lexeme ⟨word.1, word.2.trans within⟩,
    fun lexeme sign => agree.punctuator lexeme ⟨sign.1, sign.2.trans within⟩⟩

/-- Where no word begins, the languages have the same punctuators in front of them. -/
theorem punctuator_of_prefix (agree : AgreeOn text a b) (unblank : Stops isBlank text)
    (unstarted : Stops isStartChar text) {lexeme : String} (front : lexeme.toList <+: text) :
    a.punctuators.lookup lexeme = b.punctuators.lookup lexeme := by
  by_cases empty : lexeme = ""
  · rw [empty, TokenTable.lookup_empty_lexeme, TokenTable.lookup_empty_lexeme]
  · apply agree.punctuator
    obtain ⟨behind, rfl⟩ := front
    exact ⟨⟨empty, unblank.of_append, unstarted.of_append⟩, (List.prefix_append _ _).isInfix⟩

/-- The languages find the same token, one case for each way to find one. -/
theorem finds (agree : AgreeOn text a b) (unblank : Stops isBlank text)
    (found : a.lexicon.Finds text token rest) : b.lexicon.Finds text token rest := by
  cases found with
  | @word word rest isWord stop =>
    have occurs : IsWordOf (word ++ rest) (String.ofList word) := by
      rw [IsWordOf, isIdentifier_iff, String.toList_ofList]
      exact ⟨isWord, (List.prefix_append word rest).isInfix⟩
    have same : a.lexicon.keyword (String.ofList word) = b.lexicon.keyword (String.ofList word) :=
      agree.keyword _ occurs
    rw [same]
    exact .word isWord stop
  | @punctuator lexeme tag rest unstarted registered longest =>
    have same : ∀ {other : String}, other.toList <+: lexeme.toList ++ rest →
        a.lexicon.punctuator other = b.lexicon.punctuator other :=
      agree.punctuator_of_prefix unblank unstarted
    refine .punctuator unstarted ?_ fun other contained front => ?_
    · rw [← same (List.prefix_append _ _)]
      exact registered
    · rw [← same front] at contained
      exact longest other contained front
  | @unknown c rest unstarted unregistered =>
    refine .unknown unstarted fun lexeme front => ?_
    have same : a.lexicon.punctuator lexeme = b.lexicon.punctuator lexeme :=
      agree.punctuator_of_prefix unblank (stops_cons.2 unstarted) front
    rw [← same]
    exact unregistered lexeme front
  | eof => exact .eof

theorem scan_eq (agree : AgreeOn text a b) : scan a text = scan b text := by
  have behind := agree.of_infix (List.dropWhile_suffix isBlank).isInfix
  have found := behind.finds (stops_dropWhile text) (finds_tokenAt a _)
  exact (tokenAt_of_finds found).symm

theorem tokens_eq (agree : AgreeOn text a b) : tokens a text = tokens b text := by
  induction text using scan_induction a with
  | ended text eof =>
    have eof' : (scan b text).1.isEof = true := agree.scan_eq ▸ eof
    rw [tokens_of_isEof eof, tokens_of_isEof eof']
  | more text eof ih =>
    have eof' : (scan b text).1.isEof = false := agree.scan_eq ▸ eof
    rw [tokens_of_not_isEof eof, tokens_of_not_isEof eof', ← agree.scan_eq,
      ih (agree.of_infix (scan_suffix a text).isInfix)]

end Language.AgreeOn

/-- Languages agree when the entries that they were made of are the same as far as the text asks for
them, in any order and with any others among them. -/
theorem Language.agreeOn_of_ofEntries {keywords keywords' punctuators punctuators' : List (String × Tag)}
    (first : ofEntries keywords punctuators = .ok a)
    (second : ofEntries keywords' punctuators' = .ok b)
    (words : ∀ e, IsWordOf text e.1 → (e ∈ keywords ↔ e ∈ keywords'))
    (signs : ∀ e, IsSignOf text e.1 → (e ∈ punctuators ↔ e ∈ punctuators')) :
    AgreeOn text a b := by
  obtain ⟨keywords_a, punctuators_a⟩ := ofEntries_eq_ok_iff.1 first
  obtain ⟨keywords_b, punctuators_b⟩ := ofEntries_eq_ok_iff.1 second
  constructor
  · intro lexeme asked
    apply Option.ext
    intro tag
    rw [TokenTable.lookup_ofList_eq_some_iff keywords_a, words (lexeme, tag) asked,
      TokenTable.lookup_ofList_eq_some_iff keywords_b]
  · intro lexeme asked
    apply Option.ext
    intro tag
    rw [TokenTable.lookup_ofList_eq_some_iff punctuators_a, signs (lexeme, tag) asked,
      TokenTable.lookup_ofList_eq_some_iff punctuators_b]

/-- Two lists have the same entries of a kind if none of this kind is missing from either. -/
theorem mem_iff_mem_of_append {entries entries' : List (String × Tag)} {Asked : String → Prop}
    (shared : ∀ e ∈ entries ++ entries', Asked e.1 → e ∈ entries ∧ e ∈ entries') :
    ∀ e, Asked e.1 → (e ∈ entries ↔ e ∈ entries') := by
  intro e asked
  constructor
  · intro member
    exact (shared e (List.mem_append_left _ member) asked).2
  · intro member
    exact (shared e (List.mem_append_right _ member) asked).1

namespace Lexer

/-- A place is determined by its offset. -/
theorem rest_eq_of_offset_eq {first second : Lexer} (source : first.source = second.source)
    (place : first.offset = second.offset) : first.rest = second.rest := by
  obtain ⟨read, start⟩ := first.rest_suffix
  obtain ⟨read', start'⟩ := second.rest_suffix
  rw [offset_eq start.symm, offset_eq start'.symm] at place
  have split : read ++ first.rest = read' ++ second.rest := by rw [start, start', source]
  exact (append_inj_of_utf8Length split place).2

/-- Lexers at one place of a source read on alike if their languages agree on the source. -/
theorem next_eq_of_agreeOn {first second : Lexer} (source : first.source = second.source)
    (place : first.offset = second.offset)
    (agree : Language.AgreeOn first.source.toList first.language second.language) :
    first.next.1 = second.next.1 ∧ first.next.2.offset = second.next.2.offset ∧
      first.remaining = second.remaining := by
  have rest := rest_eq_of_offset_eq source place
  have ahead := agree.of_infix first.rest_suffix.isInfix
  have scanned : scan first.language first.rest = scan second.language second.rest := by
    rw [ahead.scan_eq, rest]
  refine ⟨?_, ?_, ?_⟩
  · show (scan first.language first.rest).1 = (scan second.language second.rest).1
    rw [scanned]
  · have behind : first.next.2.rest = second.next.2.rest := by
      show (scan first.language first.rest).2 = (scan second.language second.rest).2
      rw [scanned]
    rw [offset, offset, source_next, source_next, source, behind]
  · rw [remaining, remaining, ahead.tokens_eq, rest]

/-- **What the tables are asked.** Two lexers at one place of a source read the same token up to the
same place, and the same tokens from there on, if their languages agree on the words of the source and
on the parts of it that begin with neither a blank nor a word. So the order of the entries has no
effect, and neither have entries that do not occur in the source, keywords that are no words, and
punctuators that begin with a blank or a word, although the lengths of all punctuators are tried. -/
theorem next_eq_of_asked_alike {first second : Lexer} (source : first.source = second.source)
    (place : first.offset = second.offset) :
    (Language.AgreeOn first.source.toList first.language second.language →
      first.next.1 = second.next.1 ∧ first.next.2.offset = second.next.2.offset ∧
        first.remaining = second.remaining) ∧
    (∀ keywords punctuators keywords' punctuators' : List (String × Tag),
      Language.ofEntries keywords punctuators = .ok first.language →
      Language.ofEntries keywords' punctuators' = .ok second.language →
      (∀ e, IsWordOf first.source.toList e.1 → (e ∈ keywords ↔ e ∈ keywords')) →
      (∀ e, IsSignOf first.source.toList e.1 → (e ∈ punctuators ↔ e ∈ punctuators')) →
      (first.next.1 = second.next.1 ∧ first.next.2.offset = second.next.2.offset ∧
        first.remaining = second.remaining) ∧
      (∀ n, n ∈ first.language.punctuators.lengths ↔ ∃ e ∈ punctuators, e.1.length = n) ∧
      (∀ n, n ∈ second.language.punctuators.lengths ↔ ∃ e ∈ punctuators', e.1.length = n)) := by
  refine ⟨next_eq_of_agreeOn source place, ?_⟩
  intro keywords punctuators keywords' punctuators' made made' words signs
  have agree := Language.agreeOn_of_ofEntries made made' words signs
  refine ⟨next_eq_of_agreeOn source place agree, fun n => ?_, fun n => ?_⟩
  · exact TokenTable.mem_lengths_ofList_iff (Language.ofEntries_eq_ok_iff.1 made).2
  · exact TokenTable.mem_lengths_ofList_iff (Language.ofEntries_eq_ok_iff.1 made').2

theorem next_eq_arrow_among_others :
    let keywords := [("int", ⟨16⟩)]
    let keywords' := [("int-", ⟨30⟩), ("float", ⟨31⟩), ("int", ⟨16⟩)]
    let punctuators := [("<", ⟨17⟩), ("<-", ⟨18⟩)]
    let punctuators' := [("x<-1", ⟨22⟩), (" <", ⟨23⟩), ("<-", ⟨18⟩), ("->", ⟨21⟩), ("<", ⟨17⟩)]
    let plain := (Language.ofEntries keywords punctuators).toOption.get (by decide)
    let mixed := (Language.ofEntries keywords' punctuators').toOption.get (by decide)
    let first := (ofSource plain "int x<-1 <").next.2.next.2
    let second := (ofSource mixed "int x<-1 <").next.2.next.2
    first.source = second.source ∧ first.offset = second.offset ∧
    Language.AgreeOn first.source.toList first.language second.language ∧
    Language.ofEntries keywords punctuators = .ok first.language ∧
    Language.ofEntries keywords' punctuators' = .ok second.language ∧
    (∀ e, IsWordOf first.source.toList e.1 → (e ∈ keywords ↔ e ∈ keywords')) ∧
    (∀ e, IsSignOf first.source.toList e.1 → (e ∈ punctuators ↔ e ∈ punctuators')) ∧
    (first.next.1 = second.next.1 ∧ first.next.2.offset = second.next.2.offset ∧
      first.remaining = second.remaining) ∧
    (∀ n, n ∈ second.language.punctuators.lengths ↔ ∃ e ∈ punctuators', e.1.length = n) ∧
    first.language.punctuators.lengths ≠ second.language.punctuators.lengths := by
  intro keywords keywords' punctuators punctuators' plain mixed first second
  have source : first.source = second.source := rfl
  have place : first.offset = second.offset := by decide +kernel
  have made : Language.ofEntries keywords punctuators = .ok first.language := by decide +kernel
  have made' : Language.ofEntries keywords' punctuators' = .ok second.language := by decide +kernel
  have words : ∀ e, IsWordOf first.source.toList e.1 → (e ∈ keywords ↔ e ∈ keywords') :=
    mem_iff_mem_of_append (by decide +kernel)
  have signs : ∀ e, IsSignOf first.source.toList e.1 → (e ∈ punctuators ↔ e ∈ punctuators') :=
    mem_iff_mem_of_append (by decide +kernel)
  have agree := Language.agreeOn_of_ofEntries made made' words signs
  have different : first.language.punctuators.lengths ≠ second.language.punctuators.lengths := by
    decide +kernel
  obtain ⟨alike, entries⟩ := next_eq_of_asked_alike source place
  obtain ⟨-, -, lengths⟩ := entries _ _ _ _ made made' words signs
  exact ⟨source, place, agree, made, made', words, signs, alike agree, lengths, different⟩

/-- A punctuator that begins with a digit is of effect. No word begins with a digit, so the scan looks
for it where an identifier could go on but none began. -/
theorem next_ne_of_digit_punctuator :
    ¬ ∀ (keywords punctuators : List (String × Tag)) (entry : String × Tag) (first second : Lexer),
      Language.ofEntries keywords punctuators = .ok first.language →
      Language.ofEntries keywords (entry :: punctuators) = .ok second.language →
      first.source = second.source → first.offset = second.offset →
      (∃ c ∈ entry.1.toList.head?, isBlank c = true ∨ isContinueChar c = true) →
      first.next.1 = second.next.1 := by
  intro unaffected
  let language := (Language.ofEntries [] [("1+", ⟨17⟩)]).toOption.get (by decide)
  have same := unaffected [] [] ("1+", ⟨17⟩) (ofSource .empty "1+") (ofSource language "1+")
    (by decide +kernel) (by decide +kernel) rfl rfl ⟨'1', rfl, .inr rfl⟩
  exact absurd same (by decide +kernel)

end Lexer

end FunctionSymbols
