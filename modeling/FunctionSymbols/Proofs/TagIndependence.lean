import FunctionSymbols.Proofs.Coverage
import FunctionSymbols.Proofs.DeclarationText
import FunctionSymbols.Proofs.Registration
import FunctionSymbols.Symbol
import Mathlib.Data.List.Forall2

/-!
# Tags are only names

Two languages that register the same lexemes cut a text in the same places, whatever tags they use, and
no parser can tell their tokens apart. What a parser asks of a token is whether it is the end, an
identifier, a certain punctuator of the grammar, or a certain word among the keywords. A punctuator of
the grammar begins no word, so a tag that stands for a keyword and a punctuator at once misleads nobody.
`Lexicon.Alike` states these questions, and the readings of a token list ask no others.
-/

namespace FunctionSymbols

/-! ## Languages and tokens up to tags -/

/-- The two languages register the same keywords and the same punctuators. -/
structure Language.SameLexemes (a b : Language) : Prop where
  keyword : ∀ lexeme, a.keywords.contains lexeme = b.keywords.contains lexeme
  punctuator : ∀ lexeme, a.punctuators.contains lexeme = b.punctuators.contains lexeme

/-- One tag for all that is registered. -/
def Tag.registered : Tag := ⟨3⟩

namespace Token

/-- The token with nothing left of its tag but that it is registered, or which one of the lexer's own
it is. -/
def untagged (token : Token) : Token :=
  if token.tag.isReserved then token else ⟨token.lexeme, .registered⟩

@[simp] theorem lexeme_untagged (token : Token) : token.untagged.lexeme = token.lexeme := by
  unfold untagged
  split <;> rfl

@[simp] theorem isEof_untagged (token : Token) : token.untagged.isEof = token.isEof := by
  unfold untagged
  split
  · rfl
  · next unreserved =>
    rw [Bool.not_eq_true] at unreserved
    rw [isEof, isEof, beq_eq_false_iff_ne.2 (Tag.ne_eof_of_not_isReserved unreserved)]
    rfl

@[simp] theorem isIdentifier_untagged (token : Token) :
    token.untagged.isIdentifier = token.isIdentifier := by
  unfold untagged
  split
  · rfl
  · next unreserved =>
    have other : token.tag ≠ .identifier := fun same =>
      unreserved (Tag.isReserved_iff.2 (.inr (.inr same)))
    rw [isIdentifier, isIdentifier, beq_eq_false_iff_ne.2 other]
    rfl

@[simp] theorem text_untagged (token : Token) : token.untagged.text = token.text := by
  rw [text, text, isEof_untagged, lexeme_untagged]

end Token

/-- The answer with its token, if it is one, up to the tag. -/
def Parser.Answer.untagged : Answer → Answer
  | token found => token found.untagged
  | answer => answer

/-! ## Tokens by their tables -/

namespace TokenTable

variable (table : TokenTable) {own : Tag} {lexeme other : String}

/-- The token of a lexeme, under a tag of the lexer's own if it is not registered. -/
def tokenOf (own : Tag) (lexeme : String) : Token := ⟨lexeme, (table.lookup lexeme).getD own⟩

variable {table}

theorem tokenOf_of_lookup {tag : Tag} (registered : table.lookup lexeme = some tag) :
    table.tokenOf own lexeme = ⟨lexeme, tag⟩ := by
  rw [tokenOf, registered]
  rfl

theorem tokenOf_of_not_contains (unregistered : table.contains lexeme = false) :
    table.tokenOf own lexeme = ⟨lexeme, own⟩ := by
  rw [tokenOf, contains_eq_false_iff.1 unregistered]
  rfl

theorem untagged_tokenOf (reserved : own.isReserved = true) :
    (table.tokenOf own lexeme).untagged =
      ⟨lexeme, if table.contains lexeme then .registered else own⟩ := by
  cases contained : table.contains lexeme with
  | false =>
    rw [tokenOf_of_not_contains contained, Token.untagged]
    exact if_pos reserved
  | true =>
    obtain ⟨tag, registered⟩ := contains_iff.1 contained
    rw [tokenOf_of_lookup registered, Token.untagged, isReserved_of_lookup registered]
    rfl

/-- Whether a token is the entry of a lexeme depends on the lexeme and on its being registered. -/
theorem isEntry_tokenOf :
    ((table.tokenOf own lexeme).lexeme == other &&
        table.lookup other == some (table.tokenOf own lexeme).tag) =
      (lexeme == other && table.contains lexeme) := by
  by_cases same : lexeme = other
  · subst same
    cases contained : table.contains lexeme with
    | false =>
      rw [tokenOf_of_not_contains contained, contains_eq_false_iff.1 contained]
      simp
    | true =>
      obtain ⟨tag, registered⟩ := contains_iff.1 contained
      rw [tokenOf_of_lookup registered, registered]
      simp
  · have different : (table.tokenOf own lexeme).lexeme ≠ other := same
    rw [beq_eq_false_iff_ne.2 same, beq_eq_false_iff_ne.2 different, Bool.false_and, Bool.false_and]

end TokenTable

/-! ## Alike tokens -/

/-- No parser of the one language sees in the token what a parser of the other does not see in the other
token. -/
structure Lexicon.Alike (a b : Lexicon) (token other : Token) : Prop where
  untagged_eq : token.untagged = other.untagged
  isPunctuator_eq : ∀ lexeme ∈ declaratorPunctuators,
    a.isPunctuator token lexeme = b.isPunctuator other lexeme
  isKeyword_eq : ∀ lexeme, IsWord lexeme.toList → a.isKeyword token lexeme = b.isKeyword other lexeme

section

variable {a b : Language} {text rest : List Char} {token : Token}

/-- What does not begin as a word is none. -/
theorem not_isWord_of_stops {lexeme : List Char} (unstarted : Stops isStartChar (lexeme ++ rest)) :
    ¬ IsWord lexeme := by
  intro isWord
  cases lexeme with
  | nil => exact isWord
  | cons c more =>
    rw [List.cons_append, stops_cons, isWord.1] at unstarted
    cases unstarted

/-- Punctuators of the grammar are no words. -/
theorem not_isWord_of_mem_declaratorPunctuators {lexeme : String}
    (member : lexeme ∈ declaratorPunctuators) : ¬ IsWord lexeme.toList :=
  not_isWord_of_stops (stops_of_mem_declaratorPunctuators member []).2.1

theorem Lexicon.isPunctuator_of_ne (lexicon : Lexicon) {lexeme : String}
    (different : token.lexeme ≠ lexeme) : lexicon.isPunctuator token lexeme = false := by
  rw [isPunctuator, beq_eq_false_iff_ne.2 different, Bool.false_and]

theorem Lexicon.isKeyword_of_ne (lexicon : Lexicon) {lexeme : String}
    (different : token.lexeme ≠ lexeme) : lexicon.isKeyword token lexeme = false := by
  rw [isKeyword, beq_eq_false_iff_ne.2 different, Bool.false_and]

namespace Language.SameLexemes

variable (same : a.SameLexemes b)

include same

theorem alike_word (lexeme : String) (isWord : IsWord lexeme.toList) :
    a.lexicon.Alike b.lexicon (a.keywords.tokenOf .identifier lexeme)
      (b.keywords.tokenOf .identifier lexeme) := by
  constructor
  · rw [TokenTable.untagged_tokenOf rfl, TokenTable.untagged_tokenOf rfl, same.keyword]
  · intro other member
    have different : lexeme ≠ other := by
      rintro rfl
      exact not_isWord_of_mem_declaratorPunctuators member isWord
    rw [Lexicon.isPunctuator_of_ne _ different, Lexicon.isPunctuator_of_ne _ different]
  · intro other _
    have first := @TokenTable.isEntry_tokenOf a.keywords .identifier lexeme other
    have second := @TokenTable.isEntry_tokenOf b.keywords .identifier lexeme other
    rw [← same.keyword] at second
    exact first.trans second.symm

theorem alike_sign (lexeme : String) (isNoWord : ¬ IsWord lexeme.toList) :
    a.lexicon.Alike b.lexicon (a.punctuators.tokenOf .unknown lexeme)
      (b.punctuators.tokenOf .unknown lexeme) := by
  constructor
  · rw [TokenTable.untagged_tokenOf rfl, TokenTable.untagged_tokenOf rfl, same.punctuator]
  · intro other _
    have first := @TokenTable.isEntry_tokenOf a.punctuators .unknown lexeme other
    have second := @TokenTable.isEntry_tokenOf b.punctuators .unknown lexeme other
    rw [← same.punctuator] at second
    exact first.trans second.symm
  · intro other isWord
    have different : lexeme ≠ other := by
      rintro rfl
      exact isNoWord isWord
    rw [Lexicon.isKeyword_of_ne _ different, Lexicon.isKeyword_of_ne _ different]

end Language.SameLexemes

theorem Lexicon.alike_eof (a b : Lexicon) : a.Alike b .eof .eof := by
  constructor
  · rfl
  · intro lexeme member
    have different : Token.eof.lexeme ≠ lexeme := by
      rintro rfl
      exact absurd member (by decide)
    rw [isPunctuator_of_ne _ different, isPunctuator_of_ne _ different]
  · intro lexeme isWord
    have different : Token.eof.lexeme ≠ lexeme := by
      rintro rfl
      exact isWord
    rw [isKeyword_of_ne _ different, isKeyword_of_ne _ different]

/-- A text begins with alike tokens in both languages, and what follows is the same. -/
theorem Lexicon.Finds.exists_alike (same : a.SameLexemes b)
    (found : a.lexicon.Finds text token rest) :
    ∃ other, b.lexicon.Finds text other rest ∧ a.lexicon.Alike b.lexicon token other := by
  cases found with
  | @word word rest isWord stop =>
    have alike := same.alike_word (String.ofList word) (by rwa [String.toList_ofList])
    exact ⟨_, .word isWord stop, alike⟩
  | @punctuator lexeme tag rest unstarted registered longest =>
    have contained := TokenTable.contains_of_lookup registered
    rw [same.punctuator] at contained
    obtain ⟨other, registered'⟩ := TokenTable.contains_iff.1 contained
    have alike := same.alike_sign lexeme (not_isWord_of_stops unstarted)
    -- The longest registered lexeme is the same in both languages, as they compete with the same ones.
    rw [TokenTable.tokenOf_of_lookup registered, TokenTable.tokenOf_of_lookup registered'] at alike
    refine ⟨_, .punctuator unstarted registered' fun lexeme contained front => ?_, alike⟩
    have contained := TokenTable.lookup_ne_none_iff.1 contained
    rw [← same.punctuator] at contained
    exact longest lexeme (TokenTable.lookup_ne_none_iff.2 contained) front
  | @unknown c rest unstarted unregistered =>
    have begins : Stops isStartChar ([c] ++ rest) := stops_cons.2 unstarted
    have isNoWord : ¬ IsWord (String.ofList [c]).toList := by
      rw [String.toList_ofList]
      exact not_isWord_of_stops begins
    have alike := same.alike_sign (String.ofList [c]) isNoWord
    have free : ∀ lexeme : String, lexeme.toList <+: c :: rest →
        a.punctuators.contains lexeme = false ∧ b.punctuators.contains lexeme = false := by
      intro lexeme front
      have missing := TokenTable.contains_eq_false_iff.2 (unregistered lexeme front)
      exact ⟨missing, same.punctuator lexeme ▸ missing⟩
    obtain ⟨missing, missing'⟩ := free (String.ofList [c]) (by simp)
    rw [TokenTable.tokenOf_of_not_contains missing, TokenTable.tokenOf_of_not_contains missing']
      at alike
    have unregistered' : ∀ lexeme : String, lexeme.toList <+: c :: rest →
        b.lexicon.punctuator lexeme = none := fun lexeme front =>
      TokenTable.contains_eq_false_iff.1 (free lexeme front).2
    exact ⟨_, .unknown unstarted unregistered', alike⟩
  | eof => exact ⟨.eof, .eof, alike_eof _ _⟩

/-- The scans of a text find alike tokens in both languages and leave the same. -/
theorem Language.SameLexemes.scan_alike (same : a.SameLexemes b) (text : List Char) :
    a.lexicon.Alike b.lexicon (scan a text).1 (scan b text).1 ∧ (scan a text).2 = (scan b text).2 := by
  obtain ⟨other, found, alike⟩ := (finds_tokenAt a (text.dropWhile isBlank)).exists_alike same
  have scanned : scan b text = (other, (scan a text).2) := tokenAt_of_finds found
  rw [scanned]
  exact ⟨alike, rfl⟩

end

/-! ## Alike lists are read alike -/

namespace Lexicon

variable {a b : Lexicon} {token other : Token} {ahead behind : List Token}

namespace Alike

theorem lexeme_eq (alike : a.Alike b token other) : token.lexeme = other.lexeme := by
  rw [← token.lexeme_untagged, alike.untagged_eq, other.lexeme_untagged]

theorem isIdentifier_eq (alike : a.Alike b token other) :
    token.isIdentifier = other.isIdentifier := by
  rw [← token.isIdentifier_untagged, alike.untagged_eq, other.isIdentifier_untagged]

theorem isEof_eq (alike : a.Alike b token other) : token.isEof = other.isEof := by
  rw [← token.isEof_untagged, alike.untagged_eq, other.isEof_untagged]

theorem text_eq (alike : a.Alike b token other) : token.text = other.text := by
  rw [← token.text_untagged, alike.untagged_eq, other.text_untagged]

theorem name?_eq (alike : a.Alike b token other) : token.name? = other.name? := by
  rw [Token.name?, Token.name?, alike.isIdentifier_eq, alike.lexeme_eq]

/-- Only words are keywords of built-in types. -/
theorem builtin?_eq (alike : a.Alike b token other) : a.builtin? token = b.builtin? other := by
  rw [builtin?, builtin?, alike.lexeme_eq]
  cases found : BuiltinType.ofKeyword? other.lexeme with
  | none => rw [ite_self, ite_self]
  | some type =>
    have isWord := isWord_keyword type
    rw [BuiltinType.keyword_of_ofKeyword? found] at isWord
    rw [alike.isKeyword_eq _ isWord]

end Alike

/-- The tokens of two lists are alike one by one. -/
abbrev AlikeAll (a b : Lexicon) : List Token → List Token → Prop := List.Forall₂ (a.Alike b)

namespace AlikeAll

theorem headD (alike : a.AlikeAll b ahead behind) :
    a.Alike b (ahead.headD .eof) (behind.headD .eof) := by
  cases alike with
  | nil => exact alike_eof a b
  | cons head rest => exact head

theorem tail (alike : a.AlikeAll b ahead behind) : a.AlikeAll b ahead.tail behind.tail := by
  cases alike with
  | nil => exact .nil
  | cons head rest => exact rest

theorem drop (alike : a.AlikeAll b ahead behind) (n : Nat) :
    a.AlikeAll b (ahead.drop n) (behind.drop n) :=
  List.forall₂_drop n alike

theorem map_untagged (alike : a.AlikeAll b ahead behind) :
    ahead.map Token.untagged = behind.map Token.untagged := by
  induction alike with
  | nil => rfl
  | cons head rest ih => rw [List.map_cons, List.map_cons, head.untagged_eq, ih]

theorem name?_head? (alike : a.AlikeAll b ahead behind) :
    ahead.head?.bind Token.name? = behind.head?.bind Token.name? := by
  cases alike with
  | nil => rfl
  | cons head rest => exact head.name?_eq

theorem complaint_eq (alike : a.AlikeAll b ahead behind) (expected : String) :
    complaint expected ahead = complaint expected behind := by
  rw [complaint, complaint, alike.headD.text_eq]

theorem scopes_eq (alike : a.AlikeAll b ahead behind) : a.scopes ahead = b.scopes behind := by
  fun_induction Lexicon.scopes a ahead generalizing behind with
  | case1 token colons rest name named separated ih =>
    obtain _ | ⟨first, _ | ⟨second, more⟩⟩ := alike
    rw [first.name?_eq] at named
    rw [second.isPunctuator_eq "::" (by decide)] at separated
    rw [scopes, named, separated, ih more]
    rfl
  | case2 token colons rest name named unseparated =>
    obtain _ | ⟨first, _ | ⟨second, more⟩⟩ := alike
    rw [first.name?_eq] at named
    rw [second.isPunctuator_eq "::" (by decide)] at unseparated
    rw [scopes, named]
    exact (if_neg unseparated).symm
  | case3 token colons rest unnamed =>
    obtain _ | ⟨first, more⟩ := alike
    rw [first.name?_eq] at unnamed
    exact (scopes_of_name?_eq_none b unnamed _).symm
  | case4 ahead short =>
    obtain _ | ⟨first, _ | ⟨second, more⟩⟩ := alike
    · rfl
    · rfl
    · exact absurd rfl (short _ _ _)

theorem named_eq {α : Type} (alike : a.AlikeAll b ahead behind)
    (ofParts : List Identifier → Identifier → α) : a.named ofParts ahead = b.named ofParts behind := by
  simp only [named, alike.scopes_eq, (alike.drop _).name?_head?, (alike.drop _).complaint_eq]

theorem builtins_eq (alike : a.AlikeAll b ahead behind) : a.builtins ahead = b.builtins behind := by
  induction alike with
  | nil => rfl
  | cons head rest ih => rw [builtins, builtins, head.builtin?_eq, ih]

theorem typeSpecifier_eq (alike : a.AlikeAll b ahead behind) :
    a.typeSpecifier ahead = b.typeSpecifier behind := by
  simp only [typeSpecifier, alike.headD.builtin?_eq, alike.headD.isIdentifier_eq, alike.named_eq,
    alike.complaint_eq]

theorem specifierSequence_eq (alike : a.AlikeAll b ahead behind) :
    a.specifierSequence ahead = b.specifierSequence behind := by
  simp only [specifierSequence, alike.headD.builtin?_eq, alike.headD.isIdentifier_eq,
    alike.typeSpecifier_eq, (alike.drop _).builtins_eq, alike.complaint_eq]

theorem clauseContent_eq (alike : a.AlikeAll b ahead behind) :
    a.clauseContent ahead = b.clauseContent behind := by
  have void : IsWord "void".toList := isIdentifier_iff.1 (by decide)
  simp only [clauseContent, alike.headD.isPunctuator_eq "..." (by decide),
    alike.headD.isKeyword_eq "void" void]

theorem parameters_eq (alike : a.AlikeAll b ahead behind) :
    a.parameters ahead = b.parameters behind := by
  simp only [parameters, alike.headD.isPunctuator_eq "(" (by decide), alike.tail.clauseContent_eq,
    (alike.tail.drop _).headD.isPunctuator_eq ")" (by decide), (alike.tail.drop _).complaint_eq]

theorem declarator_eq (alike : a.AlikeAll b ahead behind) :
    a.declarator ahead = b.declarator behind := by
  simp only [declarator, alike.named_eq, (alike.drop _).parameters_eq]

/-- Every operation gives the same answer up to tags and takes the same number of tokens. -/
theorem perform_eq (alike : a.AlikeAll b ahead behind) (operation : Parser.Operation) :
    (a.perform ahead operation).map Parser.Answer.untagged =
      (b.perform behind operation).map Parser.Answer.untagged := by
  cases operation with
  | current | advance =>
    simp only [perform, Reading.map, Except.map, Parser.Answer.untagged, alike.headD.untagged_eq]
  | peek =>
    simp only [perform, Reading.map, Except.map, Parser.Answer.untagged,
      alike.tail.headD.untagged_eq]
  | isAtEnd => cases alike <;> rfl
  | expectEnd =>
    cases alike with
    | nil => rfl
    | cons head rest => simp only [perform, head.lexeme_eq]
  | nestedName => simp only [perform, alike.scopes_eq]
  | idExpression => simp only [perform, alike.named_eq]
  | typeSpecifier => simp only [perform, alike.typeSpecifier_eq]
  | specifierSequence => simp only [perform, alike.specifierSequence_eq]
  | parameters => simp only [perform, alike.parameters_eq]
  | declarator => simp only [perform, alike.declarator_eq]

/-- A run gives the same answers up to tags and leads to the same place. -/
theorem run_eq (alike : a.AlikeAll b ahead behind) (operations : List Parser.Operation)
    (place : Nat) :
    (a.run ahead place operations).1.map (Except.map Parser.Answer.untagged) =
        (b.run behind place operations).1.map (Except.map Parser.Answer.untagged) ∧
      (a.run ahead place operations).2 = (b.run behind place operations).2 := by
  induction operations generalizing place with
  | nil => exact ⟨rfl, rfl⟩
  | cons operation rest ih =>
    obtain ⟨answer, taken⟩ := Reading.mk.inj ((alike.drop place).perform_eq operation)
    obtain ⟨answers, last⟩ := ih (place + (a.perform (ahead.drop place) operation).taken)
    simp only [run, List.map_cons, answer, ← taken, answers, last, and_self]

end AlikeAll

end Lexicon

/-! ## Sources -/

section

variable {a b : Language}

/-- Languages whose tables list the same lexemes have the same lexemes. -/
theorem Language.sameLexemes_of_lexemes
    (keywords : a.keywords.toList.map Prod.fst = b.keywords.toList.map Prod.fst)
    (punctuators : a.punctuators.toList.map Prod.fst = b.punctuators.toList.map Prod.fst) :
    a.SameLexemes b := by
  constructor
  · intro lexeme
    rw [Bool.eq_iff_iff, TokenTable.contains_iff_mem, TokenTable.contains_iff_mem, keywords]
  · intro lexeme
    rw [Bool.eq_iff_iff, TokenTable.contains_iff_mem, TokenTable.contains_iff_mem, punctuators]

namespace Language.SameLexemes

theorem alikeAll_tokens (same : a.SameLexemes b) (text : List Char) :
    a.lexicon.AlikeAll b.lexicon (tokens a text) (tokens b text) := by
  induction text using scan_induction a with
  | ended text eof =>
    obtain ⟨alike, -⟩ := same.scan_alike text
    have eof' : (scan b text).1.isEof = true := alike.isEof_eq.symm.trans eof
    rw [tokens_of_isEof eof, tokens_of_isEof eof']
    exact .nil
  | more text eof ih =>
    obtain ⟨alike, behind⟩ := same.scan_alike text
    have eof' : (scan b text).1.isEof = false := alike.isEof_eq.symm.trans eof
    have rest := tokens_of_not_isEof eof'
    rw [← behind] at rest
    rw [tokens_of_not_isEof eof, rest]
    exact .cons alike ih

/-- A text is the same declarator in both languages, or is refused in the same way. -/
theorem ofString_eq (same : a.SameLexemes b) (source : String) :
    Declarator.ofString a source = Declarator.ofString b source := by
  have alike := same.alikeAll_tokens source.toList
  have behind := alike.drop (b.lexicon.declarator (tokens b source.toList)).taken
  rw [Declarator.ofString_eq_reading, Declarator.ofString_eq_reading, alike.declarator_eq]
  cases (b.lexicon.declarator (tokens b source.toList)).result with
  | error d => rfl
  | ok declarator =>
    revert behind
    generalize (tokens a source.toList).drop _ = left
    generalize (tokens b source.toList).drop _ = right
    intro behind
    cases behind with
    | nil => rfl
    | cons head rest => exact congrArg (Except.error ∘ Diagnostic.trailingInput) head.lexeme_eq

end Language.SameLexemes

/-- Lexers that have the same to read take the same lexemes off it. -/
theorem Lexer.read_alike {first second : Lexer} (same : first.language.SameLexemes second.language)
    (rest : first.rest = second.rest) (k : Nat) :
    (first.read k).1.map Token.untagged = (second.read k).1.map Token.untagged ∧
      (first.read k).2.rest = (second.read k).2.rest := by
  induction k generalizing first second with
  | zero => exact ⟨rfl, rest⟩
  | succ k ih =>
    obtain ⟨alike, behind⟩ := same.scan_alike first.rest
    rw [rest] at alike behind
    have token : first.next.1.untagged = second.next.1.untagged := by
      show (scan first.language first.rest).1.untagged = _
      rw [rest]
      exact alike.untagged_eq
    have after : first.next.2.rest = second.next.2.rest := by
      show (scan first.language first.rest).2 = _
      rw [rest]
      exact behind
    obtain ⟨tokens, last⟩ := @ih first.next.2 second.next.2 same after
    refine ⟨?_, last⟩
    rw [read, read, List.map_cons, List.map_cons, token, tokens]

/-- Parsers in front of alike tokens answer alike, and are in front of alike tokens again. -/
theorem Parser.run_alike {parser other : Parser Lexer} {ahead behind : List Token}
    (stands : parser.StandsAt a ahead) (stands' : other.StandsAt b behind)
    (alike : a.lexicon.AlikeAll b.lexicon ahead behind) (spelled : Spelled ahead)
    (spelled' : Spelled behind) (operations : List Operation) :
    (parser.run operations).1.map (Except.map Answer.untagged) =
        (other.run operations).1.map (Except.map Answer.untagged) ∧
      ∃ left right, (parser.run operations).2.StandsAt a left ∧
        (other.run operations).2.StandsAt b right ∧ a.lexicon.AlikeAll b.lexicon left right := by
  have start : parser.StandsAt a (ahead.drop 0) := stands
  have start' : other.StandsAt b (behind.drop 0) := stands'
  obtain ⟨answers, place⟩ := alike.run_eq operations 0
  obtain ⟨given, after⟩ := run_reads spelled operations start
  obtain ⟨given', after'⟩ := run_reads spelled' operations start'
  rw [← place] at after'
  rw [given, given', answers]
  exact ⟨rfl, _, _, after, after', alike.drop _⟩

/-- **Tags are only names.** If two languages register the same keywords and the same punctuators, then
lexers on a source read the same lexemes up to the same places, the source is the same declarator or is
refused in the same way, it has the same symbol, and any operations of a parser on it give the same
answers, up to the tags of tokens, and leave the same tokens. -/
theorem Parser.run_eq_of_sameLexemes (same : a.SameLexemes b) (source : String) :
    let first := Lexer.ofSource a source
    let second := Lexer.ofSource b source
    (∀ k, (first.read k).1.map Token.untagged = (second.read k).1.map Token.untagged ∧
      (first.read k).2.offset = (second.read k).2.offset) ∧
    Declarator.ofString a source = Declarator.ofString b source ∧
    Symbol.ofText a source = Symbol.ofText b source ∧
    ∀ operations,
      let run := (ofLexer first).run operations
      let run' := (ofLexer second).run operations
      run.1.map (Except.map Answer.untagged) = run'.1.map (Except.map Answer.untagged) ∧
        run.2.current.untagged = run'.2.current.untagged ∧
        run.2.source.remaining.map Token.untagged = run'.2.source.remaining.map Token.untagged := by
  intro first second
  have declared := same.ofString_eq source
  refine ⟨fun k => ?_, declared, ?_, fun operations => ?_⟩
  · obtain ⟨tokens, rest⟩ := @Lexer.read_alike first second same rfl k
    refine ⟨tokens, ?_⟩
    rw [Lexer.offset, Lexer.offset, rest, Lexer.source_read, Lexer.source_read]
    rfl
  · rw [Symbol.ofText_eq, Symbol.ofText_eq, declared]
  · have stands : (ofLexer first).StandsAt a (tokens a source.toList) := standsAt_ofSource a first
    have stands' : (ofLexer second).StandsAt b (tokens b source.toList) := standsAt_ofSource b second
    obtain ⟨answers, left, right, after, after', alike⟩ :=
      run_alike stands stands' (same.alikeAll_tokens source.toList) (spelled_tokens a source.toList)
        (spelled_tokens b source.toList) operations
    refine ⟨answers, ?_, ?_⟩
    · rw [after.current_eq, after'.current_eq, alike.headD.untagged_eq]
    · have remaining : ((ofLexer first).run operations).2.source.remaining = left.tail :=
        after.source_eq
      have remaining' : ((ofLexer second).run operations).2.source.remaining = right.tail :=
        after'.source_eq
      rw [remaining, remaining', alike.tail.map_untagged]

end

/-- The lexemes of the sample language, all under one tag. -/
def Language.onlyTag : Language :=
  (ofEntries [("void", ⟨17⟩)]
    [("(", ⟨17⟩), (")", ⟨17⟩), (":", ⟨17⟩), ("::", ⟨17⟩), ("...", ⟨17⟩)]).toOption.get (by decide)

theorem Parser.run_onlyTag :
    let first := Lexer.ofSource Language.sample "a::f(void)"
    let second := Lexer.ofSource Language.onlyTag "a::f(void)"
    Language.SameLexemes Language.sample Language.onlyTag ∧
    (∀ k, (first.read k).1.map Token.untagged = (second.read k).1.map Token.untagged ∧
      (first.read k).2.offset = (second.read k).2.offset) ∧
    Declarator.ofString Language.sample "a::f(void)" =
      Declarator.ofString Language.onlyTag "a::f(void)" ∧
    Symbol.ofText Language.sample "a::f(void)" = Symbol.ofText Language.onlyTag "a::f(void)" ∧
    (∀ operations,
      let run := (ofLexer first).run operations
      let run' := (ofLexer second).run operations
      run.1.map (Except.map Answer.untagged) = run'.1.map (Except.map Answer.untagged) ∧
        run.2.current.untagged = run'.2.current.untagged ∧
        run.2.source.remaining.map Token.untagged = run'.2.source.remaining.map Token.untagged) ∧
    Symbol.ofText Language.onlyTag "a::f(void)" = .error (.unsupportedName "a::f") ∧
    ((ofLexer second).run [.idExpression, .current, .parameters, .expectEnd]).1 =
      [.ok (.idExpression (.qualified ⟨⟨[⟨"a", by decide⟩]⟩, ⟨"f", by decide⟩⟩)),
        .ok (.token ⟨"(", ⟨17⟩⟩), .ok (.parameters (some .empty)), .ok .done] := by
  intro first second
  have same : Language.SameLexemes Language.sample Language.onlyTag :=
    Language.sameLexemes_of_lexemes (by decide) (by decide)
  obtain ⟨lexemes, declared, symbol, runs⟩ := run_eq_of_sameLexemes same "a::f(void)"
  exact ⟨same, lexemes, declared, symbol, runs, by decide +kernel, by decide +kernel⟩

end FunctionSymbols
