import FunctionSymbols.Proofs.Failures
import FunctionSymbols.Proofs.SpecifierRun

/-!
# What is taken is what is printed

The text of a node is made of the tokens that were taken for it, in their order. It differs from them in
blanks and in a `void` between parentheses, which is taken and not printed. `PrintedAs` is this relation
for tokens among which no parenthesis opens; names, types and runs of them are put together from it, and
a clause comes last.
-/

namespace FunctionSymbols

/-! ## Tokens and texts -/

/-- The characters of tokens in order. -/
def lexemes (list : List Token) : List Char := list.flatMap fun token => token.lexeme.toList

/-- A text without its blanks. -/
def unspaced (text : List Char) : List Char := text.filter fun c => !isBlank c

/-- The tokens without a `void` that stands directly behind an opening parenthesis. -/
def withoutVoid : List Token → List Token
  | opening :: token :: rest =>
    if opening.lexeme = "(" ∧ token.lexeme = "void" then opening :: withoutVoid rest
    else opening :: withoutVoid (token :: rest)
  | list => list

/-- The tokens are the text, blanks apart, and none of them opens a clause. -/
structure PrintedAs (list : List Token) (text : List Char) : Prop where
  lexemes_eq : lexemes list = unspaced text
  unopened : ∀ token ∈ list, token.lexeme ≠ "("

section

variable {language : Language} {ahead front back list : List Token} {text : List Char}

theorem lexemes_append (front back : List Token) :
    lexemes (front ++ back) = lexemes front ++ lexemes back :=
  List.flatMap_append

theorem unspaced_append (front back : List Char) :
    unspaced (front ++ back) = unspaced front ++ unspaced back :=
  List.filter_append ..

/-- In front of the clause there is no `void` to leave out. -/
theorem withoutVoid_append (unopened : ∀ token ∈ front, token.lexeme ≠ "(") (back : List Token) :
    withoutVoid (front ++ back) = front ++ withoutVoid back := by
  induction front with
  | nil => rfl
  | cons token front ih =>
    have other := unopened token List.mem_cons_self
    have behind := ih fun token member => unopened token (List.mem_cons_of_mem _ member)
    rw [List.cons_append, List.cons_append, ← behind]
    cases front ++ back with
    | nil => rfl
    | cons next rest => exact if_neg fun void => other void.1

namespace PrintedAs

theorem nil : PrintedAs [] [] := ⟨rfl, fun token member => by cases member⟩

theorem append {more : List Char} (first : PrintedAs front text) (second : PrintedAs back more) :
    PrintedAs (front ++ back) (text ++ more) := by
  refine ⟨?_, ?_⟩
  · rw [lexemes_append, unspaced_append, first.lexemes_eq, second.lexemes_eq]
  · intro token member
    rcases List.mem_append.1 member with inside | inside
    · exact first.unopened token inside
    · exact second.unopened token inside

/-- A word is a token without a blank. -/
theorem word (token : Token) (isWord : IsWord token.lexeme.toList) :
    PrintedAs [token] token.lexeme.toList := by
  refine ⟨?_, ?_⟩
  · have unblank : ∀ c ∈ token.lexeme.toList, (!isBlank c) = true := by
      intro c member
      rw [isBlank_eq_false_of_isContinueChar (isContinueChar_of_mem isWord c member)]
      rfl
    rw [unspaced, List.filter_eq_self.2 unblank]
    exact List.append_nil _
  · intro other member opens
    rw [List.mem_singleton.1 member] at opens
    rw [opens] at isWord
    exact absurd isWord.1 (by decide)

theorem colons (tag : Tag) : PrintedAs [⟨"::", tag⟩] "::".toList := by
  have unblank : unspaced "::".toList = "::".toList := by decide
  refine ⟨?_, ?_⟩
  · rw [unblank]
    exact List.append_nil _
  · have other : "::" ≠ "(" := by decide
    intro token member
    rw [List.mem_singleton.1 member]
    exact other

theorem withoutVoid_eq (printed : PrintedAs list text) : withoutVoid list = list := by
  have none : withoutVoid [] = [] := rfl
  have whole := withoutVoid_append printed.unopened []
  rwa [none, List.append_nil] at whole

end PrintedAs

/-! ## Forms -/

theorem ScopesForm.printedAs {names : List Identifier} (form : ScopesForm language names list) :
    PrintedAs list (NestedName.text ⟨names⟩).toList := by
  induction form with
  | nil => exact .nil
  | @cons name names colons behind registered form ih =>
    have scope := (PrintedAs.word ⟨name.text, .identifier⟩ name.isWord).append (.colons colons)
    rw [NestedName.text_cons, String.toList_append, String.toList_append]
    exact scope.append ih

/-- Between neighbours the text has a blank. -/
theorem BuiltinsForm.printedAs {types : List BuiltinType} (form : BuiltinsForm language types list) :
    PrintedAs list (builtinsText types) := by
  induction form with
  | nil => exact .nil
  | @cons type types tag behind registered form ih =>
    have blank : PrintedAs [] [' '] := ⟨rfl, fun token member => by cases member⟩
    have keyword := PrintedAs.word ⟨type.keyword, tag⟩ (isWord_keyword type)
    exact blank.append (keyword.append ih)

/-- Of a clause everything is printed but a `void`. -/
theorem ClauseForm.lexemes_withoutVoid {clause : Option ParameterClause}
    (form : ClauseForm language clause list) :
    lexemes (withoutVoid list) = unspaced (clause.elim "" ParameterClause.text).toList := by
  cases form
  all_goals
    simp only [withoutVoid, lexemes, String.reduceEq, and_self, and_false, if_true, if_false,
      List.flatMap_cons, List.flatMap_nil]
    decide

/-! ## Readings -/

namespace Reading

variable {α β : Type} {reading : Reading α}

/-- What is read is printed as the tokens that are taken, and no clause is among them. -/
def Prints (reading : Reading α) (ahead : List Token) (text : α → String) : Prop :=
  ∀ a, reading.result = .ok a → PrintedAs (ahead.take reading.taken) (text a).toList

/-- What is read is printed, if it has a text, as the tokens that are taken. -/
def Conserves (reading : Reading α) (ahead : List Token) (text? : α → Option String) : Prop :=
  ∀ a text, reading.result = .ok a → text? a = some text →
    lexemes (withoutVoid (ahead.take reading.taken)) = unspaced text.toList

theorem eq_of_result {a : α} (found : reading.result = .ok a) : reading = ⟨.ok a, reading.taken⟩ := by
  obtain ⟨result, taken⟩ := reading
  cases found
  rfl

theorem Prints.conserves {text : α → String} (prints : reading.Prints ahead text) :
    reading.Conserves ahead fun a => some (text a) := by
  intro a line found same
  cases same
  have printed := prints a found
  rw [printed.withoutVoid_eq, printed.lexemes_eq]

theorem Conserves.map {text? : β → Option String} (f : α → β)
    (conserves : reading.Conserves ahead fun a => text? (f a)) :
    (reading.map f).Conserves ahead text? := by
  obtain ⟨result, taken⟩ := reading
  intro b text found same
  cases result with
  | error d => cases found
  | ok a =>
    cases found
    exact conserves a text rfl same

end Reading

/-- In front of what `drop` leaves stands what `take` gives. -/
theorem take_eq_of_split {n : Nat} (split : ahead = front ++ ahead.drop n) : ahead.take n = front := by
  apply List.append_cancel_right
  rw [List.take_append_drop]
  exact split

namespace Lexicon

theorem scopes_printedAs (spelled : Spelled ahead) :
    PrintedAs (ahead.take (2 * (language.lexicon.scopes ahead).length))
      (NestedName.text ⟨language.lexicon.scopes ahead⟩).toList := by
  obtain ⟨⟨front, form, split⟩, -⟩ := @scopeRun_scopes language ahead spelled
  rw [take_eq_of_split split]
  exact form.printedAs

theorem builtins_printedAs (language : Language) (ahead : List Token) :
    PrintedAs (ahead.take (language.lexicon.builtins ahead).length)
      (builtinsText (language.lexicon.builtins ahead)) := by
  obtain ⟨⟨front, form, split⟩, -⟩ := builtinRun_builtins language ahead
  rw [take_eq_of_split split]
  exact form.printedAs

theorem named_prints {α : Type} {ofParts : List Identifier → Identifier → α} {text : α → String}
    (text_ofParts : ∀ names last,
      text (ofParts names last) = NestedName.text ⟨names⟩ ++ last.text)
    (spelled : Spelled ahead) : (language.lexicon.named ofParts ahead).Prints ahead text := by
  intro a found
  obtain ⟨last, behind, rfl, taken⟩ := named_eq_ok_iff.1 (Reading.eq_of_result found)
  obtain ⟨token, head, spelling⟩ := Option.bind_eq_some_iff.1 behind
  obtain rfl := Token.name?_eq_some_iff.1 spelling
  rw [List.head?_drop] at head
  rw [taken, text_ofParts, String.toList_append, List.take_add_one, head]
  exact (scopes_printedAs spelled).append (.word _ last.isWord)

theorem typeSpecifier_prints (spelled : Spelled ahead) :
    (language.lexicon.typeSpecifier ahead).Prints ahead TypeSpecifier.text := by
  unfold typeSpecifier
  dsimp only
  split
  · next type found =>
    intro a same
    cases same
    cases ahead with
    | nil =>
      rw [List.headD_nil, Parser.builtin?_eof] at found
      cases found
    | cons token rest =>
      obtain ⟨tag, rfl, -⟩ := builtin?_eq_some_iff.1 found
      exact .word _ (isWord_keyword type)
  · split
    · exact named_prints TypeSpecifier.text_ofParts spelled
    · intro a failed
      cases failed

theorem specifierSequence_prints (spelled : Spelled ahead) :
    (language.lexicon.specifierSequence ahead).Prints ahead SpecifierSequence.text := by
  have first := @typeSpecifier_prints language ahead spelled
  unfold specifierSequence
  dsimp only
  split
  · rcases read : language.lexicon.typeSpecifier ahead with ⟨_ | specifier, taken⟩
    · intro a failed
      cases failed
    · rw [read] at first
      intro a found
      cases found
      rw [SpecifierSequence.toList_text_cons, List.take_add]
      exact (first specifier rfl).append (builtins_printedAs language (ahead.drop taken))
  · intro a failed
    cases failed

theorem parameters_conserves :
    (language.lexicon.parameters ahead).Conserves ahead
      fun clause => some (clause.elim "" ParameterClause.text) := by
  intro clause text found same
  cases same
  exact (clauseForm_of_parameters (Reading.eq_of_result found)).lexemes_withoutVoid

/-- The clause comes behind the name, and a `void` can only be in the clause. -/
theorem declarator_conserves (spelled : Spelled ahead) :
    (language.lexicon.declarator ahead).Conserves ahead
      fun declarator => some declarator.text := by
  intro declarator text found same
  cases same
  obtain ⟨front, back, named, clause, taken⟩ :=
    declarator_eq_ok_iff.1 (Reading.eq_of_result found)
  have name : (language.lexicon.named IdExpression.ofParts ahead).Prints ahead IdExpression.text :=
    named_prints IdExpression.text_ofParts spelled
  rw [named] at name
  have printed := name _ rfl
  have behind := (clauseForm_of_parameters clause).lexemes_withoutVoid
  rw [taken, List.take_add, withoutVoid_append printed.unopened, lexemes_append, printed.lexemes_eq,
    behind, ← unspaced_append, ← String.toList_append]
  rfl

end Lexicon

end

/-! ## Operations -/

namespace Parser

/-- The text of the node that an answer holds. An absent clause has the empty text. -/
def Answer.text? : Answer → Option String
  | nestedName nested => some nested.text
  | idExpression id => some id.text
  | typeSpecifier specifier => some specifier.text
  | specifierSequence sequence => some sequence.text
  | parameters clause => some (clause.elim "" ParameterClause.text)
  | declarator node => some node.text
  | token _ | flag _ | done => none

/-- Whatever operation succeeds has taken the tokens that are printed. -/
theorem perform_conserves {language : Language} {ahead : List Token} (spelled : Spelled ahead)
    (operation : Operation) :
    (language.lexicon.perform ahead operation).Conserves ahead Answer.text? := by
  cases operation with
  | current | peek | advance | isAtEnd =>
    intro answer text found same
    cases found
    cases same
  | expectEnd =>
    intro answer text found same
    cases ahead <;> cases found
    cases same
  | nestedName =>
    intro answer text found same
    cases found
    cases same
    have printed := @Lexicon.scopes_printedAs language ahead spelled
    rw [← printed.lexemes_eq]
    exact congrArg lexemes printed.withoutVoid_eq
  | idExpression =>
    exact (Lexicon.named_prints IdExpression.text_ofParts spelled).conserves.map Answer.idExpression
  | typeSpecifier => exact (Lexicon.typeSpecifier_prints spelled).conserves.map Answer.typeSpecifier
  | specifierSequence =>
    exact (Lexicon.specifierSequence_prints spelled).conserves.map Answer.specifierSequence
  | parameters => exact Lexicon.parameters_conserves.map Answer.parameters
  | declarator => exact (Lexicon.declarator_conserves spelled).map Answer.declarator

section

variable {σ : Type} [TokenSource σ] {language : Language} {parser after : Parser σ}
  {operation : Operation}

/-- An operation has the result of its reading, and behind the tokens taken the others remain. -/
theorem execute_remaining (stands : parser.StandsAt language parser.remaining)
    (spelled : Spelled parser.remaining) {result : Except Diagnostic Answer}
    (executed : parser.execute operation = (result, after)) :
    let reading := language.lexicon.perform parser.remaining operation
    reading.result = result ∧ after.StandsAt language after.remaining ∧
      after.remaining = parser.remaining.drop reading.taken ∧
      parser.remaining = parser.remaining.take reading.taken ++ after.remaining := by
  intro reading
  have start : parser.StandsAt language (parser.remaining.drop 0) := stands
  obtain ⟨same, behind⟩ := execute_reads spelled start operation
  rw [executed] at same behind
  rw [Nat.zero_add] at behind
  have left := behind.remaining_eq (spelled.drop _)
  refine ⟨same.symm, ?_, left, ?_⟩
  · rwa [left]
  · rw [left]
    exact (List.take_append_drop _ _).symm

/-- What is returned is printed as the tokens in front of those that remain. -/
theorem printed_of_execute (stands : parser.StandsAt language parser.remaining)
    (spelled : Spelled parser.remaining) {answer : Answer} {text : String}
    (executed : parser.execute operation = (.ok answer, after))
    (printed : answer.text? = some text) :
    ∃ taken, parser.remaining = taken ++ after.remaining ∧
      lexemes (withoutVoid taken) = unspaced text.toList := by
  obtain ⟨found, -, -, split⟩ := execute_remaining stands spelled executed
  exact ⟨_, split, perform_conserves spelled operation answer text found printed⟩

/-- The token that is complained about is the first of those that remain. -/
theorem complaint_of_execute (stands : parser.StandsAt language parser.remaining)
    (spelled : Spelled parser.remaining) {d : Diagnostic} (other : operation ≠ .expectEnd)
    (executed : parser.execute operation = (.error d, after)) :
    ∃ expected taken, d = .unexpectedToken expected after.current.text ∧
      parser.remaining = taken ++ after.remaining ∧
      after.current = after.remaining.headD .eof := by
  obtain ⟨failed, behind, left, split⟩ := execute_remaining stands spelled executed
  obtain ⟨expected, same⟩ := Lexicon.perform_complains other d failed
  have first := behind.current_eq
  refine ⟨expected, _, ?_, split, first⟩
  rw [same, complaint, ← left, first]

/-- Where no clause begins, the parser does not move. -/
theorem eq_of_parameters_none
    (executed : parser.execute .parameters = (.ok (.parameters none), after)) : after = parser := by
  have outcome : perform .parameters parser = EStateM.map Answer.parameters parameters parser := rfl
  have opened : (some <$> clauseTail : Production σ _) parser.advanced =
      EStateM.map some clauseTail parser.advanced := rfl
  rw [execute, outcome, EStateM.map, parameters, opened, EStateM.map] at executed
  by_cases opens : parser.isAtPunctuator "(" = true
  · rw [if_pos opens] at executed
    cases read : clauseTail parser.advanced with
    | ok clause behind =>
      rw [read] at executed
      cases executed
    | error d behind =>
      rw [read] at executed
      cases executed
  · rw [if_neg opens] at executed
    cases executed
    rfl

end

/-- **What is taken is what is printed.** Wherever a parser is in a source, what an operation returns is
printed, blanks apart, as the tokens that it takes, without a `void` between parentheses; an absent clause
takes nothing. An operation that fails complains about the token that is the current one then, the first
of those that it leaves. -/
theorem execute_conserves_text (lexer : Lexer) (operations : List Operation) (operation : Operation) :
    let parser := ((ofLexer lexer).run operations).2
    (∀ answer after text, parser.execute operation = (.ok answer, after) →
      answer.text? = some text →
      ∃ taken, parser.remaining = taken ++ after.remaining ∧
        lexemes (withoutVoid taken) = unspaced text.toList) ∧
    (∀ after, parser.execute .parameters = (.ok (.parameters none), after) → after = parser) ∧
    (∀ d after, operation ≠ .expectEnd → parser.execute operation = (.error d, after) →
      ∃ expected taken, d = .unexpectedToken expected after.current.text ∧
        parser.remaining = taken ++ after.remaining ∧
        after.current = after.remaining.headD .eof) := by
  intro parser
  obtain ⟨stands, spelled⟩ := run_standsAt lexer operations
  refine ⟨?_, fun after => eq_of_parameters_none, ?_⟩
  · intro answer after text executed printed
    exact printed_of_execute stands spelled executed printed
  · intro d after other executed
    exact complaint_of_execute stands spelled other executed

theorem execute_conserves_f_void :
    let parser := fun source : String =>
      ((ofLexer (Lexer.ofSource Language.typed source)).run [.specifierSequence]).2
    let whole := (parser "long a::f( void ) g").execute .declarator
    let unclosed := (parser "long (void").execute .parameters
    let absent := (parser "long g").execute .parameters
    (∃ answer taken, whole.1 = .ok answer ∧ answer.text? = some "a::f()" ∧
      (parser "long a::f( void ) g").remaining = taken ++ whole.2.remaining ∧
      lexemes (withoutVoid taken) = "a::f()".toList) ∧
    (absent.1 = .ok (.parameters none) ∧ absent.2 = parser "long g") ∧
    (∃ taken, unclosed.1 = .error (.unexpectedToken "`)`" unclosed.2.current.text) ∧
      (parser "long (void").remaining = taken ++ unclosed.2.remaining) := by
  intro parser whole unclosed absent
  refine ⟨?_, ?_, ?_⟩
  · let name : QualifiedName := ⟨⟨[⟨"a", by decide⟩]⟩, ⟨"f", by decide⟩⟩
    let answer : Answer := .declarator ⟨.qualified name, some .empty⟩
    have found : whole.1 = .ok answer := by decide +kernel
    have printed : answer.text? = some "a::f()" := by decide +kernel
    have unblank : unspaced "a::f()".toList = "a::f()".toList := by decide
    obtain ⟨conserved, -, -⟩ := execute_conserves_text
      (Lexer.ofSource Language.typed "long a::f( void ) g") [.specifierSequence] .declarator
    obtain ⟨taken, split, same⟩ := conserved _ _ _ (Prod.ext found rfl) printed
    exact ⟨answer, taken, found, printed, split, same.trans unblank⟩
  · have found : absent.1 = .ok (.parameters none) := by decide +kernel
    obtain ⟨-, stays, -⟩ := execute_conserves_text
      (Lexer.ofSource Language.typed "long g") [.specifierSequence] .parameters
    exact ⟨found, stays _ (Prod.ext found rfl)⟩
  · have failed : unclosed.1 = .error (.unexpectedToken "`)`" "end of input") := by decide +kernel
    obtain ⟨-, -, complains⟩ := execute_conserves_text
      (Lexer.ofSource Language.typed "long (void") [.specifierSequence] .parameters
    obtain ⟨expected, taken, same, split, -⟩ := complains _ _ (by decide) (Prod.ext failed rfl)
    injection same with _ text
    refine ⟨taken, ?_, split⟩
    rw [failed, text]

end Parser

end FunctionSymbols
