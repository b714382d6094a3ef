import FunctionSymbols.Proofs.CorrectPrefix
import FunctionSymbols.Proofs.OperationRun
import FunctionSymbols.Proofs.SymbolText

/-!
# How a text can fail

Every production fails in one way only: it complains about the first token that it did not take
(`Reading.Complains`). The text of an identifier is checked once more when its token is taken, but this
check never fails, as the lexer tags only words as identifiers.
-/

namespace FunctionSymbols

variable {language : Language} {ahead : List Token}

/-- If the reading fails, it complains about the first of the tokens that it leaves. -/
def Reading.Complains {α : Type} (reading : Reading α) (ahead : List Token) : Prop :=
  ∀ d, reading.result = .error d → ∃ expected, d = complaint expected (ahead.drop reading.taken)

theorem Reading.Complains.map {α β : Type} {reading : Reading α} (complains : reading.Complains ahead)
    (f : α → β) : (reading.map f).Complains ahead := by
  obtain ⟨result, taken⟩ := reading
  intro d failed
  cases result with
  | error _ =>
    cases failed
    exact complains d rfl
  | ok value => cases failed

namespace Lexicon

theorem named_complains {α : Type} (ofParts : List Identifier → Identifier → α) :
    (language.lexicon.named ofParts ahead).Complains ahead := by
  rcases read : language.lexicon.named ofParts ahead with ⟨_ | value, taken⟩
  · intro d failed
    cases failed
    exact ⟨_, (named_eq_error read).2⟩
  · intro d failed
    cases failed

theorem typeSpecifier_complains : (language.lexicon.typeSpecifier ahead).Complains ahead := by
  unfold typeSpecifier
  dsimp only
  split
  · intro d failed
    cases failed
  · split
    · exact named_complains _
    · intro d failed
      cases failed
      exact ⟨_, rfl⟩

theorem specifierSequence_complains : (language.lexicon.specifierSequence ahead).Complains ahead := by
  unfold specifierSequence
  dsimp only
  split
  · have first := @typeSpecifier_complains language ahead
    rcases read : language.lexicon.typeSpecifier ahead with ⟨_ | specifier, taken⟩
    · rw [read] at first
      intro d failed
      cases failed
      exact first _ rfl
    · intro d failed
      cases failed
  · intro d failed
    cases failed
    exact ⟨_, rfl⟩

theorem parameters_complains : (language.lexicon.parameters ahead).Complains ahead := by
  rcases read : language.lexicon.parameters ahead with ⟨_ | clause, taken⟩
  · intro d failed
    cases failed
    obtain ⟨opening, rest, -, inner, rfl, -, -, rfl, rfl⟩ := parameters_eq_error read
    exact ⟨_, rfl⟩
  · intro d failed
    cases failed

theorem declarator_complains : (language.lexicon.declarator ahead).Complains ahead :=
  fun _ failed => exists_complaint failed

/-- Whatever fails but the end that is expected complains about the first token that it leaves. -/
theorem perform_complains {operation : Parser.Operation} (other : operation ≠ .expectEnd) :
    (language.lexicon.perform ahead operation).Complains ahead := by
  cases operation with
  | expectEnd => exact absurd rfl other
  | idExpression => exact (named_complains _).map _
  | typeSpecifier => exact typeSpecifier_complains.map _
  | specifierSequence => exact specifierSequence_complains.map _
  | parameters => exact parameters_complains.map _
  | declarator => exact declarator_complains.map _
  | current | peek | advance | isAtEnd | nestedName =>
    intro d failed
    cases failed

end Lexicon

/-- The one code that an operation fails with. -/
def Parser.Operation.failure : Operation → DiagnosticCode
  | .expectEnd => .trailingInput
  | _ => .unexpectedToken

theorem Lexicon.code_of_perform {operation : Parser.Operation} {d : Diagnostic}
    (failed : (language.lexicon.perform ahead operation).result = .error d) :
    d.code = operation.failure ∧ d.kind = .format := by
  by_cases ending : operation = .expectEnd
  · subst ending
    cases ahead with
    | nil => cases failed
    | cons token rest =>
      cases failed
      exact ⟨rfl, rfl⟩
  · obtain ⟨expected, rfl⟩ := perform_complains ending d failed
    cases operation with
    | expectEnd => exact absurd rfl ending
    | _ => exact ⟨rfl, rfl⟩

/-! ## Identifiers -/

/-- What a lexer tags as an identifier spells one. -/
theorem isIdentifier_of_mem_tokens {text : List Char} {token : Token}
    (member : token ∈ tokens language text) (tagged : token.tag = .identifier) :
    IsIdentifier token.lexeme := by
  apply isIdentifier_iff.2
  exact (isWord_of_mem_tokens token member (beq_iff_eq.2 tagged)).1

/-- The last token of a parser or one of those that remain. -/
theorem Parser.StandsAt.mem_ahead {σ : Type} [TokenSource σ] {parser : Parser σ} {token : Token}
    (stands : parser.StandsAt language ahead)
    (member : token ∈ parser.current :: TokenSource.toList parser.source) :
    token = .eof ∨ token ∈ ahead := by
  rw [stands.current_eq, stands.source_eq] at member
  cases ahead with
  | nil => exact .inl (List.mem_singleton.1 member)
  | cons head rest => exact .inr member

/-! ## Runs, declarators and symbols -/

/-- A text has no symbol when it is no declarator, or when the name of its declarator is qualified. -/
theorem Symbol.ofText_eq_error_iff {source : String} {d : Diagnostic} :
    ofText language source = .error d ↔
      Declarator.ofString language source = .error d ∨
      ∃ name clause, Declarator.ofString language source = .ok ⟨.qualified name, clause⟩ ∧
        d = .unsupportedName (IdExpression.text (.qualified name)) := by
  constructor
  · intro failed
    cases read : Declarator.ofString language source with
    | error cause =>
      rw [ofText_eq_error read] at failed
      cases failed
      exact .inl rfl
    | ok declarator =>
      obtain ⟨id, clause⟩ := declarator
      rw [ofText_eq, read] at failed
      cases id with
      | unqualified name => cases failed
      | qualified name =>
        cases failed
        exact .inr ⟨name, clause, rfl, rfl⟩
  · rintro (refused | ⟨name, clause, read, rfl⟩)
    · exact ofText_eq_error refused
    · rw [ofText_eq, read]
      rfl

/-- **The documented failures.** Whatever operations a parser of a text has carried out, the next one can
only fail in its own way: the end that is expected reports trailing input, and all others an unexpected
token. No token that is tagged as an identifier spells anything else, so that the check of identifiers
never fails. A text that is no declarator is refused in one of these two ways. Its symbol can be refused
in one more way, and this happens exactly when the whole text is a declarator with a qualified name.
Every failure is a format error. -/
theorem Symbol.ofText_failures (language : Language) (source : String) :
    (∀ operations, let parser := ((Parser.ofLexer (Lexer.ofSource language source)).run operations).2
      (∀ token ∈ parser.current :: parser.source.remaining,
        token.tag = .identifier → IsIdentifier token.lexeme) ∧
      ∀ operation d, (parser.execute operation).1 = .error d →
        d.code = operation.failure ∧ d.kind = .format) ∧
    (∀ d, Declarator.ofString language source = .error d →
      (d.code = .unexpectedToken ∨ d.code = .trailingInput) ∧ d.kind = .format) ∧
    (∀ d, ofText language source = .error d →
      (d.code = .unexpectedToken ∨ d.code = .trailingInput ∨ d.code = .unsupportedName) ∧
        d.kind = .format) ∧
    ∀ text, ofText language source = .error (.unsupportedName text) ↔
      ∃ name clause, Declarator.ofString language source = .ok ⟨.qualified name, clause⟩ ∧
        text = IdExpression.text (.qualified name) := by
  have start : (Parser.ofLexer (Lexer.ofSource language source)).StandsAt language
      ((tokens language source.toList).drop 0) :=
    Parser.standsAt_ofSource language (Lexer.ofSource language source)
  have spelled := spelled_tokens language source.toList
  have declared : ∀ d, Declarator.ofString language source = .error d →
      (d.code = .unexpectedToken ∨ d.code = .trailingInput) ∧ d.kind = .format := by
    intro d refused
    obtain ⟨expected, rfl⟩ | ⟨-, rfl⟩ := Declarator.refused_cases refused
    · exact ⟨.inl rfl, rfl⟩
    · exact ⟨.inr rfl, rfl⟩
  refine ⟨fun operations => ?_, declared, ?_, ?_⟩
  · obtain ⟨-, stands⟩ := Parser.run_reads spelled operations start
    refine ⟨fun token member tagged => ?_, fun operation d failed => ?_⟩
    · rcases stands.mem_ahead member with rfl | listed
      · cases tagged
      · exact isIdentifier_of_mem_tokens (List.mem_of_mem_drop listed) tagged
    · rw [(Parser.execute_reads spelled stands operation).1] at failed
      exact Lexicon.code_of_perform failed
  · intro d failed
    obtain refused | ⟨name, clause, -, rfl⟩ := ofText_eq_error_iff.1 failed
    · obtain ⟨unexpected | trailing, kind⟩ := declared d refused
      · exact ⟨.inl unexpected, kind⟩
      · exact ⟨.inr (.inl trailing), kind⟩
    · exact ⟨.inr (.inr rfl), rfl⟩
  · intro text
    rw [ofText_eq_error_iff]
    constructor
    · rintro (refused | ⟨name, clause, read, same⟩)
      · obtain ⟨unexpected | trailing, -⟩ := declared _ refused
        · cases unexpected
        · cases trailing
      · cases same
        exact ⟨name, clause, read, rfl⟩
    · rintro ⟨name, clause, read, rfl⟩
      exact .inr ⟨name, clause, read, rfl⟩

theorem Symbol.fails_unclosed_and_scoped :
    let parser := ((Parser.ofLexer (Lexer.ofSource Language.sample "f(")).run [.idExpression]).2
    let unclosed : Diagnostic := .unexpectedToken "`)`" "end of input"
    ((parser.execute .parameters).1 = .error unclosed ∧
      unclosed.code = Parser.Operation.failure .parameters ∧ unclosed.kind = .format) ∧
    (Declarator.ofString Language.sample "f(" = .error unclosed ∧
      (unclosed.code = .unexpectedToken ∨ unclosed.code = .trailingInput) ∧
        unclosed.kind = .format) ∧
    ofText Language.sample "a::f" = .error (.unsupportedName "a::f") ∧
    ∃ name clause, Declarator.ofString Language.sample "a::f" = .ok ⟨.qualified name, clause⟩ ∧
      "a::f" = IdExpression.text (.qualified name) := by
  intro parser unclosed
  have failed : (parser.execute .parameters).1 = .error unclosed := by decide +kernel
  have refused : Declarator.ofString Language.sample "f(" = .error unclosed := by decide +kernel
  have qualified : ofText Language.sample "a::f" = .error (.unsupportedName "a::f") := by
    decide +kernel
  obtain ⟨operations, declared, -, -⟩ := ofText_failures Language.sample "f("
  obtain ⟨-, -, -, unsupported⟩ := ofText_failures Language.sample "a::f"
  exact ⟨⟨failed, (operations [.idExpression]).2 _ _ failed⟩, ⟨refused, declared _ refused⟩, qualified,
    (unsupported "a::f").1 qualified⟩

end FunctionSymbols
