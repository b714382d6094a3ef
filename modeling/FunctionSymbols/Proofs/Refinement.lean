import FunctionSymbols.Proofs.Reading
import FunctionSymbols.Proofs.Scanning

/-!
# Parsing is reading a list

A parser holds the current token while its source already stands behind it. `StandsAt` relates this
state to the list of the tokens ahead, the current one included. Every production keeps the relation,
whether it succeeds or fails: its result is that of the reading with the same name, and it leaves the
parser behind as many tokens as the reading takes.
-/

namespace FunctionSymbols

/-! ## Tokens that a lexer yields -/

/-- No end token is among the tokens, and the identifiers among them are words. -/
def Spelled (tokens : List Token) : Prop :=
  ∀ token ∈ tokens, token.isEof = false ∧
    (token.isIdentifier = true → IsWord token.lexeme.toList)

theorem spelled_tokens (language : Language) (text : List Char) : Spelled (tokens language text) :=
  fun token member => ⟨isEof_of_mem_tokens token member,
    fun named => (isWord_of_mem_tokens token member named).1⟩

theorem Spelled.drop {ahead : List Token} (spelled : Spelled ahead) (n : Nat) :
    Spelled (ahead.drop n) :=
  fun token member => spelled token (List.mem_of_mem_drop member)

theorem Spelled.of_append_left {front back : List Token} (spelled : Spelled (front ++ back)) :
    Spelled front :=
  fun token member => spelled token (List.mem_append_left back member)

theorem Token.name?_eq_some_iff {token : Token} {name : Identifier} :
    token.name? = some name ↔ token = ⟨name.text, .identifier⟩ := by
  obtain ⟨lexeme, tag⟩ := token
  simp only [name?, isIdentifier, beq_iff_eq, Token.mk.injEq]
  constructor
  · intro h
    split at h
    · next tagged =>
      cases found : Identifier.ofString lexeme with
      | error d =>
        rw [found] at h
        cases h
      | ok other =>
        rw [found] at h
        cases h
        exact ⟨(Identifier.ofString_eq_ok_iff.1 found).symm, tagged⟩
    · cases h
  · rintro ⟨rfl, rfl⟩
    rw [if_pos rfl, Identifier.ofString_text]
    rfl

theorem Token.isIdentifier_of_name? {token : Token} {name : Identifier}
    (h : token.name? = some name) : token.isIdentifier = true := by
  rw [name?_eq_some_iff.1 h]
  rfl

/-- Among spelled tokens an identifier is never refused. -/
theorem Spelled.exists_name {token : Token} {rest : List Token} (spelled : Spelled (token :: rest))
    (named : token.isIdentifier = true) : ∃ name, token.name? = some name := by
  obtain ⟨name, text⟩ :=
    Identifier.exists_of_isWord ((spelled token List.mem_cons_self).2 named)
  refine ⟨name, Token.name?_eq_some_iff.2 ?_⟩
  obtain ⟨lexeme, tag⟩ := token
  simp only [Token.isIdentifier, beq_iff_eq] at named
  rw [String.ofList_toList] at text
  rw [named, text]

namespace Parser

variable {σ : Type} [TokenSource σ]

/-! ## The state and the tokens ahead -/

/-- The current token is the first of the tokens ahead, and the source yields the others. -/
structure StandsAt (language : Language) (ahead : List Token) (parser : Parser σ) : Prop where
  language_eq : parser.language = language
  current_eq : parser.current = ahead.headD .eof
  source_eq : TokenSource.toList parser.source = ahead.tail

variable {language : Language} {ahead : List Token} {parser : Parser σ}

theorem standsAt_ofSource (language : Language) (source : σ) :
    (ofSource language source).StandsAt language (TokenSource.toList source) :=
  ⟨rfl, TokenSource.next_fst source, TokenSource.toList_next source⟩

namespace StandsAt

theorem advanced (h : parser.StandsAt language ahead) :
    parser.advanced.StandsAt language ahead.tail := by
  have next := standsAt_ofSource parser.language parser.source
  rw [h.language_eq, h.source_eq] at next
  rwa [Parser.advanced, h.language_eq]

theorem peek_eq (h : parser.StandsAt language ahead) : parser.peek = ahead.tail.headD .eof := by
  rw [peek, TokenSource.next_fst, h.source_eq]

theorem isAtIdentifier_eq (h : parser.StandsAt language ahead) :
    parser.isAtIdentifier = (ahead.headD .eof).isIdentifier := by
  rw [isAtIdentifier, h.current_eq]

theorem isAtPunctuator_eq (h : parser.StandsAt language ahead) (lexeme : String) :
    parser.isAtPunctuator lexeme = language.lexicon.isPunctuator (ahead.headD .eof) lexeme := by
  rw [isAtPunctuator, h.current_eq, h.language_eq]
  rfl

theorem isBeforePunctuator_eq (h : parser.StandsAt language ahead) (lexeme : String) :
    parser.isBeforePunctuator lexeme =
      language.lexicon.isPunctuator (ahead.tail.headD .eof) lexeme := by
  rw [isBeforePunctuator, h.peek_eq, h.language_eq]
  rfl

theorem isAtKeyword_eq (h : parser.StandsAt language ahead) (lexeme : String) :
    parser.isAtKeyword lexeme = language.lexicon.isKeyword (ahead.headD .eof) lexeme := by
  rw [isAtKeyword, h.current_eq, h.language_eq]
  rfl

theorem builtin?_eq (h : parser.StandsAt language ahead) :
    parser.builtin? = language.lexicon.builtin? (ahead.headD .eof) := by
  rw [builtin?, h.isAtKeyword_eq, h.current_eq]
  rfl

theorem unexpected_eq (h : parser.StandsAt language ahead) (expected : String) :
    parser.unexpected expected = complaint expected ahead := by
  rw [unexpected, h.current_eq]
  rfl

theorem isAtEnd_eq (h : parser.StandsAt language ahead) (spelled : Spelled ahead) :
    parser.isAtEnd = ahead.isEmpty := by
  rw [isAtEnd, h.current_eq]
  cases ahead with
  | nil => rfl
  | cons token rest => exact (spelled token List.mem_cons_self).1

end StandsAt

/-! ## Outcomes -/

/-- The production has the result of the reading and leaves the parser behind the tokens taken. -/
def Reads {α : Type} (language : Language) (ahead : List Token)
    (outcome : EStateM.Result Diagnostic (Parser σ) α) (reading : Reading α) : Prop :=
  ∃ after : Parser σ, after.StandsAt language (ahead.drop reading.taken) ∧
    outcome = match reading.result with
      | .ok a => .ok a after
      | .error d => .error d after

theorem Reads.map {α β : Type} {production : Production σ α} {reading : Reading α} (f : α → β)
    (h : Reads language ahead (production parser) reading) :
    Reads language ahead ((f <$> production) parser) (reading.map f) := by
  obtain ⟨after, stands, outcome⟩ := h
  obtain ⟨result, taken⟩ := reading
  refine ⟨after, stands, ?_⟩
  show EStateM.map f production parser = _
  rw [EStateM.map, outcome]
  cases result <;> rfl

/-! ## Productions -/

theorem identifier_of_name? {name : Identifier} (h : parser.StandsAt language ahead)
    (named : ahead.head?.bind Token.name? = some name) :
    identifier parser = .ok name parser.advanced := by
  obtain ⟨token, head, spelling⟩ := Option.bind_eq_some_iff.1 named
  have current : parser.current = ⟨name.text, .identifier⟩ := by
    rw [h.current_eq, List.headD_eq_head?_getD, head, ← Token.name?_eq_some_iff.1 spelling]
    rfl
  have at_name : parser.isAtIdentifier = true := by
    rw [isAtIdentifier, current]
    rfl
  rw [identifier, if_pos at_name, current, Identifier.ofString_text]

theorem identifier_of_name?_eq_none (h : parser.StandsAt language ahead) (spelled : Spelled ahead)
    (unnamed : ahead.head?.bind Token.name? = none) :
    identifier parser = .error (complaint "identifier" ahead) parser := by
  have other : parser.isAtIdentifier = false := by
    rw [h.isAtIdentifier_eq]
    cases ahead with
    | nil => rfl
    | cons token rest =>
      rw [← Bool.not_eq_true]
      intro named
      obtain ⟨name, found⟩ := spelled.exists_name named
      rw [List.head?_cons, Option.bind_some, found] at unnamed
      cases unnamed
  rw [identifier, other, h.unexpected_eq]
  rfl

theorem scopes_stop (stop : ¬ (parser.isAtIdentifier = true ∧ parser.isBeforePunctuator "::" = true)) :
    scopes parser = .ok [] parser := by
  rw [scopes, dif_neg stop]

/-- The loop over scopes never fails. It takes two tokens for each scope. -/
theorem scopes_reads (h : parser.StandsAt language ahead) (spelled : Spelled ahead) :
    ∃ after : Parser σ, scopes parser = .ok (language.lexicon.scopes ahead) after ∧
      after.StandsAt language (ahead.drop (2 * (language.lexicon.scopes ahead).length)) := by
  -- The reading decides on two tokens at a time, as the loop does, so its cases are those of the loop.
  fun_induction Lexicon.scopes language.lexicon ahead generalizing parser with
  | case1 token colons rest name named separated ih =>
    have current : parser.current.lexeme = name.text := by
      rw [h.current_eq, List.headD_cons, Token.name?_eq_some_iff.1 named]
    have go : parser.isAtIdentifier = true ∧ parser.isBeforePunctuator "::" = true := by
      rw [h.isAtIdentifier_eq, h.isBeforePunctuator_eq]
      exact ⟨Token.isIdentifier_of_name? named, separated⟩
    obtain ⟨after, found, stands⟩ := ih h.advanced.advanced (spelled.drop 2)
    refine ⟨after, ?_, ?_⟩
    · rw [scopes, dif_pos go, current, Identifier.ofString_text, found]
    · rw [List.length_cons, Nat.mul_succ, Nat.add_comm, ← List.drop_drop]
      exact stands
  | case2 token colons rest name named unseparated =>
    refine ⟨parser, scopes_stop fun go => unseparated ?_, h⟩
    rw [h.isBeforePunctuator_eq] at go
    exact go.2
  | case3 token colons rest unnamed =>
    refine ⟨parser, scopes_stop fun go => ?_, h⟩
    rw [h.isAtIdentifier_eq] at go
    obtain ⟨name, named⟩ := spelled.exists_name go.1
    rw [named] at unnamed
    cases unnamed
  | case4 ahead short =>
    refine ⟨parser, scopes_stop fun go => ?_, h⟩
    have none : ahead.tail = [] := by
      cases ahead with
      | nil => rfl
      | cons token rest =>
        cases rest with
        | nil => rfl
        | cons colons rest => exact absurd rfl (short token colons rest)
    rw [h.isBeforePunctuator_eq, none, List.headD_nil] at go
    simp [Lexicon.isPunctuator, Token.eof] at go

/-- A name behind its scopes, whatever is made of the two. -/
theorem named_reads {α : Type} (ofParts : List Identifier → Identifier → α)
    (h : parser.StandsAt language ahead) (spelled : Spelled ahead) :
    Reads language ahead
      ((do
        let names ← scopes
        let last ← identifier
        return ofParts names last : Production σ α) parser)
      (language.lexicon.named ofParts ahead) := by
  obtain ⟨behind, found, stands⟩ := scopes_reads h spelled
  simp only [Lexicon.named]
  cases named : (ahead.drop (2 * (language.lexicon.scopes ahead).length)).head?.bind Token.name? with
  | some last =>
    have last_read := identifier_of_name? stands named
    refine ⟨behind.advanced, ?_, ?_⟩
    · rw [← List.drop_drop, List.drop_one]
      exact stands.advanced
    · simp only [bind, EStateM.bind, found, last_read]
      rfl
  | none =>
    have last_read := identifier_of_name?_eq_none stands (spelled.drop _) named
    refine ⟨behind, stands, ?_⟩
    simp only [bind, EStateM.bind, found, last_read]

theorem idExpression_reads (h : parser.StandsAt language ahead) (spelled : Spelled ahead) :
    Reads language ahead (idExpression parser)
      (language.lexicon.named IdExpression.ofParts ahead) :=
  named_reads IdExpression.ofParts h spelled

theorem nestedName_reads (h : parser.StandsAt language ahead) (spelled : Spelled ahead) :
    Reads language ahead (nestedName parser)
      ⟨.ok ⟨language.lexicon.scopes ahead⟩, 2 * (language.lexicon.scopes ahead).length⟩ := by
  obtain ⟨after, found, stands⟩ := scopes_reads h spelled
  refine ⟨after, stands, ?_⟩
  simp only [nestedName, bind, EStateM.bind, found]
  rfl

theorem typeSpecifier_reads (h : parser.StandsAt language ahead) (spelled : Spelled ahead) :
    Reads language ahead (typeSpecifier parser) (language.lexicon.typeSpecifier ahead) := by
  simp only [typeSpecifier, Lexicon.typeSpecifier, h.builtin?_eq, h.isAtIdentifier_eq]
  cases language.lexicon.builtin? (ahead.headD .eof) with
  | some type =>
    refine ⟨parser.advanced, ?_, rfl⟩
    rw [List.drop_one]
    exact h.advanced
  | none =>
    dsimp only
    split
    · exact named_reads TypeSpecifier.ofParts h spelled
    · refine ⟨parser, h, ?_⟩
      rw [h.unexpected_eq]

theorem builtin?_eof (lexicon : Lexicon) : lexicon.builtin? .eof = none := by
  unfold Lexicon.builtin?
  split <;> rfl

theorem typeSpecifier_of_builtin? {type : BuiltinType} (found : parser.builtin? = some type) :
    typeSpecifier parser = .ok (.builtin type) parser.advanced := by
  rw [typeSpecifier, found]

/-! ## The loop over specifiers -/

theorem specifiers_stop {taken : List TypeSpecifier}
    (stop : ((taken.isEmpty && parser.isAtIdentifier) || parser.builtin?.isSome) = false) :
    specifiers taken parser = .ok taken parser := by
  rw [specifiers, stop]
  rfl

theorem specifiers_step {taken : List TypeSpecifier} {specifier : TypeSpecifier} {after : Parser σ}
    (goes : ((taken.isEmpty && parser.isAtIdentifier) || parser.builtin?.isSome) = true)
    (found : typeSpecifier parser = .ok specifier after) :
    specifiers taken parser = specifiers (taken ++ [specifier]) after := by
  rw [specifiers, if_pos goes]
  split
  · next other =>
    rw [found] at other
    cases other
    rfl
  · next failed =>
    rw [found] at failed
    cases failed

theorem specifiers_fail {taken : List TypeSpecifier} {d : Diagnostic} {after : Parser σ}
    (goes : ((taken.isEmpty && parser.isAtIdentifier) || parser.builtin?.isSome) = true)
    (failed : typeSpecifier parser = .error d after) :
    specifiers taken parser = .error d after := by
  rw [specifiers, if_pos goes]
  split
  · next found =>
    rw [failed] at found
    cases found
  · next other =>
    rw [failed] at other
    cases other
    rfl

/-- Behind a first specifier the loop cannot fail: it goes on in front of a built-in type only, and this
is the specifier that it takes. -/
theorem specifiers_reads {taken : List TypeSpecifier} (h : parser.StandsAt language ahead)
    (nonempty : taken ≠ []) :
    ∃ after : Parser σ,
      specifiers taken parser =
        .ok (taken ++ (language.lexicon.builtins ahead).map .builtin) after ∧
      after.StandsAt language (ahead.drop (language.lexicon.builtins ahead).length) := by
  have begun : taken.isEmpty = false := List.isEmpty_eq_false_iff.2 nonempty
  have current := h.builtin?_eq
  fun_induction Lexicon.builtins language.lexicon ahead generalizing parser taken with
  | case1 =>
    rw [List.headD_nil, builtin?_eof] at current
    refine ⟨parser, ?_, h⟩
    rw [specifiers_stop (by rw [begun, current]; rfl), List.map_nil, List.append_nil]
  | case2 token rest type found ih =>
    rw [List.headD_cons, found] at current
    have more : taken ++ [TypeSpecifier.builtin type] ≠ [] := List.append_ne_nil_of_right_ne_nil _ (by simp)
    obtain ⟨after, types, stands⟩ := ih h.advanced more (List.isEmpty_eq_false_iff.2 more)
      h.advanced.builtin?_eq
    refine ⟨after, ?_, stands⟩
    rw [specifiers_step (by rw [current, Option.isSome_some, Bool.or_true])
      (typeSpecifier_of_builtin? current), types, List.append_assoc]
    rfl
  | case3 token rest missing =>
    rw [List.headD_cons, missing] at current
    refine ⟨parser, ?_, h⟩
    rw [specifiers_stop (by rw [begun, current]; rfl), List.map_nil, List.append_nil]

theorem specifierSequence_reads (h : parser.StandsAt language ahead) (spelled : Spelled ahead) :
    Reads language ahead (specifierSequence parser) (language.lexicon.specifierSequence ahead) := by
  have test : ((List.isEmpty ([] : List TypeSpecifier) && parser.isAtIdentifier) ||
      parser.builtin?.isSome) = ((ahead.headD .eof).isIdentifier ||
        (language.lexicon.builtin? (ahead.headD .eof)).isSome) := by
    rw [h.builtin?_eq, h.isAtIdentifier_eq]
    rfl
  rw [specifierSequence, Lexicon.specifierSequence]
  dsimp only
  cases goes : (ahead.headD .eof).isIdentifier ||
      (language.lexicon.builtin? (ahead.headD .eof)).isSome with
  | true =>
    rw [if_pos rfl]
    obtain ⟨behind, stands, outcome⟩ := typeSpecifier_reads h spelled
    generalize language.lexicon.typeSpecifier ahead = reading at stands outcome ⊢
    obtain ⟨result, taken⟩ := reading
    cases result with
    | ok first =>
      obtain ⟨after, types, last⟩ := specifiers_reads stands (List.cons_ne_nil first [])
      refine ⟨after, ?_, ?_⟩
      · rw [← List.drop_drop]
        exact last
      · rw [specifiers_step (test.trans goes) outcome, List.nil_append, types]
        rfl
    | error d =>
      refine ⟨behind, stands, ?_⟩
      rw [specifiers_fail (test.trans goes) outcome]
  | false =>
    refine ⟨parser, h, ?_⟩
    rw [specifiers_stop (test.trans goes), ← h.unexpected_eq]
    rfl

/-- What stands behind an opening parenthesis is read without a failure. -/
theorem clauseContent_reads (h : parser.StandsAt language ahead) :
    ∃ after : Parser σ,
      clauseContent parser = .ok (language.lexicon.clauseContent ahead).1 after ∧
      after.StandsAt language (ahead.drop (language.lexicon.clauseContent ahead).2) := by
  have next : parser.advanced.StandsAt language (ahead.drop 1) := by
    rw [List.drop_one]
    exact h.advanced
  simp only [clauseContent, Lexicon.clauseContent, h.isAtPunctuator_eq, h.isAtKeyword_eq]
  split
  · exact ⟨_, rfl, next⟩
  · split
    · exact ⟨_, rfl, next⟩
    · exact ⟨_, rfl, h⟩

theorem parameters_reads (h : parser.StandsAt language ahead) :
    Reads language ahead (parameters parser) (language.lexicon.parameters ahead) := by
  simp only [parameters, Lexicon.parameters, h.isAtPunctuator_eq]
  split
  · obtain ⟨after, content, stands⟩ := clauseContent_reads h.advanced
    have tail : ∀ n, ahead.tail.drop n = ahead.drop (n + 1) := by
      intro n
      rw [← List.drop_one, List.drop_drop, Nat.add_comm]
    split
    · next closed =>
      refine ⟨after.advanced, ?_, ?_⟩
      · have last := stands.advanced
        rw [tail, ← List.drop_one, List.drop_drop] at last
        exact last
      · show EStateM.map some clauseTail parser.advanced = _
        simp only [EStateM.map, clauseTail, bind, EStateM.bind, content, punctuator,
          stands.isAtPunctuator_eq, closed, if_true]
        rfl
    · next unclosed =>
      refine ⟨after, ?_, ?_⟩
      · rw [tail] at stands
        exact stands
      · show EStateM.map some clauseTail parser.advanced = _
        simp only [EStateM.map, clauseTail, bind, EStateM.bind, content, punctuator,
          stands.isAtPunctuator_eq, unclosed, stands.unexpected_eq]
        rfl
  · exact ⟨parser, h, rfl⟩

theorem declarator_reads (h : parser.StandsAt language ahead) (spelled : Spelled ahead) :
    Reads language ahead (declarator parser) (language.lexicon.declarator ahead) := by
  obtain ⟨behind, stands, named⟩ := idExpression_reads h spelled
  simp only [Lexicon.declarator]
  generalize language.lexicon.named IdExpression.ofParts ahead = reading at stands named ⊢
  obtain ⟨result, taken⟩ := reading
  cases result with
  | error d =>
    refine ⟨behind, stands, ?_⟩
    simp only [declarator, bind, EStateM.bind, named]
  | ok id =>
    obtain ⟨after, last, clause⟩ := parameters_reads stands
    refine ⟨after, ?_, ?_⟩
    · rw [← List.drop_drop]
      exact last
    · simp only [declarator, bind, EStateM.bind, named, clause]
      cases (language.lexicon.parameters (ahead.drop taken)).result <;> rfl

theorem expectEnd_reads (h : parser.StandsAt language ahead) (spelled : Spelled ahead) :
    expectEnd parser = match ahead.head? with
      | none => .ok () parser
      | some token => .error (.trailingInput token.lexeme) parser := by
  rw [expectEnd, h.isAtEnd_eq spelled, h.current_eq]
  cases ahead <;> rfl

end Parser

end FunctionSymbols
