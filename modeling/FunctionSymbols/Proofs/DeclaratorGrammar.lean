import FunctionSymbols.Proofs.Refinement

/-!
# The declarators that are accepted

The grammar of declarators as relations between what is declared and lists of tokens. A greedy reading
takes the scopes first; it never takes too many, because a scope and the name behind the scopes differ
in the second token. A text is accepted exactly when its tokens are in the grammar.
-/

namespace FunctionSymbols

/-! ## The grammar -/

/-- The tokens of `a1 :: a2 :: … :: last`. -/
inductive NameForm (language : Language) (last : String) : List String → List Token → Prop where
  | last : NameForm language last [] [⟨last, .identifier⟩]
  | scope {segment : String} {segments : List String} {colons : Tag} {behind : List Token}
      (registered : language.punctuators.lookup "::" = some colons)
      (form : NameForm language last segments behind) :
      NameForm language last (segment :: segments)
        (⟨segment, .identifier⟩ :: ⟨"::", colons⟩ :: behind)

/-- The tokens of no clause, or of `( )`, `( void )` or `( ... )`. -/
inductive ClauseForm (language : Language) : Option ParameterClause → List Token → Prop where
  | absent : ClauseForm language none []
  | empty {opening closing : Tag}
      (opens : language.punctuators.lookup "(" = some opening)
      (closes : language.punctuators.lookup ")" = some closing) :
      ClauseForm language (some .empty) [⟨"(", opening⟩, ⟨")", closing⟩]
  | void {opening void closing : Tag}
      (opens : language.punctuators.lookup "(" = some opening)
      (registered : language.keywords.lookup "void" = some void)
      (closes : language.punctuators.lookup ")" = some closing) :
      ClauseForm language (some .empty) [⟨"(", opening⟩, ⟨"void", void⟩, ⟨")", closing⟩]
  | variadic {opening ellipsis closing : Tag}
      (opens : language.punctuators.lookup "(" = some opening)
      (registered : language.punctuators.lookup "..." = some ellipsis)
      (closes : language.punctuators.lookup ")" = some closing) :
      ClauseForm language (some .variadic) [⟨"(", opening⟩, ⟨"...", ellipsis⟩, ⟨")", closing⟩]

/-- The tokens of a name and a clause. -/
def DeclaratorForm (language : Language) (segments : List String) (last : String)
    (clause : Option ParameterClause) (list : List Token) : Prop :=
  ∃ front back, list = front ++ back ∧ NameForm language last segments front ∧
    ClauseForm language clause back

/-- The id-expression has these texts as its scopes and its last name. It is qualified when there is a
scope and unqualified when there is none. -/
def IdExpression.Spells (segments : List String) (last : String) : IdExpression → Prop
  | unqualified name => segments = [] ∧ name.text = last
  | qualified name =>
    segments ≠ [] ∧ name.nested.segments.map Identifier.text = segments ∧ name.last.text = last

theorem IdExpression.spells_iff {id : IdExpression} {segments : List String} {last : String} :
    id.Spells segments last ↔
      ∃ names name, id = ofParts names name ∧ names.map Identifier.text = segments ∧
        name.text = last := by
  constructor
  · intro h
    cases id with
    | unqualified name =>
      obtain ⟨rfl, text⟩ := h
      exact ⟨[], name, rfl, rfl, text⟩
    | qualified name =>
      obtain ⟨⟨names⟩, name⟩ := name
      obtain ⟨nonempty, texts, text⟩ := h
      cases names with
      | nil => exact absurd texts.symm nonempty
      | cons head rest => exact ⟨head :: rest, name, rfl, texts, text⟩
  · rintro ⟨names, name, rfl, rfl, rfl⟩
    cases names with
    | nil => exact ⟨rfl, rfl⟩
    | cons head rest => exact ⟨List.cons_ne_nil _ _, rfl, rfl⟩

/-- The texts determine the id-expression. -/
theorem IdExpression.eq_of_spells {a b : IdExpression} {segments : List String} {last : String}
    (ha : a.Spells segments last) (hb : b.Spells segments last) : a = b := by
  obtain ⟨names, name, rfl, texts, text⟩ := spells_iff.1 ha
  obtain ⟨names', name', rfl, texts', text'⟩ := spells_iff.1 hb
  have scopes : names = names' :=
    (List.map_inj_right fun _ _ => Identifier.text_injective).1 (texts.trans texts'.symm)
  rw [scopes, Identifier.text_injective (text.trans text'.symm)]

/-! ## Registered tokens -/

namespace TokenTable

variable {table : TokenTable} {lexeme : String}

theorem isEntry_iff {token : Token} :
    (token.lexeme == lexeme && table.lookup lexeme == some token.tag) = true ↔
      ∃ tag, token = ⟨lexeme, tag⟩ ∧ table.lookup lexeme = some tag := by
  obtain ⟨text, tag⟩ := token
  simp only [Bool.and_eq_true, beq_iff_eq, Token.mk.injEq]
  constructor
  · rintro ⟨rfl, registered⟩
    exact ⟨tag, ⟨rfl, rfl⟩, registered⟩
  · rintro ⟨_, ⟨rfl, rfl⟩, registered⟩
    exact ⟨rfl, registered⟩

/-- The end token is not registered, so what is registered stands in the list. -/
theorem isEntry_headD_iff {ahead : List Token} :
    ((ahead.headD .eof).lexeme == lexeme && table.lookup lexeme == some (ahead.headD .eof).tag) = true ↔
      ∃ tag rest, ahead = ⟨lexeme, tag⟩ :: rest ∧ table.lookup lexeme = some tag := by
  rw [isEntry_iff]
  constructor
  · rintro ⟨tag, head, registered⟩
    cases ahead with
    | nil =>
      cases head
      cases isReserved_of_lookup registered
    | cons token rest => exact ⟨tag, rest, congrArg (· :: rest) head, registered⟩
  · rintro ⟨tag, rest, rfl, registered⟩
    exact ⟨tag, rfl, registered⟩

end TokenTable

namespace Language

variable {language : Language} {lexeme : String}

theorem isPunctuator_iff {token : Token} :
    language.lexicon.isPunctuator token lexeme = true ↔
      ∃ tag, token = ⟨lexeme, tag⟩ ∧ language.punctuators.lookup lexeme = some tag :=
  TokenTable.isEntry_iff

theorem isPunctuator_headD_iff {ahead : List Token} :
    language.lexicon.isPunctuator (ahead.headD .eof) lexeme = true ↔
      ∃ tag rest, ahead = ⟨lexeme, tag⟩ :: rest ∧
        language.punctuators.lookup lexeme = some tag :=
  TokenTable.isEntry_headD_iff

theorem isKeyword_headD_iff {ahead : List Token} :
    language.lexicon.isKeyword (ahead.headD .eof) lexeme = true ↔
      ∃ tag rest, ahead = ⟨lexeme, tag⟩ :: rest ∧ language.keywords.lookup lexeme = some tag :=
  TokenTable.isEntry_headD_iff

end Language

/-! ## Names -/

section

variable {language : Language} {ahead : List Token}

/-- Where no name stands, no scope is read. -/
theorem scopes_of_name?_eq_none (lexicon : Lexicon) {token : Token} (unnamed : token.name? = none)
    (rest : List Token) : lexicon.scopes (token :: rest) = [] := by
  cases rest with
  | nil => rfl
  | cons colons rest => rw [Lexicon.scopes, unnamed]

/-- The scopes that are read, with any name behind them, are the tokens of a name. -/
theorem nameForm_of_scopes (language : Language) (ahead : List Token) (last : String) :
    NameForm language last ((language.lexicon.scopes ahead).map Identifier.text)
      (ahead.take (2 * (language.lexicon.scopes ahead).length) ++ [⟨last, .identifier⟩]) := by
  fun_induction Lexicon.scopes language.lexicon ahead with
  | case1 token colons rest segment named separated ih =>
    obtain ⟨tag, rfl, registered⟩ := Language.isPunctuator_iff.1 separated
    rw [Token.name?_eq_some_iff.1 named]
    exact .scope registered ih
  | case2 token colons rest segment named unseparated => exact .last
  | case3 token colons rest unnamed => exact .last
  | case4 ahead short => exact .last

/-- What is read as a name is one: the tokens that were taken have the form. -/
theorem nameForm_of_named {name : Identifier}
    (found : (ahead.drop (2 * (language.lexicon.scopes ahead).length)).head?.bind Token.name? =
      some name) :
    NameForm language name.text ((language.lexicon.scopes ahead).map Identifier.text)
      (ahead.take (2 * (language.lexicon.scopes ahead).length + 1)) := by
  obtain ⟨token, head, spelling⟩ := Option.bind_eq_some_iff.1 found
  rw [List.head?_drop] at head
  rw [List.take_add_one, head, Token.name?_eq_some_iff.1 spelling]
  exact nameForm_of_scopes language ahead name.text

/-- The reading of scopes stops at the last name when no `::` stands behind it. -/
theorem scopes_of_nameForm {last : String} {segments : List String} {front back : List Token}
    (form : NameForm language last segments front) (spelled : Spelled front)
    (ends : language.lexicon.isPunctuator (back.headD .eof) "::" = false) :
    ∃ names name, names.map Identifier.text = segments ∧ name.text = last ∧
      language.lexicon.scopes (front ++ back) = names ∧ front.length = 2 * names.length + 1 ∧
      ((front ++ back).drop (2 * names.length)).head?.bind Token.name? = some name := by
  induction form with
  | last =>
    obtain ⟨name, named⟩ := spelled.exists_name rfl
    have text : name.text = last := (congrArg Token.lexeme (Token.name?_eq_some_iff.1 named)).symm
    refine ⟨[], name, rfl, text, ?_, rfl, named⟩
    -- Here the reading could go on: `ends` is what keeps it from taking the last name as a scope.
    cases back with
    | nil => rfl
    | cons token rest =>
      rw [List.headD_cons] at ends
      rw [List.singleton_append, Lexicon.scopes, named, ends]
      rfl
  | @scope segment segments colons behind registered form ih =>
    obtain ⟨head, named⟩ := spelled.exists_name rfl
    have text : head.text = segment :=
      (congrArg Token.lexeme (Token.name?_eq_some_iff.1 named)).symm
    have separated : language.lexicon.isPunctuator ⟨"::", colons⟩ "::" = true :=
      Language.isPunctuator_iff.2 ⟨colons, rfl, registered⟩
    obtain ⟨names, name, texts, last, taken, length, found⟩ := ih (spelled.drop 2)
    refine ⟨head :: names, name, ?_, last, ?_, ?_, found⟩
    · rw [List.map_cons, text, texts]
    · rw [List.cons_append, List.cons_append, Lexicon.scopes, named, separated, taken]
      rfl
    · simp only [List.length_cons, length]
      omega

/-- A name is read to its end. -/
theorem named_of_nameForm {α : Type} (ofParts : List Identifier → Identifier → α) {last : String}
    {segments : List String} {front back : List Token} (form : NameForm language last segments front)
    (spelled : Spelled front)
    (ends : language.lexicon.isPunctuator (back.headD .eof) "::" = false) :
    ∃ names name, names.map Identifier.text = segments ∧ name.text = last ∧
      language.lexicon.named ofParts (front ++ back) =
        ⟨.ok (ofParts names name), front.length⟩ := by
  obtain ⟨names, name, texts, text, taken, length, found⟩ := scopes_of_nameForm form spelled ends
  refine ⟨names, name, texts, text, ?_⟩
  simp only [Lexicon.named, taken, found, length]

/-! ## Clauses -/

/-- Behind an opening parenthesis only a registered token of the clause is taken. -/
theorem clauseContent_cases (language : Language) (ahead : List Token) :
    (∃ tag rest, ahead = ⟨"...", tag⟩ :: rest ∧ language.punctuators.lookup "..." = some tag ∧
      language.lexicon.clauseContent ahead = (.variadic, 1)) ∨
    (∃ tag rest, ahead = ⟨"void", tag⟩ :: rest ∧ language.keywords.lookup "void" = some tag ∧
      language.lexicon.clauseContent ahead = (.empty, 1)) ∨
    language.lexicon.clauseContent ahead = (.empty, 0) := by
  by_cases ellipsis : language.lexicon.isPunctuator (ahead.headD .eof) "..." = true
  · obtain ⟨tag, rest, split, registered⟩ := Language.isPunctuator_headD_iff.1 ellipsis
    exact .inl ⟨tag, rest, split, registered, if_pos ellipsis⟩
  · have content : language.lexicon.clauseContent ahead =
        if language.lexicon.isKeyword (ahead.headD .eof) "void" then (.empty, 1) else (.empty, 0) :=
      if_neg ellipsis
    by_cases void : language.lexicon.isKeyword (ahead.headD .eof) "void" = true
    · obtain ⟨tag, rest, split, registered⟩ := Language.isKeyword_headD_iff.1 void
      exact .inr (.inl ⟨tag, rest, split, registered, content.trans (if_pos void)⟩)
    · exact .inr (.inr (content.trans (if_neg void)))

/-- Parentheses around what is taken as the content are a clause. -/
theorem clauseForm_of_content {opening closing : Tag} {clause : ParameterClause} {inner : Nat}
    (opens : language.punctuators.lookup "(" = some opening)
    (closes : language.punctuators.lookup ")" = some closing)
    (content : language.lexicon.clauseContent ahead = (clause, inner)) :
    ClauseForm language (some clause)
      (⟨"(", opening⟩ :: (ahead.take inner ++ [⟨")", closing⟩])) := by
  rcases clauseContent_cases language ahead with
    ⟨tag, more, rfl, registered, found⟩ | ⟨tag, more, rfl, registered, found⟩ | found
  all_goals
    rw [content] at found
    cases found
  · exact .variadic opens registered closes
  · exact .void opens registered closes
  · exact .empty opens closes

/-- A clause is read when its parentheses stand around its content. -/
theorem parameters_eq_some_iff {clause : ParameterClause} {taken : Nat} :
    language.lexicon.parameters ahead = ⟨.ok (some clause), taken⟩ ↔
      ∃ opening closing rest behind inner, ahead = ⟨"(", opening⟩ :: rest ∧
        language.punctuators.lookup "(" = some opening ∧
        language.punctuators.lookup ")" = some closing ∧
        language.lexicon.clauseContent rest = (clause, inner) ∧
        rest.drop inner = ⟨")", closing⟩ :: behind ∧ taken = inner + 2 := by
  constructor
  · intro h
    unfold Lexicon.parameters at h
    split at h
    · next opened =>
      obtain ⟨opening, rest, rfl, opens⟩ := Language.isPunctuator_headD_iff.1 opened
      rw [List.tail_cons] at h
      rcases found : language.lexicon.clauseContent rest with ⟨content, inner⟩
      rw [found] at h
      dsimp only at h
      split at h
      · next closed =>
        obtain ⟨closing, behind, split, closes⟩ := Language.isPunctuator_headD_iff.1 closed
        cases h
        exact ⟨opening, closing, rest, behind, inner, rfl, opens, closes, found, split, rfl⟩
      · cases h
    · cases h
  · rintro ⟨opening, closing, rest, behind, inner, rfl, opens, closes, found, split, rfl⟩
    have opened := Language.isPunctuator_headD_iff.2 ⟨opening, rest, rfl, opens⟩
    have closed := Language.isPunctuator_headD_iff.2 ⟨closing, behind, split, closes⟩
    rw [Lexicon.parameters, if_pos opened, List.tail_cons, found]
    exact if_pos closed

theorem parameters_eq_none_iff {taken : Nat} :
    language.lexicon.parameters ahead = ⟨.ok none, taken⟩ ↔
      language.lexicon.isPunctuator (ahead.headD .eof) "(" = false ∧ taken = 0 := by
  unfold Lexicon.parameters
  split
  · next opens =>
    dsimp only
    split <;> simp only [opens, Reading.mk.injEq, Except.ok.injEq, reduceCtorEq, false_and]
  · next unopened =>
    rw [Bool.not_eq_true] at unopened
    simp only [unopened, Reading.mk.injEq, true_and]
    exact eq_comm

/-- What is read as a clause is one: the tokens that were taken have the form. -/
theorem clauseForm_of_parameters {clause : Option ParameterClause} {taken : Nat}
    (read : language.lexicon.parameters ahead = ⟨.ok clause, taken⟩) :
    ClauseForm language clause (ahead.take taken) := by
  cases clause with
  | none =>
    obtain ⟨-, rfl⟩ := parameters_eq_none_iff.1 read
    exact .absent
  | some clause =>
    obtain ⟨opening, closing, rest, behind, inner, rfl, opens, closes, found, split, rfl⟩ :=
      parameters_eq_some_iff.1 read
    have last : rest[inner]? = some ⟨")", closing⟩ := by
      rw [← List.head?_drop, split, List.head?_cons]
    rw [List.take_succ_cons, List.take_add_one, last]
    exact clauseForm_of_content opens closes found

/-- Forms are the clauses that are read up to the end of the tokens. -/
theorem clauseForm_iff {clause : Option ParameterClause} :
    ClauseForm language clause ahead ↔
      (language.lexicon.parameters ahead).result = .ok clause ∧
        ahead.drop (language.lexicon.parameters ahead).taken = [] := by
  constructor
  · intro form
    suffices read : language.lexicon.parameters ahead = ⟨.ok clause, ahead.length⟩ by
      rw [read]
      exact ⟨rfl, List.drop_length⟩
    cases form with
    | absent => exact parameters_eq_none_iff.2 ⟨rfl, rfl⟩
    | empty opens closes =>
      exact parameters_eq_some_iff.2 ⟨_, _, _, [], 0, rfl, opens, closes, rfl, rfl, rfl⟩
    | void opens registered closes =>
      refine parameters_eq_some_iff.2 ⟨_, _, _, [], 1, rfl, opens, closes, ?_, rfl, rfl⟩
      exact if_pos (Language.isKeyword_headD_iff.2 ⟨_, _, rfl, registered⟩)
    | variadic opens registered closes =>
      refine parameters_eq_some_iff.2 ⟨_, _, _, [], 1, rfl, opens, closes, ?_, rfl, rfl⟩
      exact if_pos (Language.isPunctuator_headD_iff.2 ⟨_, _, rfl, registered⟩)
  · rintro ⟨result, whole⟩
    rcases read : language.lexicon.parameters ahead with ⟨result', taken⟩
    rw [read] at result whole
    dsimp only at result whole
    subst result
    have form := clauseForm_of_parameters read
    have all := List.take_append_drop taken ahead
    rw [whole, List.append_nil] at all
    rwa [all] at form

/-! ## Declarators -/

theorem named_eq_ok_iff {α : Type} {ofParts : List Identifier → Identifier → α} {a : α}
    {taken : Nat} :
    language.lexicon.named ofParts ahead = ⟨.ok a, taken⟩ ↔
      ∃ name, (ahead.drop (2 * (language.lexicon.scopes ahead).length)).head?.bind Token.name? =
          some name ∧
        a = ofParts (language.lexicon.scopes ahead) name ∧
        taken = 2 * (language.lexicon.scopes ahead).length + 1 := by
  simp only [Lexicon.named]
  cases (ahead.drop (2 * (language.lexicon.scopes ahead).length)).head?.bind Token.name? with
  | some name =>
    simp only [Reading.mk.injEq, Except.ok.injEq, Option.some.injEq]
    constructor
    · rintro ⟨rfl, rfl⟩
      exact ⟨name, rfl, rfl, rfl⟩
    · rintro ⟨_, rfl, rfl, rfl⟩
      exact ⟨rfl, rfl⟩
  | none =>
    constructor
    · intro h
      cases h
    · rintro ⟨name, found, -⟩
      cases found

/-- Where no name stands, nothing is taken for a declarator. -/
theorem declarator_of_name?_eq_none (lexicon : Lexicon) {token : Token}
    (unnamed : token.name? = none) (rest : List Token) :
    lexicon.declarator (token :: rest) =
      ⟨.error (complaint "identifier" (token :: rest)), 0⟩ := by
  have scopes := scopes_of_name?_eq_none lexicon unnamed rest
  have head : (token :: rest).head?.bind Token.name? = none := unnamed
  simp only [Lexicon.declarator, Lexicon.named, scopes, List.length_nil, Nat.mul_zero,
    List.drop_zero, head]

/-- No clause begins with `::`, so a name in front of it is read to its end. -/
theorem ClauseForm.isPunctuator_headD {clause : Option ParameterClause}
    (form : ClauseForm language clause ahead) :
    language.lexicon.isPunctuator (ahead.headD .eof) "::" = false := by
  cases form <;> rfl

/-- A declarator is read as a name and, behind it, a clause. -/
theorem declarator_eq_ok_iff {declarator : Declarator} {taken : Nat} :
    language.lexicon.declarator ahead = ⟨.ok declarator, taken⟩ ↔
      ∃ front back, language.lexicon.named IdExpression.ofParts ahead = ⟨.ok declarator.id, front⟩ ∧
        language.lexicon.parameters (ahead.drop front) = ⟨.ok declarator.parameters, back⟩ ∧
        taken = front + back := by
  unfold Lexicon.declarator
  constructor
  · intro h
    rcases named : language.lexicon.named IdExpression.ofParts ahead with ⟨_ | id, front⟩
    · rw [named] at h
      cases h
    · rw [named] at h
      dsimp only at h
      rcases clause : language.lexicon.parameters (ahead.drop front) with ⟨_ | parameters, back⟩
      · rw [clause] at h
        cases h
      · rw [clause] at h
        cases h
        exact ⟨front, back, rfl, clause, rfl⟩
  · rintro ⟨front, back, named, clause, rfl⟩
    rw [named]
    dsimp only
    rw [clause]
    rfl

/-- Forms are the declarators that are read up to the end of the tokens. -/
theorem declaratorForm_iff (spelled : Spelled ahead) {declarator : Declarator} :
    ((language.lexicon.declarator ahead).result = .ok declarator ∧
        ahead.drop (language.lexicon.declarator ahead).taken = []) ↔
      ∃ segments last, DeclaratorForm language segments last declarator.parameters ahead ∧
        declarator.id.Spells segments last := by
  constructor
  · rintro ⟨result, whole⟩
    rcases read : language.lexicon.declarator ahead with ⟨result', taken⟩
    rw [read] at result whole
    dsimp only at result whole
    subst result
    obtain ⟨front, back, named, clause, rfl⟩ := declarator_eq_ok_iff.1 read
    rw [← List.drop_drop] at whole
    have ending : ClauseForm language declarator.parameters (ahead.drop front) := by
      rw [clauseForm_iff, clause]
      exact ⟨rfl, whole⟩
    obtain ⟨name, found, id, rfl⟩ := named_eq_ok_iff.1 named
    refine ⟨_, _, ⟨_, _, (List.take_append_drop _ ahead).symm, nameForm_of_named found, ending⟩, ?_⟩
    exact IdExpression.spells_iff.2 ⟨_, name, id, rfl, rfl⟩
  · rintro ⟨segments, last, ⟨front, back, rfl, name, clause⟩, spells⟩
    obtain ⟨names, head, texts, text, named⟩ := named_of_nameForm IdExpression.ofParts name
      spelled.of_append_left clause.isPunctuator_headD
    have same : declarator.id = .ofParts names head :=
      IdExpression.eq_of_spells spells (IdExpression.spells_iff.2 ⟨names, head, rfl, texts, text⟩)
    rw [← same] at named
    obtain ⟨result, whole⟩ := clauseForm_iff.1 clause
    rcases read : language.lexicon.parameters back with ⟨result', taken⟩
    rw [read] at result whole
    dsimp only at result whole
    subst result
    have ending : language.lexicon.parameters ((front ++ back).drop front.length) =
        ⟨.ok declarator.parameters, taken⟩ := by
      rw [List.drop_left, read]
    rw [declarator_eq_ok_iff.2 ⟨_, _, named, ending, rfl⟩, ← List.drop_drop, List.drop_left]
    exact ⟨rfl, whole⟩

/-- Every name of spelled tokens is that of an id-expression. -/
theorem NameForm.exists_spells {last : String} {segments : List String}
    (form : NameForm language last segments ahead) (spelled : Spelled ahead) :
    ∃ id : IdExpression, id.Spells segments last := by
  obtain ⟨names, name, texts, text, -⟩ := named_of_nameForm IdExpression.ofParts form spelled
    (ClauseForm.isPunctuator_headD .absent)
  exact ⟨.ofParts names name, IdExpression.spells_iff.2 ⟨names, name, rfl, texts, text⟩⟩

theorem DeclaratorForm.exists_spells {segments : List String} {last : String}
    {clause : Option ParameterClause} (form : DeclaratorForm language segments last clause ahead)
    (spelled : Spelled ahead) : ∃ id : IdExpression, id.Spells segments last := by
  obtain ⟨front, back, rfl, name, -⟩ := form
  exact name.exists_spells spelled.of_append_left

end

/-! ## Texts -/

namespace Declarator

variable {language : Language} {source : String} {declarator : Declarator}

/-- What becomes of a text is what the reading of its tokens gives, when nothing is left behind it. -/
theorem ofString_eq_reading (language : Language) (source : String) :
    ofString language source =
      match (language.lexicon.declarator (tokens language source.toList)).result,
        ((tokens language source.toList).drop
          (language.lexicon.declarator (tokens language source.toList)).taken).head? with
      | .error d, _ => .error d
      | .ok declarator, none => .ok declarator
      | .ok _, some token => .error (.trailingInput token.lexeme) := by
  have spelled := spelled_tokens language source.toList
  have start : (Parser.ofLexer (Lexer.ofSource language source)).StandsAt language
      (tokens language source.toList) :=
    Parser.standsAt_ofSource language (Lexer.ofSource language source)
  obtain ⟨after, stands, outcome⟩ := Parser.declarator_reads start spelled
  have last := Parser.expectEnd_reads stands (spelled.drop _)
  generalize language.lexicon.declarator (tokens language source.toList) = reading
    at stands outcome last ⊢
  obtain ⟨result, taken⟩ := reading
  simp only [ofString, Parser.wholeDeclarator, bind, EStateM.bind, outcome]
  cases result with
  | error d => rfl
  | ok found =>
    simp only [last]
    cases ((tokens language source.toList).drop taken).head? <;> rfl

/-- A text is accepted when the reading of its tokens takes all of them. -/
theorem ofString_eq_ok_iff_reading :
    ofString language source = .ok declarator ↔
      (language.lexicon.declarator (tokens language source.toList)).result = .ok declarator ∧
        (tokens language source.toList).drop
          (language.lexicon.declarator (tokens language source.toList)).taken = [] := by
  rw [ofString_eq_reading, ← List.head?_eq_none_iff]
  generalize ((tokens language source.toList).drop _).head? = behind
  cases (language.lexicon.declarator (tokens language source.toList)).result with
  | error d => simp
  | ok found => cases behind <;> simp

theorem ofString_eq_ok_iff :
    ofString language source = .ok declarator ↔
      ∃ segments last,
        DeclaratorForm language segments last declarator.parameters
          (tokens language source.toList) ∧
        declarator.id.Spells segments last := by
  rw [ofString_eq_ok_iff_reading, declaratorForm_iff (spelled_tokens language source.toList)]

/-- **The accepted texts.** A text is a declarator exactly when its tokens are a name and a clause in
the grammar, and then the declarator has the scopes and the name in the order of the text, and the
clause. -/
theorem ofString_eq_ok_iff_form (language : Language) (source : String) :
    (∀ declarator, ofString language source = .ok declarator ↔
      ∃ segments last,
        DeclaratorForm language segments last declarator.parameters
          (tokens language source.toList) ∧
        declarator.id.Spells segments last) ∧
    ((∃ declarator, ofString language source = .ok declarator) ↔
      ∃ segments last clause,
        DeclaratorForm language segments last clause (tokens language source.toList)) := by
  refine ⟨fun declarator => ofString_eq_ok_iff, ?_⟩
  constructor
  · rintro ⟨declarator, accepted⟩
    obtain ⟨segments, last, form, -⟩ := ofString_eq_ok_iff.1 accepted
    exact ⟨segments, last, declarator.parameters, form⟩
  · rintro ⟨segments, last, clause, form⟩
    have ⟨front, back, split, name, _⟩ := form
    have spelled := spelled_tokens language source.toList
    rw [split] at spelled
    obtain ⟨id, spells⟩ := name.exists_spells spelled.of_append_left
    exact ⟨⟨id, clause⟩, ofString_eq_ok_iff.2 ⟨segments, last, form, spells⟩⟩

end Declarator

end FunctionSymbols
