import FunctionSymbols.Proofs.DeclaratorGrammar

/-!
# Declarators that are read back

The text of a declarator has no blanks, so the scan has to find where each token ends. A word ends in
front of a punctuator of the grammar, and such a punctuator ends as it should if no registered lexeme
goes on behind it. Then the tokens of the text are those of the declarator.
-/

namespace FunctionSymbols

/-! ## What can be read back -/

/-- The punctuators that the text of a declarator is made with. -/
def declaratorPunctuators : List String := ["(", ")", "::", "..."]

/-- The punctuators among them that a clause is made with. -/
def clausePunctuators : List String := ["(", ")", "..."]

theorem mem_declaratorPunctuators_of_clause {lexeme : String} (member : lexeme ∈ clausePunctuators) :
    lexeme ∈ declaratorPunctuators := by
  have included : ∀ lexeme ∈ clausePunctuators, lexeme ∈ declaratorPunctuators := by decide
  exact included lexeme member

/-- No registered lexeme has `lexeme` as a proper prefix. -/
def TokenTable.Isolates (table : TokenTable) (lexeme : String) : Prop :=
  ∀ e ∈ table.toList, lexeme.toList <+: e.1.toList → e.1 = lexeme

instance (table : TokenTable) (lexeme : String) : Decidable (table.Isolates lexeme) :=
  inferInstanceAs (Decidable (∀ _ ∈ _, _ → _))

/-- All identifiers, in the order of the text. -/
def IdExpression.identifiers : IdExpression → List Identifier
  | unqualified name => [name]
  | qualified name => name.nested.segments ++ [name.last]

/-- The language has no keyword among the identifiers and has all punctuators that are needed. A name
that is qualified by nothing is excluded: its text is that of an unqualified one. -/
structure Declarator.Readable (language : Language) (declarator : Declarator) : Prop where
  keyword_free : ∀ name ∈ declarator.id.identifiers, language.keywords.contains name.text = false
  qualified : ∀ name, declarator.id = .qualified name →
    name.nested.segments ≠ [] ∧ language.punctuators.contains "::" = true
  clause : declarator.parameters ≠ none →
    language.punctuators.contains "(" = true ∧ language.punctuators.contains ")" = true
  variadic : declarator.parameters = some .variadic → language.punctuators.contains "..." = true

theorem IdExpression.map_text_identifiers {id : IdExpression} {segments : List String} {last : String}
    (spells : id.Spells segments last) :
    id.identifiers.map Identifier.text = segments ++ [last] := by
  cases id with
  | unqualified name =>
    obtain ⟨rfl, rfl⟩ := spells
    rfl
  | qualified name =>
    obtain ⟨-, rfl, rfl⟩ := spells
    exact List.map_append

/-! ## From the declarator to the language -/

section

variable {language : Language}

theorem NameForm.mem_of_mem {last : String} {segments : List String} {list : List Token}
    (form : NameForm language last segments list) :
    ∀ text ∈ segments ++ [last], ⟨text, .identifier⟩ ∈ list := by
  induction form with
  | last =>
    intro text member
    rw [List.nil_append, List.mem_singleton] at member
    rw [member]
    exact List.mem_singleton_self _
  | scope registered form ih =>
    intro text member
    rcases List.mem_cons.1 member with rfl | member
    · exact List.mem_cons_self
    · exact List.mem_cons_of_mem _ (List.mem_cons_of_mem _ (ih text member))

/-- The identifiers of a declarator are tokens of the text that is accepted as it. -/
theorem Declarator.mem_tokens_of_ofString {source : String} {declarator : Declarator}
    (accepted : ofString language source = .ok declarator) :
    ∀ name ∈ declarator.id.identifiers,
      ⟨name.text, .identifier⟩ ∈ tokens language source.toList := by
  obtain ⟨segments, last, ⟨front, back, split, form, -⟩, spells⟩ := ofString_eq_ok_iff.1 accepted
  intro name member
  have listed : name.text ∈ segments ++ [last] := by
    rw [← IdExpression.map_text_identifiers spells]
    exact List.mem_map_of_mem member
  rw [split]
  exact List.mem_append_left back (form.mem_of_mem _ listed)

/-- A declarator that a text is accepted as can be read back. -/
theorem Declarator.readable_of_ofString {source : String} {declarator : Declarator}
    (accepted : ofString language source = .ok declarator) : declarator.Readable language := by
  have listed := mem_tokens_of_ofString accepted
  obtain ⟨segments, last, ⟨front, back, split, name, clause⟩, spells⟩ :=
    ofString_eq_ok_iff.1 accepted
  obtain ⟨id, parameters⟩ := declarator
  dsimp only at clause spells listed
  constructor
  · intro identifier member
    have word := isWord_of_mem_tokens _ (listed identifier member) rfl
    exact TokenTable.contains_eq_false_iff.2 word.2
  · rintro qualified rfl
    obtain ⟨nonempty, texts, -⟩ := spells
    refine ⟨?_, ?_⟩
    · intro empty
      rw [empty] at texts
      exact nonempty texts.symm
    · cases name with
      | last => exact absurd rfl nonempty
      | scope registered form => exact TokenTable.contains_of_lookup registered
  · intro present
    cases clause with
    | absent => exact absurd rfl present
    | empty opens closes | void opens _ closes | variadic opens _ closes =>
      exact ⟨TokenTable.contains_of_lookup opens, TokenTable.contains_of_lookup closes⟩
  · rintro rfl
    cases clause with
    | variadic _ registered _ => exact TokenTable.contains_of_lookup registered

/-! ## From the text to the tokens -/

/-- The punctuators of a text are no blanks, and they begin and continue no word. -/
theorem stops_of_mem_declaratorPunctuators {lexeme : String}
    (member : lexeme ∈ declaratorPunctuators) (rest : List Char) :
    Stops isBlank (lexeme.toList ++ rest) ∧ Stops isStartChar (lexeme.toList ++ rest) ∧
      Stops isContinueChar (lexeme.toList ++ rest) := by
  have listed : lexeme = "(" ∨ lexeme = ")" ∨ lexeme = "::" ∨ lexeme = "..." := by
    simpa only [declaratorPunctuators, List.mem_cons, List.not_mem_nil, or_false] using member
  rcases listed with rfl | rfl | rfl | rfl
  all_goals
    refine ⟨stops_cons.2 ?_, stops_cons.2 ?_, stops_cons.2 ?_⟩ <;> decide

theorem tokens_append_punctuator {lexeme : String} {rest : List Char}
    (member : lexeme ∈ declaratorPunctuators)
    (isolated : language.punctuators.Isolates lexeme) {tag : Tag}
    (registered : language.punctuators.lookup lexeme = some tag) :
    tokens language (lexeme.toList ++ rest) = ⟨lexeme, tag⟩ :: tokens language rest := by
  obtain ⟨unblank, unstarted, -⟩ := stops_of_mem_declaratorPunctuators member rest
  have longest : ∀ other, language.punctuators.contains other = true →
      other.toList <+: lexeme.toList ++ rest → other.length ≤ lexeme.length := by
    intro other contained begins
    -- A longer match would have `lexeme` as a proper prefix.
    by_contra longer
    have shorter : lexeme.toList.length ≤ other.toList.length := by
      rw [String.length_toList, String.length_toList]
      omega
    obtain ⟨tag, found⟩ := TokenTable.contains_iff.1 contained
    have same := isolated _ (TokenTable.mem_entries_of_lookup found)
      (List.prefix_of_prefix_length_le (List.prefix_append _ _) begins shorter)
    dsimp only at same
    rw [same] at longer
    exact longer (Nat.le_refl _)
  rw [tokens_eq, scan_append_punctuator registered unblank unstarted longest]
  rw [TokenTable.isEof_of_lookup registered]
  rfl

/-- The tokens of the scopes and a name that the text of a declarator begins with. -/
theorem exists_nameForm_of_text {names : List Identifier} {last : Identifier} {rest : List Char}
    (unregistered : ∀ name ∈ names ++ [last], language.keywords.contains name.text = false)
    (colons : names ≠ [] →
      language.punctuators.contains "::" = true ∧ language.punctuators.Isolates "::")
    (stop : Stops isContinueChar rest) :
    ∃ front, NameForm language last.text (names.map Identifier.text) front ∧
      tokens language ((NestedName.text ⟨names⟩ ++ last.text).toList ++ rest) =
        front ++ tokens language rest := by
  induction names with
  | nil =>
    have free := unregistered last List.mem_cons_self
    refine ⟨[⟨last.text, .identifier⟩], .last, ?_⟩
    rw [NestedName.text_nil, String.empty_append, tokens_append_name free stop, List.singleton_append]
  | cons name names ih =>
    have free := unregistered name List.mem_cons_self
    have member : "::" ∈ declaratorPunctuators := by decide
    obtain ⟨contained, isolated⟩ := colons (List.cons_ne_nil _ _)
    obtain ⟨tag, registered⟩ := TokenTable.contains_iff.1 contained
    obtain ⟨front, form, scanned⟩ := ih
      (fun other inside => unregistered other (List.mem_cons_of_mem _ inside))
      (fun _ => colons (List.cons_ne_nil _ _))
    have split : (NestedName.text ⟨name :: names⟩ ++ last.text).toList ++ rest =
        name.text.toList ++ ("::".toList ++
          ((NestedName.text ⟨names⟩ ++ last.text).toList ++ rest)) := by
      simp only [NestedName.text_cons, String.toList_append, List.append_assoc]
    refine ⟨_, .scope registered form, ?_⟩
    -- The name ends because a colon follows, and `::` ends because nothing registered goes on behind it.
    rw [split,
      tokens_append_name free (stops_of_mem_declaratorPunctuators member _).2.2,
      tokens_append_punctuator member isolated registered, scanned]
    rfl

/-- The tokens of the clause that the text of a declarator ends with. -/
theorem exists_clauseForm_of_text {clause : Option ParameterClause}
    (isolated : ∀ lexeme ∈ clausePunctuators, language.punctuators.Isolates lexeme)
    (parentheses : clause ≠ none →
      language.punctuators.contains "(" = true ∧ language.punctuators.contains ")" = true)
    (ellipsis : clause = some .variadic → language.punctuators.contains "..." = true) :
    ∃ back, ClauseForm language clause back ∧
      tokens language (clause.elim "" ParameterClause.text).toList = back := by
  have scanned : ∀ {lexeme tag rest}, lexeme ∈ clausePunctuators →
      language.punctuators.lookup lexeme = some tag →
      tokens language (lexeme.toList ++ rest) = ⟨lexeme, tag⟩ :: tokens language rest := by
    intro lexeme tag rest member registered
    have listed := mem_declaratorPunctuators_of_clause member
    exact tokens_append_punctuator listed (isolated _ member) registered
  cases clause with
  | none => exact ⟨[], .absent, tokens_nil language⟩
  | some clause =>
    obtain ⟨opened, closed⟩ := parentheses (Option.some_ne_none clause)
    obtain ⟨opening, opens⟩ := TokenTable.contains_iff.1 opened
    obtain ⟨closing, closes⟩ := TokenTable.contains_iff.1 closed
    cases clause with
    | empty =>
      refine ⟨_, .empty opens closes, ?_⟩
      show tokens language ("(".toList ++ (")".toList ++ [])) = _
      rw [scanned (by decide) opens, scanned (by decide) closes, tokens_nil]
    | variadic =>
      obtain ⟨dots, registered⟩ := TokenTable.contains_iff.1 (ellipsis rfl)
      refine ⟨_, .variadic opens registered closes, ?_⟩
      show tokens language ("(".toList ++ ("...".toList ++ (")".toList ++ []))) = _
      rw [scanned (by decide) opens, scanned (by decide) registered, scanned (by decide) closes,
        tokens_nil]

/-- A word ends in front of every clause. -/
theorem stops_clause_text (clause : Option ParameterClause) :
    Stops isContinueChar (clause.elim "" ParameterClause.text).toList := by
  cases clause with
  | none => exact stops_nil
  | some clause =>
    have member : "(" ∈ declaratorPunctuators := by decide
    have opens := (stops_of_mem_declaratorPunctuators member (clause.innerText ++ ")").toList).2.2
    rw [← String.toList_append, ← String.append_assoc] at opens
    exact opens

namespace Declarator

/-- The tokens of the text of a declarator that can be read back. Only the punctuators that the text
is made with have to be isolated. -/
theorem form_of_readable {declarator : Declarator}
    (colons : ∀ name, declarator.id = .qualified name → language.punctuators.Isolates "::")
    (isolated : ∀ lexeme ∈ clausePunctuators, language.punctuators.Isolates lexeme)
    (readable : declarator.Readable language) :
    ∃ segments last,
      DeclaratorForm language segments last declarator.parameters
        (tokens language declarator.text.toList) ∧
      declarator.id.Spells segments last := by
  obtain ⟨id, clause⟩ := declarator
  obtain ⟨back, ending, scanned⟩ :=
    exists_clauseForm_of_text isolated readable.clause readable.variadic
  have parts : ∃ names last, id = .ofParts names last ∧ id.identifiers = names ++ [last] ∧
      (names ≠ [] →
        language.punctuators.contains "::" = true ∧ language.punctuators.Isolates "::") := by
    cases id with
    | unqualified name => exact ⟨[], name, rfl, rfl, fun nonempty => absurd rfl nonempty⟩
    | qualified name =>
      obtain ⟨nonempty, registered⟩ := readable.qualified name rfl
      have alone := colons name rfl
      obtain ⟨⟨names⟩, last⟩ := name
      obtain ⟨head, rest, rfl⟩ := List.exists_cons_of_ne_nil nonempty
      exact ⟨head :: rest, last, rfl, rfl, fun _ => ⟨registered, alone⟩⟩
  obtain ⟨names, last, rfl, listed, separated⟩ := parts
  have unregistered := readable.keyword_free
  dsimp only at unregistered
  rw [listed] at unregistered
  obtain ⟨front, form, named⟩ :=
    exists_nameForm_of_text unregistered separated (stops_clause_text clause)
  refine ⟨_, last.text, ⟨front, back, ?_, form, ending⟩, ?_⟩
  · rw [text, IdExpression.text_ofParts, String.toList_append, named, scanned]
  · exact IdExpression.spells_iff.2 ⟨names, last, rfl, rfl, rfl⟩

/-- A declarator that can be read back has its own text accepted as itself. -/
theorem ofString_text_of_readable {declarator : Declarator}
    (isolated : ∀ lexeme ∈ declaratorPunctuators, language.punctuators.Isolates lexeme)
    (readable : declarator.Readable language) :
    ofString language declarator.text = .ok declarator := by
  have colons := isolated "::" (by decide)
  have clause : ∀ lexeme ∈ clausePunctuators, language.punctuators.Isolates lexeme :=
    fun lexeme member => isolated lexeme (mem_declaratorPunctuators_of_clause member)
  exact ofString_eq_ok_iff.2 (form_of_readable (fun _ _ => colons) clause readable)

/-- **Reading back.** If no registered punctuator goes on behind a punctuator of the text, a declarator
is read from its text exactly when the language has the punctuators that it needs and none of its
identifiers is a keyword. -/
theorem ofString_text_eq_ok_iff (language : Language)
    (isolated : ∀ lexeme ∈ declaratorPunctuators, language.punctuators.Isolates lexeme)
    (declarator : Declarator) :
    ofString language declarator.text = .ok declarator ↔ declarator.Readable language :=
  ⟨readable_of_ofString, ofString_text_of_readable isolated⟩

end Declarator

end

/-- A language with the punctuators of declarators, one that is shorter, and a keyword. -/
def Language.sample : Language :=
  (ofEntries [("void", ⟨16⟩)]
    [("(", ⟨17⟩), (")", ⟨18⟩), (":", ⟨19⟩), ("::", ⟨20⟩), ("...", ⟨21⟩)]).toOption.get (by decide)

theorem Declarator.ofString_scoped_variadic :
    let declarator : Declarator :=
      ⟨.qualified ⟨⟨[⟨"a", by decide⟩, ⟨"b", by decide⟩]⟩, ⟨"f", by decide⟩⟩, some .variadic⟩
    (∀ lexeme ∈ declaratorPunctuators, Language.sample.punctuators.Isolates lexeme) ∧
      ofString Language.sample declarator.text = .ok declarator := by
  intro declarator
  have isolated : ∀ lexeme ∈ declaratorPunctuators,
      Language.sample.punctuators.Isolates lexeme := by decide
  refine ⟨isolated, (ofString_text_eq_ok_iff Language.sample isolated declarator).2 ?_⟩
  constructor
  · decide
  · rintro name same
    cases same
    decide
  · decide
  · decide

end FunctionSymbols
