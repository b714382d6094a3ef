import FunctionSymbols.Proofs.SpecifierRun

/-!
# Qualified names

The scopes in front of a name are the longest prefix of the tokens that has their form: of two such
prefixes one is a prefix of the other, and behind the one that is read no further scope begins
(`ScopesForm.isPrefix`). What stands behind this prefix decides on the name.
-/

namespace FunctionSymbols

section

variable {language : Language} {names others : List Identifier} {front short behind : List Token}

/-- Tokens of scopes that begin a list are a prefix of those behind which no further scope begins. -/
theorem ScopesForm.isPrefix (form : ScopesForm language names front)
    (stop : ∀ name colons rest, behind = ⟨name, .identifier⟩ :: ⟨"::", colons⟩ :: rest →
      language.punctuators.lookup "::" ≠ some colons)
    (other : ScopesForm language others short) (begins : short <+: front ++ behind) :
    short <+: front := by
  -- Both forms go on by two tokens at a time, and the one that is read ends first only at `behind`.
  induction other generalizing names front with
  | nil => exact List.nil_prefix
  | cons registered other ih =>
    cases form with
    | nil =>
      obtain ⟨rest, split⟩ := begins
      exact absurd registered (stop _ _ _ split.symm)
    | cons _ form =>
      rw [List.cons_append, List.cons_append, List.cons_prefix_cons, List.cons_prefix_cons] at begins
      obtain ⟨name, colons, begins⟩ := begins
      rw [name, colons]
      exact List.cons_prefix_cons.2 ⟨rfl, List.cons_prefix_cons.2 ⟨rfl, ih form begins⟩⟩

/-- Without `::` there are no scopes. -/
theorem ScopesForm.eq_nil_of_unregistered (form : ScopesForm language names front)
    (unregistered : language.punctuators.contains "::" = false) : front = [] := by
  cases form with
  | nil => rfl
  | cons registered form =>
    rw [TokenTable.contains_of_lookup registered] at unregistered
    cases unregistered

theorem ScopesForm.eq_nil_iff (form : ScopesForm language names front) :
    names = [] ↔ front = [] := by
  cases form with
  | nil => exact ⟨fun _ => rfl, fun _ => rfl⟩
  | cons registered form => exact ⟨fun h => absurd h (List.cons_ne_nil _ _), fun h => by cases h⟩

end

namespace Parser

variable {σ : Type} [TokenSource σ] {language : Language} {ahead : List Token} {parser : Parser σ}

theorem nestedName_of_scopes {names : List Identifier} {behind : Parser σ}
    (read : scopes parser = .ok names behind) : nestedName parser = .ok ⟨names⟩ behind := by
  simp only [nestedName, bind, EStateM.bind, read]
  rfl

/-- An identifier is taken where one stands; elsewhere the parser does not move. -/
theorem identifier_cases (h : parser.StandsAt language ahead) (spelled : Spelled ahead) :
    (∃ last rest, ahead = ⟨last.text, .identifier⟩ :: rest ∧
      identifier parser = .ok last parser.advanced ∧ parser.advanced.StandsAt language rest) ∨
    ((ahead.headD .eof).isIdentifier = false ∧
      identifier parser = .error (complaint "identifier" ahead) parser) := by
  cases named : ahead.head?.bind Token.name? with
  | some last =>
    obtain ⟨token, head, spelling⟩ := Option.bind_eq_some_iff.1 named
    obtain ⟨rest, rfl⟩ := List.head?_eq_some_iff.1 head
    have read := identifier_of_name? h named
    obtain rfl := Token.name?_eq_some_iff.1 spelling
    exact .inl ⟨last, rest, rfl, read, h.advanced⟩
  | none =>
    refine .inr ⟨?_, identifier_of_name?_eq_none h spelled named⟩
    cases ahead with
    | nil => rfl
    | cons token rest =>
      rw [← Bool.not_eq_true]
      intro identifier
      obtain ⟨name, found⟩ := spelled.exists_name identifier
      rw [List.head?_cons, Option.bind_some, found] at named
      cases named

/-- A name is read where an identifier stands behind the scopes; elsewhere the scopes are all that is
taken. -/
theorem idExpression_cases {names : List Identifier} {behind : Parser σ}
    (read : scopes parser = .ok names behind) (stands : behind.StandsAt language ahead)
    (spelled : Spelled ahead) :
    (∃ last rest after, ahead = ⟨last.text, .identifier⟩ :: rest ∧
      idExpression parser = .ok (.ofParts names last) after ∧ after.StandsAt language rest) ∨
    ((ahead.headD .eof).isIdentifier = false ∧
      idExpression parser = .error (complaint "identifier" ahead) behind) := by
  simp only [idExpression, bind, EStateM.bind, read]
  rcases identifier_cases stands spelled with
    ⟨last, rest, split, taken, rest_stands⟩ | ⟨unnamed, refused⟩
  · rw [taken]
    exact .inl ⟨last, rest, _, split, rfl, rest_stands⟩
  · rw [refused]
    exact .inr ⟨unnamed, rfl⟩

/-- **Qualified names.** Wherever a parser is in a source, the scopes are read without a failure: they are
the longest prefix of the tokens that remain which is a run of an identifier and `::`, and the identifiers
are returned in order. A name with its scopes is read exactly if an identifier is behind this prefix. The
identifier is all that is taken besides, and the name is qualified exactly if the prefix is not empty.
Without an identifier the complaint is about what stands there, and the parser stays behind the prefix. In
a language without `::` the prefix is empty. -/
theorem idExpression_takes_longest_prefix (lexer : Lexer) (operations : List Operation) :
    let language := lexer.language
    let parser := ((ofLexer lexer).run operations).2
    ∃ names front behind, parser.remaining = front ++ behind ∧ ScopesForm language names front ∧
      (∀ others short, ScopesForm language others short → short <+: parser.remaining →
        short <+: front) ∧
      (∃ after, nestedName parser = .ok ⟨names⟩ after ∧ after.StandsAt language behind) ∧
      ((∃ id after, idExpression parser = .ok id after) ↔
        (behind.headD .eof).isIdentifier = true) ∧
      (∀ id after, idExpression parser = .ok id after →
        ∃ last rest, behind = ⟨last.text, .identifier⟩ :: rest ∧ after.StandsAt language rest ∧
          (front = [] → id = .unqualified last) ∧
          (front ≠ [] → names ≠ [] ∧ id = .qualified ⟨⟨names⟩, last⟩)) ∧
      (∀ d after, idExpression parser = .error d after →
        d = .unexpectedToken "identifier" (behind.headD .eof).text ∧
          after.StandsAt language behind) ∧
      (language.punctuators.contains "::" = false → front = []) := by
  intro language parser
  obtain ⟨stands, spelled⟩ := run_standsAt lexer operations
  obtain ⟨middle, read, middle_stands⟩ := scopes_reads stands spelled
  have run := @scopeRun_scopes language _ spelled
  have behind_spelled := spelled.drop (2 * (language.lexicon.scopes parser.remaining).length)
  generalize language.lexicon.scopes parser.remaining = names at read run middle_stands behind_spelled
  generalize parser.remaining.drop (2 * names.length) = behind at run middle_stands behind_spelled
  obtain ⟨⟨front, form, split⟩, stop⟩ := run
  have empty_iff := form.eq_nil_iff
  refine ⟨names, front, behind, split, form, ?_, ⟨middle, nestedName_of_scopes read, middle_stands⟩, ?_⟩
  · intro others short other begins
    rw [split] at begins
    exact form.isPrefix stop other begins
  rcases idExpression_cases read middle_stands behind_spelled with
    ⟨last, rest, after, rfl, taken, rest_stands⟩ | ⟨unnamed, refused⟩
  · refine ⟨⟨fun _ => rfl, fun _ => ⟨_, _, taken⟩⟩, ?_, ?_, form.eq_nil_of_unregistered⟩
    · intro id after found
      rw [taken] at found
      cases found
      refine ⟨last, rest, rfl, rest_stands, fun empty => ?_, fun nonempty => ?_⟩
      · rw [empty_iff.2 empty]
        rfl
      · have names_ne_nil : names ≠ [] := fun empty => nonempty (empty_iff.1 empty)
        obtain ⟨outer, inner, rfl⟩ := List.exists_cons_of_ne_nil names_ne_nil
        exact ⟨names_ne_nil, rfl⟩
    · intro d after failed
      rw [taken] at failed
      cases failed
  · refine ⟨?_, ?_, ?_, form.eq_nil_of_unregistered⟩
    · rw [refused, unnamed]
      constructor
      · rintro ⟨id, after, found⟩
        cases found
      · intro named
        cases named
    · intro id after found
      rw [refused] at found
      cases found
    · intro d after failed
      rw [refused] at failed
      cases failed
      exact ⟨rfl, middle_stands⟩

theorem idExpression_takes_a_scope :
    let language := Language.typed
    let parser := fun source : String =>
      ((ofLexer (Lexer.ofSource language source)).run [.advance]).2
    let a : Identifier := ⟨"a", by decide⟩
    let f : Identifier := ⟨"f", by decide⟩
    (∃ front rest after, ScopesForm language [a] front ∧ front ≠ [] ∧
      front <+: (parser "( a::f(").remaining ∧
      idExpression (parser "( a::f(") = .ok (.qualified ⟨⟨[a]⟩, f⟩) after ∧
      after.StandsAt language rest) ∧
    (∃ behind after, (behind.headD Token.eof).text = "`)`" ∧
      idExpression (parser "( a::)") = .error (.unexpectedToken "identifier" "`)`") after ∧
      after.StandsAt language behind) := by
  intro language parser a f
  constructor
  · have scopes : resultOf (nestedName (parser "( a::f(")) = .ok ⟨[a]⟩ := by decide +kernel
    have found : resultOf (idExpression (parser "( a::f(")) = .ok (.qualified ⟨⟨[a]⟩, f⟩) := by
      decide +kernel
    obtain ⟨_, scopes⟩ := resultOf_eq_ok_iff.1 scopes
    obtain ⟨after, found⟩ := resultOf_eq_ok_iff.1 found
    obtain ⟨names, front, behind, split, form, -, ⟨_, read, -⟩, -, taken, -⟩ :=
      idExpression_takes_longest_prefix (Lexer.ofSource language "( a::f(") [.advance]
    obtain ⟨last, rest, -, stands, -, -⟩ := taken _ _ found
    cases scopes.symm.trans read
    have nonempty : front ≠ [] := fun empty => List.cons_ne_nil a [] (form.eq_nil_iff.2 empty)
    exact ⟨front, rest, after, form, nonempty, ⟨behind, split.symm⟩, found, stands⟩
  · have failed : resultOf (idExpression (parser "( a::)")) =
        .error (.unexpectedToken "identifier" "`)`") := by decide +kernel
    obtain ⟨after, failed⟩ := resultOf_eq_error_iff.1 failed
    obtain ⟨names, front, behind, -, -, -, -, -, -, refused, -⟩ :=
      idExpression_takes_longest_prefix (Lexer.ofSource language "( a::)") [.advance]
    obtain ⟨same, stands⟩ := refused _ _ failed
    injection same with _ text
    exact ⟨behind, after, text.symm, failed, stands⟩

end Parser

end FunctionSymbols
