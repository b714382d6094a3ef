import FunctionSymbols.Proofs.DeclarationText

/-!
# The specifiers that are taken

Specifiers are taken in runs that are as long as possible: the scopes of a type name, and the built-in
types in front or behind. `ScopeRun` and `BuiltinRun` say what such a run is by its tokens and by what
follows it. Which of the runs is taken is decided on the current token alone, and a failure leaves the
parser behind the scopes or does not move it at all.
-/

namespace FunctionSymbols

/-! ## Maximal runs of tokens -/

/-- The token is the keyword of a built-in type. -/
def Language.IsBuiltin (language : Language) (token : Token) : Prop :=
  ∃ type tag, token = ⟨BuiltinType.keyword type, tag⟩ ∧
    language.keywords.lookup type.keyword = some tag

/-- The tokens begin with the keywords of these types in order, and with no more of them. -/
structure BuiltinRun (language : Language) (ahead : List Token) (types : List BuiltinType)
    (behind : List Token) : Prop where
  split : ∃ front, BuiltinsForm language types front ∧ ahead = front ++ behind
  stop : ∀ token ∈ behind.head?, ¬ language.IsBuiltin token

/-- The tokens of `a1 :: a2 :: … ::`. -/
inductive ScopesForm (language : Language) : List Identifier → List Token → Prop where
  | nil : ScopesForm language [] []
  | cons {name : Identifier} {names : List Identifier} {colons : Tag} {behind : List Token}
      (registered : language.punctuators.lookup "::" = some colons)
      (form : ScopesForm language names behind) :
      ScopesForm language (name :: names) (⟨name.text, .identifier⟩ :: ⟨"::", colons⟩ :: behind)

/-- The tokens begin with these names, each with `::` behind it, and with no more of them. -/
structure ScopeRun (language : Language) (ahead : List Token) (names : List Identifier)
    (behind : List Token) : Prop where
  split : ∃ front, ScopesForm language names front ∧ ahead = front ++ behind
  stop : ∀ name colons rest, behind = ⟨name, .identifier⟩ :: ⟨"::", colons⟩ :: rest →
    language.punctuators.lookup "::" ≠ some colons

section

variable {language : Language} {ahead : List Token}

theorem builtin?_eq_some_iff {token : Token} {type : BuiltinType} :
    language.lexicon.builtin? token = some type ↔
      ∃ tag, token = ⟨type.keyword, tag⟩ ∧ language.keywords.lookup type.keyword = some tag := by
  constructor
  · intro found
    unfold Lexicon.builtin? at found
    split at found
    · next keyword =>
      rw [← BuiltinType.keyword_of_ofKeyword? found] at keyword
      exact TokenTable.isEntry_iff.1 keyword
    · cases found
  · rintro ⟨tag, rfl, registered⟩
    exact builtin?_of_lookup registered

theorem Language.isBuiltin_iff {token : Token} :
    language.IsBuiltin token ↔ ∃ type, language.lexicon.builtin? token = some type := by
  simp only [builtin?_eq_some_iff, Language.IsBuiltin]

theorem BuiltinRun.cons {type : BuiltinType} {types : List BuiltinType} {tag : Tag}
    {behind : List Token} (registered : language.keywords.lookup type.keyword = some tag)
    (run : BuiltinRun language ahead types behind) :
    BuiltinRun language (⟨type.keyword, tag⟩ :: ahead) (type :: types) behind := by
  obtain ⟨⟨front, form, split⟩, stop⟩ := run
  exact ⟨⟨_, .cons registered form, congrArg (_ :: ·) split⟩, stop⟩

/-- The built-in types that are read are all that there are in front. -/
theorem builtinRun_builtins (language : Language) (ahead : List Token) :
    BuiltinRun language ahead (language.lexicon.builtins ahead)
      (ahead.drop (language.lexicon.builtins ahead).length) := by
  fun_induction Lexicon.builtins language.lexicon ahead with
  | case1 => exact ⟨⟨[], .nil, rfl⟩, fun token head => by cases head⟩
  | case2 token rest type found ih =>
    obtain ⟨tag, rfl, registered⟩ := builtin?_eq_some_iff.1 found
    exact ih.cons registered
  | case3 token rest missing =>
    refine ⟨⟨[], .nil, rfl⟩, fun other head builtin => ?_⟩
    cases head
    obtain ⟨type, found⟩ := Language.isBuiltin_iff.1 builtin
    rw [missing] at found
    cases found

/-- The scopes that are read are all that there are in front. -/
theorem scopeRun_scopes (spelled : Spelled ahead) :
    ScopeRun language ahead (language.lexicon.scopes ahead)
      (ahead.drop (2 * (language.lexicon.scopes ahead).length)) := by
  fun_induction Lexicon.scopes language.lexicon ahead with
  | case1 token colons rest name named separated ih =>
    obtain ⟨tag, rfl, registered⟩ := Language.isPunctuator_iff.1 separated
    obtain rfl := Token.name?_eq_some_iff.1 named
    obtain ⟨⟨front, form, split⟩, stop⟩ := ih (spelled.drop 2)
    exact ⟨⟨_, .cons registered form, congrArg (_ :: _ :: ·) split⟩, stop⟩
  | case2 token colons rest name named unseparated =>
    refine ⟨⟨[], .nil, rfl⟩, fun other tag behind same registered => unseparated ?_⟩
    cases same
    exact Language.isPunctuator_iff.2 ⟨tag, rfl, registered⟩
  | case3 token colons rest unnamed =>
    refine ⟨⟨[], .nil, rfl⟩, fun other tag behind same registered => ?_⟩
    cases same
    obtain ⟨name, named⟩ := spelled.exists_name rfl
    rw [named] at unnamed
    cases unnamed
  | case4 ahead short =>
    exact ⟨⟨[], .nil, rfl⟩, fun other tag behind same registered => short _ _ _ same⟩

end

namespace Parser

variable {σ : Type} [TokenSource σ] {language : Language} {ahead : List Token} {parser : Parser σ}

/-! ## What is taken -/

/-- Behind a first specifier the built-in types are taken that are there, and the call succeeds. -/
theorem specifierSequence_of_first {first : TypeSpecifier} {behind : Parser σ}
    (goes : (parser.isAtIdentifier || parser.builtin?.isSome) = true)
    (read : typeSpecifier parser = .ok first behind) (stands : behind.StandsAt language ahead) :
    ∃ types back after, BuiltinRun language ahead types back ∧
      specifierSequence parser = .ok ⟨first :: types.map .builtin⟩ after ∧
      after.StandsAt language back := by
  obtain ⟨after, taken, last⟩ := specifiers_reads stands (List.cons_ne_nil first [])
  have begun : specifiers [] parser = specifiers [first] behind := specifiers_step goes read
  refine ⟨_, _, after, builtinRun_builtins language ahead, ?_, last⟩
  rw [specifierSequence, begun, taken]
  rfl

theorem StandsAt.isBuiltin_iff (h : parser.StandsAt language ahead) :
    language.IsBuiltin parser.current ↔ ∃ type, parser.builtin? = some type := by
  rw [Language.isBuiltin_iff, h.builtin?_eq, h.current_eq]

/-- In front of a built-in type the whole of its run is taken. -/
theorem specifierSequence_of_isBuiltin (h : parser.StandsAt language ahead)
    (builtin : language.IsBuiltin parser.current) :
    ∃ types back after, BuiltinRun language ahead types back ∧ types ≠ [] ∧
      specifierSequence parser = .ok ⟨types.map .builtin⟩ after ∧ after.StandsAt language back := by
  obtain ⟨type, found⟩ := h.isBuiltin_iff.1 builtin
  have goes : (parser.isAtIdentifier || parser.builtin?.isSome) = true := by
    rw [found, Option.isSome_some, Bool.or_true]
  obtain ⟨types, back, after, run, outcome, last⟩ :=
    specifierSequence_of_first goes (typeSpecifier_of_builtin? found) h.advanced
  refine ⟨type :: types, back, after, ?_, List.cons_ne_nil type types, outcome, last⟩
  rw [h.builtin?_eq] at found
  cases ahead with
  | nil =>
    rw [List.headD_nil, builtin?_eof] at found
    cases found
  | cons token rest =>
    obtain ⟨tag, rfl, registered⟩ := builtin?_eq_some_iff.1 found
    exact run.cons registered

theorem StandsAt.typeSpecifier_eq (h : parser.StandsAt language ahead)
    (named : parser.isAtIdentifier = true) : typeSpecifier parser = typeName parser := by
  have other : parser.builtin? = none := by
    rw [h.builtin?_eq]
    rw [h.isAtIdentifier_eq] at named
    exact builtin?_of_isIdentifier named
  rw [typeSpecifier, other]
  exact if_pos named

theorem typeName_of_identifier {names : List Identifier} {last : Identifier}
    {behind after : Parser σ} (front : scopes parser = .ok names behind)
    (read : identifier behind = .ok last after) :
    typeName parser = .ok (.ofParts names last) after := by
  simp only [typeName, bind, EStateM.bind, front, read]
  rfl

theorem typeName_of_no_identifier {names : List Identifier} {d : Diagnostic}
    {behind after : Parser σ} (front : scopes parser = .ok names behind)
    (failed : identifier behind = .error d after) : typeName parser = .error d after := by
  simp only [typeName, bind, EStateM.bind, front, failed]

/-- In front of an identifier the whole run of scopes is taken, and a name behind it with the built-in
types that follow. Without this name the call fails behind the scopes. -/
theorem specifierSequence_of_isIdentifier (h : parser.StandsAt language ahead)
    (spelled : Spelled ahead) (named : parser.current.isIdentifier = true) :
    ∃ names behind, ScopeRun language ahead names behind ∧
      ((behind.headD .eof).isIdentifier = true →
        ∃ last rest types back after, behind = ⟨last.text, .identifier⟩ :: rest ∧
          BuiltinRun language rest types back ∧
          specifierSequence parser = .ok ⟨.ofParts names last :: types.map .builtin⟩ after ∧
          after.StandsAt language back) ∧
      ((behind.headD .eof).isIdentifier = false →
        ∃ after, specifierSequence parser =
            .error (.unexpectedToken "identifier" (behind.headD .eof).text) after ∧
          after.StandsAt language behind) := by
  have goes : (parser.isAtIdentifier || parser.builtin?.isSome) = true := by
    rw [isAtIdentifier, named, Bool.true_or]
  obtain ⟨behind, front, stands⟩ := scopes_reads h spelled
  have tail_spelled := spelled.drop (2 * (language.lexicon.scopes ahead).length)
  refine ⟨_, _, scopeRun_scopes spelled, ?_⟩
  generalize ahead.drop (2 * (language.lexicon.scopes ahead).length) = tail at stands tail_spelled ⊢
  constructor
  · intro ends
    cases tail with
    | nil => cases ends
    | cons token rest =>
      obtain ⟨last, spelling⟩ := tail_spelled.exists_name ends
      have last_read := identifier_of_name? stands spelling
      have read := (h.typeSpecifier_eq named).trans (typeName_of_identifier front last_read)
      obtain ⟨types, back, after, run, outcome, stands'⟩ :=
        specifierSequence_of_first goes read stands.advanced
      obtain rfl := Token.name?_eq_some_iff.1 spelling
      exact ⟨last, rest, types, back, after, rfl, run, outcome, stands'⟩
  · intro ends
    have last_failed : identifier behind = .error (complaint "identifier" tail) behind := by
      rw [identifier, stands.isAtIdentifier_eq, ends, stands.unexpected_eq]
      rfl
    have failed : specifiers [] parser = .error (complaint "identifier" tail) behind :=
      specifiers_fail goes
        ((h.typeSpecifier_eq named).trans (typeName_of_no_identifier front last_failed))
    refine ⟨behind, ?_, stands⟩
    rw [specifierSequence, failed]
    rfl

/-- In front of anything else the call fails, and the parser stays where it is. -/
theorem specifierSequence_of_other (other : parser.builtin? = none)
    (unnamed : parser.current.isIdentifier = false) :
    specifierSequence parser =
      .error (.unexpectedToken "declaration specifier" parser.current.text) parser := by
  have stop : (parser.isAtIdentifier || parser.builtin?.isSome) = false := by
    rw [isAtIdentifier, unnamed, other]
    rfl
  have empty : specifiers [] parser = .ok [] parser := specifiers_stop stop
  rw [specifierSequence, empty]
  rfl

/-- **The specifiers that are taken.** Wherever a parser is in a source, what it takes is decided on the
current token. In front of a built-in type it takes the longest run of built-in types, in order and as
often as they are there. In front of an identifier it takes one type name with the longest run of scopes,
and the longest run of built-in types behind it; it complains exactly if no identifier is behind the
scopes. In front of anything else it complains and stays where it is. -/
theorem specifierSequence_takes_runs (lexer : Lexer) (operations : List Operation) :
    let language := lexer.language
    let parser := ((ofLexer lexer).run operations).2
    ∃ ahead, parser.StandsAt language ahead ∧
      (language.IsBuiltin parser.current →
        ∃ types back after, BuiltinRun language ahead types back ∧ types ≠ [] ∧
          specifierSequence parser = .ok ⟨types.map .builtin⟩ after ∧
          after.StandsAt language back) ∧
      (parser.current.isIdentifier = true →
        ∃ names behind, ScopeRun language ahead names behind ∧
          ((behind.headD .eof).isIdentifier = true →
            ∃ last rest types back after, behind = ⟨last.text, .identifier⟩ :: rest ∧
              BuiltinRun language rest types back ∧
              specifierSequence parser = .ok ⟨.ofParts names last :: types.map .builtin⟩ after ∧
              after.StandsAt language back) ∧
          ((behind.headD .eof).isIdentifier = false ↔
            ∃ after, specifierSequence parser =
                .error (.unexpectedToken "identifier" (behind.headD .eof).text) after ∧
              after.StandsAt language behind)) ∧
      (¬ language.IsBuiltin parser.current → parser.current.isIdentifier = false →
        specifierSequence parser =
          .error (.unexpectedToken "declaration specifier" parser.current.text) parser) := by
  intro language parser
  have spelled : Spelled lexer.remaining := spelled_tokens language lexer.rest
  have start : (ofLexer lexer).StandsAt language (lexer.remaining.drop 0) :=
    standsAt_ofSource language lexer
  obtain ⟨-, stands⟩ := run_reads spelled operations start
  refine ⟨_, stands, fun builtin => specifierSequence_of_isBuiltin stands builtin, ?_, ?_⟩
  · intro named
    obtain ⟨names, behind, run, taken, refused⟩ :=
      specifierSequence_of_isIdentifier stands (spelled.drop _) named
    refine ⟨names, behind, run, taken, refused, ?_⟩
    -- A name behind the scopes makes the call succeed.
    rintro ⟨after, failed, -⟩
    rw [← Bool.not_eq_true]
    intro ends
    obtain ⟨last, rest, types, back, after', -, -, outcome, -⟩ := taken ends
    rw [outcome] at failed
    cases failed
  · intro other unnamed
    have none : parser.builtin? = none :=
      Option.eq_none_iff_forall_ne_some.2 fun type found =>
        other (stands.isBuiltin_iff.2 ⟨type, found⟩)
    exact specifierSequence_of_other none unnamed

theorem specifierSequence_takes_unsigned_long :
    let parser := fun source : String =>
      ((ofLexer (Lexer.ofSource Language.typed source)).run [.advance]).2
    (Language.typed.IsBuiltin (parser "( unsigned long x").current ∧
      ∃ types back after, types ≠ [] ∧
        specifierSequence (parser "( unsigned long x") = .ok ⟨types.map .builtin⟩ after ∧
        after.StandsAt Language.typed back) ∧
    ((parser "( std::word long x").current.isIdentifier = true ∧
      ∃ ahead names behind, (parser "( std::word long x").StandsAt Language.typed ahead ∧
        ScopeRun Language.typed ahead names behind) ∧
    (¬ Language.typed.IsBuiltin (parser "( )").current ∧
      (parser "( )").current.isIdentifier = false ∧
      specifierSequence (parser "( )") =
        .error (.unexpectedToken "declaration specifier" "`)`") (parser "( )")) := by
  intro parser
  have builtin : Language.typed.IsBuiltin (parser "( unsigned long x").current :=
    Language.isBuiltin_iff.2 ⟨.unsigned, by decide +kernel⟩
  have named : (parser "( std::word long x").current.isIdentifier = true := by decide +kernel
  have other : ¬ Language.typed.IsBuiltin (parser "( )").current := by
    have none : Language.typed.lexicon.builtin? (parser "( )").current = none := by decide +kernel
    intro builtin
    obtain ⟨type, found⟩ := Language.isBuiltin_iff.1 builtin
    rw [none] at found
    cases found
  have unnamed : (parser "( )").current.isIdentifier = false := by decide +kernel
  have closing : (parser "( )").current.text = "`)`" := by decide +kernel
  obtain ⟨_, -, types, -, -⟩ :=
    specifierSequence_takes_runs (Lexer.ofSource Language.typed "( unsigned long x") [.advance]
  obtain ⟨ahead, stands, -, names, -⟩ :=
    specifierSequence_takes_runs (Lexer.ofSource Language.typed "( std::word long x") [.advance]
  obtain ⟨_, -, -, -, refused⟩ :=
    specifierSequence_takes_runs (Lexer.ofSource Language.typed "( )") [.advance]
  obtain ⟨list, back, after, _, nonempty, outcome, last⟩ := types builtin
  obtain ⟨scopes, behind, run, -, -⟩ := names named
  refine ⟨⟨builtin, list, back, after, nonempty, outcome, last⟩,
    ⟨named, ahead, scopes, behind, stands, run⟩, other, unnamed, ?_⟩
  rw [← closing]
  exact refused other unnamed

end Parser

end FunctionSymbols
