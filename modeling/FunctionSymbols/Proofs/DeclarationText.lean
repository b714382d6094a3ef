import FunctionSymbols.Proofs.DeclaratorText
import FunctionSymbols.Proofs.OperationRun

/-!
# Declarations that are read back

The text of a declaration is its specifiers, a blank, and its declarator. A type name is taken in the
first position only, so the specifiers end in front of the first identifier behind them, and that is
where the declarator begins. `SpecifierForm` and `BuiltinsForm` are the tokens of the first specifier
and of the built-in types behind it.
-/

namespace FunctionSymbols

/-! ## What can be read back -/

/-- All identifiers, in the order of the text. -/
def TypeSpecifier.identifiers : TypeSpecifier → List Identifier
  | builtin _ => []
  | named name => [name]
  | qualified name => name.nested.segments ++ [name.last]

/-- Type names stand in the first position only, and the language has the keywords of the built-in types
and none among the identifiers. A type name that is qualified by nothing is excluded. -/
structure SpecifierSequence.Readable (language : Language) (sequence : SpecifierSequence) : Prop where
  nonempty : sequence.specifiers ≠ []
  builtin_tail : ∀ specifier ∈ sequence.specifiers.tail, ∃ type, specifier = .builtin type
  registered : ∀ type, .builtin type ∈ sequence.specifiers →
    language.keywords.contains type.keyword = true
  keyword_free : ∀ specifier ∈ sequence.specifiers, ∀ name ∈ specifier.identifiers,
    language.keywords.contains name.text = false
  qualified : ∀ name, .qualified name ∈ sequence.specifiers → name.nested.segments ≠ []

/-! ## The tokens of specifiers -/

/-- The tokens of one specifier. -/
inductive SpecifierForm (language : Language) : TypeSpecifier → List Token → Prop where
  | builtin {type : BuiltinType} {tag : Tag}
      (registered : language.keywords.lookup type.keyword = some tag) :
      SpecifierForm language (.builtin type) [⟨type.keyword, tag⟩]
  | named {names : List Identifier} {last : Identifier} {list : List Token}
      (form : NameForm language last.text (names.map Identifier.text) list) :
      SpecifierForm language (.ofParts names last) list

/-- The tokens of built-in types. -/
inductive BuiltinsForm (language : Language) : List BuiltinType → List Token → Prop where
  | nil : BuiltinsForm language [] []
  | cons {type : BuiltinType} {types : List BuiltinType} {tag : Tag} {behind : List Token}
      (registered : language.keywords.lookup type.keyword = some tag)
      (form : BuiltinsForm language types behind) :
      BuiltinsForm language (type :: types) (⟨type.keyword, tag⟩ :: behind)

section

variable {language : Language}

theorem isWord_keyword (type : BuiltinType) : IsWord type.keyword.toList := by
  apply isIdentifier_iff.1
  cases type <;> decide

/-- An identifier is no keyword and no punctuator. -/
theorem builtin?_of_isIdentifier {token : Token} (named : token.isIdentifier = true) :
    language.lexicon.builtin? token = none := by
  apply if_neg
  intro keyword
  obtain ⟨tag, same, registered⟩ := TokenTable.isEntry_iff.1 keyword
  rw [same, TokenTable.isIdentifier_of_lookup registered] at named
  cases named

theorem isPunctuator_of_isIdentifier {token : Token} (named : token.isIdentifier = true)
    (lexeme : String) : language.lexicon.isPunctuator token lexeme = false := by
  rw [← Bool.not_eq_true]
  intro punctuator
  obtain ⟨tag, same, registered⟩ := Language.isPunctuator_iff.1 punctuator
  rw [same, TokenTable.isIdentifier_of_lookup registered] at named
  cases named

theorem builtin?_of_lookup {type : BuiltinType} {tag : Tag}
    (registered : language.keywords.lookup type.keyword = some tag) :
    language.lexicon.builtin? ⟨type.keyword, tag⟩ = some type := by
  have keyword : language.lexicon.isKeyword ⟨type.keyword, tag⟩ type.keyword = true :=
    TokenTable.isEntry_iff.2 ⟨tag, rfl, registered⟩
  rw [Lexicon.builtin?, if_pos keyword, BuiltinType.ofKeyword?_keyword]

/-- What stands behind the specifiers: nothing, or an identifier. -/
def EndsSpecifiers (back : List Token) : Prop := ∀ token ∈ back.head?, token.isIdentifier = true

theorem builtins_of_endsSpecifiers {back : List Token} (ends : EndsSpecifiers back) :
    language.lexicon.builtins back = [] := by
  cases back with
  | nil => rfl
  | cons token rest => rw [Lexicon.builtins, builtin?_of_isIdentifier (ends token rfl)]

/-- Built-in types are taken up to the end of the specifiers. -/
theorem builtins_of_form {types : List BuiltinType} {middle back : List Token}
    (form : BuiltinsForm language types middle) (ends : EndsSpecifiers back) :
    language.lexicon.builtins (middle ++ back) = types := by
  induction form with
  | nil => exact builtins_of_endsSpecifiers ends
  | cons registered form ih =>
    rw [List.cons_append, Lexicon.builtins, builtin?_of_lookup registered, ih]

theorem BuiltinsForm.length_eq {types : List BuiltinType} {middle : List Token}
    (form : BuiltinsForm language types middle) : middle.length = types.length := by
  induction form with
  | nil => rfl
  | cons registered form ih => rw [List.length_cons, List.length_cons, ih]

/-- No `::` stands behind the first specifier. -/
theorem isPunctuator_headD_of_form {types : List BuiltinType} {middle back : List Token}
    (form : BuiltinsForm language types middle) (ends : EndsSpecifiers back) :
    language.lexicon.isPunctuator ((middle ++ back).headD .eof) "::" = false := by
  cases form with
  | nil =>
    cases back with
    | nil => rfl
    | cons token rest => exact isPunctuator_of_isIdentifier (ends token rfl) "::"
  | @cons type types tag behind registered form =>
    have different : type.keyword ≠ "::" := by cases type <;> decide
    rw [← Bool.not_eq_true]
    intro punctuator
    obtain ⟨_, same, -⟩ := Language.isPunctuator_iff.1 punctuator
    exact different (congrArg Token.lexeme same)

theorem NameForm.isIdentifier_headD {last : String} {segments : List String} {front : List Token}
    (form : NameForm language last segments front) (back : List Token) :
    ((front ++ back).headD .eof).isIdentifier = true := by
  cases form <;> rfl

/-- One specifier is read to its end. -/
theorem typeSpecifier_of_form {specifier : TypeSpecifier} {front back : List Token}
    (form : SpecifierForm language specifier front) (spelled : Spelled front)
    (ends : language.lexicon.isPunctuator (back.headD .eof) "::" = false) :
    language.lexicon.typeSpecifier (front ++ back) = ⟨.ok specifier, front.length⟩ := by
  cases form with
  | builtin registered =>
    rw [Lexicon.typeSpecifier, List.singleton_append, List.headD_cons, builtin?_of_lookup registered]
    rfl
  | named form =>
    have head := form.isIdentifier_headD back
    obtain ⟨names, name, texts, text, read⟩ :=
      named_of_nameForm TypeSpecifier.ofParts form spelled ends
    have scopes := (List.map_inj_right fun _ _ => Identifier.text_injective).1 texts
    rw [Lexicon.typeSpecifier, builtin?_of_isIdentifier head]
    dsimp only
    rw [if_pos head, read, scopes, Identifier.text_injective text]

theorem isSpecifier_headD_of_form {specifier : TypeSpecifier} {front : List Token}
    (form : SpecifierForm language specifier front) (back : List Token) :
    (((front ++ back).headD .eof).isIdentifier ||
      (language.lexicon.builtin? ((front ++ back).headD .eof)).isSome) = true := by
  cases form with
  | builtin registered =>
    rw [List.singleton_append, List.headD_cons, builtin?_of_lookup registered, Option.isSome_some,
      Bool.or_true]
  | named form => rw [form.isIdentifier_headD back, Bool.true_or]

/-- The specifiers are read up to their end. -/
theorem specifierSequence_of_form {first : TypeSpecifier} {types : List BuiltinType}
    {front middle back : List Token} (form : SpecifierForm language first front)
    (spelled : Spelled front) (more : BuiltinsForm language types middle)
    (ends : EndsSpecifiers back) :
    language.lexicon.specifierSequence (front ++ (middle ++ back)) =
      ⟨.ok ⟨first :: types.map .builtin⟩, front.length + middle.length⟩ := by
  have read := typeSpecifier_of_form form spelled (isPunctuator_headD_of_form more ends)
  have rest : (front ++ (middle ++ back)).drop front.length = middle ++ back := List.drop_left
  rw [Lexicon.specifierSequence]
  dsimp only
  rw [if_pos (isSpecifier_headD_of_form form _), read]
  dsimp only
  rw [rest, builtins_of_form more ends, more.length_eq]

/-! ## From the text to the tokens -/

/-- The specifiers behind the first one, each with a blank in front. -/
def builtinsText : List BuiltinType → List Char
  | [] => []
  | type :: types => ' ' :: (type.keyword.toList ++ builtinsText types)

theorem SpecifierSequence.toList_text_cons (first : TypeSpecifier) (types : List BuiltinType) :
    (SpecifierSequence.text ⟨first :: types.map .builtin⟩).toList =
      first.text.toList ++ builtinsText types := by
  induction types generalizing first with
  | nil =>
    rw [text, List.map_nil, List.map_singleton, String.intercalate_singleton, builtinsText,
      List.append_nil]
  | cons type types ih =>
    have rest := ih (.builtin type)
    rw [text, List.map_cons] at rest
    rw [text, List.map_cons, List.map_cons, List.map_cons, String.intercalate_cons_cons,
      String.toList_append, String.toList_append, rest, List.append_assoc]
    rfl

theorem stops_builtinsText {rest : List Char} (stop : Stops isContinueChar rest)
    (types : List BuiltinType) : Stops isContinueChar (builtinsText types ++ rest) := by
  cases types with
  | nil => exact stop
  | cons type types => exact stops_cons.2 (by decide)

theorem exists_builtinsForm_of_text {types : List BuiltinType} {rest : List Char}
    (registered : ∀ type ∈ types, language.keywords.contains type.keyword = true)
    (stop : Stops isContinueChar rest) :
    ∃ middle, BuiltinsForm language types middle ∧
      tokens language (builtinsText types ++ rest) = middle ++ tokens language rest := by
  induction types with
  | nil => exact ⟨[], .nil, rfl⟩
  | cons type types ih =>
    obtain ⟨tag, found⟩ := TokenTable.contains_iff.1 (registered type List.mem_cons_self)
    obtain ⟨middle, form, scanned⟩ :=
      ih fun other member => registered other (List.mem_cons_of_mem _ member)
    have split : builtinsText (type :: types) ++ rest =
        ' ' :: (type.keyword.toList ++ (builtinsText types ++ rest)) := by
      rw [builtinsText, List.cons_append, List.append_assoc]
    refine ⟨_, .cons found form, ?_⟩
    rw [split, tokens_cons_blank language (by decide),
      tokens_append_keyword (isWord_keyword type) found (stops_builtinsText stop types), scanned]
    rfl

/-- The tokens of the first specifier. -/
theorem exists_specifierForm_of_text {specifier : TypeSpecifier} {rest : List Char}
    (separated : language.punctuators.contains "::" = true ∧ language.punctuators.Isolates "::")
    (registered : ∀ type, specifier = .builtin type →
      language.keywords.contains type.keyword = true)
    (keyword_free : ∀ name ∈ specifier.identifiers, language.keywords.contains name.text = false)
    (qualified : ∀ name, specifier = .qualified name → name.nested.segments ≠ [])
    (stop : Stops isContinueChar rest) :
    ∃ front, SpecifierForm language specifier front ∧
      tokens language (specifier.text.toList ++ rest) = front ++ tokens language rest := by
  have type_name : ∀ {names last}, specifier = .ofParts names last →
      specifier.identifiers = names ++ [last] →
      ∃ front, SpecifierForm language specifier front ∧
        tokens language (specifier.text.toList ++ rest) = front ++ tokens language rest := by
    rintro names last rfl listed
    rw [listed] at keyword_free
    obtain ⟨front, form, scanned⟩ :=
      exists_nameForm_of_text keyword_free (fun _ => separated) stop
    refine ⟨front, .named form, ?_⟩
    rw [TypeSpecifier.text_ofParts, scanned]
  cases specifier with
  | builtin type =>
    obtain ⟨tag, found⟩ := TokenTable.contains_iff.1 (registered type rfl)
    exact ⟨_, .builtin found, tokens_append_keyword (isWord_keyword type) found stop⟩
  | named name => exact @type_name [] name rfl rfl
  | qualified name =>
    have nonempty := qualified name rfl
    obtain ⟨⟨names⟩, last⟩ := name
    obtain ⟨head, more, rfl⟩ := List.exists_cons_of_ne_nil nonempty
    exact @type_name (head :: more) last rfl rfl

theorem exists_map_builtin {specifiers : List TypeSpecifier}
    (all : ∀ specifier ∈ specifiers, ∃ type, specifier = .builtin type) :
    ∃ types : List BuiltinType, specifiers = types.map .builtin := by
  induction specifiers with
  | nil => exact ⟨[], rfl⟩
  | cons specifier rest ih =>
    obtain ⟨type, rfl⟩ := all specifier List.mem_cons_self
    obtain ⟨types, rfl⟩ := ih fun other member => all other (List.mem_cons_of_mem _ member)
    exact ⟨type :: types, rfl⟩

/-- From a text that begins with a sequence which can be read back, the sequence is read, and what is
left are the tokens of the rest of the text. -/
theorem specifierSequence_of_text {sequence : SpecifierSequence} {rest : List Char}
    (separated : language.punctuators.contains "::" = true ∧ language.punctuators.Isolates "::")
    (readable : sequence.Readable language) (stop : Stops isContinueChar rest)
    (ends : EndsSpecifiers (tokens language rest)) :
    ∃ taken, language.lexicon.specifierSequence (tokens language (sequence.text.toList ++ rest)) =
        ⟨.ok sequence, taken⟩ ∧
      (tokens language (sequence.text.toList ++ rest)).drop taken = tokens language rest := by
  have ⟨nonempty, builtin_tail, registered, keyword_free, qualified⟩ := readable
  obtain ⟨specifiers⟩ := sequence
  dsimp only at nonempty builtin_tail registered keyword_free qualified
  obtain ⟨first, others, rfl⟩ := List.exists_cons_of_ne_nil nonempty
  obtain ⟨types, rfl⟩ := exists_map_builtin builtin_tail
  have keywords : ∀ type ∈ types, language.keywords.contains type.keyword = true := by
    intro type member
    exact registered type (List.mem_cons_of_mem _ (List.mem_map_of_mem member))
  have spelled := spelled_tokens language
    ((SpecifierSequence.text ⟨first :: types.map .builtin⟩).toList ++ rest)
  rw [SpecifierSequence.toList_text_cons, List.append_assoc] at spelled ⊢
  obtain ⟨middle, more, scanned⟩ := exists_builtinsForm_of_text keywords stop
  obtain ⟨front, form, began⟩ := exists_specifierForm_of_text separated
    (fun type same => registered type (same ▸ List.mem_cons_self))
    (keyword_free first List.mem_cons_self)
    (fun name same => qualified name (same ▸ List.mem_cons_self))
    (stops_builtinsText stop types)
  rw [began, scanned] at spelled ⊢
  refine ⟨_, specifierSequence_of_form form spelled.of_append_left more ends, ?_⟩
  rw [← List.drop_drop, List.drop_left, List.drop_left]

/-! ## Declarations -/

theorem endsSpecifiers_of_form {segments : List String} {last : String}
    {clause : Option ParameterClause} {list : List Token}
    (form : DeclaratorForm language segments last clause list) : EndsSpecifiers list := by
  obtain ⟨front, back, rfl, name, -⟩ := form
  intro token head
  cases name <;> cases head <;> rfl

/-- Operations on a source answer what the readings of its tokens give. -/
theorem Parser.run_ofSource (language : Language) (source : String)
    (operations : List Parser.Operation) :
    ((Parser.ofLexer (Lexer.ofSource language source)).run operations).1 =
      (language.lexicon.run (tokens language source.toList) 0 operations).1 := by
  have start : (Parser.ofLexer (Lexer.ofSource language source)).StandsAt language
      ((tokens language source.toList).drop 0) :=
    Parser.standsAt_ofSource language (Lexer.ofSource language source)
  exact (Parser.run_reads (spelled_tokens language source.toList) operations start).1

/-- A language with all punctuators reads back every declarator without keywords whose qualifier, if it
has one, is not empty. -/
theorem Declarator.readable_of_contained {declarator : Declarator}
    (contained : ∀ lexeme ∈ declaratorPunctuators, language.punctuators.contains lexeme = true)
    (qualified : ∀ name, declarator.id = .qualified name → name.nested.segments ≠ [])
    (keyword_free : ∀ name ∈ declarator.id.identifiers,
      language.keywords.contains name.text = false) : declarator.Readable language := by
  constructor
  · exact keyword_free
  · intro name same
    exact ⟨qualified name same, contained "::" (by decide)⟩
  · intro _
    exact ⟨contained "(" (by decide), contained ")" (by decide)⟩
  · intro _
    exact contained "..." (by decide)

/-- **Declarations are read back.** In a language with all punctuators of declarators, none of which
goes on as another one, a sequence of specifiers and a declarator are read from their texts with a
blank between them, and the sequence is read from its text alone; nothing is left behind either. -/
theorem Parser.run_declaration_text (language : Language)
    (complete : ∀ lexeme ∈ declaratorPunctuators,
      language.punctuators.contains lexeme = true ∧ language.punctuators.Isolates lexeme)
    (sequence : SpecifierSequence) (readable : sequence.Readable language) (declarator : Declarator)
    (qualified : ∀ name, declarator.id = .qualified name → name.nested.segments ≠ [])
    (keyword_free : ∀ name ∈ declarator.id.identifiers,
      language.keywords.contains name.text = false) :
    ((Parser.ofLexer (Lexer.ofSource language (sequence.text ++ " " ++ declarator.text))).run
        [.specifierSequence, .declarator, .expectEnd]).1 =
      [.ok (.specifierSequence sequence), .ok (.declarator declarator), .ok .done] ∧
    ((Parser.ofLexer (Lexer.ofSource language sequence.text)).run
        [.specifierSequence, .isAtEnd]).1 =
      [.ok (.specifierSequence sequence), .ok (.flag true)] := by
  have contained : ∀ lexeme ∈ declaratorPunctuators, language.punctuators.contains lexeme = true :=
    fun lexeme member => (complete lexeme member).1
  have separated := complete "::" (by decide)
  rw [Parser.run_ofSource, Parser.run_ofSource]
  constructor
  · have whole := Declarator.readable_of_contained contained qualified keyword_free
    obtain ⟨segments, last, form, spells⟩ := Declarator.form_of_readable (fun _ _ => separated.2)
      (fun lexeme member => (complete lexeme (mem_declaratorPunctuators_of_clause member)).2) whole
    have spelled := spelled_tokens language declarator.text.toList
    obtain ⟨read, behind⟩ := (declaratorForm_iff spelled).2 ⟨segments, last, form, spells⟩
    have blank : tokens language (' ' :: declarator.text.toList) =
        tokens language declarator.text.toList := tokens_cons_blank language (by decide) _
    have ends : EndsSpecifiers (tokens language (' ' :: declarator.text.toList)) := by
      rw [blank]
      exact endsSpecifiers_of_form form
    obtain ⟨taken, specifiers, left⟩ :=
      specifierSequence_of_text separated readable (stops_cons.2 (by decide)) ends
    have text : (sequence.text ++ " " ++ declarator.text).toList =
        sequence.text.toList ++ ' ' :: declarator.text.toList := by
      rw [String.toList_append, String.toList_append, List.append_assoc]
      rfl
    rw [blank] at left
    rw [text]
    simp only [Lexicon.run, Lexicon.perform, List.drop_zero, Nat.zero_add, specifiers, Reading.map,
      left, ← List.drop_drop, read, behind]
    rfl
  · have ends : EndsSpecifiers (tokens language []) := by
      rw [tokens_nil]
      intro token head
      cases head
    obtain ⟨taken, specifiers, left⟩ := specifierSequence_of_text separated readable stops_nil ends
    rw [List.append_nil, tokens_nil] at left
    rw [List.append_nil] at specifiers
    simp only [Lexicon.run, Lexicon.perform, List.drop_zero, Nat.zero_add, specifiers, Reading.map,
      left]
    rfl

end

/-- A language with the punctuators of declarators and the keywords of two built-in types. -/
def Language.typed : Language :=
  (ofEntries [("void", ⟨16⟩), ("unsigned", ⟨22⟩), ("long", ⟨23⟩)]
    [("(", ⟨17⟩), (")", ⟨18⟩), (":", ⟨19⟩), ("::", ⟨20⟩), ("...", ⟨21⟩)]).toOption.get (by decide)

theorem Parser.run_scoped_unsigned_long :
    let word : QualifiedName := ⟨⟨[⟨"std", by decide⟩]⟩, ⟨"word", by decide⟩⟩
    let sequence : SpecifierSequence :=
      ⟨[.qualified word, .builtin .unsigned, .builtin .long, .builtin .long]⟩
    let name : QualifiedName := ⟨⟨[⟨"a", by decide⟩]⟩, ⟨"f", by decide⟩⟩
    let declarator : Declarator := ⟨.qualified name, some .variadic⟩
    (∀ lexeme ∈ declaratorPunctuators, Language.typed.punctuators.contains lexeme = true ∧
      Language.typed.punctuators.Isolates lexeme) ∧
    sequence.Readable Language.typed ∧
    (∀ name, declarator.id = .qualified name → name.nested.segments ≠ []) ∧
    (∀ name ∈ declarator.id.identifiers, Language.typed.keywords.contains name.text = false) ∧
    ((Parser.ofLexer (Lexer.ofSource Language.typed (sequence.text ++ " " ++ declarator.text))).run
        [.specifierSequence, .declarator, .expectEnd]).1 =
      [.ok (.specifierSequence sequence), .ok (.declarator declarator), .ok .done] ∧
    ((Parser.ofLexer (Lexer.ofSource Language.typed sequence.text)).run
        [.specifierSequence, .isAtEnd]).1 =
      [.ok (.specifierSequence sequence), .ok (.flag true)] := by
  intro word sequence name declarator
  have complete : ∀ lexeme ∈ declaratorPunctuators,
      Language.typed.punctuators.contains lexeme = true ∧
        Language.typed.punctuators.Isolates lexeme := by decide
  have readable : sequence.Readable Language.typed := by
    constructor
    · decide
    · intro specifier member
      simp only [sequence, List.tail_cons, List.mem_cons, List.not_mem_nil, or_false] at member
      rcases member with rfl | rfl | rfl <;> exact ⟨_, rfl⟩
    · intro type
      cases type <;> decide
    · decide
    · intro other member
      have same : other = word := by simpa [sequence] using member
      rw [same]
      decide
  have qualified : ∀ name, declarator.id = .qualified name → name.nested.segments ≠ [] := by
    rintro other same
    cases same
    decide
  have keyword_free : ∀ name ∈ declarator.id.identifiers,
      Language.typed.keywords.contains name.text = false := by decide
  exact ⟨complete, readable, qualified, keyword_free,
    run_declaration_text Language.typed complete sequence readable declarator qualified keyword_free⟩

end FunctionSymbols
