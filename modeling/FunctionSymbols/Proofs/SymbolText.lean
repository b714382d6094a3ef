import FunctionSymbols.Proofs.DeclaratorText
import FunctionSymbols.Proofs.Demangling

/-!
# Symbols of texts

A text has a symbol when it declares a function with an unqualified name, and a symbol is read as the
text of such a declarator. Going round from either side comes back: from a symbol unless the name in
it is a keyword, and from a text to the text that its declarator is written as.
-/

namespace FunctionSymbols

variable {language : Language}

/-- A text that begins with a keyword is refused at this keyword. -/
theorem Declarator.ofString_of_keyword {name : Identifier} {rest : String}
    (keyword : language.keywords.contains name.text = true)
    (stop : Stops isContinueChar rest.toList) :
    ofString language (name.text ++ rest) =
      .error (.unexpectedToken "identifier" ("`" ++ name.text ++ "`")) := by
  obtain ⟨tag, registered⟩ := TokenTable.contains_iff.1 keyword
  have unnamed : Token.name? ⟨name.text, tag⟩ = none := by
    rw [Token.name?, TokenTable.isIdentifier_of_lookup registered]
    rfl
  have quoted : Token.text ⟨name.text, tag⟩ = "`" ++ name.text ++ "`" := by
    rw [Token.text, TokenTable.isEof_of_lookup registered]
    rfl
  have scanned := tokens_append_keyword name.isWord registered stop
  rw [ofString_eq_reading, String.toList_append, scanned,
    declarator_of_name?_eq_none language.lexicon unnamed]
  dsimp only
  rw [complaint, List.headD_cons, quoted]

/-- A function with an unqualified name can be read back if its name is no keyword. -/
theorem Declarator.ofString_text_unqualified (name : Identifier) (clause : ParameterClause)
    (complete : ∀ lexeme ∈ clausePunctuators,
      language.punctuators.contains lexeme = true ∧ language.punctuators.Isolates lexeme)
    (free : language.keywords.contains name.text = false) :
    ofString language (text ⟨.unqualified name, some clause⟩) =
      .ok ⟨.unqualified name, some clause⟩ := by
  have readable : Readable language ⟨.unqualified name, some clause⟩ := by
    constructor
    · intro other member
      rw [List.mem_singleton.1 member]
      exact free
    · intro other same
      cases same
    · intro _
      exact ⟨(complete "(" (by decide)).1, (complete ")" (by decide)).1⟩
    · intro _
      exact (complete "..." (by decide)).1
  have form := form_of_readable (fun _ same => by cases same)
    (fun lexeme member => (complete lexeme member).2) readable
  exact ofString_eq_ok_iff.2 form

/-- The name of an accepted declarator is no longer than the text. -/
theorem Declarator.length_le_of_ofString {source : String} {declarator : Declarator}
    (accepted : ofString language source = .ok declarator) :
    ∀ name ∈ declarator.id.identifiers, name.length ≤ source.utf8ByteSize := by
  intro name member
  have token := mem_tokens_of_ofString accepted name member
  have written : name.text.toList.length ≤ source.toList.length :=
    (infix_of_mem_tokens _ token).length_le
  have bytes := length_le_utf8Length source.toList
  rw [utf8ByteSize_eq_utf8Length, Identifier.length, ← String.length_toList]
  omega

namespace Symbol

/-- A symbol is read as the text of the function that it was formed for. -/
theorem demangle?_eq_some_iff {symbol text : String} :
    demangle? symbol = some text ↔
      ∃ name clause, name.length < lengthBound ∧
        text = Declarator.text ⟨.unqualified name, some clause⟩ ∧
        symbol = ofFunction name clause := by
  rw [demangle?, Option.map_eq_some_iff]
  constructor
  · rintro ⟨d, read, rfl⟩
    obtain ⟨name, clause, bound, rfl, formed⟩ := declarator?_eq_some_iff_ofFunction.1 read
    exact ⟨name, clause, bound, rfl, formed⟩
  · rintro ⟨name, clause, bound, rfl, formed⟩
    exact ⟨_, declarator?_eq_some_iff_ofFunction.2 ⟨name, clause, bound, rfl, formed⟩, rfl⟩

/-- A text has a symbol when it is accepted with an unqualified name; an absent clause lists no
parameters. -/
theorem ofText_eq_ok_iff {text symbol : String} :
    ofText language text = .ok symbol ↔
      ∃ name clause, Declarator.ofString language text = .ok ⟨.unqualified name, clause⟩ ∧
        symbol = ofFunction name (clause.getD .empty) := by
  rw [ofText_eq]
  cases accepted : Declarator.ofString language text with
  | error d =>
    constructor
    · intro h
      cases h
    · rintro ⟨name, clause, h, -⟩
      cases h
  | ok declarator =>
    obtain ⟨id, clause⟩ := declarator
    cases id with
    | qualified name =>
      constructor
      · intro h
        cases h
      · rintro ⟨name, clause, h, -⟩
        cases h
    | unqualified name =>
      constructor
      · intro h
        cases h
        exact ⟨name, clause, rfl, rfl⟩
      · rintro ⟨_, _, h, rfl⟩
        cases h
        rfl

theorem ofText_eq_error {text : String} {d : Diagnostic}
    (refused : Declarator.ofString language text = .error d) : ofText language text = .error d := by
  rw [ofText_eq, refused]
  rfl

/-- **Symbols and texts.** In a language with the punctuators of clauses, none of which goes on as
another one, the text that a symbol is read as has this symbol again, unless its name is a keyword,
which is then complained about. And the symbol of a text is read as the text of the declarator that was
accepted, with its clause written out, which has the same symbol again. -/
theorem ofText_demangle? (language : Language)
    (complete : ∀ lexeme ∈ clausePunctuators,
      language.punctuators.contains lexeme = true ∧ language.punctuators.Isolates lexeme) :
    (∀ symbol text, demangle? symbol = some text →
      ∃ name clause, text = Declarator.text ⟨.unqualified name, some clause⟩ ∧
        ofText language text =
          if language.keywords.contains name.text then
            .error (.unexpectedToken "identifier" ("`" ++ name.text ++ "`"))
          else .ok symbol) ∧
    (∀ source symbol, source.utf8ByteSize < lengthBound → ofText language source = .ok symbol →
      ∃ declarator, Declarator.ofString language source = .ok declarator ∧
        demangle? symbol = some declarator.asFunction.text ∧
        ofText language declarator.asFunction.text = .ok symbol) := by
  constructor
  · intro symbol text read
    obtain ⟨name, clause, -, rfl, rfl⟩ := demangle?_eq_some_iff.1 read
    refine ⟨name, clause, rfl, ?_⟩
    split
    · next keyword =>
      have stop := stops_clause_text (some clause)
      exact ofText_eq_error (Declarator.ofString_of_keyword keyword stop)
    · next free =>
      rw [Bool.not_eq_true] at free
      have accepted := Declarator.ofString_text_unqualified name clause complete free
      exact ofText_eq_ok_iff.2 ⟨name, some clause, accepted, rfl⟩
  · intro source symbol fits formed
    obtain ⟨name, clause, accepted, rfl⟩ := ofText_eq_ok_iff.1 formed
    have listed : name ∈ IdExpression.identifiers (.unqualified name) := List.mem_singleton_self name
    have short := Declarator.length_le_of_ofString accepted name listed
    have free := (Declarator.readable_of_ofString accepted).keyword_free name listed
    have again := Declarator.ofString_text_unqualified name (clause.getD .empty) complete free
    refine ⟨_, accepted, ?_, ?_⟩
    · exact demangle?_eq_some_iff.2 ⟨name, _, by omega, rfl, rfl⟩
    · exact ofText_eq_ok_iff.2 ⟨name, _, again, rfl⟩

theorem ofText_void_variadic :
    (∀ lexeme ∈ clausePunctuators, Language.sample.punctuators.contains lexeme = true ∧
      Language.sample.punctuators.Isolates lexeme) ∧
    demangle? "_Z4voidz" = some "void(...)" ∧
    (∃ name clause, "void(...)" = Declarator.text ⟨.unqualified name, some clause⟩ ∧
      ofText Language.sample "void(...)" =
        if Language.sample.keywords.contains name.text then
          .error (.unexpectedToken "identifier" ("`" ++ name.text ++ "`"))
        else .ok "_Z4voidz") ∧
    "f ( void )".utf8ByteSize < lengthBound ∧ ofText Language.sample "f ( void )" = .ok "_Z1fv" ∧
    ∃ declarator, Declarator.ofString Language.sample "f ( void )" = .ok declarator ∧
      demangle? "_Z1fv" = some declarator.asFunction.text ∧
      ofText Language.sample declarator.asFunction.text = .ok "_Z1fv" := by
  have complete : ∀ lexeme ∈ clausePunctuators, Language.sample.punctuators.contains lexeme = true ∧
      Language.sample.punctuators.Isolates lexeme := by decide
  have read : demangle? "_Z4voidz" = some "void(...)" := by decide +kernel
  have fits : "f ( void )".utf8ByteSize < lengthBound := by decide +kernel
  have formed : ofText Language.sample "f ( void )" = .ok "_Z1fv" := by decide +kernel
  obtain ⟨fromSymbol, fromText⟩ := ofText_demangle? Language.sample complete
  exact ⟨complete, read, fromSymbol _ _ read, fits, formed, fromText _ _ fits formed⟩

end Symbol

end FunctionSymbols
