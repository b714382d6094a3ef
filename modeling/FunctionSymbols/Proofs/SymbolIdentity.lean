import FunctionSymbols.Proofs.Failures

/-!
# Symbols identify functions

Each part of a symbol ends at a place that the part itself determines: a length where the name begins,
which is at no digit, and a name where its length says. So symbols are equal only if their names and
their clauses are (`ofFunction_eq_iff`), none begins another (`eq_of_ofFunction_prefix`), and names behind
their lengths can be told apart in a row (`flatMap_sourceName_inj`). The symbol of a text is the one of its
declarator read as a function, and texts have one symbol exactly if they declare one function.
-/

namespace FunctionSymbols

variable {language : Language}

namespace Symbol

/-! ## Where the parts of a symbol end -/

/-- Numbers end where no digit follows. -/
theorem toDigits_append_inj {m n : Nat} {x y : List Char} (stop : Stops Char.isDigit x)
    (stop' : Stops Char.isDigit y) (same : Nat.toDigits 10 m ++ x = Nat.toDigits 10 n ++ y) :
    m = n ∧ x = y := by
  have digits := congrArg (List.takeWhile Char.isDigit) same
  have behind := congrArg (List.dropWhile Char.isDigit) same
  rw [takeWhile_append_of_stops isDigit_of_mem_toDigits stop,
    takeWhile_append_of_stops isDigit_of_mem_toDigits stop'] at digits
  rw [dropWhile_append_of_stops isDigit_of_mem_toDigits stop,
    dropWhile_append_of_stops isDigit_of_mem_toDigits stop'] at behind
  have number := congrArg (Nat.ofDigitChars 10 · 0) digits
  simp only [Nat.ofDigitChars_ten_toDigits] at number
  exact ⟨number, behind⟩

theorem toList_sourceName (name : Identifier) :
    (sourceName name).toList = Nat.toDigits 10 name.length ++ name.text.toList := by
  rw [sourceName, String.toList_append, Nat.toString_eq_repr, Nat.toList_repr]

/-- A name behind its length can be told from whatever follows it. -/
theorem sourceName_append_inj {a b : Identifier} {x y : List Char}
    (same : (sourceName a).toList ++ x = (sourceName b).toList ++ y) : a = b ∧ x = y := by
  rw [toList_sourceName, toList_sourceName, List.append_assoc, List.append_assoc] at same
  obtain ⟨length, rest⟩ :=
    toDigits_append_inj (stops_isDigit_text_append a x) (stops_isDigit_text_append b y) same
  rw [Identifier.length, Identifier.length, ← String.length_toList, ← String.length_toList] at length
  obtain ⟨text, behind⟩ := List.append_inj rest length
  exact ⟨Identifier.text_injective (String.toList_inj.1 text), behind⟩

theorem clauseCode_inj {clause other : ParameterClause} (same : clauseCode clause = clauseCode other) :
    clause = other := by
  have read := clauseOfCode?_eq_some_iff.2 (Eq.refl (clauseCode clause).toList)
  have read' := clauseOfCode?_eq_some_iff.2 (congrArg String.toList same)
  exact Option.some.inj (read.symm.trans read')

/-- A symbol determines the name and the clause that it was formed from. -/
theorem ofFunction_eq_iff {name other : Identifier} {clause clause' : ParameterClause} :
    ofFunction name clause = ofFunction other clause' ↔ name = other ∧ clause = clause' := by
  constructor
  · intro same
    have chars := congrArg String.toList same
    simp only [ofFunction, String.toList_append, List.append_assoc] at chars
    obtain ⟨names, codes⟩ := sourceName_append_inj (List.append_cancel_left chars)
    exact ⟨names, clauseCode_inj (String.toList_inj.1 codes)⟩
  · rintro ⟨rfl, rfl⟩
    rfl

/-! ## Names behind their lengths -/

/-- Names behind their lengths, one after the other, are read in one way only. -/
theorem flatMap_sourceName_inj {names others : List Identifier}
    (same : (names.flatMap fun name => (sourceName name).toList) =
      others.flatMap fun name => (sourceName name).toList) : names = others := by
  have written : ∀ name, (sourceName name).toList ≠ [] := by
    intro name none
    rw [toList_sourceName, List.append_eq_nil_iff] at none
    exact name.isIdentifier.1 (String.toList_eq_nil_iff.1 none.2)
  induction names generalizing others with
  | nil =>
    cases others with
    | nil => rfl
    | cons other rest => exact absurd (List.append_eq_nil_iff.1 same.symm).1 (written other)
  | cons name more ih =>
    cases others with
    | nil => exact absurd (List.append_eq_nil_iff.1 same).1 (written name)
    | cons other rest =>
      rw [List.flatMap_cons, List.flatMap_cons] at same
      obtain ⟨rfl, behind⟩ := sourceName_append_inj same
      rw [ih behind]

/-- Nothing follows the letter of a clause in a symbol. -/
theorem eq_of_ofFunction_prefix {name other : Identifier} {clause clause' : ParameterClause}
    (begins : (ofFunction name clause).toList <+: (ofFunction other clause').toList) :
    name = other ∧ clause = clause' := by
  obtain ⟨rest, split⟩ := begins
  simp only [ofFunction, String.toList_append, List.append_assoc] at split
  obtain ⟨names, codes⟩ := sourceName_append_inj (List.append_cancel_left split)
  have letter : ∀ clause, (clauseCode clause).toList.length = 1 := by
    intro clause
    cases clause <;> rfl
  obtain ⟨code, -⟩ := List.append_inj (codes.trans (List.append_nil _).symm)
    ((letter clause).trans (letter clause').symm)
  exact ⟨names, clauseCode_inj (String.toList_inj.1 code)⟩

/-- **Where a name ends.** A name behind its length ends at the same place whatever follows it, so two
texts that begin so are equal only if the names and what follows them are. No symbol goes on where
another one ends, and names behind their lengths need nothing between them: the text of all of them
determines their list. -/
theorem sourceName_self_delimiting (a b : Identifier) (x y : String) :
    (sourceName a ++ x = sourceName b ++ y ↔ a = b ∧ x = y) ∧
    (∀ d d' symbol symbol', ofDeclarator d = .ok symbol → ofDeclarator d' = .ok symbol' →
      (symbol.toList <+: symbol'.toList ↔ symbol = symbol')) ∧
    ∀ names names' : List Identifier,
      String.join (names.map sourceName) = String.join (names'.map sourceName) ↔ names = names' := by
  refine ⟨⟨fun same => ?_, ?_⟩, ?_, fun names names' => ⟨fun same => ?_, ?_⟩⟩
  · have chars := congrArg String.toList same
    rw [String.toList_append, String.toList_append] at chars
    obtain ⟨name, behind⟩ := sourceName_append_inj chars
    exact ⟨name, String.toList_inj.1 behind⟩
  · rintro ⟨rfl, rfl⟩
    rfl
  · intro d d' symbol symbol' formed formed'
    obtain ⟨name, clause, -, rfl⟩ := ofDeclarator_eq_ok_iff.1 formed
    obtain ⟨name', clause', -, rfl⟩ := ofDeclarator_eq_ok_iff.1 formed'
    constructor
    · intro begins
      obtain ⟨rfl, rfl⟩ := eq_of_ofFunction_prefix begins
      rfl
    · intro same
      exact ⟨[], by rw [same, List.append_nil]⟩
  · have chars := congrArg String.toList same
    simp only [String.toList_join, List.flatMap_map] at chars
    exact flatMap_sourceName_inj chars
  · rintro rfl
    rfl

/-- Lengths that begin with the same digit, and names that go on with digits. -/
theorem sourceName_self_delimiting_digits :
    let short : Declarator := ⟨.unqualified ⟨"a", by decide⟩, some .empty⟩
    let long : Declarator := ⟨.unqualified ⟨"a1111111111", by decide⟩, some .empty⟩
    ofDeclarator short = .ok "_Z1av" ∧ ofDeclarator long = .ok "_Z11a1111111111v" ∧
    ("_Z1av".toList <+: "_Z11a1111111111v".toList ↔ "_Z1av" = "_Z11a1111111111v") := by
  intro short long
  have formed : ofDeclarator short = .ok "_Z1av" := by decide +kernel
  have formed' : ofDeclarator long = .ok "_Z11a1111111111v" := by decide +kernel
  obtain ⟨-, symbols, -⟩ :=
    sourceName_self_delimiting ⟨"a", by decide⟩ ⟨"a1111111111", by decide⟩ "" ""
  exact ⟨formed, formed', symbols _ _ _ _ formed formed'⟩

/-! ## Symbols of texts and of declarators -/

/-- The symbol of a text is the symbol of its declarator read as a function. -/
theorem ofText_eq_ofDeclarator (language : Language) (source : String) :
    ofText language source =
      Declarator.ofString language source >>= fun declarator => ofDeclarator declarator.asFunction := by
  rw [ofText_eq]
  cases Declarator.ofString language source with
  | error d => rfl
  | ok declarator =>
    obtain ⟨id, clause⟩ := declarator
    cases id <;> rfl

/-- **One symbol, one function.** A text has the symbol of the declarator that it is, with an absent
clause written out as the empty one, and it is refused as this declarator is: what is no declarator first,
and only then a qualified name. Two texts that have symbols, each in a language of its own, have the same
symbol exactly if they are the same declarator, up to the absent clause. -/
theorem ofText_identifies_function (language language' : Language) (source source' : String) :
    ofText language source =
      (Declarator.ofString language source >>= fun declarator => ofDeclarator declarator.asFunction) ∧
    (∀ d, ofText language source = .error d ↔
      Declarator.ofString language source = .error d ∨
      ∃ name clause, Declarator.ofString language source = .ok ⟨.qualified name, clause⟩ ∧
        d = .unsupportedName (IdExpression.text (.qualified name))) ∧
    ∀ symbol symbol', ofText language source = .ok symbol → ofText language' source' = .ok symbol' →
      ∃ declarator declarator', Declarator.ofString language source = .ok declarator ∧
        Declarator.ofString language' source' = .ok declarator' ∧
        (symbol = symbol' ↔ declarator.asFunction = declarator'.asFunction) := by
  refine ⟨ofText_eq_ofDeclarator language source, fun d => ofText_eq_error_iff, ?_⟩
  intro symbol symbol' formed formed'
  obtain ⟨name, clause, accepted, rfl⟩ := ofText_eq_ok_iff.1 formed
  obtain ⟨name', clause', accepted', rfl⟩ := ofText_eq_ok_iff.1 formed'
  refine ⟨_, _, accepted, accepted', ?_⟩
  simp only [ofFunction_eq_iff, Declarator.asFunction, Declarator.mk.injEq,
    IdExpression.unqualified.injEq, Option.some.injEq]

theorem ofText_identifies_bare_and_void :
    ofText Language.empty " f" = .ok "_Z1fv" ∧ ofText Language.sample "f(void)" = .ok "_Z1fv" ∧
    ∃ declarator declarator', Declarator.ofString Language.empty " f" = .ok declarator ∧
      Declarator.ofString Language.sample "f(void)" = .ok declarator' ∧
      ("_Z1fv" = "_Z1fv" ↔ declarator.asFunction = declarator'.asFunction) := by
  have bare : ofText Language.empty " f" = .ok "_Z1fv" := by decide +kernel
  have void : ofText Language.sample "f(void)" = .ok "_Z1fv" := by decide +kernel
  obtain ⟨-, -, identified⟩ :=
    ofText_identifies_function Language.empty Language.sample " f" "f(void)"
  exact ⟨bare, void, identified _ _ bare void⟩

end Symbol

end FunctionSymbols
