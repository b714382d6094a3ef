import FunctionSymbols.Proofs.IdentifierText
import FunctionSymbols.Proofs.Run
import FunctionSymbols.Symbol

/-!
# Symbols determine declarators

Reading a symbol is the inverse of forming one. Each part of a symbol is read by a function that
accepts exactly what was written for that part, with anything behind it: a positive number in decimal
(`readLength?_eq_some_iff`), as many bytes as it says (`splitAtByte?_eq_some_iff`), and one letter
(`clauseOfCode?_eq_some_iff`). Together they give `declarator?_eq_some_iff`.
-/

namespace FunctionSymbols.Symbol

/-! ## Lengths in decimal -/

theorem eq_digitChar_of_isDigit {c : Char} (h : c.isDigit = true) :
    c.toNat - '0'.toNat < 10 ∧ c = Nat.digitChar (c.toNat - '0'.toNat) := by
  have range : 48 ≤ c.toNat ∧ c.toNat ≤ 57 := Char.isDigit_iff_toNat.1 h
  have zero : '0'.toNat = 48 := rfl
  have small : c.toNat - '0'.toNat < 10 := by omega
  refine ⟨small, ?_⟩
  rw [← Char.toNat_inj, Nat.toNat_digitChar_of_lt_ten small]
  omega

/-- Digits that are read behind a positive number are the digits that are written behind it. -/
theorem toDigits_ofDigitChars {digits : List Char} (h : ∀ c ∈ digits, c.isDigit = true) :
    ∀ {n : Nat}, 0 < n →
      Nat.toDigits 10 (Nat.ofDigitChars 10 digits n) = Nat.toDigits 10 n ++ digits := by
  induction digits with
  | nil => simp
  | cons c rest ih =>
    intro n pos
    obtain ⟨small, digit⟩ := eq_digitChar_of_isDigit (h c List.mem_cons_self)
    rw [Nat.ofDigitChars_cons, ih (fun d hd => h d (List.mem_cons_of_mem _ hd)) (by omega),
      ← Nat.toDigits_append_toDigits (by omega) pos small, Nat.toDigits_of_lt_base small, ← digit]
    simp

/-- A positive number is written without a leading zero. -/
theorem exists_toDigits_eq_cons {n : Nat} (pos : 0 < n) :
    ∃ d rest, Nat.toDigits 10 n = d :: rest ∧ d ≠ '0' := by
  induction n using Nat.strongRecOn with
  | ind n ih =>
    by_cases small : n < 10
    · refine ⟨_, _, Nat.toDigits_of_lt_base small, ?_⟩
      rw [Ne, Nat.digitChar_eq_zero]
      omega
    · obtain ⟨d, rest, split, nonzero⟩ := ih (n / 10) (by omega) (by omega)
      refine ⟨d, rest ++ [Nat.digitChar (n % 10)], ?_, nonzero⟩
      rw [Nat.toDigits_of_base_le (by omega) (by omega), split, List.cons_append]

theorem isDigit_of_mem_toDigits {n : Nat} : ∀ c ∈ Nat.toDigits 10 n, c.isDigit = true :=
  fun _ h => Nat.isDigit_of_mem_toDigits (by omega) (by omega) h

/-- A length is read exactly where one is written and no digit follows it. -/
theorem readLength?_eq_some_iff {text rest : List Char} {n : Nat} :
    readLength? text = some (n, rest) ↔
      text = Nat.toDigits 10 n ++ rest ∧ 0 < n ∧ n < lengthBound ∧ Stops Char.isDigit rest := by
  constructor
  · intro h
    have digits : ∀ c ∈ text.takeWhile Char.isDigit, c.isDigit = true :=
      fun _ => List.mem_takeWhile_imp
    have stop : Stops Char.isDigit (text.dropWhile Char.isDigit) := stops_dropWhile text
    rw [← List.takeWhile_append_dropWhile (p := Char.isDigit) (l := text)]
    unfold readLength? at h
    generalize text.takeWhile Char.isDigit = front at h digits
    generalize text.dropWhile Char.isDigit = back at h stop
    split at h
    · cases h
    · cases h
    · next nonempty nonzero =>
      obtain ⟨c, cs, rfl⟩ := List.exists_cons_of_ne_nil nonempty
      obtain ⟨small, digit⟩ := eq_digitChar_of_isDigit (digits c List.mem_cons_self)
      have pos : 0 < c.toNat - '0'.toNat := by
        refine Nat.pos_of_ne_zero fun zero => nonzero cs ?_
        rw [digit, zero]
        rfl
      have written := toDigits_ofDigitChars (fun d hd => digits d (List.mem_cons_of_mem _ hd)) pos
      rw [Nat.toDigits_of_lt_base small, ← digit, List.singleton_append] at written
      simp only [Nat.ofDigitChars_cons, Nat.mul_zero, Nat.zero_add] at h
      split at h
      · next bound =>
        obtain ⟨rfl, rfl⟩ := Prod.mk.inj (Option.some.inj h)
        refine ⟨by rw [written], Nat.pos_of_ne_zero fun zero => ?_, bound, stop⟩
        rw [zero, Nat.toDigits_zero] at written
        exact nonzero cs (by rw [(List.cons.inj written).1])
      · cases h
  · rintro ⟨rfl, pos, bound, stop⟩
    obtain ⟨d, ds, cons, nonzero⟩ := exists_toDigits_eq_cons pos
    have value : Nat.ofDigitChars 10 (d :: ds) 0 = n := by rw [← cons, Nat.ofDigitChars_ten_toDigits]
    rw [readLength?, takeWhile_append_of_stops isDigit_of_mem_toDigits stop,
      dropWhile_append_of_stops isDigit_of_mem_toDigits stop, cons]
    split
    · next h => cases h
    · next h => exact absurd (List.cons.inj h).1 nonzero
    · rw [value, if_pos bound]

/-! ## Parts of a symbol -/

@[simp] theorem splitAtByte?_zero (text : List Char) : splitAtByte? 0 text = some ([], text) := by
  rw [splitAtByte?]

theorem eq_nil_of_utf8Length {chars : List Char} (h : utf8Length chars = 0) : chars = [] := by
  have := length_le_utf8Length chars
  exact List.eq_nil_of_length_eq_zero (by omega)

theorem splitAtByte?_zero_eq_some_iff {text front back : List Char} :
    splitAtByte? 0 text = some (front, back) ↔
      text = front ++ back ∧ utf8Length front = 0 := by
  simp only [splitAtByte?_zero, Option.some.injEq, Prod.mk.injEq]
  constructor
  · rintro ⟨rfl, rfl⟩
    exact ⟨rfl, rfl⟩
  · rintro ⟨h, size⟩
    rw [eq_nil_of_utf8Length size] at h ⊢
    exact ⟨rfl, h⟩

/-- A text is cut exactly where the characters in front take up the bytes that are asked for. -/
theorem splitAtByte?_eq_some_iff {n : Nat} {text front back : List Char} :
    splitAtByte? n text = some (front, back) ↔
      text = front ++ back ∧ utf8Length front = n := by
  induction text generalizing n front with
  | nil =>
    cases n with
    | zero => exact splitAtByte?_zero_eq_some_iff
    | succ n =>
      simp only [splitAtByte?, reduceCtorEq, false_iff, not_and]
      intro h size
      rw [(List.append_eq_nil_iff.1 h.symm).1] at size
      cases size
  | cons c rest ih =>
    cases n with
    | zero => exact splitAtByte?_zero_eq_some_iff
    | succ n =>
      have pos := c.utf8Size_pos
      simp only [splitAtByte?]
      constructor
      · intro h
        split at h
        · next fits =>
          obtain ⟨⟨inner, _⟩, found, same⟩ := Option.map_eq_some_iff.1 h
          cases same
          obtain ⟨rfl, size⟩ := ih.1 found
          refine ⟨rfl, ?_⟩
          rw [utf8Length, size]
          omega
        · cases h
      · rintro ⟨h, size⟩
        cases front with
        | nil => cases size
        | cons d inner =>
          obtain ⟨rfl, rest_eq⟩ := List.cons.inj h
          rw [utf8Length] at size
          rw [if_pos (by omega), ih.2 ⟨rest_eq, by omega⟩, Option.map_some]

theorem clauseOfCode?_eq_some_iff {code : List Char} {clause : ParameterClause} :
    clauseOfCode? code = some clause ↔ code = (clauseCode clause).toList := by
  have v : (clauseCode .empty).toList = ['v'] := rfl
  have z : (clauseCode .variadic).toList = ['z'] := rfl
  unfold clauseOfCode?
  cases clause with
  | empty =>
    rw [v]
    split <;> simp_all
  | variadic =>
    rw [z]
    split <;> simp_all

theorem dropMarker?_eq_some_iff {text rest : List Char} :
    dropMarker? text = some rest ↔ text = marker.toList ++ rest := by
  have marker : marker.toList = ['_', 'Z'] := rfl
  rw [marker]
  unfold dropMarker?
  split <;> simp_all

/-! ## Whole symbols -/

theorem toOption_ofString_eq_some_iff {text : String} {name : Identifier} :
    (Identifier.ofString text).toOption = some name ↔ name.text = text := by
  rw [← Identifier.ofString_eq_ok_iff]
  cases Identifier.ofString text <;> simp [Except.toOption]

theorem isDigit_eq_false_of_isStartChar {c : Char} (h : isStartChar c = true) :
    c.isDigit = false := by
  rw [isStartChar_iff] at h
  rw [← Bool.not_eq_true, Char.isDigit_iff_toNat]
  have nine : '9'.toNat = 57 := rfl
  have zero : '0'.toNat = 48 := rfl
  omega

/-- A name begins with no digit, so its length ends where the name begins. -/
theorem stops_isDigit_text_append (name : Identifier) (rest : List Char) :
    Stops Char.isDigit (name.text.toList ++ rest) := by
  have word := name.isWord
  cases h : name.text.toList with
  | nil =>
    rw [h] at word
    exact word.elim
  | cons c more =>
    rw [h] at word
    exact stops_cons.2 (isDigit_eq_false_of_isStartChar word.1)

theorem length_pos (name : Identifier) : 0 < name.length := by
  have nonempty : name.text ≠ "" := name.isIdentifier.1
  rw [← name.utf8ByteSize_text]
  exact Nat.pos_of_ne_zero fun zero => nonempty (String.utf8ByteSize_eq_zero_iff.1 zero)

theorem toList_ofFunction (name : Identifier) (clause : ParameterClause) :
    (ofFunction name clause).toList = marker.toList ++ (Nat.toDigits 10 name.length ++
      (name.text.toList ++ (clauseCode clause).toList)) := by
  simp only [ofFunction, sourceName, String.toList_append, Nat.toString_eq_repr, Nat.toList_repr,
    List.append_assoc]

/-- Reading a symbol finds the name and the clause that it was formed from, and accepts nothing else. -/
theorem declarator?_eq_some_iff_ofFunction {symbol : String} {d : Declarator} :
    declarator? symbol = some d ↔ ∃ name clause, name.length < lengthBound ∧
      d = ⟨.unqualified name, some clause⟩ ∧ symbol = ofFunction name clause := by
  constructor
  · intro h
    obtain ⟨encoded, marked, h⟩ := Option.bind_eq_some_iff.1 h
    obtain ⟨⟨length, rest⟩, measured, h⟩ := Option.bind_eq_some_iff.1 h
    obtain ⟨⟨front, back⟩, cut, h⟩ := Option.bind_eq_some_iff.1 h
    obtain ⟨name, named, h⟩ := Option.bind_eq_some_iff.1 h
    obtain ⟨clause, coded, h⟩ := Option.bind_eq_some_iff.1 h
    cases h
    rw [dropMarker?_eq_some_iff] at marked
    obtain ⟨rfl, -, bound, -⟩ := readLength?_eq_some_iff.1 measured
    obtain ⟨rfl, size⟩ := splitAtByte?_eq_some_iff.1 cut
    rw [toOption_ofString_eq_some_iff] at named
    rw [clauseOfCode?_eq_some_iff] at coded
    have text : name.text.toList = front := by rw [named, String.toList_ofList]
    have same : name.length = length := by
      rw [← name.utf8ByteSize_text, utf8ByteSize_eq_utf8Length, text, size]
    refine ⟨name, clause, by rwa [same], rfl, ?_⟩
    rw [← String.toList_inj, toList_ofFunction, marked, same, text, coded]
  · rintro ⟨name, clause, bound, rfl, rfl⟩
    have marked := dropMarker?_eq_some_iff.2 (toList_ofFunction name clause)
    have measured := readLength?_eq_some_iff.2
      ⟨rfl, length_pos name, bound, stops_isDigit_text_append name (clauseCode clause).toList⟩
    have cut : splitAtByte? name.length (name.text.toList ++ (clauseCode clause).toList) =
        some (name.text.toList, (clauseCode clause).toList) :=
      splitAtByte?_eq_some_iff.2 ⟨rfl, by rw [← utf8ByteSize_eq_utf8Length, name.utf8ByteSize_text]⟩
    have named : (Identifier.ofString (String.ofList name.text.toList)).toOption = some name :=
      toOption_ofString_eq_some_iff.2 String.ofList_toList.symm
    have coded := clauseOfCode?_eq_some_iff.2 (Eq.refl (clauseCode clause).toList)
    simp only [declarator?, marked, measured, cut, named, coded, Option.bind_eq_bind,
      Option.bind_some, Option.pure_def]

theorem ofDeclarator_eq_ok_iff {d : Declarator} {symbol : String} :
    ofDeclarator d = .ok symbol ↔
      ∃ name clause, d = ⟨.unqualified name, some clause⟩ ∧ symbol = ofFunction name clause := by
  constructor
  · intro h
    obtain ⟨id, parameters⟩ := d
    cases id with
    | qualified name => cases h
    | unqualified name =>
      cases parameters with
      | none => cases h
      | some clause =>
        cases h
        exact ⟨name, clause, rfl, rfl⟩
  · rintro ⟨name, clause, rfl, rfl⟩
    rfl

/-- A name is shorter than its symbol. -/
theorem length_lt_utf8ByteSize_ofFunction (name : Identifier) (clause : ParameterClause) :
    name.length < (ofFunction name clause).utf8ByteSize := by
  have marked : marker.utf8ByteSize = 2 := rfl
  simp only [ofFunction, sourceName, String.utf8ByteSize_append, name.utf8ByteSize_text, marked]
  omega

/-- For symbols that a length can measure, reading is the inverse of forming. -/
theorem declarator?_eq_some_iff {symbol : String} (fits : symbol.utf8ByteSize < lengthBound)
    {d : Declarator} : declarator? symbol = some d ↔ ofDeclarator d = .ok symbol := by
  rw [declarator?_eq_some_iff_ofFunction, ofDeclarator_eq_ok_iff]
  constructor
  · rintro ⟨name, clause, -, rfl, rfl⟩
    exact ⟨name, clause, rfl, rfl⟩
  · rintro ⟨name, clause, rfl, rfl⟩
    have := length_lt_utf8ByteSize_ofFunction name clause
    exact ⟨name, clause, by omega, rfl, rfl⟩

/-- **Demangling.** A symbol is read as the text of the one declarator that has this symbol; that
declarator has an unqualified name and a parameter clause. What is no symbol of a declarator is not
read at all. -/
theorem demangle?_inverse (symbol : String) (fits : symbol.utf8ByteSize < lengthBound) :
    (∀ text, demangle? symbol = some text ↔
      ∃ d : Declarator, d.id.unqualified?.isSome = true ∧ d.parameters.isSome = true ∧
        ofDeclarator d = .ok symbol ∧ (∀ other, ofDeclarator other = .ok symbol → other = d) ∧
        text = d.text) ∧
    (∀ d, ofDeclarator d = .ok symbol → demangle? symbol = some d.text) ∧
    (∀ d other, ofDeclarator d = .ok symbol → ofDeclarator other = .ok symbol → d = other) ∧
    (demangle? symbol = none ↔ ∀ d, ofDeclarator d ≠ .ok symbol) := by
  have unique : ∀ d other, ofDeclarator d = .ok symbol → ofDeclarator other = .ok symbol →
      d = other := by
    intro d other hd ho
    rw [← declarator?_eq_some_iff fits] at hd ho
    exact Option.some.inj (hd.symm.trans ho)
  have reads : ∀ d, ofDeclarator d = .ok symbol → demangle? symbol = some d.text := by
    intro d hd
    rw [demangle?, (declarator?_eq_some_iff fits).2 hd, Option.map_some]
  refine ⟨fun text => ⟨fun h => ?_, ?_⟩, reads, unique, ?_⟩
  · obtain ⟨d, found, rfl⟩ := Option.map_eq_some_iff.1 h
    have formed := (declarator?_eq_some_iff fits).1 found
    obtain ⟨name, clause, rfl, -⟩ := ofDeclarator_eq_ok_iff.1 formed
    exact ⟨_, rfl, rfl, formed, fun other ho => unique other _ ho formed, rfl⟩
  · rintro ⟨d, -, -, formed, -, rfl⟩
    exact reads d formed
  · rw [demangle?, Option.map_eq_none_iff]
    constructor
    · intro none d formed
      rw [(declarator?_eq_some_iff fits).2 formed] at none
      cases none
    · intro free
      cases found : declarator? symbol with
      | none => rfl
      | some d => exact absurd ((declarator?_eq_some_iff fits).1 found) (free d)

theorem demangle?_bar_variadic :
    "_Z3barz".utf8ByteSize < lengthBound ∧ demangle? "_Z3barz" = some "bar(...)" :=
  ⟨by decide, (demangle?_inverse "_Z3barz" (by decide)).2.1
    ⟨.unqualified ⟨"bar", by decide⟩, some .variadic⟩ (by decide)⟩

end FunctionSymbols.Symbol
