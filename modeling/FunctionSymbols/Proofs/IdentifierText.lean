import Mathlib.Data.List.TakeWhile
import FunctionSymbols.Identifier

/-!
# Identifiers as characters

An identifier is recognised on the bytes of a text, while the lexer and the grammar read characters.
Both see the same prefix: an ASCII character is one byte of the same class, and the first byte of any
other character belongs to neither class. Hence `isIdentifier_iff`, and the number of characters of an
identifier is the number of its bytes.
-/

namespace FunctionSymbols

/-- The number of bytes that characters take up in UTF-8. -/
def utf8Length : List Char → Nat
  | [] => 0
  | c :: rest => c.utf8Size + utf8Length rest

/-- The length of the longest identifier that the characters begin with, 0 if there is none. -/
def wordLength : List Char → Nat
  | [] => 0
  | c :: rest => if isStartChar c then 1 + (rest.takeWhile isContinueChar).length else 0

/-- The characters of an identifier. -/
def IsWord : List Char → Prop
  | [] => False
  | c :: rest => isStartChar c = true ∧ ∀ d ∈ rest, isContinueChar d = true

theorem isStartChar_iff {c : Char} :
    isStartChar c = true ↔
      c.toNat = 0x5F ∨ (0x41 ≤ c.toNat ∧ c.toNat ≤ 0x5A) ∨ (0x61 ≤ c.toNat ∧ c.toNat ≤ 0x7A) := by
  have underscore : c = '_' ↔ c.toNat = 0x5F := Char.toNat_inj.symm
  have upper : c.isUpper = true ↔ 0x41 ≤ c.toNat ∧ c.toNat ≤ 0x5A := decide_eq_true_iff
  have lower : c.isLower = true ↔ 0x61 ≤ c.toNat ∧ c.toNat ≤ 0x7A := by
    show (decide _ && decide _) = true ↔ _
    rw [Bool.and_eq_true, decide_eq_true_iff, decide_eq_true_iff]
    rfl
  have alpha : c.isAlpha = (c.isUpper || c.isLower) := rfl
  rw [isStartChar, alpha, Bool.or_eq_true, Bool.or_eq_true, beq_iff_eq, underscore, upper, lower]

theorem isContinueChar_iff {c : Char} :
    isContinueChar c = true ↔ isStartChar c = true ∨ (0x30 ≤ c.toNat ∧ c.toNat ≤ 0x39) := by
  have digit : c.isDigit = true ↔ 0x30 ≤ c.toNat ∧ c.toNat ≤ 0x39 := Char.isDigit_iff_toNat
  simp only [isContinueChar, isStartChar, Char.isAlphanum, Bool.or_eq_true, digit, or_assoc]

theorem isStartByte_iff {b : UInt8} :
    isStartByte b = true ↔
      b.toNat = 0x5F ∨ (0x41 ≤ b.toNat ∧ b.toNat ≤ 0x5A) ∨ (0x61 ≤ b.toNat ∧ b.toNat ≤ 0x7A) := by
  simp only [isStartByte, Bool.or_eq_true, Bool.and_eq_true, decide_eq_true_eq, beq_iff_eq,
    UInt8.le_iff_toNat_le, ← UInt8.toNat_inj, or_assoc]
  rfl

theorem isContinueByte_iff {b : UInt8} :
    isContinueByte b = true ↔ isStartByte b = true ∨ (0x30 ≤ b.toNat ∧ b.toNat ≤ 0x39) := by
  simp only [isContinueByte, Bool.or_eq_true, Bool.and_eq_true, decide_eq_true_eq,
    UInt8.le_iff_toNat_le]
  rfl

theorem toNat_lt_of_isContinueChar {c : Char} (h : isContinueChar c = true) : c.toNat < 0x80 := by
  rw [isContinueChar_iff, isStartChar_iff] at h
  omega

theorem isContinueChar_of_isStartChar {c : Char} (h : isStartChar c = true) :
    isContinueChar c = true :=
  isContinueChar_iff.2 (.inl h)

/-- The longest word that begins with a character. -/
theorem isWord_cons_takeWhile {c : Char} (start : isStartChar c = true) (rest : List Char) :
    IsWord (c :: rest.takeWhile isContinueChar) :=
  ⟨start, fun _ member => List.mem_takeWhile_imp member⟩

theorem wordLength_of_isStartChar {c : Char} (start : isStartChar c = true) (rest : List Char) :
    wordLength (c :: rest) = (c :: rest.takeWhile isContinueChar).length := by
  rw [wordLength, if_pos start, List.length_cons, Nat.add_comm]

/-- The classes of a character are those of its first byte, and only an ASCII character, which has no
second byte, belongs to one. -/
theorem exists_utf8EncodeChar_eq (c : Char) :
    ∃ b bs, String.utf8EncodeChar c = b :: bs ∧ isStartByte b = isStartChar c ∧
      isContinueByte b = isContinueChar c ∧ (isContinueChar c = true → bs = []) := by
  have classes : ∀ b : UInt8, (c.toNat < 0x80 → b.toNat = c.toNat) →
      (0x80 ≤ c.toNat → 0x80 ≤ b.toNat) →
      isStartByte b = isStartChar c ∧ isContinueByte b = isContinueChar c := by
    intro b low high
    constructor
    · rw [Bool.eq_iff_iff, isStartByte_iff, isStartChar_iff]
      omega
    · rw [Bool.eq_iff_iff, isContinueByte_iff, isStartByte_iff, isContinueChar_iff, isStartChar_iff]
      omega
  have size : c.toNat = c.val.toNat := rfl
  unfold String.utf8EncodeChar
  by_cases ascii : c.val.toNat ≤ 0x7f
  · simp only [ascii, if_true]
    obtain ⟨start, follow⟩ := classes (.ofNat c.val.toNat) (by simp; omega) (by omega)
    exact ⟨_, _, rfl, start, follow, fun _ => rfl⟩
  · have wide : isContinueChar c ≠ true := fun h => by
      have := toNat_lt_of_isContinueChar h
      omega
    simp only [ascii, if_false]
    split
    · obtain ⟨start, follow⟩ := classes (.ofNat (c.val.toNat / 64 % 0x20 + 0xc0))
        (by omega) (by simp; omega)
      exact ⟨_, _, rfl, start, follow, fun h => absurd h wide⟩
    · split
      · obtain ⟨start, follow⟩ := classes (.ofNat (c.val.toNat / 4096 % 0x10 + 0xe0))
          (by omega) (by simp; omega)
        exact ⟨_, _, rfl, start, follow, fun h => absurd h wide⟩
      · obtain ⟨start, follow⟩ := classes (.ofNat (c.val.toNat / 262144 % 0x08 + 0xf0))
          (by omega) (by simp; omega)
        exact ⟨_, _, rfl, start, follow, fun h => absurd h wide⟩

/-- A run of identifier bytes is as long as the run of identifier characters it spells. -/
theorem length_takeWhile_isContinueByte (chars : List Char) :
    ((chars.flatMap String.utf8EncodeChar).takeWhile isContinueByte).length =
      (chars.takeWhile isContinueChar).length := by
  induction chars with
  | nil => rfl
  | cons c rest ih =>
    obtain ⟨b, bs, encode, -, follow, single⟩ := exists_utf8EncodeChar_eq c
    rw [List.flatMap_cons, encode, List.cons_append, List.takeWhile_cons, List.takeWhile_cons, follow]
    cases h : isContinueChar c with
    | false => simp
    | true => simp [single h, ih]

theorem prefixLengthOfBytes_flatMap (chars : List Char) :
    prefixLengthOfBytes (chars.flatMap String.utf8EncodeChar) = wordLength chars := by
  cases chars with
  | nil => rfl
  | cons c rest =>
    obtain ⟨b, bs, encode, start, -, single⟩ := exists_utf8EncodeChar_eq c
    rw [List.flatMap_cons, encode, List.cons_append, prefixLengthOfBytes, wordLength, start]
    cases h : isStartChar c with
    | false => simp
    | true =>
      rw [single (isContinueChar_of_isStartChar h), List.nil_append,
        length_takeWhile_isContinueByte]

theorem toList_data_toByteArray (text : String) :
    text.toByteArray.data.toList = text.toList.flatMap String.utf8EncodeChar := by
  rw [← String.utf8Encode_toList, List.utf8Encode, List.toList_data_toByteArray]

/-- The scan over bytes finds the prefix that a scan over characters finds. -/
theorem identifierPrefixLength_eq (text : String) :
    identifierPrefixLength text = wordLength text.toList := by
  rw [identifierPrefixLength, toList_data_toByteArray, prefixLengthOfBytes_flatMap]

theorem length_flatMap_utf8EncodeChar (chars : List Char) :
    (chars.flatMap String.utf8EncodeChar).length = utf8Length chars := by
  induction chars with
  | nil => rfl
  | cons c rest ih =>
    rw [List.flatMap_cons, List.length_append, String.length_utf8EncodeChar, ih, utf8Length]

theorem utf8ByteSize_eq_utf8Length (text : String) :
    text.utf8ByteSize = utf8Length text.toList := by
  have size : text.utf8ByteSize = text.toByteArray.data.toList.length := rfl
  rw [size, toList_data_toByteArray, length_flatMap_utf8EncodeChar]

theorem utf8Length_append (front back : List Char) :
    utf8Length (front ++ back) = utf8Length front + utf8Length back := by
  induction front with
  | nil => simp [utf8Length]
  | cons c rest ih =>
    rw [List.cons_append, utf8Length, utf8Length, ih]
    omega

/-- A list is cut in two in one way only behind a number of bytes. -/
theorem append_inj_of_utf8Length {front back front' back' : List Char}
    (split : front ++ back = front' ++ back') (size : utf8Length front = utf8Length front') :
    front = front' ∧ back = back' := by
  induction front generalizing front' with
  | nil =>
    cases front' with
    | nil => exact ⟨rfl, split⟩
    | cons c rest =>
      have := c.utf8Size_pos
      rw [utf8Length, utf8Length] at size
      omega
  | cons c rest ih =>
    cases front' with
    | nil =>
      have := c.utf8Size_pos
      rw [utf8Length, utf8Length] at size
      omega
    | cons d rest' =>
      obtain ⟨rfl, behind⟩ := List.cons.inj split
      rw [utf8Length, utf8Length] at size
      obtain ⟨rfl, same⟩ := ih behind (by omega)
      exact ⟨rfl, same⟩

theorem length_le_utf8Length (chars : List Char) : chars.length ≤ utf8Length chars := by
  induction chars with
  | nil => exact Nat.le_refl 0
  | cons c rest ih =>
    have := c.utf8Size_pos
    rw [List.length_cons, utf8Length]
    omega

theorem utf8Size_of_isContinueChar {c : Char} (h : isContinueChar c = true) : c.utf8Size = 1 := by
  have small := toNat_lt_of_isContinueChar h
  rw [Char.utf8Size_eq_one_iff, UInt32.le_iff_toNat_le]
  exact Nat.lt_succ_iff.1 small

theorem isContinueChar_of_mem {chars : List Char} (word : IsWord chars) :
    ∀ c ∈ chars, isContinueChar c = true := by
  cases chars with
  | nil => exact word.elim
  | cons c rest =>
    intro d hd
    rcases List.mem_cons.1 hd with rfl | hd
    · exact isContinueChar_of_isStartChar word.1
    · exact word.2 d hd

theorem utf8Length_eq_length {chars : List Char} (ones : ∀ c ∈ chars, c.utf8Size = 1) :
    utf8Length chars = chars.length := by
  induction chars with
  | nil => rfl
  | cons c rest ih =>
    have one := ones c List.mem_cons_self
    rw [utf8Length, List.length_cons, ih fun d hd => ones d (List.mem_cons_of_mem _ hd), one,
      Nat.add_comm]

/-- In a word, characters are bytes. -/
theorem utf8Length_of_isWord {chars : List Char} (word : IsWord chars) :
    utf8Length chars = chars.length :=
  utf8Length_eq_length fun c hc => utf8Size_of_isContinueChar (isContinueChar_of_mem word c hc)

/-- A nonempty list of characters is a word when its longest word prefix is all of it. -/
theorem isWord_iff_wordLength {chars : List Char} :
    IsWord chars ↔ chars ≠ [] ∧ wordLength chars = chars.length := by
  cases chars with
  | nil => simp [IsWord]
  | cons c rest =>
    have whole : (rest.takeWhile isContinueChar).length = rest.length ↔
        ∀ d ∈ rest, isContinueChar d = true := by
      rw [← List.takeWhile_eq_self_iff]
      exact ⟨fun h => (List.takeWhile_prefix _).eq_of_length h, fun h => by rw [h]⟩
    rw [IsWord, wordLength, ← whole, List.length_cons]
    cases isStartChar c with
    | false => simp
    | true =>
      simp
      omega

/-- The text of an identifier is `[_a-zA-Z][_a-zA-Z0-9]*`. -/
theorem isIdentifier_iff {text : String} : IsIdentifier text ↔ IsWord text.toList := by
  rw [IsIdentifier, identifierPrefixLength_eq, utf8ByteSize_eq_utf8Length, isWord_iff_wordLength,
    Ne, Ne, String.toList_eq_nil_iff]
  refine and_congr_right fun _ => ⟨fun h => ?_, fun h => ?_⟩
  · have short : wordLength text.toList ≤ text.toList.length := by
      cases text.toList with
      | nil => exact Nat.le_refl 0
      | cons c rest =>
        have := (List.takeWhile_sublist isContinueChar (l := rest)).length_le
        rw [wordLength, List.length_cons]
        split <;> omega
    have := length_le_utf8Length text.toList
    omega
  · by_cases empty : text.toList = []
    · simp [empty, wordLength, utf8Length]
    · rw [utf8Length_of_isWord (isWord_iff_wordLength.2 ⟨empty, h⟩), h]

namespace Identifier

theorem isWord (name : Identifier) : IsWord name.text.toList := isIdentifier_iff.1 name.isIdentifier

/-- Every word is the text of an identifier. -/
theorem exists_of_isWord {chars : List Char} (word : IsWord chars) :
    ∃ name : Identifier, name.text = String.ofList chars :=
  ⟨⟨String.ofList chars, isIdentifier_iff.2 (by rwa [String.toList_ofList])⟩, rfl⟩

/-- The length of an identifier counts its bytes as well. -/
theorem utf8ByteSize_text (name : Identifier) : name.text.utf8ByteSize = name.length := by
  rw [utf8ByteSize_eq_utf8Length, utf8Length_of_isWord name.isWord, String.length_toList]
  rfl

end Identifier

end FunctionSymbols
