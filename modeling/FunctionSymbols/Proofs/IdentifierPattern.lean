import Mathlib.Computability.RegularExpressions
import FunctionSymbols.Proofs.IdentifierText

/-!
# The pattern of identifiers

`[_a-zA-Z][_a-zA-Z0-9]*` as a regular expression over characters, which knows neither of bytes nor of a
scan. It matches the words (`mem_identifierPattern_iff`), and the number that the scan over bytes returns
measures the longest of them in front of a text (`exists_leadingMatch`). So a comparison of this number
with the size of the text decides whether the whole of it matches.
-/

namespace FunctionSymbols

/-- One character of a class. -/
def oneOf : List Char → RegularExpression Char
  | [] => 0
  | c :: rest => .char c + oneOf rest

/-- `[_a-zA-Z]` -/
def startClass : List Char := '_' :: (('a' ...= 'z').toList ++ ('A' ...= 'Z').toList)

/-- `[_a-zA-Z0-9]` -/
def continueClass : List Char := startClass ++ ('0' ...= '9').toList

/-- `[_a-zA-Z][_a-zA-Z0-9]*` -/
def identifierPattern : RegularExpression Char := oneOf startClass * .star (oneOf continueClass)

/-- What a pattern takes off the front of a text: the longest prefix that it matches, and nothing if it
matches no prefix. -/
inductive LeadingMatch (pattern : RegularExpression Char) (text : List Char) : List Char → Prop where
  | longest {front : List Char} (begins : front <+: text) (matched : front ∈ pattern.matches')
      (longest : ∀ other, other <+: text → other ∈ pattern.matches' → other.length ≤ front.length) :
      LeadingMatch pattern text front
  | none (unmatched : ∀ other, other <+: text → other ∉ pattern.matches') :
      LeadingMatch pattern text []

theorem LeadingMatch.unique {pattern : RegularExpression Char} {text front other : List Char}
    (found : LeadingMatch pattern text front) (again : LeadingMatch pattern text other) :
    front = other := by
  cases found with
  | longest begins matched longest =>
    cases again with
    | longest begins' matched' longest' =>
      have short := List.prefix_of_prefix_length_le begins begins' (longest' _ begins matched)
      exact short.eq_of_length_le (longest _ begins' matched')
    | none unmatched => exact absurd matched (unmatched _ begins)
  | none unmatched =>
    cases again with
    | longest begins matched _ => exact absurd matched (unmatched _ begins)
    | none _ => rfl

/-! ## Classes -/

variable {cs chars : List Char} {c : Char}

theorem mem_oneOf_iff : chars ∈ (oneOf cs).matches' ↔ ∃ c ∈ cs, chars = [c] := by
  induction cs with
  | nil => simp [oneOf]
  | cons d rest ih =>
    have head : chars ∈ (RegularExpression.char d).matches' ↔ chars = [d] := Iff.rfl
    rw [oneOf, RegularExpression.matches'_add, Language.mem_add, head, ih, List.exists_mem_cons_iff]

/-- Repeating a class takes all lists of its members, one character at a time. -/
theorem mem_star_oneOf_iff : chars ∈ (oneOf cs).star.matches' ↔ ∀ c ∈ chars, c ∈ cs := by
  rw [RegularExpression.matches'_star, Language.mem_kstar]
  constructor
  · rintro ⟨parts, rfl, members⟩ c inside
    obtain ⟨part, member, inside⟩ := List.mem_flatten.1 inside
    obtain ⟨d, listed, rfl⟩ := mem_oneOf_iff.1 (members part member)
    rw [List.mem_singleton.1 inside]
    exact listed
  · intro members
    refine ⟨chars.map ([·]), (List.flatMap_singleton' chars).symm, ?_⟩
    intro part member
    obtain ⟨c, inside, rfl⟩ := List.mem_map.1 member
    exact mem_oneOf_iff.2 ⟨c, members c inside, rfl⟩

theorem mem_charRange_iff {first last : Char} :
    c ∈ (first ...= last).toList ↔ first.toNat ≤ c.toNat ∧ c.toNat ≤ last.toNat := by
  rw [Std.Rcc.mem_toList_iff_mem, Std.Rcc.mem_iff]
  rfl

theorem mem_startClass_iff : c ∈ startClass ↔ isStartChar c = true := by
  have underscore : c = '_' ↔ c.toNat = 0x5F := Char.toNat_inj.symm
  rw [startClass, List.mem_cons, List.mem_append, mem_charRange_iff, mem_charRange_iff, underscore,
    isStartChar_iff]
  exact or_congr_right or_comm

theorem mem_continueClass_iff : c ∈ continueClass ↔ isContinueChar c = true := by
  rw [continueClass, List.mem_append, mem_startClass_iff, mem_charRange_iff, isContinueChar_iff]
  rfl

/-- The pattern matches the words. -/
theorem mem_identifierPattern_iff : chars ∈ identifierPattern.matches' ↔ IsWord chars := by
  rw [identifierPattern, RegularExpression.matches'_mul, Language.mem_mul]
  constructor
  · rintro ⟨first, opening, rest, following, rfl⟩
    obtain ⟨c, listed, rfl⟩ := mem_oneOf_iff.1 opening
    exact ⟨mem_startClass_iff.1 listed,
      fun d inside => mem_continueClass_iff.1 (mem_star_oneOf_iff.1 following d inside)⟩
  · intro word
    cases chars with
    | nil => exact word.elim
    | cons c rest =>
      exact ⟨[c], mem_oneOf_iff.2 ⟨c, mem_startClass_iff.2 word.1, rfl⟩, rest,
        mem_star_oneOf_iff.2 fun d inside => mem_continueClass_iff.2 (word.2 d inside), rfl⟩

/-! ## The scan -/

theorem IsWord.length_le_wordLength {front : List Char} (word : IsWord front)
    (begins : front <+: chars) : front.length ≤ wordLength chars := by
  obtain ⟨rest, rfl⟩ := begins
  cases front with
  | nil => exact word.elim
  | cons c front =>
    rw [List.cons_append, wordLength_of_isStartChar word.1, List.takeWhile_append_of_pos word.2,
      List.length_cons, List.length_cons, List.length_append]
    omega

/-- A scan that does not return 0 has measured a word. -/
theorem exists_prefix_of_wordLength (found : wordLength chars ≠ 0) :
    ∃ word, word <+: chars ∧ IsWord word ∧ word.length = wordLength chars := by
  cases chars with
  | nil => exact absurd rfl found
  | cons c rest =>
    by_cases start : isStartChar c = true
    · refine ⟨c :: rest.takeWhile isContinueChar, ?_, isWord_cons_takeWhile start rest,
        (wordLength_of_isStartChar start rest).symm⟩
      exact List.cons_prefix_cons.2 ⟨rfl, List.takeWhile_prefix _⟩
    · rw [wordLength, if_neg start] at found
      exact absurd rfl found

/-- What the pattern takes off the front has as many characters as the scan returns, and as many bytes. -/
theorem exists_leadingMatch (chars : List Char) :
    ∃ word, word <+: chars ∧ LeadingMatch identifierPattern chars word ∧
      word.length = wordLength chars ∧ utf8Length word = wordLength chars := by
  have short : ∀ other, other <+: chars → other ∈ identifierPattern.matches' →
      IsWord other ∧ other.length ≤ wordLength chars := by
    intro other begins matched
    have word := mem_identifierPattern_iff.1 matched
    exact ⟨word, word.length_le_wordLength begins⟩
  by_cases none : wordLength chars = 0
  · refine ⟨[], List.nil_prefix, .none ?_, none.symm, none.symm⟩
    intro other begins matched
    obtain ⟨word, empty⟩ := short other begins matched
    rw [none, Nat.le_zero, List.length_eq_zero_iff] at empty
    rw [empty] at word
    exact word
  · obtain ⟨word, begins, isWord, length⟩ := exists_prefix_of_wordLength none
    refine ⟨word, begins, .longest begins (mem_identifierPattern_iff.2 isWord) ?_, length, ?_⟩
    · intro other begins matched
      rw [length]
      exact (short other begins matched).2
    · rw [utf8Length_of_isWord isWord, length]

/-- **The byte scan decides the pattern.** In every text, the scan over bytes returns the number of
characters, and also the number of bytes, of the longest prefix that matches `[_a-zA-Z][_a-zA-Z0-9]*`, and
0 if none does. So a character begins at this byte, or the text ends there. A text becomes an identifier,
which keeps it unchanged, exactly if the whole of it matches; any other is reported as it is. -/
theorem Identifier.scan_decides_pattern (text : String) :
    let length := identifierPrefixLength text
    (∃ word rest : String, text = word ++ rest ∧ word.length = length ∧ word.utf8ByteSize = length ∧
      ∀ front, LeadingMatch identifierPattern text.toList front ↔ front = word.toList) ∧
    String.Pos.Raw.IsValid text ⟨length⟩ ∧
    ((∃ name, ofString text = .ok name ∧ name.text = text) ↔
      text.toList ∈ identifierPattern.matches') ∧
    (ofString text = .error (.invalidIdentifier text) ↔
      text.toList ∉ identifierPattern.matches') := by
  intro length
  obtain ⟨word, ⟨rest, split⟩, leading, characters, bytes⟩ := exists_leadingMatch text.toList
  have text_eq : text = String.ofList word ++ String.ofList rest := by
    rw [← String.ofList_append, split, String.ofList_toList]
  have size : (String.ofList word).utf8ByteSize = length := by
    rw [utf8ByteSize_eq_utf8Length, String.toList_ofList, bytes, ← identifierPrefixLength_eq]
  refine ⟨⟨String.ofList word, String.ofList rest, text_eq, ?_, size, fun front => ?_⟩, ?_, ?_, ?_⟩
  · rw [String.length_ofList, characters, ← identifierPrefixLength_eq]
  · rw [String.toList_ofList]
    exact ⟨fun found => found.unique leading, fun same => same ▸ leading⟩
  · exact String.Pos.Raw.isValid_iff_exists_append.2
      ⟨_, _, text_eq, congrArg String.Pos.Raw.mk size.symm⟩
  · rw [mem_identifierPattern_iff, ← isIdentifier_iff]
    constructor
    · rintro ⟨name, -, rfl⟩
      exact name.isIdentifier
    · intro identifier
      exact ⟨⟨text, identifier⟩, ofString_eq_ok_iff.2 rfl, rfl⟩
  · rw [mem_identifierPattern_iff, ← isIdentifier_iff, ofString_eq_error_iff]
    exact and_iff_left rfl

/-- A letter with an accent is two bytes, and neither is one of the word in front of it. -/
example : identifierPrefixLength "_1é" = 2 := by decide +kernel

end FunctionSymbols
