import FunctionSymbols.Proofs.IdentifierText

/-!
# Texts in the order of their bytes

Texts are compared character by character, by code points. Their bytes in UTF-8 are in the same order:
where two characters differ, the first byte in which their encodings differ is smaller for the smaller
character, whatever is written behind them (`Precedes`).
-/

namespace FunctionSymbols

/-- The bytes of a text in UTF-8. -/
def utf8Bytes (text : String) : List UInt8 := text.toByteArray.data.toList

/-- The lists differ at some place, and the first such place has the smaller byte in the first list. -/
def Precedes : List UInt8 → List UInt8 → Prop
  | a :: as, b :: bs => a < b ∨ a = b ∧ Precedes as bs
  | _, _ => False

theorem Precedes.append_lt {as bs : List UInt8} (precedes : Precedes as bs) (as' bs' : List UInt8) :
    as ++ as' < bs ++ bs' := by
  induction as generalizing bs with
  | nil => exact precedes.elim
  | cons a as ih =>
    cases bs with
    | nil => exact precedes.elim
    | cons b bs =>
      rw [List.cons_append, List.cons_append, List.cons_lt_cons_iff]
      exact precedes.imp_right fun ⟨same, rest⟩ => ⟨same, ih rest⟩

/-- Longer encodings have greater first bytes, and encodings of one length write the code point digit by
digit in base 64, the highest digit first. -/
theorem precedes_utf8EncodeChar {c d : Char} (less : c < d) :
    Precedes (String.utf8EncodeChar c) (String.utf8EncodeChar d) := by
  have order : c.val.toNat < d.val.toNat := UInt32.lt_iff_toNat_lt.1 (Char.lt_def.1 less)
  have bound : d.val.toNat < 0x110000 := by
    have valid := d.valid
    simp only [UInt32.isValidChar, Nat.isValidChar] at valid
    omega
  have third : ∀ k, k / 4096 = k / 64 / 64 := by omega
  have fourth : ∀ k, k / 262144 = k / 64 / 64 / 64 := by omega
  unfold String.utf8EncodeChar
  generalize c.val.toNat = m at order
  generalize d.val.toNat = n at order bound
  dsimp only
  split_ifs <;>
    simp only [Precedes, UInt8.lt_iff_toNat_lt, ← UInt8.toNat_inj, UInt8.toNat_ofNat', or_false,
      and_false, third, fourth] <;>
    omega

theorem flatMap_utf8EncodeChar_lt {as bs : List Char} (less : as < bs) :
    as.flatMap String.utf8EncodeChar < bs.flatMap String.utf8EncodeChar := by
  induction as generalizing bs with
  | nil =>
    cases bs with
    | nil => exact absurd less (List.lt_irrefl [])
    | cons d bs =>
      obtain ⟨b, more, encode, -⟩ := exists_utf8EncodeChar_eq d
      rw [List.flatMap_cons, encode]
      exact List.nil_lt_cons b _
  | cons c as ih =>
    cases bs with
    | nil => cases less
    | cons d bs =>
      rw [List.flatMap_cons, List.flatMap_cons]
      rcases List.cons_lt_cons_iff.1 less with first | ⟨rfl, behind⟩
      · exact (precedes_utf8EncodeChar first).append_lt _ _
      · exact List.append_left_lt (ih behind)

/-- The order of texts is the order of their bytes. -/
theorem utf8Bytes_le_iff {a b : String} : utf8Bytes a ≤ utf8Bytes b ↔ a ≤ b := by
  have encode : ∀ text, utf8Bytes text = text.toList.flatMap String.utf8EncodeChar :=
    toList_data_toByteArray
  constructor
  · intro below
    rw [← String.not_lt]
    intro less
    rw [encode, encode] at below
    exact List.not_lt.2 below (flatMap_utf8EncodeChar_lt less)
  · intro below
    by_cases same : a = b
    · subst same
      exact List.le_refl _
    · have less : a < b := by
        by_contra above
        exact same (String.le_antisymm below (String.not_lt.1 above))
      rw [encode, encode]
      exact List.le_of_lt (flatMap_utf8EncodeChar_lt less)

end FunctionSymbols
