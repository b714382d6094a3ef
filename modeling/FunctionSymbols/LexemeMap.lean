/-!
# Finite maps on lexemes

A finite map from lexemes to values as a list that is strictly ascending by lexeme, so that a map has
one representation and `==` on maps is equality of their lookups. The order of strings is that of
their code points, which is also the order of their UTF-8 bytes.
-/

namespace FunctionSymbols

/-- Puts an entry in front of the first one with a greater or equal lexeme. -/
def insertEntry {α : Type} (lexeme : String) (value : α) :
    List (String × α) → List (String × α)
  | [] => [(lexeme, value)]
  | e :: rest =>
    if e.1 < lexeme then e :: insertEntry lexeme value rest else (lexeme, value) :: e :: rest

section

variable {α : Type} {lexeme : String} {value : α} {entries : List (String × α)}

theorem mem_insertEntry {e : String × α} :
    e ∈ insertEntry lexeme value entries ↔ e = (lexeme, value) ∨ e ∈ entries := by
  induction entries with
  | nil => simp [insertEntry]
  | cons head rest ih =>
    unfold insertEntry
    split
    · simp [ih, or_left_comm]
    · simp

theorem lookup_cons_eq (key lexeme : String) (value : α) (entries : List (String × α)) :
    ((key, value) :: entries).lookup lexeme =
      if lexeme = key then some value else entries.lookup lexeme := by
  rw [List.lookup_cons]
  by_cases h : lexeme = key
  · simp [h]
  · simp [h, beq_eq_false_iff_ne.2 h]

theorem lookup_insertEntry (h : entries.lookup lexeme = none) (other : String) :
    (insertEntry lexeme value entries).lookup other =
      if other = lexeme then some value else entries.lookup other := by
  induction entries with
  | nil => exact lookup_cons_eq lexeme other value []
  | cons head rest ih =>
    obtain ⟨key, old⟩ := head
    rw [lookup_cons_eq] at h
    split at h
    · cases h
    · next hne =>
      unfold insertEntry
      split
      · rw [lookup_cons_eq, lookup_cons_eq, ih h]
        by_cases ho : other = lexeme
        · subst ho
          simp [hne]
        · simp [ho]
      · exact lookup_cons_eq lexeme other value _

theorem pairwise_insertEntry (sorted : entries.Pairwise fun a b => a.1 < b.1)
    (h : entries.lookup lexeme = none) :
    (insertEntry lexeme value entries).Pairwise fun a b => a.1 < b.1 := by
  induction entries with
  | nil => simp [insertEntry]
  | cons head rest ih =>
    obtain ⟨key, old⟩ := head
    rw [lookup_cons_eq] at h
    split at h
    · cases h
    · next hne =>
      obtain ⟨hhead, hrest⟩ := List.pairwise_cons.1 sorted
      unfold insertEntry
      split
      · next hlt =>
        refine List.pairwise_cons.2 ⟨fun e he => ?_, ih hrest h⟩
        rcases mem_insertEntry.1 he with rfl | he
        · exact hlt
        · exact hhead e he
      · next hlt =>
        have hlex : lexeme < key := by
          by_cases h' : lexeme < key
          · exact h'
          · exact absurd (String.le_antisymm (String.not_lt.1 hlt) (String.not_lt.1 h')) hne
        refine List.pairwise_cons.2 ⟨fun e he => ?_, sorted⟩
        rcases List.mem_cons.1 he with rfl | he
        · exact hlex
        · exact String.lt_trans hlex (hhead e he)

end

/-- A finite map from lexemes to values. -/
structure LexemeMap (α : Type) where
  entries : List (String × α)
  sorted : entries.Pairwise fun a b => a.1 < b.1
deriving DecidableEq

namespace LexemeMap

variable {α : Type}

/-- The map without entries. -/
def empty : LexemeMap α := ⟨[], .nil⟩

instance : Inhabited (LexemeMap α) := ⟨empty⟩

/-- The value of a lexeme. -/
def find? (map : LexemeMap α) (lexeme : String) : Option α := map.entries.lookup lexeme

/-- The map with one more entry, for a lexeme that has none yet. -/
def insert (map : LexemeMap α) (lexeme : String) (value : α) (fresh : map.find? lexeme = none) :
    LexemeMap α :=
  ⟨insertEntry lexeme value map.entries, pairwise_insertEntry map.sorted fresh⟩

/-- The map with one more entry, unless the lexeme has one already. -/
def insert? (map : LexemeMap α) (lexeme : String) (value : α) : Option (LexemeMap α) :=
  if fresh : map.find? lexeme = none then some (map.insert lexeme value fresh) else none

@[simp] theorem find?_empty (lexeme : String) : (empty : LexemeMap α).find? lexeme = none := rfl

theorem find?_insert (map : LexemeMap α) {lexeme : String} {value : α}
    (fresh : map.find? lexeme = none) (other : String) :
    (map.insert lexeme value fresh).find? other =
      if other = lexeme then some value else map.find? other :=
  lookup_insertEntry fresh other

theorem mem_entries_insert (map : LexemeMap α) {lexeme : String} {value : α}
    (fresh : map.find? lexeme = none) {e : String × α} :
    e ∈ (map.insert lexeme value fresh).entries ↔ e = (lexeme, value) ∨ e ∈ map.entries :=
  mem_insertEntry

end LexemeMap

end FunctionSymbols
