import FunctionSymbols.Proofs.Scanning

/-!
# What is registered

A table that accepts entries looks up exactly these entries, in whatever order they came
(`lookup_ofList_eq_some_iff`), and the lengths that it keeps are the lengths of their lexemes
(`mem_lengths_ofList_iff`). An addition says this for one entry, and the others follow by induction.
-/

namespace FunctionSymbols

/-- In a list of entries with distinct lexemes, every entry is the one that is looked up. -/
theorem lookup_eq_some_iff_mem {α : Type} {lexeme : String} {value : α} {entries : List (String × α)}
    (distinct : (entries.map Prod.fst).Nodup) :
    entries.lookup lexeme = some value ↔ (lexeme, value) ∈ entries := by
  induction entries with
  | nil => simp
  | cons head rest ih =>
    obtain ⟨key, first⟩ := head
    obtain ⟨fresh, distinct⟩ := List.nodup_cons.1 distinct
    rw [lookup_cons_eq, List.mem_cons, Prod.mk.injEq]
    by_cases same : lexeme = key
    · subst same
      have absent : (lexeme, value) ∉ rest := fun member => fresh (List.mem_map.2 ⟨_, member, rfl⟩)
      simp [absent, eq_comm]
    · simp [same, ih distinct]

namespace LexemeMap

variable {α : Type} {map : LexemeMap α} {lexeme : String} {value : α}

/-- The entries of a map have distinct lexemes. -/
theorem distinct_entries (map : LexemeMap α) : (map.entries.map Prod.fst).Nodup := by
  rw [List.Nodup, List.pairwise_map]
  exact map.sorted.imp fun below => String.ne_of_lt below

theorem find?_eq_some_iff : map.find? lexeme = some value ↔ (lexeme, value) ∈ map.entries :=
  lookup_eq_some_iff_mem map.distinct_entries

theorem find?_ne_none_iff : map.find? lexeme ≠ none ↔ ∃ value, (lexeme, value) ∈ map.entries := by
  simp only [Option.ne_none_iff_exists', find?_eq_some_iff]

end LexemeMap

namespace TokenTable

variable {table grown : TokenTable} {lexeme other : String} {tag : Tag}
  {entries : List (String × Tag)}

/-- The entries of a table have distinct lexemes. -/
theorem distinct_toList (table : TokenTable) : (table.toList.map Prod.fst).Nodup :=
  table.entries.distinct_entries

/-- The entries of a table are what it looks up. -/
theorem mem_toList_iff : (lexeme, tag) ∈ table.toList ↔ table.lookup lexeme = some tag :=
  LexemeMap.find?_eq_some_iff.symm

/-- A lexeme is registered when the table has an entry for it. -/
theorem contains_iff_mem :
    table.contains lexeme = true ↔ lexeme ∈ table.toList.map Prod.fst := by
  rw [contains_iff, List.mem_map]
  constructor
  · rintro ⟨tag, registered⟩
    exact ⟨(lexeme, tag), mem_toList_iff.2 registered, rfl⟩
  · rintro ⟨⟨key, tag⟩, member, rfl⟩
    exact ⟨tag, mem_toList_iff.1 member⟩

/-- An addition is accepted when nothing is wrong with the entry, and it adds this entry. -/
theorem add_eq_ok_iff :
    table.add lexeme tag = .ok grown ↔
      ∃ nonempty unreserved fresh, grown = table.insert lexeme tag nonempty unreserved fresh := by
  unfold add
  constructor
  · intro accepted
    split at accepted
    · cases accepted
    · next nonempty =>
      split at accepted
      · next unreserved =>
        split at accepted
        · next fresh =>
          cases accepted
          exact ⟨nonempty, unreserved, fresh, rfl⟩
        · cases accepted
      · cases accepted
  · rintro ⟨nonempty, unreserved, fresh, rfl⟩
    rw [dif_neg nonempty, dif_pos unreserved, dif_pos fresh]

theorem lookup_add (accepted : table.add lexeme tag = .ok grown) (other : String) :
    grown.lookup other = if other = lexeme then some tag else table.lookup other := by
  obtain ⟨nonempty, unreserved, fresh, rfl⟩ := add_eq_ok_iff.1 accepted
  exact table.lookup_insert nonempty unreserved fresh other

/-- What is added was not registered before. -/
theorem lookup_eq_none_of_add (accepted : table.add lexeme tag = .ok grown) :
    table.lookup lexeme = none := by
  obtain ⟨-, -, fresh, -⟩ := add_eq_ok_iff.1 accepted
  exact fresh

theorem lookup_add_eq_some_iff (accepted : table.add lexeme tag = .ok grown) {found : Tag} :
    grown.lookup other = some found ↔
      table.lookup other = some found ∨ (other, found) = (lexeme, tag) := by
  rw [lookup_add accepted, Prod.mk.injEq]
  by_cases same : other = lexeme
  · rw [if_pos same, same, lookup_eq_none_of_add accepted]
    simp [eq_comm]
  · rw [if_neg same]
    simp [same]

/-- What is registered after additions was registered before or is one of the additions. -/
theorem lookup_addAll_eq_some_iff (accepted : table.addAll entries = .ok grown) {found : Tag} :
    grown.lookup other = some found ↔
      table.lookup other = some found ∨ (other, found) ∈ entries := by
  induction entries generalizing table with
  | nil =>
    cases accepted
    simp
  | cons entry rest ih =>
    obtain ⟨lexeme, tag⟩ := entry
    rw [addAll] at accepted
    split at accepted
    · next next added =>
      rw [ih accepted, lookup_add_eq_some_iff added, List.mem_cons, or_assoc]
    · cases accepted

/-- A table of entries looks up these entries. -/
theorem lookup_ofList_eq_some_iff (accepted : ofList entries = .ok table) {found : Tag} :
    table.lookup other = some found ↔ (other, found) ∈ entries := by
  rw [lookup_addAll_eq_some_iff accepted]
  simp

/-- The lengths of a table are those of the lexemes that it looks up. -/
theorem mem_lengths_iff_lookup {n : Nat} :
    n ∈ table.lengths ↔ ∃ lexeme tag, table.lookup lexeme = some tag ∧ lexeme.length = n := by
  constructor
  · intro member
    obtain ⟨⟨lexeme, tag⟩, listed, length⟩ := (table.mem_lengths_iff n).1 member
    exact ⟨lexeme, tag, mem_toList_iff.1 listed, length⟩
  · rintro ⟨lexeme, tag, registered, rfl⟩
    exact length_mem_lengths (contains_of_lookup registered)

theorem mem_lengths_ofList_iff (accepted : ofList entries = .ok table) {n : Nat} :
    n ∈ table.lengths ↔ ∃ entry ∈ entries, entry.1.length = n := by
  rw [mem_lengths_iff_lookup]
  constructor
  · rintro ⟨lexeme, tag, registered, length⟩
    exact ⟨(lexeme, tag), (lookup_ofList_eq_some_iff accepted).1 registered, length⟩
  · rintro ⟨⟨lexeme, tag⟩, member, length⟩
    exact ⟨lexeme, tag, (lookup_ofList_eq_some_iff accepted).2 member, length⟩

end TokenTable

/-- A language is made of the tables of its keywords and its punctuators. -/
theorem Language.ofEntries_eq_ok_iff {keywords punctuators : List (String × Tag)}
    {language : Language} :
    ofEntries keywords punctuators = .ok language ↔
      TokenTable.ofList keywords = .ok language.keywords ∧
        TokenTable.ofList punctuators = .ok language.punctuators := by
  unfold ofEntries
  cases TokenTable.ofList keywords with
  | error d => simp [bind, Except.bind]
  | ok first =>
    cases TokenTable.ofList punctuators with
    | error d => simp [bind, Except.bind]
    | ok second =>
      obtain ⟨words, signs⟩ := language
      simp [bind, Except.bind, pure, Except.pure]

end FunctionSymbols
