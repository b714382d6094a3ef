import FunctionSymbols.Proofs.RegistrationRun
import Mathlib.Data.List.Sort

/-!
# The order of entries

A table keeps no trace of the order in which its entries came. They are sorted by their lexemes, and the
lengths are sorted as well, so both lists are determined by their members and the table by what it looks
up (`eq_of_lookup_eq`). Whether a list of entries is accepted depends on its members too: only which of
several faults is reported first depends on the order.
-/

namespace FunctionSymbols

namespace TokenTable

variable {table grown other : TokenTable} {known entries : List (String × Tag)}
  {call : String × Tag}

/-! ## Tables with the same lookups -/

/-- A table has one entry for each lexeme that it looks up, and its lengths are those of these lexemes. -/
theorem eq_of_lookup_eq (same : ∀ lexeme, table.lookup lexeme = other.lookup lexeme) :
    table = other := by
  have members : ∀ entry, entry ∈ table.toList ↔ entry ∈ other.toList := by
    rintro ⟨lexeme, tag⟩
    rw [mem_toList_iff, mem_toList_iff, same]
  have entries : table.toList = other.toList := by
    have irrefl : Std.Irrefl fun a b : String × Tag => a.1 < b.1 := ⟨fun a => String.lt_irrefl a.1⟩
    have asymm : Std.Asymm fun a b : String × Tag => a.1 < b.1 := ⟨fun a b => String.lt_asymm⟩
    exact table.entries.sorted.eq_of_mem_iff other.entries.sorted members
  have lengths : table.lengths = other.lengths := by
    apply table.lengths_descending.eq_of_mem_iff other.lengths_descending
    intro n
    rw [mem_lengths_iff_lookup, mem_lengths_iff_lookup]
    simp only [same]
  obtain ⟨⟨_, _⟩, _, _, _, _, _⟩ := table
  obtain ⟨⟨_, _⟩, _, _, _, _, _⟩ := other
  dsimp only [toList] at entries lengths
  subst entries lengths
  rfl

theorem eq_iff_lookup_eq :
    table = other ↔ ∀ lexeme, table.lookup lexeme = other.lookup lexeme :=
  ⟨fun same _ => same ▸ rfl, eq_of_lookup_eq⟩

/-! ## Lists of entries that are accepted -/

/-- Nothing is wrong with any of the entries, in whatever order they come. -/
structure Acceptable (entries : List (String × Tag)) : Prop where
  lexeme_ne_empty : ∀ entry ∈ entries, entry.1 ≠ ""
  tag_not_mem : ∀ entry ∈ entries, entry.2 ∉ [Tag.eof, .unknown, .identifier]
  distinct : (entries.map Prod.fst).Nodup

theorem Acceptable.perm {entries' : List (String × Tag)} (acceptable : Acceptable entries)
    (same : entries.Perm entries') : Acceptable entries' := by
  constructor
  · intro entry member
    exact acceptable.lexeme_ne_empty entry (same.mem_iff.2 member)
  · intro entry member
    exact acceptable.tag_not_mem entry (same.mem_iff.2 member)
  · exact (same.map Prod.fst).nodup_iff.1 acceptable.distinct

theorem Represents.acceptable (represents : table.Represents known) : Acceptable known :=
  ⟨represents.lexeme_ne_empty, represents.tag_not_mem, represents.distinct⟩

/-- An entry is accepted behind the others of a list with which nothing is wrong. -/
theorem Acceptable.verdict_eq {rest : List (String × Tag)}
    (acceptable : Acceptable (known ++ call :: rest)) : verdict known call = .ok () := by
  have member : call ∈ known ++ call :: rest := List.mem_append_right _ List.mem_cons_self
  have fresh : call.1 ∉ known.map Prod.fst := by
    have distinct := acceptable.distinct
    rw [List.map_append, List.map_cons] at distinct
    obtain ⟨-, -, apart⟩ := List.nodup_append.1 distinct
    exact fun registered => apart _ registered _ List.mem_cons_self rfl
  rw [verdict, if_neg (acceptable.lexeme_ne_empty call member),
    if_neg (acceptable.tag_not_mem call member), if_neg fresh]

/-- An entry that is added is put behind those before. -/
theorem Represents.add (represents : table.Represents known)
    (added : table.add call.1 call.2 = .ok grown) : grown.Represents (known ++ [call]) := by
  have registered : table.register call = (.ok (), grown) := by rw [register, added]
  have answer : verdict known call = .ok () := by
    rw [← represents.register_fst call, registered]
  have behind := represents.register_of_accepted answer
  rwa [registered] at behind

theorem Represents.exists_add (represents : table.Represents known)
    (answer : verdict known call = .ok ()) : ∃ grown, table.add call.1 call.2 = .ok grown := by
  rw [← represents.register_fst call, register] at answer
  cases added : table.add call.1 call.2 with
  | error d =>
    rw [added] at answer
    cases answer
  | ok grown => exact ⟨grown, rfl⟩

theorem Represents.addAll (represents : table.Represents known)
    (accepted : table.addAll entries = .ok grown) : grown.Represents (known ++ entries) := by
  induction entries generalizing table known with
  | nil =>
    cases accepted
    rwa [List.append_nil]
  | cons call rest ih =>
    rw [TokenTable.addAll] at accepted
    split at accepted
    · next next added =>
      have more := ih (represents.add added) accepted
      rwa [List.append_assoc] at more
    · cases accepted

theorem Represents.exists_addAll (represents : table.Represents known)
    (acceptable : Acceptable (known ++ entries)) : ∃ grown, table.addAll entries = .ok grown := by
  induction entries generalizing table known with
  | nil => exact ⟨table, rfl⟩
  | cons call rest ih =>
    obtain ⟨next, added⟩ := represents.exists_add acceptable.verdict_eq
    have behind := represents.add added
    rw [TokenTable.addAll, added]
    apply ih behind
    rwa [List.append_assoc]

theorem represents_empty : empty.Represents [] := represents_of_perm .nil

theorem represents_ofList (accepted : ofList entries = .ok table) : table.Represents entries :=
  represents_empty.addAll accepted

/-- A list of entries is accepted exactly if nothing is wrong with any of them. -/
theorem exists_ofList_iff : (∃ table, ofList entries = .ok table) ↔ Acceptable entries := by
  constructor
  · rintro ⟨table, accepted⟩
    exact (represents_ofList accepted).acceptable
  · exact represents_empty.exists_addAll

theorem ofList_of_perm {entries' : List (String × Tag)} (same : entries.Perm entries')
    (accepted : ofList entries = .ok table) : ofList entries' = .ok table := by
  have acceptable := exists_ofList_iff.1 ⟨table, accepted⟩
  obtain ⟨other, accepted'⟩ := exists_ofList_iff.2 (acceptable.perm same)
  suffices equal : table = other by rw [equal, accepted']
  apply eq_of_lookup_eq
  intro lexeme
  apply Option.ext
  intro tag
  rw [lookup_ofList_eq_some_iff accepted, lookup_ofList_eq_some_iff accepted', same.mem_iff]

/-- **The order of entries is of no effect.** Entries in one order make a table exactly if they make this
table in any other order, with its lengths; and they do if no lexeme is empty or occurs twice and no tag is
one of the lexer's own. Whatever calls two tables went through, accepted or not, the tables are equal, their
lengths included, exactly if they look up the same. -/
theorem ofList_eq_of_perm (entries entries' : List (String × Tag)) (same : entries.Perm entries') :
    (∀ table, ofList entries = .ok table ↔ ofList entries' = .ok table) ∧
    ((∃ table, ofList entries = .ok table) ↔ Acceptable entries) ∧
    ∀ calls calls',
      let table := (empty.registerAll calls).2
      let table' := (empty.registerAll calls').2
      (table = table' ↔ table.toList = table'.toList ∧ table.lengths = table'.lengths) ∧
      (table = table' ↔ ∀ lexeme, table.lookup lexeme = table'.lookup lexeme) := by
  refine ⟨fun table => ⟨ofList_of_perm same, ofList_of_perm same.symm⟩, exists_ofList_iff, ?_⟩
  intro calls calls' table table'
  refine ⟨⟨fun equal => equal ▸ ⟨rfl, rfl⟩, ?_⟩, eq_iff_lookup_eq⟩
  rintro ⟨listed, -⟩
  apply eq_of_lookup_eq
  intro lexeme
  apply Option.ext
  intro tag
  rw [← mem_toList_iff, ← mem_toList_iff, listed]

theorem ofList_eq_of_perm_arrows :
    let entries : List (String × Tag) := [("<", ⟨17⟩), ("<<", ⟨18⟩), ("→", ⟨19⟩)]
    let entries' : List (String × Tag) := [("→", ⟨19⟩), ("<", ⟨17⟩), ("<<", ⟨18⟩)]
    let table := (ofList entries).toOption.get (by decide)
    entries.Perm entries' ∧ ofList entries = .ok table ∧ ofList entries' = .ok table := by
  intro entries entries' table
  have same : entries.Perm entries' := by decide
  have accepted : ofList entries = .ok table := by decide +kernel
  obtain ⟨both, -, -⟩ := ofList_eq_of_perm entries entries' same
  exact ⟨same, accepted, (both table).1 accepted⟩

/-- The order decides which of two faults is reported. -/
example :
    ofList [("", ⟨17⟩), ("<", .eof)] = .error .emptyLexeme ∧
    ofList [("<", .eof), ("", ⟨17⟩)] = .error (.reservedTag "<" .eof) := by decide

end TokenTable

end FunctionSymbols
