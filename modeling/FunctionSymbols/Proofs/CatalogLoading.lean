import FunctionSymbols.Proofs.ByteOrder
import FunctionSymbols.Proofs.EntryOrder

/-!
# What becomes of a catalog

A catalog is a finite map for each of its two tables, and the entries of a map go into a table in the
order of their lexemes. So the empty lexeme comes before all others, the first entry whose tag is one of
the lexer's own is the one with the smallest lexeme, and no lexeme comes twice (`SectionOutcome`). The
keywords are entered first, and the punctuators do not see them (`LoadOutcome`).
-/

namespace FunctionSymbols

/-! ## The first entry that is refused -/

namespace TokenTable

variable {table : TokenTable} {known entries : List (String × Tag)} {call : String × Tag}
  {d : Diagnostic}

theorem Represents.add_eq_error_iff (represents : table.Represents known) :
    table.add call.1 call.2 = .error d ↔ verdict known call = .error d := by
  rw [← represents.register_fst call, register]
  cases table.add call.1 call.2 <;> simp

/-- Entries are refused for the first one that is refused behind those in front of it. -/
theorem addAll_eq_error_iff :
    table.addAll entries = .error d ↔
      ∃ front call back grown, entries = front ++ call :: back ∧
        table.addAll front = .ok grown ∧ grown.add call.1 call.2 = .error d := by
  induction entries generalizing table with
  | nil => simp [addAll]
  | cons entry rest ih =>
    rw [addAll]
    constructor
    · intro refused
      split at refused
      · next next added =>
        obtain ⟨front, call, back, grown, rfl, accepted, last⟩ := ih.1 refused
        refine ⟨entry :: front, call, back, grown, rfl, ?_, last⟩
        rw [addAll, added]
        exact accepted
      · next other added =>
        cases refused
        exact ⟨[], entry, rest, table, rfl, rfl, added⟩
    · rintro ⟨front, call, back, grown, split, accepted, last⟩
      cases front with
      | nil =>
        obtain ⟨rfl, rfl⟩ := List.cons.inj split
        cases accepted
        rw [last]
      | cons first front =>
        obtain ⟨rfl, rfl⟩ := List.cons.inj split
        rw [addAll] at accepted
        cases added : table.add entry.1 entry.2 with
        | error other =>
          rw [added] at accepted
          cases accepted
        | ok next =>
          rw [added] at accepted
          exact ih.2 ⟨front, call, back, grown, rfl, accepted, last⟩

/-- A list of entries is refused for the first one with which something is wrong, and for what is
wrong with it. -/
theorem ofList_eq_error_iff :
    ofList entries = .error d ↔
      ∃ front call back, entries = front ++ call :: back ∧ Acceptable front ∧
        verdict front call = .error d := by
  rw [ofList, addAll_eq_error_iff]
  constructor
  · rintro ⟨front, call, back, grown, split, accepted, refused⟩
    have represents := represents_ofList accepted
    exact ⟨front, call, back, split, represents.acceptable, represents.add_eq_error_iff.1 refused⟩
  · rintro ⟨front, call, back, split, acceptable, refused⟩
    obtain ⟨grown, accepted⟩ := exists_ofList_iff.2 acceptable
    exact ⟨front, call, back, grown, split, accepted,
      (represents_ofList accepted).add_eq_error_iff.2 refused⟩

end TokenTable

/-! ## One table of a catalog -/

/-- What the numbers of one table lead to. -/
inductive SectionOutcome (entries : LexemeMap UInt32) : Except Diagnostic TokenTable → Prop where
  /-- The empty lexeme is refused before anything else. -/
  | emptyLexeme (listed : entries.find? "" ≠ none) : SectionOutcome entries (.error .emptyLexeme)
  /-- Then the lexeme with a number of the lexer's own that is the first in the order of bytes. -/
  | reservedTag {lexeme : String} {n : UInt32} (nonempty : entries.find? "" = none)
      (listed : entries.find? lexeme = some n) (own : n ∈ [0, 1, 2])
      (first : ∀ other m, entries.find? other = some m → m ∈ [0, 1, 2] →
        utf8Bytes lexeme ≤ utf8Bytes other) :
      SectionOutcome entries (.error (.reservedTag lexeme ⟨n⟩))
  /-- Otherwise the table looks up what the map does, and has the lengths of its lexemes. -/
  | table {table : TokenTable} (nonempty : entries.find? "" = none)
      (unreserved : ∀ lexeme n, entries.find? lexeme = some n → n ∉ [0, 1, 2])
      (lookup_eq : ∀ lexeme, table.lookup lexeme = (entries.find? lexeme).map Tag.mk)
      (descending : table.lengths.Pairwise (· > ·))
      (mem_lengths_iff : ∀ n, n ∈ table.lengths ↔
        ∃ lexeme, entries.find? lexeme ≠ none ∧ lexeme.length = n) :
      SectionOutcome entries (.ok table)

namespace SectionOutcome

variable {entries : LexemeMap UInt32} {outcome outcome' : Except Diagnostic TokenTable}

/-- A map leads to one thing only. -/
theorem unique (one : SectionOutcome entries outcome) (other : SectionOutcome entries outcome') :
    outcome = outcome' := by
  cases one with
  | emptyLexeme listed =>
    cases other with
    | emptyLexeme _ => rfl
    | reservedTag nonempty _ _ _ => exact absurd nonempty listed
    | table nonempty _ _ _ _ => exact absurd nonempty listed
  | @reservedTag lexeme n nonempty listed own first =>
    cases other with
    | emptyLexeme empty => exact absurd nonempty empty
    | @reservedTag lexeme' n' _ listed' own' first' =>
      have below := utf8Bytes_le_iff.1 (first _ _ listed' own')
      have above := utf8Bytes_le_iff.1 (first' _ _ listed own)
      obtain rfl := String.le_antisymm below above
      rw [Option.some.inj (listed.symm.trans listed')]
    | table _ unreserved _ _ _ => exact absurd own (unreserved _ _ listed)
  | table nonempty unreserved lookup_eq _ _ =>
    cases other with
    | emptyLexeme empty => exact absurd nonempty empty
    | reservedTag _ listed own _ => exact absurd own (unreserved _ _ listed)
    | table _ _ lookup_eq' _ _ =>
      congr 1
      apply TokenTable.eq_of_lookup_eq
      intro lexeme
      rw [lookup_eq, lookup_eq']

end SectionOutcome

/-- The lexer's own tags are the numbers up to 2. -/
theorem mem_reserved_iff {n : UInt32} :
    (⟨n⟩ : Tag) ∈ [Tag.eof, .unknown, .identifier] ↔ n ∈ [0, 1, 2] := by
  simp only [List.mem_cons, List.not_mem_nil, or_false, Tag.eof, Tag.unknown, Tag.identifier,
    Tag.mk.injEq]

section

variable {entries : LexemeMap UInt32} {front back : List (String × UInt32)} {lexeme : String}
  {n : UInt32}

/-- An entry comes in front of those with greater lexemes and behind no other. -/
theorem LexemeMap.cases_of_split (split : entries.entries = front ++ (lexeme, n) :: back)
    {other : String} {m : UInt32} (found : entries.find? other = some m) :
    (other, m) ∈ front ∨ (other, m) = (lexeme, n) ∨ lexeme < other := by
  have sorted := entries.sorted
  rw [split] at sorted
  obtain ⟨-, behind, -⟩ := List.pairwise_append.1 sorted
  obtain ⟨above, -⟩ := List.pairwise_cons.1 behind
  rw [LexemeMap.find?_eq_some_iff, split, List.mem_append, List.mem_cons] at found
  exact found.imp_right fun place => place.imp_right fun inBack => above _ inBack

/-- Behind entries with nothing wrong, the first number of the lexer's own has the smallest lexeme. -/
theorem SectionOutcome.reservedTag_of_split
    (split : entries.entries = front ++ (lexeme, n) :: back)
    (fine : ∀ e ∈ front, e.1 ≠ "" ∧ e.2 ∉ [0, 1, 2]) (nonempty : lexeme ≠ "") (own : n ∈ [0, 1, 2]) :
    SectionOutcome entries (.error (.reservedTag lexeme ⟨n⟩)) := by
  have listed : entries.find? lexeme = some n := by
    rw [LexemeMap.find?_eq_some_iff, split]
    exact List.mem_append_right _ List.mem_cons_self
  refine .reservedTag ?_ listed own fun other m found own' => ?_
  · apply Option.eq_none_iff_forall_ne_some.2
    intro m found
    rcases LexemeMap.cases_of_split split found with inFront | same | less
    · exact (fine _ inFront).1 rfl
    · exact nonempty (Prod.mk.inj same).1.symm
    · exact List.not_lt_nil lexeme.toList less
  · rw [utf8Bytes_le_iff]
    rcases LexemeMap.cases_of_split split found with inFront | same | less
    · exact absurd own' (fine _ inFront).2
    · obtain ⟨rfl, -⟩ := Prod.mk.inj same
      exact String.le_refl other
    · exact String.not_lt.1 (String.lt_asymm less)

/-- A table that represents the entries of a map looks up what the map does. -/
theorem SectionOutcome.table_of_represents {table : TokenTable}
    (represents : table.Represents (entries.entries.map fun e => (e.1, ⟨e.2⟩))) :
    SectionOutcome entries (.ok table) := by
  have member : ∀ {lexeme n}, entries.find? lexeme = some n →
      (lexeme, (⟨n⟩ : Tag)) ∈ entries.entries.map fun e => (e.1, (⟨e.2⟩ : Tag)) := by
    intro lexeme n found
    exact List.mem_map_of_mem (LexemeMap.find?_eq_some_iff.1 found)
  constructor
  · apply Option.eq_none_iff_forall_ne_some.2
    intro n found
    exact represents.lexeme_ne_empty _ (member found) rfl
  · intro lexeme n found own
    exact represents.tag_not_mem _ (member found) (mem_reserved_iff.2 own)
  · intro lexeme
    apply Option.ext
    intro tag
    rw [represents.lookup_eq, lookup_eq_some_iff_mem represents.distinct, List.mem_map,
      Option.map_eq_some_iff]
    constructor
    · rintro ⟨⟨_, n⟩, listed, same⟩
      cases same
      exact ⟨n, LexemeMap.find?_eq_some_iff.2 listed, rfl⟩
    · rintro ⟨n, found, rfl⟩
      exact ⟨(lexeme, n), LexemeMap.find?_eq_some_iff.1 found, rfl⟩
  · exact represents.lengths_descending
  · intro length
    rw [represents.mem_lengths_iff]
    constructor
    · rintro ⟨_, moved, same⟩
      obtain ⟨e, listed, rfl⟩ := List.mem_map.1 moved
      exact ⟨e.1, LexemeMap.find?_ne_none_iff.2 ⟨e.2, listed⟩, same⟩
    · rintro ⟨lexeme, found, same⟩
      obtain ⟨n, found⟩ := Option.ne_none_iff_exists'.1 found
      exact ⟨_, member found, same⟩

/-- Every map leads to what is said of it. -/
theorem sectionOutcome_ofSection (entries : LexemeMap UInt32) :
    SectionOutcome entries (TokenTable.ofSection entries) := by
  cases loaded : TokenTable.ofSection entries with
  | ok table => exact .table_of_represents (TokenTable.represents_ofList loaded)
  | error d =>
    obtain ⟨known, call, rest, whole, acceptable, refused⟩ :=
      TokenTable.ofList_eq_error_iff.1 loaded
    obtain ⟨front, behind, split, rfl, moved⟩ := List.map_eq_append_iff.1 whole
    obtain ⟨⟨lexeme, n⟩, back, rfl, rfl, -⟩ := List.map_eq_cons_iff.1 moved
    have fine : ∀ e ∈ front, e.1 ≠ "" ∧ e.2 ∉ [0, 1, 2] := by
      intro e member
      have moved := List.mem_map_of_mem (f := fun e => (e.1, (⟨e.2⟩ : Tag))) member
      exact ⟨acceptable.lexeme_ne_empty _ moved,
        fun own => acceptable.tag_not_mem _ moved (mem_reserved_iff.2 own)⟩
    simp only [TokenTable.verdict, mem_reserved_iff] at refused
    split at refused
    · next empty =>
      cases refused
      apply SectionOutcome.emptyLexeme
      rw [LexemeMap.find?_ne_none_iff, split, ← empty]
      exact ⟨n, List.mem_append_right _ List.mem_cons_self⟩
    · next nonempty =>
      split at refused
      · next own =>
        cases refused
        exact .reservedTag_of_split split fine nonempty own
      · split at refused
        · next again =>
          -- The lexemes in front are smaller, so none of them comes again.
          have distinct := entries.distinct_entries
          rw [split, List.map_append, List.map_cons] at distinct
          obtain ⟨-, -, apart⟩ := List.nodup_append.1 distinct
          rw [List.map_map] at again
          exact absurd rfl (apart _ again _ List.mem_cons_self)
        · cases refused

end

/-! ## Whole catalogs -/

/-- What a document leads to when this is what is read from it. -/
inductive LoadOutcome : Except String Catalog → Except Diagnostic Language → Prop where
  /-- What is said of a document that is no catalog is passed on. -/
  | malformed (message : String) : LoadOutcome (.error message) (.error (.malformedCatalog message))
  /-- What is wrong with the keywords is said before anything is said of the punctuators. -/
  | keywords {catalog : Catalog} {d : Diagnostic}
      (refused : SectionOutcome catalog.keywords (.error d)) : LoadOutcome (.ok catalog) (.error d)
  | punctuators {catalog : Catalog} {d : Diagnostic} {table : TokenTable}
      (accepted : SectionOutcome catalog.keywords (.ok table))
      (refused : SectionOutcome catalog.punctuators (.error d)) : LoadOutcome (.ok catalog) (.error d)
  /-- Each table is that of its own numbers. -/
  | loaded {catalog : Catalog} {language : Language}
      (keywords : SectionOutcome catalog.keywords (.ok language.keywords))
      (punctuators : SectionOutcome catalog.punctuators (.ok language.punctuators)) :
      LoadOutcome (.ok catalog) (.ok language)

namespace LoadOutcome

variable {result : Except String Catalog} {outcome outcome' : Except Diagnostic Language}

theorem unique (one : LoadOutcome result outcome) (other : LoadOutcome result outcome') :
    outcome = outcome' := by
  cases one with
  | malformed message =>
    cases other
    rfl
  | keywords refused =>
    cases other with
    | keywords refused' =>
      cases refused.unique refused'
      rfl
    | punctuators accepted' refused' => cases refused.unique accepted'
    | loaded keywords' punctuators' => cases refused.unique keywords'
  | punctuators accepted refused =>
    cases other with
    | keywords refused' => cases accepted.unique refused'
    | punctuators accepted' refused' =>
      cases refused.unique refused'
      rfl
    | loaded keywords' punctuators' => cases refused.unique punctuators'
  | loaded keywords punctuators =>
    cases other with
    | keywords refused' => cases keywords.unique refused'
    | punctuators accepted' refused' => cases punctuators.unique refused'
    | @loaded _ language' keywords' punctuators' =>
      obtain ⟨words, signs⟩ := language'
      cases keywords.unique keywords'
      cases punctuators.unique punctuators'
      rfl

/-- No lexeme comes twice in a map, and none of one table is looked for in the other. -/
theorem ne_duplicateLexeme (one : LoadOutcome result outcome) (lexeme : String) :
    outcome ≠ .error (.duplicateLexeme lexeme) := by
  rintro rfl
  cases one with
  | keywords refused => cases refused
  | punctuators accepted refused => cases refused

end LoadOutcome

namespace Language

theorem loadOutcome_ofCatalog (catalog : Catalog) :
    LoadOutcome (.ok catalog) (ofCatalog catalog) := by
  have keywords := sectionOutcome_ofSection catalog.keywords
  have punctuators := sectionOutcome_ofSection catalog.punctuators
  unfold ofCatalog
  cases loaded : TokenTable.ofSection catalog.keywords with
  | error d =>
    rw [loaded] at keywords
    exact .keywords keywords
  | ok table =>
    rw [loaded] at keywords
    cases loaded' : TokenTable.ofSection catalog.punctuators with
    | error d =>
      rw [loaded'] at punctuators
      exact .punctuators keywords punctuators
    | ok table' =>
      rw [loaded'] at punctuators
      exact .loaded keywords punctuators

theorem loadOutcome_ofDocument (read : String → Except String Catalog) (text : String) :
    LoadOutcome (read text) (ofDocument read text) := by
  unfold ofDocument
  cases read text with
  | error message => exact .malformed message
  | ok catalog => exact loadOutcome_ofCatalog catalog

/-- **Loading a catalog.** However documents are read as catalogs, a document leads to what is said of it
if it is no catalog, then to what is wrong with the keywords and then to what is wrong with the
punctuators, an empty lexeme first and then the smallest lexeme whose tag is one of the lexer's own. With
nothing wrong it leads to the language whose tables look up just the numbers of the catalog. No lexeme is
ever reported as registered already. -/
theorem ofDocument_eq_iff (read : String → Except String Catalog) (text : String)
    (outcome : Except Diagnostic Language) :
    (ofDocument read text = outcome ↔ LoadOutcome (read text) outcome) ∧
    ∀ lexeme, ofDocument read text ≠ .error (.duplicateLexeme lexeme) := by
  have loads := loadOutcome_ofDocument read text
  refine ⟨⟨?_, loads.unique⟩, loads.ne_duplicateLexeme⟩
  rintro rfl
  exact loads

/-- The order of the lines is of no account. -/
example :
    ofCatalogText "[punctuators]\na = 1\n[keywords]\nz = 2\nx = 0" =
      .error (.reservedTag "x" .eof) := by decide +kernel

end Language

end FunctionSymbols
