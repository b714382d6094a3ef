import FunctionSymbols.Diagnostic
import FunctionSymbols.Lengths
import FunctionSymbols.LexemeMap

/-!
# Token tables

A table assigns tags to lexemes. Beside the map it keeps the lengths of its lexemes, longest first:
trying the lengths in that order finds the longest registered lexeme at a position. The fields state
what every addition keeps: no lexeme is empty, no tag is reserved, and the lengths are strictly
descending and are those of the lexemes.
-/

namespace FunctionSymbols

/-- Registered lexemes with their tags, and their lengths in characters. -/
structure TokenTable where
  entries : LexemeMap Tag
  lengths : List Nat
  lexeme_ne_empty : ∀ e ∈ entries.entries, e.1 ≠ ""
  tag_unreserved : ∀ e ∈ entries.entries, e.2.isReserved = false
  lengths_descending : lengths.Pairwise (· > ·)
  mem_lengths_iff : ∀ n, n ∈ lengths ↔ ∃ e ∈ entries.entries, e.1.length = n
deriving DecidableEq

namespace TokenTable

/-- The table without lexemes. -/
def empty : TokenTable :=
  ⟨.empty, [], by simp [LexemeMap.empty], by simp [LexemeMap.empty], .nil,
   by simp [LexemeMap.empty]⟩

instance : Inhabited TokenTable := ⟨empty⟩

/-- The tag of a registered lexeme. -/
def lookup (table : TokenTable) (lexeme : String) : Option Tag := table.entries.find? lexeme

/-- The tag of a lexeme, which has to be registered. -/
def tagOf (table : TokenTable) (lexeme : String) : Except Diagnostic Tag :=
  match table.lookup lexeme with
  | some tag => .ok tag
  | none => .error (.unknownLexeme lexeme)

/-- The lexeme is registered. -/
def contains (table : TokenTable) (lexeme : String) : Bool := (table.lookup lexeme).isSome

/-- The registered lexemes with their tags, in the order of the lexemes. -/
def toList (table : TokenTable) : List (String × Tag) := table.entries.entries

/-- The number of registered lexemes. -/
def size (table : TokenTable) : Nat := table.toList.length

/-- No lexeme is registered. -/
def isEmpty (table : TokenTable) : Bool := table.toList.isEmpty

/-- Registers a lexeme that may be registered. -/
def insert (table : TokenTable) (lexeme : String) (tag : Tag) (nonempty : lexeme ≠ "")
    (unreserved : tag.isReserved = false) (fresh : table.entries.find? lexeme = none) :
    TokenTable where
  entries := table.entries.insert lexeme tag fresh
  lengths := insertLength lexeme.length table.lengths
  lexeme_ne_empty e he := by
    rcases (LexemeMap.mem_entries_insert _ fresh).1 he with rfl | he
    · exact nonempty
    · exact table.lexeme_ne_empty e he
  tag_unreserved e he := by
    rcases (LexemeMap.mem_entries_insert _ fresh).1 he with rfl | he
    · exact unreserved
    · exact table.tag_unreserved e he
  lengths_descending := pairwise_insertLength table.lengths_descending
  mem_lengths_iff n := by
    simp only [mem_insertLength table.lengths_descending, table.mem_lengths_iff,
      LexemeMap.mem_entries_insert, or_and_right, exists_or, exists_eq_left, eq_comm]

/-- Registers a lexeme. Of several faults the empty lexeme is reported first, then the reserved tag,
then the lexeme that is registered already. -/
def add (table : TokenTable) (lexeme : String) (tag : Tag) : Except Diagnostic TokenTable :=
  if nonempty : lexeme = "" then .error .emptyLexeme
  else if unreserved : tag.isReserved = false then
    if fresh : table.entries.find? lexeme = none then
      .ok (table.insert lexeme tag nonempty unreserved fresh)
    else .error (.duplicateLexeme lexeme)
  else .error (.reservedTag lexeme tag)

/-- Registers entries in order up to the first one that is rejected. -/
def addAll (table : TokenTable) : List (String × Tag) → Except Diagnostic TokenTable
  | [] => .ok table
  | (lexeme, tag) :: rest =>
    match table.add lexeme tag with
    | .ok grown => grown.addAll rest
    | .error d => .error d

/-- Registers a lexeme in place: the answer, and the table that is left. -/
def register (table : TokenTable) (call : String × Tag) : Except Diagnostic Unit × TokenTable :=
  match table.add call.1 call.2 with
  | .ok grown => (.ok (), grown)
  | .error d => (.error d, table)

/-- Registers one lexeme after the other, whatever the answers are. -/
def registerAll (table : TokenTable) :
    List (String × Tag) → List (Except Diagnostic Unit) × TokenTable
  | [] => ([], table)
  | call :: rest =>
    let (answer, after) := table.register call
    let (answers, last) := after.registerAll rest
    (answer :: answers, last)

/-- The table of these entries. -/
def ofList (entries : List (String × Tag)) : Except Diagnostic TokenTable := empty.addAll entries

@[simp] theorem lookup_empty (lexeme : String) : empty.lookup lexeme = none := rfl

theorem lookup_insert (table : TokenTable) {lexeme : String} {tag : Tag} (nonempty : lexeme ≠ "")
    (unreserved : tag.isReserved = false) (fresh : table.entries.find? lexeme = none)
    (other : String) :
    (table.insert lexeme tag nonempty unreserved fresh).lookup other =
      if other = lexeme then some tag else table.lookup other :=
  LexemeMap.find?_insert _ fresh other

theorem mem_entries_of_lookup {table : TokenTable} {lexeme : String} {tag : Tag}
    (h : table.lookup lexeme = some tag) : (lexeme, tag) ∈ table.entries.entries := by
  unfold lookup LexemeMap.find? at h
  revert h
  induction table.entries.entries with
  | nil => simp
  | cons head rest ih =>
    obtain ⟨key, value⟩ := head
    rw [lookup_cons_eq]
    split
    · next hk =>
      subst hk
      simp +contextual [eq_comm]
    · exact fun h => List.mem_cons_of_mem _ (ih h)

/-- A registered lexeme is not empty. -/
theorem ne_empty_of_lookup {table : TokenTable} {lexeme : String} {tag : Tag}
    (h : table.lookup lexeme = some tag) : lexeme ≠ "" :=
  table.lexeme_ne_empty _ (mem_entries_of_lookup h)

/-- A registered tag is none of the lexer's own. -/
theorem isReserved_of_lookup {table : TokenTable} {lexeme : String} {tag : Tag}
    (h : table.lookup lexeme = some tag) : tag.isReserved = false :=
  table.tag_unreserved _ (mem_entries_of_lookup h)

end TokenTable

end FunctionSymbols
