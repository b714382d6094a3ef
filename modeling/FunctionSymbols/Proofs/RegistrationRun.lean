import FunctionSymbols.Proofs.Registration
import Mathlib.Data.List.Induction

/-!
# Runs of registrations

A table that lexemes are registered in, one after the other and whatever the answers are, is the finite
map of the accepted calls. The invariant of a run is that the table represents these calls
(`represents_registerAll`), and all that can be seen of a table is answered by what it represents
(`represents_of_perm`).
-/

namespace FunctionSymbols

namespace TokenTable

variable {table : TokenTable} {known calls : List (String × Tag)} {call : String × Tag}

/-! ## The finite map -/

/-- What a call is answered when these calls were accepted before. -/
def verdict (known : List (String × Tag)) (call : String × Tag) : Except Diagnostic Unit :=
  if call.1 = "" then .error .emptyLexeme
  else if call.2 ∈ [.eof, .unknown, .identifier] then .error (.reservedTag call.1 call.2)
  else if call.1 ∈ known.map Prod.fst then .error (.duplicateLexeme call.1)
  else .ok ()

/-- The calls of a run that are accepted, in order. -/
def accepted (calls : List (String × Tag)) : List (String × Tag) :=
  ((calls.zip (empty.registerAll calls).1).filter fun answered => answered.2.isOk).map Prod.fst

/-- Whatever is asked of the table is answered by a list of entries: a lexeme is looked up in the order
of the list, and the lengths are those of its lexemes. -/
structure Represents (table : TokenTable) (known : List (String × Tag)) : Prop where
  toList_perm : table.toList.Perm known
  distinct : (known.map Prod.fst).Nodup
  lexeme_ne_empty : ∀ entry ∈ known, entry.1 ≠ ""
  tag_not_mem : ∀ entry ∈ known, entry.2 ∉ [Tag.eof, .unknown, .identifier]
  lookup_eq : ∀ lexeme, table.lookup lexeme = known.lookup lexeme
  tagOf_eq : ∀ lexeme, table.tagOf lexeme = (known.lookup lexeme).elim
    (.error (.unknownLexeme lexeme)) .ok
  contains_iff : ∀ lexeme, table.contains lexeme = true ↔ lexeme ∈ known.map Prod.fst
  size_eq : table.size = known.length
  isEmpty_iff : table.isEmpty = true ↔ known = []
  lengths_descending : table.lengths.Pairwise (· > ·)
  mem_lengths_iff : ∀ n, n ∈ table.lengths ↔ ∃ entry ∈ known, entry.1.length = n

/-- A list of the entries of a table represents it, in whatever order they are. -/
theorem represents_of_perm (listed : table.toList.Perm known) : table.Represents known := by
  have distinct : (known.map Prod.fst).Nodup := (listed.map Prod.fst).nodup_iff.1 table.distinct_toList
  have lookup_eq : ∀ lexeme, table.lookup lexeme = known.lookup lexeme := by
    intro lexeme
    apply Option.ext
    intro tag
    rw [← mem_toList_iff, lookup_eq_some_iff_mem distinct, listed.mem_iff]
  constructor
  · exact listed
  · exact distinct
  · intro entry member
    exact table.lexeme_ne_empty entry (listed.mem_iff.2 member)
  · intro entry member reserved
    have unreserved := table.tag_unreserved entry (listed.mem_iff.2 member)
    rw [Tag.isReserved_iff.2 (by simpa using reserved)] at unreserved
    cases unreserved
  · exact lookup_eq
  · intro lexeme
    rw [tagOf, lookup_eq]
    cases known.lookup lexeme <;> rfl
  · intro lexeme
    rw [contains_iff_mem, (listed.map Prod.fst).mem_iff]
  · exact listed.length_eq
  · rw [isEmpty, List.isEmpty_iff]
    constructor
    · intro none
      exact (none ▸ listed).nil_eq.symm
    · rintro rfl
      exact listed.eq_nil
  · exact table.lengths_descending
  · intro n
    rw [table.mem_lengths_iff]
    constructor
    · rintro ⟨entry, member, length⟩
      exact ⟨entry, listed.mem_iff.1 member, length⟩
    · rintro ⟨entry, member, length⟩
      exact ⟨entry, listed.mem_iff.2 member, length⟩

/-! ## One call -/

theorem perm_insertEntry {α : Type} (lexeme : String) (value : α) (entries : List (String × α)) :
    (insertEntry lexeme value entries).Perm ((lexeme, value) :: entries) := by
  induction entries with
  | nil => exact .refl _
  | cons head rest ih =>
    unfold insertEntry
    split
    · exact (ih.cons head).trans (.swap _ _ _)
    · exact .refl _

/-- A call is answered as the map of the accepted calls says. -/
theorem Represents.register_fst (represents : table.Represents known) (call : String × Tag) :
    (table.register call).1 = verdict known call := by
  obtain ⟨lexeme, tag⟩ := call
  have reserved : tag ∈ [Tag.eof, .unknown, .identifier] ↔ tag.isReserved = true := by
    simp [Tag.isReserved_iff]
  have registered : lexeme ∈ known.map Prod.fst ↔ ¬ table.entries.find? lexeme = none := by
    rw [← represents.contains_iff, ← Bool.not_eq_false, contains_eq_false_iff]
    rfl
  simp only [register, add, verdict, reserved, registered]
  by_cases empty : lexeme = ""
  · rw [dif_pos empty, if_pos empty]
  · rw [dif_neg empty, if_neg empty]
    by_cases own : tag.isReserved = true
    · rw [dif_neg (by rw [own]; decide), if_pos own]
    · rw [dif_pos (Bool.eq_false_iff.2 own), if_neg own]
      by_cases fresh : table.entries.find? lexeme = none
      · rw [dif_pos fresh, if_neg (not_not_intro fresh)]
      · rw [dif_neg fresh, if_pos fresh]

/-- A rejected call leaves the table as it was. -/
theorem Represents.register_of_refused (represents : table.Represents known) {d : Diagnostic}
    (refused : verdict known call = .error d) : (table.register call).2 = table := by
  rw [← represents.register_fst call] at refused
  unfold register at refused ⊢
  cases added : table.add call.1 call.2 with
  | error d => rfl
  | ok grown =>
    rw [added] at refused
    cases refused

/-- An accepted call is put behind those accepted before. -/
theorem Represents.register_of_accepted (represents : table.Represents known)
    (answer : verdict known call = .ok ()) :
    (table.register call).2.Represents (known ++ [call]) := by
  rw [← represents.register_fst call] at answer
  unfold register at answer ⊢
  cases added : table.add call.1 call.2 with
  | error d =>
    rw [added] at answer
    cases answer
  | ok grown =>
    obtain ⟨nonempty, unreserved, fresh, rfl⟩ := add_eq_ok_iff.1 added
    have front := perm_insertEntry call.1 call.2 table.toList
    have behind := (List.perm_append_singleton call known).symm
    exact represents_of_perm (front.trans ((represents.toList_perm.cons call).trans behind))

/-! ## Runs -/

theorem registerAll_append (table : TokenTable) (front back : List (String × Tag)) :
    (table.registerAll (front ++ back)).1 =
        (table.registerAll front).1 ++ ((table.registerAll front).2.registerAll back).1 ∧
      (table.registerAll (front ++ back)).2 = ((table.registerAll front).2.registerAll back).2 := by
  induction front generalizing table with
  | nil => exact ⟨rfl, rfl⟩
  | cons call rest ih =>
    obtain ⟨answers, last⟩ := ih (table.register call).2
    constructor
    · simp only [List.cons_append, registerAll, answers]
    · simp only [List.cons_append, registerAll, last]

/-- Every call is answered. -/
theorem length_registerAll (table : TokenTable) (calls : List (String × Tag)) :
    (table.registerAll calls).1.length = calls.length := by
  induction calls generalizing table with
  | nil => rfl
  | cons call rest ih => simp only [registerAll, List.length_cons, ih]

/-- One more call is accepted or not, and the calls in front of it are accepted as before. -/
theorem accepted_concat (calls : List (String × Tag)) (call : String × Tag) :
    accepted (calls ++ [call]) = accepted calls ++
      if ((empty.registerAll calls).2.register call).1.isOk then [call] else [] := by
  have answers : (empty.registerAll (calls ++ [call])).1 =
      (empty.registerAll calls).1 ++ [((empty.registerAll calls).2.register call).1] :=
    (registerAll_append empty calls [call]).1
  rw [accepted, answers, List.zip_append (length_registerAll empty calls).symm, List.filter_append,
    List.map_append, accepted]
  generalize ((empty.registerAll calls).2.register call).1 = answer
  cases answer <;> rfl

/-- The table that a run leaves represents the calls that were accepted. -/
theorem represents_registerAll (calls : List (String × Tag)) :
    (empty.registerAll calls).2.Represents (accepted calls) := by
  induction calls using List.reverseRecOn with
  | nil => exact represents_of_perm .nil
  | append_singleton calls call ih =>
    have last : (empty.registerAll (calls ++ [call])).2 =
        ((empty.registerAll calls).2.register call).2 :=
      (registerAll_append empty calls [call]).2
    rw [accepted_concat, last, ih.register_fst]
    cases answer : verdict (accepted calls) call with
    | ok => exact ih.register_of_accepted answer
    | error d =>
      rw [ih.register_of_refused answer]
      exact (List.append_nil (accepted calls)).symm ▸ ih

/-- **A table is a finite map.** In every run of calls on the empty table, each call is answered as the
map of the calls accepted before says: the empty lexeme is refused first, then a tag of the lexer's own,
then a lexeme that was accepted before. An accepted call extends this map, a rejected one leaves the
entries and the lengths alone, and all that can be asked of the table is answered by the map. -/
theorem registerAll_refines_map (before rest : List (String × Tag)) (call : String × Tag) :
    let table := (empty.registerAll before).2
    let after := (empty.registerAll (before ++ [call])).2
    let answer := verdict (accepted before) call
    table.Represents (accepted before) ∧
    (empty.registerAll (before ++ call :: rest)).1[before.length]? = some answer ∧
    match answer with
    | .ok () => accepted (before ++ [call]) = accepted before ++ [call]
    | .error _ => accepted (before ++ [call]) = accepted before ∧
        after.toList = table.toList ∧ after.lengths = table.lengths := by
  intro table after answer
  have represents : table.Represents (accepted before) := represents_registerAll before
  have last : after = (table.register call).2 := (registerAll_append empty before [call]).2
  have known := accepted_concat before call
  rw [represents.register_fst call] at known
  change _ = _ ++ if answer.isOk then _ else _ at known
  refine ⟨represents, ?_, ?_⟩
  · obtain ⟨answers, -⟩ := registerAll_append empty before (call :: rest)
    rw [answers, List.getElem?_append_right (Nat.le_of_eq (length_registerAll empty before)),
      length_registerAll, Nat.sub_self]
    exact congrArg some (represents.register_fst call)
  · cases given : answer with
    | ok =>
      rw [given] at known
      exact known
    | error d =>
      rw [given] at known
      rw [last, represents.register_of_refused given]
      exact ⟨known.trans (List.append_nil _), rfl, rfl⟩

/-- A run with every kind of refusal. -/
example :
    let run := empty.registerAll
      [("<", ⟨7⟩), ("", ⟨0⟩), (">", .identifier), ("<", ⟨8⟩), ("<<", ⟨7⟩)]
    run.1 = [.ok (), .error .emptyLexeme, .error (.reservedTag ">" .identifier),
      .error (.duplicateLexeme "<"), .ok ()] ∧
    run.2.toList = [("<", ⟨7⟩), ("<<", ⟨7⟩)] ∧ run.2.lengths = [2, 1] := by decide

end TokenTable

end FunctionSymbols
