import FunctionSymbols.Json.Codec
import Mathlib.Data.List.Forall2

/-!
# Spellings of values in JSON

A value has more spellings than the one that is written. The relations of this module say which trees
spell a value, for each way in which a codec is put together; they do not mention how a tree is read.
`Codec.Reads` is what reading and writing have to do with them, and each combinator of codecs hands it on
from its parts to the whole.
-/

namespace FunctionSymbols

variable {α β : Type}

/-! ## Results -/

theorem map_eq_ok_iff {ε : Type} {result : Except ε α} {f : α → β} {b : β} :
    result.map f = .ok b ↔ ∃ a, result = .ok a ∧ f a = b := by
  cases result <;> simp [Except.map]

theorem bind_eq_ok_iff {ε : Type} {result : Except ε α} {f : α → Except ε β} {b : β} :
    (result >>= f) = .ok b ↔ ∃ a, result = .ok a ∧ f a = .ok b := by
  cases result <;> simp [bind, Except.bind]

theorem bind_eq_error {ε : Type} {result : Except ε α} {f : α → Except ε β} {e : ε}
    (refused : result = .error e) : (result >>= f) = .error e := by
  rw [refused]
  rfl

/-- Items are all read when each one is. -/
theorem mapM_eq_ok_iff {ε : Type} {f : α → Except ε β} {items : List α} {values : List β} :
    items.mapM f = .ok values ↔ List.Forall₂ (fun value item => f item = .ok value) values items := by
  induction items generalizing values with
  | nil => simp [pure, Except.pure, eq_comm]
  | cons item rest ih =>
    rw [List.mapM_cons, bind_eq_ok_iff]
    constructor
    · rintro ⟨value, read, more⟩
      obtain ⟨others, reads, same⟩ := bind_eq_ok_iff.1 more
      cases same
      exact .cons read (ih.1 reads)
    · intro all
      obtain _ | ⟨read, reads⟩ := all
      exact ⟨_, read, bind_eq_ok_iff.2 ⟨_, ih.2 reads, rfl⟩⟩

/-- Among items that can be read, the one that is refused decides. -/
theorem mapM_set_eq_error {ε : Type} {f : α → Except ε β} {items : List α} {i : Nat}
    (bound : i < items.length) (read : ∀ item ∈ items, ∃ value, f item = .ok value) {item : α} {e : ε}
    (refused : f item = .error e) : (items.set i item).mapM f = .error e := by
  induction items generalizing i with
  | nil => cases bound
  | cons first rest ih =>
    cases i with
    | zero =>
      rw [List.set_cons_zero, List.mapM_cons]
      exact bind_eq_error refused
    | succ i =>
      obtain ⟨value, readFirst⟩ := read first List.mem_cons_self
      have behind := ih (Nat.lt_of_succ_lt_succ bound)
        fun item member => read item (List.mem_cons_of_mem _ member)
      rw [List.set_cons_succ, List.mapM_cons, readFirst]
      show ((rest.set i item).mapM f >>= _) = .error e
      exact bind_eq_error behind

/-- Behind entries that can be taken, the first one that is refused decides. -/
theorem foldlM_append_eq_error {ε : Type} {f : β → α → Except ε β} {start reached : β}
    (front back : List α) {item : α} {e : ε} (taken : front.foldlM f start = .ok reached)
    (refused : f reached item = .error e) : (front ++ item :: back).foldlM f start = .error e := by
  rw [List.foldlM_append, taken]
  show (item :: back).foldlM f reached = .error e
  rw [List.foldlM_cons]
  exact bind_eq_error refused

/-! ## Spellings -/

/-- A value with one spelling only. -/
def SpellsOnly (written : α → Json) (x : α) (j : Json) : Prop := j = written x

/-- The arrays of spellings of the items. -/
inductive SpellsItems (spells : α → Json → Prop) : List α → Json → Prop
  | array {values : List α} {items : List Json} (each : List.Forall₂ spells values items) :
    SpellsItems spells values (.array items)

/-- A missing value is `null`. -/
inductive SpellsOption (spells : α → Json → Prop) : Option α → Json → Prop
  | missing : SpellsOption spells none .null
  | value {x : α} {j : Json} (value : spells x j) : SpellsOption spells (some x) j

/-- The arrays of two items. -/
inductive SpellsPair (first : α → Json → Prop) (second : β → Json → Prop) : α × β → Json → Prop
  | array {x : α} {y : β} {j k : Json} (head : first x j) (last : second y k) :
    SpellsPair first second (x, y) (.array [j, k])

/-- The values that an object gives to a key, in order. -/
def valuesOf (key : String) (fields : List (String × Json)) : List Json :=
  (fields.filter fun field => field.1 == key).map Prod.snd

/-- The value that an object gives to a field: what stands under its key, which it has once, or else the
one that stands for a missing key, if there is such a value. All other keys are ignored. -/
inductive SpellsField (key : String) (absent : Option α) (spells : α → Json → Prop)
    (fields : List (String × Json)) (x : α) : Prop
  | present {j : Json} (once : valuesOf key fields = [j]) (value : spells x j)
  | absent (missing : valuesOf key fields = []) (standard : absent = some x)

/-- A record of one field is an object or the array of its field. -/
inductive SpellsRecord (key : String) (absent : Option α) (spells : α → Json → Prop) :
    α → Json → Prop
  | object {x : α} {fields : List (String × Json)} (field : SpellsField key absent spells fields x) :
    SpellsRecord key absent spells x (.object fields)
  | array {x : α} {j : Json} (field : spells x j) : SpellsRecord key absent spells x (.array [j])

/-- A record of two fields is an object or the array of both fields, as they are declared. -/
inductive SpellsRecordPair (key : String) (absent : Option α) (first : α → Json → Prop)
    (key' : String) (absent' : Option β) (second : β → Json → Prop) : α × β → Json → Prop
  | object {x : α} {y : β} {fields : List (String × Json)}
      (head : SpellsField key absent first fields x)
      (last : SpellsField key' absent' second fields y) :
    SpellsRecordPair key absent first key' absent' second (x, y) (.object fields)
  | array {x : α} {y : β} {j k : Json} (head : first x j) (last : second y k) :
    SpellsRecordPair key absent first key' absent' second (x, y) (.array [j, k])

/-- A variant with a payload is an object with its name as the only key. -/
inductive SpellsVariant (name : String) (spells : α → Json → Prop) : α → Json → Prop
  | object {x : α} {payload : Json} (value : spells x payload) :
    SpellsVariant name spells x (.object [(name, payload)])

/-- A variant without payload is its name, or the object that gives this name `null`. -/
inductive SpellsUnit (name : String) : Json → Prop
  | string : SpellsUnit name (.string name)
  | object : SpellsUnit name (.object [(name, .null)])

section

variable {key : String} {j : Json} {fields : List (String × Json)}

theorem valuesOf_cons_self : valuesOf key ((key, j) :: fields) = j :: valuesOf key fields := by
  simp [valuesOf]

theorem valuesOf_cons_of_ne {other : String} (distinct : other ≠ key) :
    valuesOf key ((other, j) :: fields) = valuesOf key fields := by
  simp [valuesOf, distinct]

end

/-! ## Codecs -/

namespace Codec

theorem variant?_eq_some_payload_iff {j payload : Json} {name : String} :
    variant? j = some (name, some payload) ↔ j = .object [(name, payload)] := by
  constructor
  · intro given
    unfold variant? at given
    split at given
    · cases given
    · cases given
      rfl
    · cases given
  · rintro rfl
    rfl

/-- A variant without payload, or with one that is `null`. -/
theorem spellsUnit_iff {j : Json} {name : String} :
    SpellsUnit name j ↔ variant? j = some (name, none) ∨ variant? j = some (name, some .null) := by
  constructor
  · rintro (_ | _)
    · exact .inl rfl
    · exact .inr rfl
  · rintro (given | given)
    · unfold variant? at given
      split at given
      · cases given
        exact .string
      · cases given
      · cases given
    · rw [variant?_eq_some_payload_iff.1 given]
      exact .object

/-! ### Fields of an object -/

section

variable {field : Field α} {key : String} {j : Json} {fields : List (String × Json)}

theorem Field.meet_self : field.meet none (field.key, j) = (field.codec.decode j).map some :=
  if_pos rfl

theorem Field.meet_again {x : α} : field.meet (some x) (field.key, j) = .error .shape :=
  if_pos rfl

theorem Field.meet_of_ne (other : key ≠ field.key) {found : Option α} :
    field.meet found (key, j) = .ok found :=
  if_neg other

/-- A field that has been found is not met again. -/
theorem foldlM_meet_some_iff {x : α} {found : Option α} :
    fields.foldlM field.meet (some x) = .ok found ↔
      valuesOf field.key fields = [] ∧ found = some x := by
  induction fields with
  | nil => simp [valuesOf, pure, Except.pure, eq_comm]
  | cons entry rest ih =>
    obtain ⟨key, j⟩ := entry
    rw [List.foldlM_cons]
    by_cases same : key = field.key
    · subst same
      rw [valuesOf_cons_self, Field.meet_again]
      constructor
      · intro again
        cases again
      · rintro ⟨missing, -⟩
        cases missing
    · rw [valuesOf_cons_of_ne same, Field.meet_of_ne same]
      exact ih

/-- Two fields are met side by side, each as if it were alone. -/
theorem foldlM_meetPair_iff {first : Field α} {second : Field β} {x x' : Option α}
    {y y' : Option β} :
    fields.foldlM (meetPair first second) (x, y) = .ok (x', y') ↔
      fields.foldlM first.meet x = .ok x' ∧ fields.foldlM second.meet y = .ok y' := by
  induction fields generalizing x y with
  | nil => simp [pure, Except.pure]
  | cons entry rest ih =>
    simp only [List.foldlM_cons, meetPair, bind_eq_ok_iff]
    constructor
    · rintro ⟨_, ⟨found, head, found', last, same⟩, behind⟩
      cases same
      obtain ⟨front, back⟩ := ih.1 behind
      exact ⟨⟨found, head, front⟩, found', last, back⟩
    · rintro ⟨⟨found, head, front⟩, found', last, back⟩
      exact ⟨(found, found'), ⟨found, head, found', last, rfl⟩, ih.2 ⟨front, back⟩⟩

end

/-- What is written is a spelling, and what is read are the spellings. -/
structure Reads (codec : Codec α) (spells : α → Json → Prop) : Prop where
  encode : ∀ x, spells x (codec.encode x)
  decode_iff : ∀ j x, codec.decode j = .ok x ↔ spells x j

variable {codec : Codec α} {spells : α → Json → Prop} {field : Field α}
  {spells' : β → Json → Prop}

namespace Reads

/-- What is written is read back. -/
theorem decode_encode (reads : codec.Reads spells) (x : α) : codec.decode (codec.encode x) = .ok x :=
  (reads.decode_iff _ x).2 (reads.encode x)

/-- A codec that gives back what it writes, and reads nothing else. -/
theorem only (written : ∀ x, codec.decode (codec.encode x) = .ok x)
    (read : ∀ j x, codec.decode j = .ok x → j = codec.encode x) :
    codec.Reads (SpellsOnly codec.encode) := by
  constructor
  · intro x
    rfl
  · intro j x
    constructor
    · exact read j x
    · rintro rfl
      exact written x

/-- What is read and then put into something greater. -/
theorem map_decode_iff (reads : codec.Reads spells) {f : α → β} {j : Json} {b : β} :
    (codec.decode j).map f = .ok b ↔ ∃ a, spells a j ∧ f a = b := by
  rw [map_eq_ok_iff]
  simp only [reads.decode_iff]

theorem map (reads : codec.Reads spells) {make : α → β} {parts : β → α}
    (make_parts : ∀ b, make (parts b) = b) (parts_make : ∀ a, parts (make a) = a) :
    (codec.map make parts).Reads fun b j => spells (parts b) j := by
  constructor
  · intro b
    exact reads.encode (parts b)
  · intro j b
    show (codec.decode j).map make = .ok b ↔ _
    rw [reads.map_decode_iff]
    constructor
    · rintro ⟨a, spelled, rfl⟩
      rwa [parts_make]
    · intro spelled
      exact ⟨parts b, spelled, make_parts b⟩

theorem list (reads : codec.Reads spells) : codec.list.Reads (SpellsItems spells) := by
  constructor
  · intro xs
    exact .array (List.forall₂_map_right_iff.2 (List.forall₂_same.2 fun x _ => reads.encode x))
  · intro j xs
    constructor
    · intro read
      cases j with
      | array items =>
        have each := mapM_eq_ok_iff.1 read
        exact .array (each.imp fun x j read => (reads.decode_iff j x).1 read)
      | _ => cases read
    · rintro ⟨each⟩
      exact mapM_eq_ok_iff.2 (each.imp fun x j spelled => (reads.decode_iff j x).2 spelled)

theorem option (reads : codec.Reads spells) (never : ∀ x, ¬ spells x .null) :
    codec.option.Reads (SpellsOption spells) := by
  have other : ∀ j, j ≠ .null → codec.option.decode j = (codec.decode j).map some := by
    intro j value
    cases j with
    | null => exact absurd rfl value
    | _ => rfl
  constructor
  · intro x
    cases x with
    | none => exact .missing
    | some x => exact .value (reads.encode x)
  · intro j x
    constructor
    · intro read
      by_cases null : j = .null
      · subst null
        cases read
        exact .missing
      · rw [other j null, reads.map_decode_iff] at read
        obtain ⟨y, spelled, rfl⟩ := read
        exact .value spelled
    · intro spelled
      cases spelled with
      | missing => rfl
      | @value x j spelled =>
        have value : j ≠ .null := by
          rintro rfl
          exact never x spelled
        rw [other j value]
        exact reads.map_decode_iff.2 ⟨x, spelled, rfl⟩

theorem decodeHead_iff (reads : codec.Reads spells) {items rest : List Json} {x : α} :
    codec.decodeHead items = .ok (x, rest) ↔ ∃ j, items = j :: rest ∧ spells x j := by
  constructor
  · intro read
    cases items with
    | nil => cases read
    | cons j more =>
      obtain ⟨y, spelled, same⟩ := reads.map_decode_iff.1 read
      cases same
      exact ⟨j, rfl, spelled⟩
  · rintro ⟨j, rfl, spelled⟩
    exact reads.map_decode_iff.2 ⟨x, spelled, rfl⟩

theorem decodeSingle_iff (reads : codec.Reads spells) {items : List Json} {x : α} :
    codec.decodeSingle items = .ok x ↔ ∃ j, items = [j] ∧ spells x j := by
  constructor
  · intro read
    obtain ⟨⟨y, rest⟩, head, ended⟩ := bind_eq_ok_iff.1 read
    obtain ⟨j, rfl, spelled⟩ := reads.decodeHead_iff.1 head
    cases rest with
    | nil =>
      cases ended
      exact ⟨j, rfl, spelled⟩
    | cons k more => cases ended
  · rintro ⟨j, rfl, spelled⟩
    exact bind_eq_ok_iff.2 ⟨(x, []), reads.decodeHead_iff.2 ⟨j, rfl, spelled⟩, rfl⟩

theorem decodePair_iff (reads : codec.Reads spells) {codec' : Codec β} (reads' : codec'.Reads spells')
    {items : List Json} {x : α} {y : β} :
    decodePair codec codec' items = .ok (x, y) ↔
      ∃ j k, items = [j, k] ∧ spells x j ∧ spells' y k := by
  constructor
  · intro read
    obtain ⟨⟨x', rest⟩, head, behind⟩ := bind_eq_ok_iff.1 read
    obtain ⟨⟨y', rest'⟩, last, ended⟩ := bind_eq_ok_iff.1 behind
    obtain ⟨j, rfl, spelled⟩ := reads.decodeHead_iff.1 head
    obtain ⟨k, rfl, spelled'⟩ := reads'.decodeHead_iff.1 last
    cases rest' with
    | nil =>
      cases ended
      exact ⟨j, k, rfl, spelled, spelled'⟩
    | cons l more => cases ended
  · rintro ⟨j, k, rfl, spelled, spelled'⟩
    have head : codec.decodeHead [j, k] = .ok (x, [k]) := reads.decodeHead_iff.2 ⟨j, rfl, spelled⟩
    have last : codec'.decodeHead [k] = .ok (y, []) := reads'.decodeHead_iff.2 ⟨k, rfl, spelled'⟩
    exact bind_eq_ok_iff.2 ⟨(x, [k]), head, bind_eq_ok_iff.2 ⟨(y, []), last, rfl⟩⟩

theorem pair (reads : codec.Reads spells) {codec' : Codec β} (reads' : codec'.Reads spells') :
    (codec.pair codec').Reads (SpellsPair spells spells') := by
  constructor
  · rintro ⟨x, y⟩
    exact .array (reads.encode x) (reads'.encode y)
  · rintro j ⟨x, y⟩
    constructor
    · intro read
      cases j with
      | array items =>
        obtain ⟨j, k, rfl, head, last⟩ := (reads.decodePair_iff reads').1 read
        exact .array head last
      | _ => cases read
    · rintro ⟨head, last⟩
      exact (reads.decodePair_iff reads').2 ⟨_, _, rfl, head, last⟩

/-- What is found of a field in an object that does not repeat its key. -/
theorem foldlM_meet_iff (reads : field.codec.Reads spells) {fields : List (String × Json)}
    {found : Option α} :
    fields.foldlM field.meet none = .ok found ↔
      (valuesOf field.key fields = [] ∧ found = none) ∨
        ∃ j x, valuesOf field.key fields = [j] ∧ spells x j ∧ found = some x := by
  induction fields with
  | nil => simp [valuesOf, pure, Except.pure, eq_comm]
  | cons entry rest ih =>
    obtain ⟨key, j⟩ := entry
    rw [List.foldlM_cons]
    by_cases same : key = field.key
    · subst same
      rw [valuesOf_cons_self, Field.meet_self, bind_eq_ok_iff]
      simp only [reads.map_decode_iff]
      constructor
      · rintro ⟨_, ⟨x, spelled, rfl⟩, behind⟩
        obtain ⟨unrepeated, rfl⟩ := foldlM_meet_some_iff.1 behind
        exact .inr ⟨j, x, by rw [unrepeated], spelled, rfl⟩
      · rintro (⟨missing, -⟩ | ⟨k, x, once, spelled, rfl⟩)
        · cases missing
        · obtain ⟨rfl, unrepeated⟩ := List.cons.inj once
          exact ⟨some x, ⟨x, spelled, rfl⟩, foldlM_meet_some_iff.2 ⟨unrepeated, rfl⟩⟩
    · rw [valuesOf_cons_of_ne same, Field.meet_of_ne same]
      exact ih

/-- A field of an object. -/
theorem field_iff (reads : field.codec.Reads spells) {fields : List (String × Json)} {x : α} :
    (∃ found, fields.foldlM field.meet none = .ok found ∧ found.or field.absent = some x) ↔
      SpellsField field.key field.absent spells fields x := by
  simp only [reads.foldlM_meet_iff]
  constructor
  · rintro ⟨found, ⟨missing, rfl⟩ | ⟨j, y, once, spelled, rfl⟩, given⟩
    · exact .absent missing given
    · cases given
      exact .present once spelled
  · rintro (⟨once, spelled⟩ | ⟨missing, standard⟩)
    · exact ⟨some x, .inr ⟨_, x, once, spelled, rfl⟩, rfl⟩
    · exact ⟨none, .inl ⟨missing, rfl⟩, standard⟩

theorem record (field : Field α) (reads : field.codec.Reads spells) :
    (Codec.record field).Reads (SpellsRecord field.key field.absent spells) := by
  constructor
  · intro x
    exact .object (.present valuesOf_cons_self (reads.encode x))
  · intro j x
    constructor
    · intro read
      cases j with
      | object fields =>
        obtain ⟨found, read, more⟩ := bind_eq_ok_iff.1 read
        cases given : found.or field.absent with
        | none =>
          rw [given] at more
          cases more
        | some y =>
          rw [given] at more
          cases more
          exact .object (reads.field_iff.1 ⟨found, read, given⟩)
      | array items =>
        obtain ⟨j, rfl, spelled⟩ := reads.decodeSingle_iff.1 read
        exact .array spelled
      | _ => cases read
    · rintro (spelled | spelled)
      · obtain ⟨found, read, given⟩ := reads.field_iff.2 spelled
        refine bind_eq_ok_iff.2 ⟨found, read, ?_⟩
        rw [given]
        rfl
      · exact reads.decodeSingle_iff.2 ⟨_, rfl, spelled⟩

theorem recordPair (first : Field α) (second : Field β) (reads : first.codec.Reads spells)
    (reads' : second.codec.Reads spells') (distinct : second.key ≠ first.key) :
    (Codec.recordPair first second).Reads
      (SpellsRecordPair first.key first.absent spells second.key second.absent spells') := by
  constructor
  · rintro ⟨x, y⟩
    refine .object (.present ?_ (reads.encode x)) (.present ?_ (reads'.encode y))
    · rw [valuesOf_cons_self, valuesOf_cons_of_ne distinct]
      rfl
    · rw [valuesOf_cons_of_ne distinct.symm, valuesOf_cons_self]
      rfl
  · rintro j ⟨x, y⟩
    constructor
    · intro read
      cases j with
      | object fields =>
        obtain ⟨⟨found, found'⟩, met, ended⟩ := bind_eq_ok_iff.1 read
        obtain ⟨head, last⟩ := foldlM_meetPair_iff.1 met
        dsimp only at ended
        split at ended
        · next given given' =>
          cases ended
          exact .object (reads.field_iff.1 ⟨found, head, given⟩)
            (reads'.field_iff.1 ⟨found', last, given'⟩)
        · cases ended
      | array items =>
        obtain ⟨j, k, rfl, head, last⟩ := (reads.decodePair_iff reads').1 read
        exact .array head last
      | _ => cases read
    · rintro (⟨head, last⟩ | ⟨head, last⟩)
      · obtain ⟨found, head, given⟩ := reads.field_iff.2 head
        obtain ⟨found', last, given'⟩ := reads'.field_iff.2 last
        refine bind_eq_ok_iff.2 ⟨(found, found'), foldlM_meetPair_iff.2 ⟨head, last⟩, ?_⟩
        dsimp only
        rw [given, given']
        rfl
      · exact (reads.decodePair_iff reads').2 ⟨_, _, rfl, head, last⟩

theorem variant (reads : codec.Reads spells) (name : String) :
    (Codec.variant name codec).Reads (SpellsVariant name spells) := by
  constructor
  · intro x
    exact .object (reads.encode x)
  · intro j x
    constructor
    · intro read
      unfold Codec.variant at read
      dsimp only at read
      split at read
      · next other payload given =>
        obtain rfl := variant?_eq_some_payload_iff.1 given
        split at read
        · next same =>
          subst same
          exact .object ((reads.decode_iff payload x).1 read)
        · cases read
      · cases read
    · rintro ⟨spelled⟩
      show (if name = name then codec.decode _ else .error .shape) = .ok x
      rw [if_pos rfl]
      exact (reads.decode_iff _ x).2 spelled

end Reads

end Codec

end FunctionSymbols
