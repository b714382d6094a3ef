import FunctionSymbols.Proofs.IdentifierText
import FunctionSymbols.Proofs.NodeSpelling

/-!
# Identifiers in written trees

Every identifier of a node is a text somewhere in the written form of the node. A `Place` is such an
identifier with the path to its text, and with what the node is when another identifier stands there.
Written with another text at that path, the node is read with this text in place of the identifier, if
the text is one, and is refused for this text otherwise (`Codec.Guards`). A codec that is put together
from others hands this on from its parts (`Codec.Part`).
-/

namespace FunctionSymbols

/-! ## Paths in a tree -/

namespace Json

/-- A step from a tree to one of its parts. -/
inductive Step where
  /-- The field with this key. -/
  | key (name : String)
  /-- The item with this index. -/
  | item (index : Nat)
deriving DecidableEq

/-- The part that a step leads to. -/
def child? : Json → Step → Option Json
  | .object fields, .key name => fields.lookup name
  | .array items, .item index => items[index]?
  | _, _ => none

/-- The tree with another part where a step leads to. -/
def setChild : Json → Step → Json → Json
  | .object fields, .key name, part =>
    .object (fields.map fun field => if field.1 = name then (name, part) else field)
  | .array items, .item index, part => .array (items.set index part)
  | tree, _, _ => tree

/-- The part that a path leads to. -/
def at? (tree : Json) : List Step → Option Json
  | [] => some tree
  | step :: path => (tree.child? step).bind fun part => part.at? path

/-- The tree with another part where a path leads to. -/
def setAt (tree : Json) : List Step → Json → Json
  | [], part => part
  | step :: path, part =>
    match tree.child? step with
    | some child => tree.setChild step (child.setAt path part)
    | none => tree

variable {path : List Step} {text : String}

theorem at?_null_ne : Json.null.at? path ≠ some (.string text) := by
  intro found
  cases path <;> cases found

theorem at?_bool_ne {flag : Bool} : (Json.bool flag).at? path ≠ some (.string text) := by
  intro found
  cases path <;> cases found

theorem eq_of_at?_string {written : String} (found : (Json.string written).at? path = some (.string text)) :
    path = [] ∧ written = text := by
  cases path with
  | nil =>
    cases found
    exact ⟨rfl, rfl⟩
  | cons step rest => cases found

theorem exists_of_at?_object {fields : List (String × Json)}
    (found : (Json.object fields).at? path = some (.string text)) :
    ∃ name tree rest, path = .key name :: rest ∧ (name, tree) ∈ fields ∧
      tree.at? rest = some (.string text) := by
  cases path with
  | nil => cases found
  | cons step rest =>
    cases step with
    | item i => cases found
    | key name =>
      obtain ⟨tree, child, inside⟩ := Option.bind_eq_some_iff.1 found
      obtain ⟨front, back, rfl, -⟩ := List.lookup_eq_some_iff.1 child
      exact ⟨name, tree, rest, rfl, List.mem_append_right front List.mem_cons_self, inside⟩

theorem exists_of_at?_single {key : String} {tree : Json}
    (found : (Json.object [(key, tree)]).at? path = some (.string text)) :
    ∃ rest, path = .key key :: rest ∧ tree.at? rest = some (.string text) := by
  obtain ⟨name, part, rest, rfl, member, inside⟩ := exists_of_at?_object found
  cases List.mem_singleton.1 member
  exact ⟨rest, rfl, inside⟩

theorem exists_of_at?_array {items : List Json}
    (found : (Json.array items).at? path = some (.string text)) :
    ∃ i tree rest, path = .item i :: rest ∧ items[i]? = some tree ∧
      tree.at? rest = some (.string text) := by
  cases path with
  | nil => cases found
  | cons step rest =>
    cases step with
    | key name => cases found
    | item i =>
      obtain ⟨tree, child, inside⟩ := Option.bind_eq_some_iff.1 found
      exact ⟨i, tree, rest, rfl, child, inside⟩

theorem exists_of_at?_pair {first second : Json}
    (found : (Json.array [first, second]).at? path = some (.string text)) :
    (∃ rest, path = .item 0 :: rest ∧ first.at? rest = some (.string text)) ∨
      ∃ rest, path = .item 1 :: rest ∧ second.at? rest = some (.string text) := by
  obtain ⟨i, tree, rest, rfl, written, inside⟩ := exists_of_at?_array found
  rcases i with _ | _ | i
  · cases written
    exact .inl ⟨rest, rfl, inside⟩
  · cases written
    exact .inr ⟨rest, rfl, inside⟩
  · cases written

end Json

/-! ## Places of identifiers -/

/-- An identifier in a value: the path to its text in the written form of the value, the identifier, and
the value with another identifier in its place. -/
structure Place (α : Type) where
  path : List Json.Step
  name : Identifier
  put : Identifier → α

namespace Place

variable {α β : Type}

/-- A place in a part as a place in the whole. -/
def within (step : Json.Step) (build : α → β) (place : Place α) : Place β :=
  ⟨step :: place.path, place.name, fun other => build (place.put other)⟩

/-- The places in the items of a list. -/
def ofItems (places : α → List (Place α)) (items : List α) : List (Place (List α)) :=
  items.zipIdx.flatMap fun item =>
    (places item.1).map (within (.item item.2) fun other => items.set item.2 other)

variable {step : Json.Step} {build : α → β} {path : List Json.Step}

theorem exists_within {places : List (Place α)} (found : ∃ place ∈ places, place.path = path) :
    ∃ place ∈ places.map (within step build), place.path = step :: path := by
  obtain ⟨place, listed, rfl⟩ := found
  exact ⟨place.within step build, List.mem_map_of_mem listed, rfl⟩

theorem exists_ofItems {places : α → List (Place α)} {items : List α} {i : Nat} {x : α}
    (at_i : items[i]? = some x) (found : ∃ place ∈ places x, place.path = path) :
    ∃ place ∈ ofItems places items, place.path = .item i :: path := by
  obtain ⟨place, listed, same⟩ := exists_within found
  have member : (x, i) ∈ items.zipIdx := List.mem_zipIdx_iff_getElem?.2 at_i
  exact ⟨place, List.mem_flatMap_of_mem member listed, same⟩

end Place

/-- An identifier stands in its own place. -/
def Identifier.places (name : Identifier) : List (Place Identifier) := [⟨[], name, id⟩]

/-- The segments, whichever their index is. -/
def NestedName.places (nested : NestedName) : List (Place NestedName) :=
  (Place.ofItems Identifier.places nested.segments).map (Place.within (.key "segments") NestedName.mk)

/-- The segments and the last identifier. -/
def QualifiedName.places (name : QualifiedName) : List (Place QualifiedName) :=
  name.nested.places.map (Place.within (.key "nested") fun nested => ⟨nested, name.last⟩) ++
    name.last.places.map (Place.within (.key "unqualified") fun last => ⟨name.nested, last⟩)

/-- The segments and the last identifier of a name that is written as a pair. -/
def QualifiedName.pairPlaces (name : QualifiedName) : List (Place QualifiedName) :=
  name.nested.places.map (Place.within (.item 0) fun nested => ⟨nested, name.last⟩) ++
    name.last.places.map (Place.within (.item 1) fun last => ⟨name.nested, last⟩)

/-- The identifiers of a name, whichever variant it is. -/
def IdExpression.places : IdExpression → List (Place IdExpression)
  | .unqualified name => name.places.map (Place.within (.key "Unqualified") .unqualified)
  | .qualified name => name.places.map (Place.within (.key "Qualified") .qualified)

/-- The identifiers of a type name. A built-in type has none. -/
def TypeSpecifier.places : TypeSpecifier → List (Place TypeSpecifier)
  | .builtin _ => []
  | .named name => name.places.map (Place.within (.key "Identifier") .named)
  | .qualified name => name.pairPlaces.map (Place.within (.key "QualifiedIdentifier") .qualified)

/-- The identifiers of a specifier of a declaration. -/
def TypeSpecifier.declarationPlaces (specifier : TypeSpecifier) : List (Place TypeSpecifier) :=
  ((specifier.places.map (Place.within (.key "Simple") id)).map (Place.within (.key "Type") id)).map
    (Place.within (.key "DefiningType") id)

/-- The identifiers of all specifiers. -/
def SpecifierSequence.places (sequence : SpecifierSequence) : List (Place SpecifierSequence) :=
  (Place.ofItems TypeSpecifier.declarationPlaces sequence.specifiers).map
    (Place.within (.key "specifiers") SpecifierSequence.mk)

/-- The identifiers of the name. A parameter clause has none. -/
def Declarator.places (declarator : Declarator) : List (Place Declarator) :=
  declarator.id.places.map (Place.within (.key "id") fun id => ⟨id, declarator.parameters⟩)

namespace Codec

variable {α β : Type} {codec : Codec α} {whole : Codec β} {part : Codec α} {step : Json.Step}
  {build : α → β} {x : α} {place : Place α}

/-! ## What a place has to do with a codec -/

/-- The identifier of a place is written where its path leads to; any other identifier is written there
for the value that has it, and any other text is refused there. -/
structure Guards (codec : Codec α) (x : α) (place : Place α) : Prop where
  at?_eq : (codec.encode x).at? place.path = some (.string place.name.text)
  put_name : place.put place.name = x
  encode_put : ∀ other : Identifier,
    codec.encode (place.put other) = (codec.encode x).setAt place.path (.string other.text)
  decode_setAt : ∀ text, ¬ IsIdentifier text →
    codec.decode ((codec.encode x).setAt place.path (.string text)) =
      .error (.text (.invalidIdentifier text))

/-- A part of a value is written where a step leads to, and what is not read there is not read in the
whole, for the same reason. -/
structure Part (whole : Codec β) (part : Codec α) (step : Json.Step) (build : α → β) (x : α) :
    Prop where
  child?_eq : (whole.encode (build x)).child? step = some (part.encode x)
  encode_build : ∀ y,
    whole.encode (build y) = (whole.encode (build x)).setChild step (part.encode y)
  decode_setChild : ∀ tree e, part.decode tree = .error e →
    whole.decode ((whole.encode (build x)).setChild step tree) = .error e

/-- A place in a part is a place in the whole. -/
theorem Guards.within (guards : part.Guards x place) (inside : Part whole part step build x) :
    whole.Guards (build x) (place.within step build) := by
  have setAt : ∀ tree, (whole.encode (build x)).setAt (step :: place.path) tree =
      (whole.encode (build x)).setChild step ((part.encode x).setAt place.path tree) := by
    intro tree
    rw [Json.setAt, inside.child?_eq]
  constructor
  · show (whole.encode (build x)).at? (step :: place.path) = some (.string place.name.text)
    rw [Json.at?, inside.child?_eq]
    exact guards.at?_eq
  · exact congrArg build guards.put_name
  · intro other
    show whole.encode (build (place.put other)) = (whole.encode (build x)).setAt (step :: place.path) _
    rw [setAt, inside.encode_build, guards.encode_put]
  · intro text other
    show whole.decode ((whole.encode (build x)).setAt (step :: place.path) _) = _
    rw [setAt]
    exact inside.decode_setChild _ _ (guards.decode_setAt text other)

theorem Guards.text_eq (guards : codec.Guards x place) {text : String}
    (found : (codec.encode x).at? place.path = some (.string text)) : place.name.text = text := by
  rw [guards.at?_eq] at found
  cases found
  rfl

/-- What becomes of a written value when a text stands at the place of an identifier. -/
structure Checks (codec : Codec α) (x : α) (place : Place α) (text : String) : Prop where
  written : (codec.encode x).at? place.path = some (.string place.name.text)
  unchanged : place.put place.name = x
  accepted_iff : (∃ y, codec.decode ((codec.encode x).setAt place.path (.string text)) = .ok y) ↔
    IsWord text.toList
  value : ∀ y, codec.decode ((codec.encode x).setAt place.path (.string text)) = .ok y →
    ∃ other : Identifier, other.text = text ∧ y = place.put other ∧
      codec.encode y = (codec.encode x).setAt place.path (.string text)
  refused : ¬ IsWord text.toList →
    ∃ failure, codec.decode ((codec.encode x).setAt place.path (.string text)) = .error failure ∧
      failure.message? = some (Diagnostic.invalidIdentifier text).message

theorem Guards.checks {spells : α → Json → Prop} (guards : codec.Guards x place)
    (reads : codec.Reads spells) (text : String) : codec.Checks x place text := by
  have read : ∀ other : Identifier, codec.decode ((codec.encode x).setAt place.path
      (.string other.text)) = .ok (place.put other) := by
    intro other
    rw [← guards.encode_put]
    exact reads.decode_encode _
  have refused : ¬ IsWord text.toList → codec.decode ((codec.encode x).setAt place.path
      (.string text)) = .error (.text (.invalidIdentifier text)) := by
    intro other
    exact guards.decode_setAt text (mt isIdentifier_iff.1 other)
  have accepted : ∀ y, codec.decode ((codec.encode x).setAt place.path (.string text)) = .ok y →
      IsWord text.toList := by
    intro y accepted
    by_contra other
    rw [refused other] at accepted
    cases accepted
  constructor
  · exact guards.at?_eq
  · exact guards.put_name
  · constructor
    · rintro ⟨y, read⟩
      exact accepted y read
    · intro word
      exact ⟨_, read ⟨text, isIdentifier_iff.2 word⟩⟩
  · intro y given
    obtain ⟨other, rfl⟩ : ∃ other : Identifier, other.text = text :=
      ⟨⟨text, isIdentifier_iff.2 (accepted y given)⟩, rfl⟩
    obtain rfl : place.put other = y := Except.ok.inj ((read other).symm.trans given)
    exact ⟨other, rfl, rfl, guards.encode_put other⟩
  · intro other
    exact ⟨_, refused other, rfl⟩

/-! ## Parts of what is put together -/

namespace Part

variable {γ : Type} {spells : α → Json → Prop} {spells' : β → Json → Prop}

theorem map (inside : Part whole part step build x) {make : β → γ} {parts : γ → β}
    (parts_make : ∀ b, parts (make b) = b) :
    Part (whole.map make parts) part step (fun y => make (build y)) x := by
  have encode : ∀ b, (whole.map make parts).encode (make b) = whole.encode b := by
    intro b
    exact congrArg whole.encode (parts_make b)
  constructor
  · rw [encode]
    exact inside.child?_eq
  · intro y
    rw [encode, encode]
    exact inside.encode_build y
  · intro tree e refused
    rw [encode]
    show (whole.decode _).map make = .error e
    rw [inside.decode_setChild tree e refused]
    rfl

/-- The items of a list; those in front are read as they were written. -/
theorem item (reads : codec.Reads spells) {xs : List α} {i : Nat} (found : xs[i]? = some x) :
    Part codec.list codec (.item i) (fun y => xs.set i y) x := by
  obtain ⟨bound, rfl⟩ := List.getElem?_eq_some_iff.1 found
  have encode : ∀ y, codec.list.encode (xs.set i y) =
      .array ((xs.map codec.encode).set i (codec.encode y)) := by
    intro y
    rw [← List.map_set]
    rfl
  constructor
  · rw [encode, Json.child?, List.getElem?_set_self (by rwa [List.length_map])]
  · intro y
    rw [encode, encode, Json.setChild, List.set_set]
  · intro tree e refused
    rw [encode, Json.setChild, List.set_set]
    apply mapM_set_eq_error (by rwa [List.length_map]) _ refused
    intro written member
    obtain ⟨y, -, rfl⟩ := List.mem_map.1 member
    exact ⟨y, reads.decode_encode y⟩

theorem record (field : Field α) : Part (Codec.record field) field.codec (.key field.key) id x := by
  constructor
  · exact List.lookup_cons_self
  · intro y
    simp [Codec.record, Json.setChild]
  · intro tree e refused
    have written : ((Codec.record field).encode x).setChild (.key field.key) tree =
        .object [(field.key, tree)] := by
      simp [Codec.record, Json.setChild]
    have head : field.meet none (field.key, tree) = .error e := by
      rw [Field.meet_self, refused]
      rfl
    show (Codec.record field).decode (((Codec.record field).encode x).setChild _ tree) = .error e
    rw [written]
    exact bind_eq_error (foldlM_append_eq_error [] [] rfl head)

theorem recordPair_fst (first : Field α) (second : Field β) (distinct : second.key ≠ first.key)
    (y : β) : Part (Codec.recordPair first second) first.codec (.key first.key) (fun x => (x, y)) x := by
  constructor
  · exact List.lookup_cons_self
  · intro z
    simp [Codec.recordPair, Json.setChild, distinct]
  · intro tree e refused
    have written : ((Codec.recordPair first second).encode (x, y)).setChild (.key first.key) tree =
        .object [(first.key, tree), (second.key, second.codec.encode y)] := by
      simp [Codec.recordPair, Json.setChild, distinct]
    have head : meetPair first second (none, none) (first.key, tree) = .error e := by
      rw [meetPair, Field.meet_self, refused]
      rfl
    rw [written]
    exact bind_eq_error (foldlM_append_eq_error [] [_] rfl head)

theorem recordPair_snd (first : Field β) (second : Field α) (reads : first.codec.Reads spells')
    (distinct : second.key ≠ first.key) (y : β) :
    Part (Codec.recordPair first second) second.codec (.key second.key) (fun x => (y, x)) x := by
  constructor
  · show List.lookup second.key _ = _
    rw [List.lookup_cons, beq_eq_false_iff_ne.2 distinct]
    exact List.lookup_cons_self
  · intro z
    simp [Codec.recordPair, Json.setChild, distinct.symm]
  · intro tree e refused
    have written : ((Codec.recordPair first second).encode (y, x)).setChild (.key second.key) tree =
        .object [(first.key, first.codec.encode y), (second.key, tree)] := by
      simp [Codec.recordPair, Json.setChild, distinct.symm]
    have front : [(first.key, first.codec.encode y)].foldlM (meetPair first second) (none, none) =
        .ok (some y, none) := by
      rw [List.foldlM_cons, meetPair, Field.meet_self, reads.decode_encode,
        Field.meet_of_ne distinct.symm]
      rfl
    have last : meetPair first second (some y, none) (second.key, tree) = .error e := by
      rw [meetPair, Field.meet_of_ne distinct, Field.meet_self, refused]
      rfl
    rw [written]
    exact bind_eq_error (foldlM_append_eq_error [_] [] front last)

theorem pair_fst (first : Codec α) (second : Codec β) (y : β) :
    Part (first.pair second) first (.item 0) (fun x => (x, y)) x := by
  constructor
  · rfl
  · intro z
    rfl
  · intro tree e refused
    show decodePair first second [tree, second.encode y] = .error e
    simp [decodePair, decodeHead, refused, bind, Except.bind, Except.map]

theorem pair_snd (first : Codec β) (second : Codec α) (reads : first.Reads spells') (y : β) :
    Part (first.pair second) second (.item 1) (fun x => (y, x)) x := by
  constructor
  · rfl
  · intro z
    rfl
  · intro tree e refused
    show decodePair first second [first.encode y, tree] = .error e
    simp [decodePair, decodeHead, refused, reads.decode_encode, bind, Except.bind, Except.map]

/-- The payload of a variant. -/
theorem tagged {name : String} (encode : ∀ y, whole.encode (build y) = encodeVariant name (part.encode y))
    (decode : ∀ tree, whole.decode (encodeVariant name tree) = (part.decode tree).map build) :
    Part whole part (.key name) build x := by
  constructor
  · rw [encode]
    exact List.lookup_cons_self
  · intro y
    simp [encode, encodeVariant, Json.setChild]
  · intro tree e refused
    have written : (encodeVariant name (part.encode x)).setChild (.key name) tree =
        encodeVariant name tree := by
      simp [encodeVariant, Json.setChild]
    rw [encode, written, decode, refused]
    rfl

theorem variant (name : String) (codec : Codec α) :
    Part (Codec.variant name codec) codec (.key name) id x := by
  apply tagged
  · intro y
    rfl
  · intro tree
    show (if name = name then codec.decode tree else .error .shape) = (codec.decode tree).map id
    rw [if_pos rfl]
    cases codec.decode tree <;> rfl

end Part

theorem Guards.within_all {places : List (Place α)} (guards : ∀ place ∈ places, part.Guards x place)
    (inside : Part whole part step build x) :
    ∀ place ∈ places.map (Place.within step build), whole.Guards (build x) place := by
  intro place member
  obtain ⟨inner, listed, rfl⟩ := List.mem_map.1 member
  exact (guards inner listed).within inside

theorem Guards.ofItems {spells : α → Json → Prop} (reads : codec.Reads spells)
    {places : α → List (Place α)} (guards : ∀ x, ∀ place ∈ places x, codec.Guards x place)
    (xs : List α) : ∀ place ∈ Place.ofItems places xs, codec.list.Guards xs place := by
  intro place member
  obtain ⟨⟨x, i⟩, listed, member⟩ := List.mem_flatMap.1 member
  have found : xs[i]? = some x := List.mem_zipIdx_iff_getElem?.1 listed
  have same : xs.set i x = xs := by
    obtain ⟨bound, rfl⟩ := List.getElem?_eq_some_iff.1 found
    exact List.set_getElem_self bound
  have inside := within_all (guards x) (Part.item reads found) place member
  rwa [same] at inside

end Codec

/-! ## Identifiers of nodes -/

theorem Identifier.guards (name : Identifier) :
    ∀ place ∈ name.places, Identifier.codec.Guards name place := by
  intro place member
  obtain rfl := List.mem_singleton.1 member
  constructor
  · rfl
  · rfl
  · intro other
    rfl
  · intro text other
    show (Identifier.ofString text).mapError DecodeError.text = _
    rw [Identifier.ofString_eq_error_iff.2 ⟨other, rfl⟩]
    rfl

theorem NestedName.guards (nested : NestedName) :
    ∀ place ∈ nested.places, NestedName.codec.Guards nested place := by
  have segments := Codec.Guards.ofItems Identifier.codec_reads Identifier.guards nested.segments
  have inside : Codec.Part codec Identifier.codec.list (.key "segments") NestedName.mk
      nested.segments :=
    (Codec.Part.record (.required "segments" Identifier.codec.list)).map fun _ => rfl
  exact Codec.Guards.within_all segments inside

theorem QualifiedName.guards (name : QualifiedName) :
    ∀ place ∈ name.places, QualifiedName.codec.Guards name place := by
  have front : Codec.Part codec NestedName.codec (.key "nested") (fun nested => ⟨nested, name.last⟩)
      name.nested :=
    (Codec.Part.recordPair_fst (.required "nested" NestedName.codec)
      (.required "unqualified" Identifier.codec) (by decide) name.last).map fun _ => rfl
  have back : Codec.Part codec Identifier.codec (.key "unqualified") (fun last => ⟨name.nested, last⟩)
      name.last :=
    (Codec.Part.recordPair_snd (.required "nested" NestedName.codec)
      (.required "unqualified" Identifier.codec) NestedName.codec_reads (by decide)
      name.nested).map fun _ => rfl
  exact List.forall_mem_append.2 ⟨Codec.Guards.within_all name.nested.guards front,
    Codec.Guards.within_all name.last.guards back⟩

theorem QualifiedName.pairGuards (name : QualifiedName) :
    ∀ place ∈ name.pairPlaces, QualifiedName.pairCodec.Guards name place := by
  have front : Codec.Part pairCodec NestedName.codec (.item 0) (fun nested => ⟨nested, name.last⟩)
      name.nested :=
    (Codec.Part.pair_fst NestedName.codec Identifier.codec name.last).map fun _ => rfl
  have back : Codec.Part pairCodec Identifier.codec (.item 1) (fun last => ⟨name.nested, last⟩)
      name.last :=
    (Codec.Part.pair_snd NestedName.codec Identifier.codec NestedName.codec_reads
      name.nested).map fun _ => rfl
  exact List.forall_mem_append.2 ⟨Codec.Guards.within_all name.nested.guards front,
    Codec.Guards.within_all name.last.guards back⟩

theorem IdExpression.part_unqualified (name : Identifier) :
    Codec.Part codec Identifier.codec (.key "Unqualified") .unqualified name :=
  .tagged (fun _ => rfl) fun _ => rfl

theorem IdExpression.part_qualified (name : QualifiedName) :
    Codec.Part codec QualifiedName.codec (.key "Qualified") .qualified name :=
  .tagged (fun _ => rfl) fun _ => rfl

theorem IdExpression.guards (id : IdExpression) :
    ∀ place ∈ id.places, IdExpression.codec.Guards id place := by
  cases id with
  | unqualified name => exact Codec.Guards.within_all name.guards (part_unqualified name)
  | qualified name => exact Codec.Guards.within_all name.guards (part_qualified name)

theorem TypeSpecifier.part_named (name : Identifier) :
    Codec.Part codec Identifier.codec (.key "Identifier") .named name :=
  .tagged (fun _ => rfl) fun _ => rfl

theorem TypeSpecifier.part_qualified (name : QualifiedName) :
    Codec.Part codec QualifiedName.pairCodec (.key "QualifiedIdentifier") .qualified name :=
  .tagged (fun _ => rfl) fun _ => rfl

theorem TypeSpecifier.guards (specifier : TypeSpecifier) :
    ∀ place ∈ specifier.places, TypeSpecifier.codec.Guards specifier place := by
  cases specifier with
  | builtin type =>
    intro place member
    cases member
  | named name => exact Codec.Guards.within_all name.guards (part_named name)
  | qualified name => exact Codec.Guards.within_all name.pairGuards (part_qualified name)

theorem TypeSpecifier.declarationGuards (specifier : TypeSpecifier) :
    ∀ place ∈ specifier.declarationPlaces, declarationCodec.Guards specifier place := by
  have simple := Codec.Guards.within_all specifier.guards (Codec.Part.variant "Simple" codec)
  have defining := Codec.Guards.within_all simple (Codec.Part.variant "Type" simpleCodec)
  exact Codec.Guards.within_all defining (Codec.Part.variant "DefiningType" definingCodec)

theorem SpecifierSequence.guards (sequence : SpecifierSequence) :
    ∀ place ∈ sequence.places, SpecifierSequence.codec.Guards sequence place := by
  have specifiers := Codec.Guards.ofItems TypeSpecifier.declarationCodec_reads
    TypeSpecifier.declarationGuards sequence.specifiers
  have inside : Codec.Part codec TypeSpecifier.declarationCodec.list (.key "specifiers")
      SpecifierSequence.mk sequence.specifiers :=
    (Codec.Part.record (.required "specifiers" TypeSpecifier.declarationCodec.list)).map fun _ => rfl
  exact Codec.Guards.within_all specifiers inside

theorem Declarator.guards (declarator : Declarator) :
    ∀ place ∈ declarator.places, Declarator.codec.Guards declarator place := by
  have inside : Codec.Part codec IdExpression.codec (.key "id")
      (fun id => ⟨id, declarator.parameters⟩) declarator.id :=
    (Codec.Part.recordPair_fst (.required "id" IdExpression.codec)
      (.optional "parameters" ParameterClause.codec) (by decide) declarator.parameters).map
      fun _ => rfl
  exact Codec.Guards.within_all declarator.id.guards inside

/-! ## No text without a place -/

variable {path : List Json.Step} {text : String}

theorem Identifier.exists_place {name : Identifier}
    (found : (codec.encode name).at? path = some (.string text)) :
    ∃ place ∈ name.places, place.path = path := by
  obtain ⟨rfl, -⟩ := Json.eq_of_at?_string found
  exact ⟨_, List.mem_singleton.2 rfl, rfl⟩

theorem NestedName.exists_place {nested : NestedName}
    (found : (codec.encode nested).at? path = some (.string text)) :
    ∃ place ∈ nested.places, place.path = path := by
  obtain ⟨path, rfl, items⟩ := Json.exists_of_at?_single found
  obtain ⟨i, tree, rest, rfl, written, inside⟩ := Json.exists_of_at?_array items
  rw [List.getElem?_map] at written
  obtain ⟨segment, at_i, rfl⟩ := Option.map_eq_some_iff.1 written
  exact Place.exists_within (Place.exists_ofItems at_i (Identifier.exists_place inside))

theorem QualifiedName.exists_place {name : QualifiedName}
    (found : (codec.encode name).at? path = some (.string text)) :
    ∃ place ∈ name.places, place.path = path := by
  obtain ⟨key, tree, rest, rfl, member, inside⟩ := Json.exists_of_at?_object found
  rcases List.mem_cons.1 member with same | member
  · cases same
    obtain ⟨place, listed, same⟩ := Place.exists_within (NestedName.exists_place inside)
    exact ⟨place, List.mem_append_left _ listed, same⟩
  · cases List.mem_singleton.1 member
    obtain ⟨place, listed, same⟩ := Place.exists_within (Identifier.exists_place inside)
    exact ⟨place, List.mem_append_right _ listed, same⟩

theorem QualifiedName.exists_pairPlace {name : QualifiedName}
    (found : (pairCodec.encode name).at? path = some (.string text)) :
    ∃ place ∈ name.pairPlaces, place.path = path := by
  rcases Json.exists_of_at?_pair found with ⟨rest, rfl, inside⟩ | ⟨rest, rfl, inside⟩
  · obtain ⟨place, listed, same⟩ := Place.exists_within (NestedName.exists_place inside)
    exact ⟨place, List.mem_append_left _ listed, same⟩
  · obtain ⟨place, listed, same⟩ := Place.exists_within (Identifier.exists_place inside)
    exact ⟨place, List.mem_append_right _ listed, same⟩

theorem IdExpression.exists_place {id : IdExpression}
    (found : (codec.encode id).at? path = some (.string text)) :
    ∃ place ∈ id.places, place.path = path := by
  cases id with
  | unqualified name =>
    obtain ⟨rest, rfl, inside⟩ := Json.exists_of_at?_single found
    exact Place.exists_within (Identifier.exists_place inside)
  | qualified name =>
    obtain ⟨rest, rfl, inside⟩ := Json.exists_of_at?_single found
    exact Place.exists_within (QualifiedName.exists_place inside)

theorem TypeSpecifier.exists_place {specifier : TypeSpecifier}
    (found : (codec.encode specifier).at? path = some (.string text)) :
    (∃ place ∈ specifier.places, place.path = path) ∨
      ∃ type, specifier = .builtin type ∧ path = [] ∧ type.variantName = text := by
  cases specifier with
  | builtin type => exact .inr ⟨type, rfl, Json.eq_of_at?_string found⟩
  | named name =>
    obtain ⟨rest, rfl, inside⟩ := Json.exists_of_at?_single found
    exact .inl (Place.exists_within (Identifier.exists_place inside))
  | qualified name =>
    obtain ⟨rest, rfl, inside⟩ := Json.exists_of_at?_single found
    exact .inl (Place.exists_within (QualifiedName.exists_pairPlace inside))

theorem TypeSpecifier.exists_declarationPlace {specifier : TypeSpecifier}
    (found : (declarationCodec.encode specifier).at? path = some (.string text)) :
    (∃ place ∈ specifier.declarationPlaces, place.path = path) ∨
      ∃ type, specifier = .builtin type ∧
        path = [.key "DefiningType", .key "Type", .key "Simple"] ∧ type.variantName = text := by
  obtain ⟨path, rfl, defining⟩ := Json.exists_of_at?_single found
  obtain ⟨path, rfl, simple⟩ := Json.exists_of_at?_single defining
  obtain ⟨path, rfl, inside⟩ := Json.exists_of_at?_single simple
  rcases TypeSpecifier.exists_place inside with place | ⟨type, rfl, rfl, name⟩
  · exact .inl (Place.exists_within (Place.exists_within (Place.exists_within place)))
  · exact .inr ⟨type, rfl, rfl, name⟩

theorem SpecifierSequence.exists_place {sequence : SpecifierSequence}
    (found : (codec.encode sequence).at? path = some (.string text)) :
    (∃ place ∈ sequence.places, place.path = path) ∨
      ∃ i type, sequence.specifiers[i]? = some (.builtin type) ∧
        path = [.key "specifiers", .item i, .key "DefiningType", .key "Type", .key "Simple"] ∧
        type.variantName = text := by
  obtain ⟨path, rfl, items⟩ := Json.exists_of_at?_single found
  obtain ⟨i, tree, rest, rfl, written, inside⟩ := Json.exists_of_at?_array items
  rw [List.getElem?_map] at written
  obtain ⟨specifier, at_i, rfl⟩ := Option.map_eq_some_iff.1 written
  rcases TypeSpecifier.exists_declarationPlace inside with place | ⟨type, rfl, rfl, name⟩
  · exact .inl (Place.exists_within (Place.exists_ofItems at_i place))
  · exact .inr ⟨i, type, at_i, rfl, name⟩

theorem SpecifierSequence.at?_builtin {sequence : SpecifierSequence} {i : Nat} {type : BuiltinType}
    (at_i : sequence.specifiers[i]? = some (.builtin type)) :
    (codec.encode sequence).at?
        [.key "specifiers", .item i, .key "DefiningType", .key "Type", .key "Simple"] =
      some (.string type.variantName) := by
  show ((sequence.specifiers.map TypeSpecifier.declarationCodec.encode)[i]?).bind _ = _
  rw [List.getElem?_map, at_i]
  rfl

theorem ParameterClause.at?_encode_ne {clause? : Option ParameterClause} :
    (ParameterClause.codec.option.encode clause?).at? path ≠ some (.string text) := by
  intro found
  cases clause? with
  | none => exact Json.at?_null_ne found
  | some clause =>
    obtain ⟨path, rfl, content⟩ := Json.exists_of_at?_single found
    obtain ⟨path, rfl, inside⟩ := Json.exists_of_at?_single content
    exact Json.at?_bool_ne inside

theorem Declarator.exists_place {declarator : Declarator}
    (found : (codec.encode declarator).at? path = some (.string text)) :
    ∃ place ∈ declarator.places, place.path = path := by
  obtain ⟨key, tree, rest, rfl, member, inside⟩ := Json.exists_of_at?_object found
  rcases List.mem_cons.1 member with same | member
  · cases same
    exact Place.exists_within (IdExpression.exists_place inside)
  · cases List.mem_singleton.1 member
    exact absurd inside ParameterClause.at?_encode_ne

/-! ## Every text is checked -/

/-- **No other text passes for an identifier.** The texts in the written form of a declarator are those
of its identifiers, and in that of a sequence of specifiers there are the names of built-in types besides.
With any text at the place of an identifier, the tree is read just if the text is an identifier, and then
as the value that has this identifier there and is the same elsewhere; otherwise the failure says that this
text is none. -/
theorem identifier_texts_checked :
    (∀ declarator : Declarator,
      (∀ path text, (Declarator.codec.encode declarator).at? path = some (.string text) ↔
        ∃ place ∈ declarator.places, place.path = path ∧ place.name.text = text) ∧
      ∀ place ∈ declarator.places, ∀ text, Declarator.codec.Checks declarator place text) ∧
    ∀ sequence : SpecifierSequence,
      (∀ path text, (SpecifierSequence.codec.encode sequence).at? path = some (.string text) ↔
        (∃ place ∈ sequence.places, place.path = path ∧ place.name.text = text) ∨
          ∃ i type, sequence.specifiers[i]? = some (.builtin type) ∧
            path = [.key "specifiers", .item i, .key "DefiningType", .key "Type", .key "Simple"] ∧
            type.variantName = text) ∧
      ∀ place ∈ sequence.places, ∀ text, SpecifierSequence.codec.Checks sequence place text := by
  constructor
  · intro declarator
    constructor
    · intro path text
      constructor
      · intro found
        obtain ⟨place, listed, rfl⟩ := Declarator.exists_place found
        exact ⟨place, listed, rfl, (declarator.guards place listed).text_eq found⟩
      · rintro ⟨place, listed, rfl, rfl⟩
        exact (declarator.guards place listed).at?_eq
    · intro place listed text
      exact (declarator.guards place listed).checks Declarator.codec_reads text
  · intro sequence
    constructor
    · intro path text
      constructor
      · intro found
        rcases SpecifierSequence.exists_place found with ⟨place, listed, rfl⟩ | builtin
        · have written := (sequence.guards place listed).at?_eq
          rw [found] at written
          cases written
          exact .inl ⟨place, listed, rfl, rfl⟩
        · exact .inr builtin
      · rintro (⟨place, listed, rfl, rfl⟩ | ⟨i, type, at_i, rfl, rfl⟩)
        · exact (sequence.guards place listed).at?_eq
        · exact SpecifierSequence.at?_builtin at_i
    · intro place listed text
      exact (sequence.guards place listed).checks SpecifierSequence.codec_reads text

/-- The second scope of a qualified name, with an identifier in its place and with another text. -/
theorem identifier_texts_checked_segment :
    let declarator : Declarator :=
      ⟨.qualified ⟨⟨[⟨"a", by decide⟩, ⟨"b", by decide⟩]⟩, ⟨"f", by decide⟩⟩, some .variadic⟩
    let path : List Json.Step :=
      [.key "id", .key "Qualified", .key "nested", .key "segments", .item 1]
    ∃ place ∈ declarator.places, place.path = path ∧ place.name.text = "b" ∧
      (∃ y, Declarator.codec.decode
        ((Declarator.codec.encode declarator).setAt path (.string "c1")) = .ok y) ∧
      ∃ failure, Declarator.codec.decode
          ((Declarator.codec.encode declarator).setAt path (.string "1x")) = .error failure ∧
        failure.message? = some (Diagnostic.invalidIdentifier "1x").message := by
  intro declarator path
  obtain ⟨places, checks⟩ := identifier_texts_checked.1 declarator
  obtain ⟨place, listed, same, name⟩ := (places path "b").1 (by rfl)
  have accepted := (checks place listed "c1").accepted_iff
  have refused := (checks place listed "1x").refused
  rw [same] at accepted refused
  refine ⟨place, listed, same, name, accepted.2 ?_, refused ?_⟩
  · exact isIdentifier_iff.1 (by decide)
  · exact mt isIdentifier_iff.2 (by decide)

end FunctionSymbols
