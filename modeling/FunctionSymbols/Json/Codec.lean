import FunctionSymbols.Json

/-!
# Codecs

A `Codec` writes values to JSON trees and reads them back. Reading accepts more spellings than writing
produces: a record may be an object, with other keys as well, or the array of its fields, and a
variant without payload may be a string or an object that gives it `null`. The first failure counts;
fields are met in the order in which the object has them, and a second value for one is a failure.
-/

namespace FunctionSymbols

/-- A way to write values of a type and to read them back. -/
structure Codec (α : Type) where
  encode : α → Json
  decode : Json → Except DecodeError α

namespace Codec

variable {α β : Type}

/-- The written form of values that are the same as others in all but name. -/
def map (codec : Codec α) (make : α → β) (parts : β → α) : Codec β where
  encode b := codec.encode (parts b)
  decode j := (codec.decode j).map make

/-- Truth values. -/
def bool : Codec Bool where
  encode := .bool
  decode
    | .bool b => .ok b
    | _ => .error .shape

/-- Arrays of any length. -/
def list (codec : Codec α) : Codec (List α) where
  encode xs := .array (xs.map codec.encode)
  decode
    | .array items => items.mapM codec.decode
    | _ => .error .shape

/-- Values that may be missing, which is written `null`. -/
def option (codec : Codec α) : Codec (Option α) where
  encode
    | none => .null
    | some x => codec.encode x
  decode
    | .null => .ok none
    | j => (codec.decode j).map some

/-- Reads the first item of an array. -/
def decodeHead (codec : Codec α) : List Json → Except DecodeError (α × List Json)
  | [] => .error .shape
  | j :: rest => (codec.decode j).map fun x => (x, rest)

/-- Reads an array of exactly one item. -/
def decodeSingle (codec : Codec α) (items : List Json) : Except DecodeError α := do
  let (x, rest) ← codec.decodeHead items
  if rest.isEmpty then return x else throw .shape

/-- Reads an array of exactly two items. -/
def decodePair (first : Codec α) (second : Codec β) (items : List Json) :
    Except DecodeError (α × β) := do
  let (x, rest) ← first.decodeHead items
  let (y, rest) ← second.decodeHead rest
  if rest.isEmpty then return (x, y) else throw .shape

/-- Pairs as arrays. -/
def pair (first : Codec α) (second : Codec β) : Codec (α × β) where
  encode p := .array [first.encode p.1, second.encode p.2]
  decode
    | .array items => decodePair first second items
    | _ => .error .shape

/-- A field of a record, with the value that stands for it if an object does not have its key. -/
structure Field (α : Type) where
  key : String
  codec : Codec α
  absent : Option α

/-- A field that an object has to have. -/
def Field.required (key : String) (codec : Codec α) : Field α := ⟨key, codec, none⟩

/-- A field that an object may leave out. -/
def Field.optional (key : String) (codec : Codec α) : Field (Option α) :=
  ⟨key, codec.option, some none⟩

/-- What is known of a field behind the next key of an object: its value once its key has been met,
which may be met only once. -/
def Field.meet (field : Field α) (found : Option α) (entry : String × Json) :
    Except DecodeError (Option α) :=
  if entry.1 = field.key then
    match found with
    | none => (field.codec.decode entry.2).map some
    | some _ => .error .shape
  else .ok found

/-- What is known of two fields behind the next key of an object. -/
def meetPair (first : Field α) (second : Field β) (found : Option α × Option β)
    (entry : String × Json) : Except DecodeError (Option α × Option β) := do
  let x ← first.meet found.1 entry
  let y ← second.meet found.2 entry
  return (x, y)

/-- Records of one field. -/
def record (field : Field α) : Codec α where
  encode x := .object [(field.key, field.codec.encode x)]
  decode
    | .object fields => do
      let found ← fields.foldlM field.meet none
      match found.or field.absent with
      | some x => return x
      | none => throw .shape
    | .array items => decodeSingle field.codec items
    | _ => .error .shape

/-- Records of two fields. All keys that an object has are read before a missing one counts. -/
def recordPair (first : Field α) (second : Field β) : Codec (α × β) where
  encode p :=
    .object [(first.key, first.codec.encode p.1), (second.key, second.codec.encode p.2)]
  decode
    | .object fields => do
      let (x, y) ← fields.foldlM (meetPair first second) (none, none)
      match x.or first.absent, y.or second.absent with
      | some x, some y => return (x, y)
      | _, _ => throw .shape
    | .array items => decodePair first.codec second.codec items
    | _ => .error .shape

/-- A variant with its payload, if the value can be one at all. -/
def variant? : Json → Option (String × Option Json)
  | .string name => some (name, none)
  | .object [(name, payload)] => some (name, some payload)
  | _ => none

/-- A variant with this payload. -/
def encodeVariant (name : String) (payload : Json) : Json := .object [(name, payload)]

/-- The only variant of its type. -/
def variant (name : String) (codec : Codec α) : Codec α where
  encode x := encodeVariant name (codec.encode x)
  decode j :=
    match variant? j with
    | some (other, some payload) => if other = name then codec.decode payload else .error .shape
    | _ => .error .shape

end Codec

end FunctionSymbols
