import FunctionSymbols.Json.NodeType
import FunctionSymbols.Proofs.JsonSpelling

/-!
# Spellings of nodes

Every node type has its spellings, put together as the type is. What the codec of a type writes is one of
them, and what it reads are all of them, each as the value that it spells.
-/

namespace FunctionSymbols

/-! ## Leaves -/

/-- A tag is a number in decimal without a point. -/
def Tag.SpellsJson : Tag → Json → Prop := SpellsOnly fun tag => .number tag.raw.toNat 0

/-- An identifier is its text. -/
def Identifier.SpellsJson : Identifier → Json → Prop := SpellsOnly fun name => .string name.text

theorem stringCodec_reads : stringCodec.Reads (SpellsOnly Json.string) := by
  apply Codec.Reads.only
  · intro text
    rfl
  · intro j text read
    cases j with
    | string other =>
      cases read
      rfl
    | _ => cases read

theorem Codec.bool_reads : Codec.bool.Reads (SpellsOnly Json.bool) := by
  apply Codec.Reads.only
  · intro flag
    rfl
  · intro j flag read
    cases j with
    | bool other =>
      cases read
      rfl
    | _ => cases read

theorem Tag.codec_reads : Tag.codec.Reads Tag.SpellsJson := by
  apply Codec.Reads.only
  · intro tag
    show (if tag.raw.toNat < UInt32.size then Except.ok ⟨.ofNat tag.raw.toNat⟩
      else .error DecodeError.shape) = .ok tag
    rw [if_pos tag.raw.toNat_lt_size, UInt32.ofNat_toNat]
  · intro j tag read
    unfold Tag.codec at read
    dsimp only at read
    split at read
    · next n =>
      split at read
      · next bound =>
        cases read
        have same : (UInt32.ofNat n).toNat = n := UInt32.toNat_ofNat_of_lt bound
        show Json.number (.ofNat n) 0 = .number (.ofNat (UInt32.ofNat n).toNat) 0
        rw [same]
      · cases read
    · cases read

theorem Identifier.codec_reads : Identifier.codec.Reads Identifier.SpellsJson := by
  have decode : ∀ text, Identifier.codec.decode (.string text) =
      (Identifier.ofString text).mapError .text := fun _ => rfl
  apply Codec.Reads.only
  · intro name
    show Identifier.codec.decode (.string name.text) = .ok name
    rw [decode, ofString_eq_ok_iff.2 rfl]
    rfl
  · intro j name read
    cases j with
    | string text =>
      rw [decode] at read
      cases checked : Identifier.ofString text with
      | error d =>
        rw [checked] at read
        cases read
      | ok other =>
        rw [checked] at read
        cases read
        exact congrArg Json.string (ofString_eq_ok_iff.1 checked).symm
    | _ => cases read

/-! ## Names -/

/-- The scopes of a name. -/
def NestedName.SpellsJson (nested : NestedName) : Json → Prop :=
  SpellsRecord "segments" none (SpellsItems Identifier.SpellsJson) nested.segments

/-- A qualified name as a record. -/
def QualifiedName.SpellsJson (name : QualifiedName) : Json → Prop :=
  SpellsRecordPair "nested" none NestedName.SpellsJson "unqualified" none Identifier.SpellsJson
    (name.nested, name.last)

/-- A qualified name as a pair. -/
def QualifiedName.SpellsAsPair (name : QualifiedName) : Json → Prop :=
  SpellsPair NestedName.SpellsJson Identifier.SpellsJson (name.nested, name.last)

/-- The variants of names. -/
inductive IdExpression.SpellsJson : IdExpression → Json → Prop
  | unqualified {name : Identifier} {j : Json}
      (variant : SpellsVariant "Unqualified" Identifier.SpellsJson name j) :
    SpellsJson (.unqualified name) j
  | qualified {name : QualifiedName} {j : Json}
      (variant : SpellsVariant "Qualified" QualifiedName.SpellsJson name j) :
    SpellsJson (.qualified name) j

theorem NestedName.codec_reads : NestedName.codec.Reads NestedName.SpellsJson := by
  have segments := Codec.Reads.record (.required "segments" Identifier.codec.list)
    Identifier.codec_reads.list
  exact segments.map (fun _ => rfl) fun _ => rfl

theorem QualifiedName.codec_reads : QualifiedName.codec.Reads QualifiedName.SpellsJson := by
  have parts := Codec.Reads.recordPair (.required "nested" NestedName.codec)
    (.required "unqualified" Identifier.codec) NestedName.codec_reads Identifier.codec_reads
    (by decide)
  exact parts.map (fun _ => rfl) fun _ => rfl

theorem QualifiedName.pairCodec_reads :
    QualifiedName.pairCodec.Reads QualifiedName.SpellsAsPair := by
  have parts := NestedName.codec_reads.pair Identifier.codec_reads
  exact parts.map (fun _ => rfl) fun _ => rfl

theorem IdExpression.codec_reads : IdExpression.codec.Reads IdExpression.SpellsJson := by
  constructor
  · intro id
    cases id with
    | unqualified name => exact .unqualified (.object (Identifier.codec_reads.encode name))
    | qualified name => exact .qualified (.object (QualifiedName.codec_reads.encode name))
  · intro j id
    constructor
    · intro read
      unfold IdExpression.codec at read
      dsimp only at read
      split at read
      · next payload given =>
        obtain ⟨name, spelled, rfl⟩ := Identifier.codec_reads.map_decode_iff.1 read
        obtain rfl := Codec.variant?_eq_some_payload_iff.1 given
        exact .unqualified (.object spelled)
      · next payload given =>
        obtain ⟨name, spelled, rfl⟩ := QualifiedName.codec_reads.map_decode_iff.1 read
        obtain rfl := Codec.variant?_eq_some_payload_iff.1 given
        exact .qualified (.object spelled)
      · cases read
    · rintro (⟨⟨spelled⟩⟩ | ⟨⟨spelled⟩⟩)
      · exact Identifier.codec_reads.map_decode_iff.2 ⟨_, spelled, rfl⟩
      · exact QualifiedName.codec_reads.map_decode_iff.2 ⟨_, spelled, rfl⟩

/-! ## Specifiers -/

/-- The variants of type specifiers; those of built-in types have no payload. -/
inductive TypeSpecifier.SpellsJson : TypeSpecifier → Json → Prop
  | builtin {type : BuiltinType} {j : Json} (variant : SpellsUnit type.variantName j) :
    SpellsJson (.builtin type) j
  | named {name : Identifier} {j : Json}
      (variant : SpellsVariant "Identifier" Identifier.SpellsJson name j) :
    SpellsJson (.named name) j
  | qualified {name : QualifiedName} {j : Json}
      (variant : SpellsVariant "QualifiedIdentifier" QualifiedName.SpellsAsPair name j) :
    SpellsJson (.qualified name) j

/-- A type specifier in the layer of the grammar above. -/
def TypeSpecifier.SpellsSimple : TypeSpecifier → Json → Prop :=
  SpellsVariant "Simple" TypeSpecifier.SpellsJson

/-- A type specifier two layers of the grammar above. -/
def TypeSpecifier.SpellsDefining : TypeSpecifier → Json → Prop :=
  SpellsVariant "Type" TypeSpecifier.SpellsSimple

/-- A type specifier as a specifier of a declaration. -/
def TypeSpecifier.SpellsDeclaration : TypeSpecifier → Json → Prop :=
  SpellsVariant "DefiningType" TypeSpecifier.SpellsDefining

/-- The list of the specifiers of a declaration. -/
def SpecifierSequence.SpellsJson (sequence : SpecifierSequence) : Json → Prop :=
  SpellsRecord "specifiers" none (SpellsItems TypeSpecifier.SpellsDeclaration) sequence.specifiers

theorem BuiltinType.ofVariantName?_eq_some_iff {name : String} {type : BuiltinType} :
    ofVariantName? name = some type ↔ name = type.variantName :=
  (find?_all_eq_some_iff (by decide)).trans eq_comm

theorem TypeSpecifier.codec_reads : TypeSpecifier.codec.Reads TypeSpecifier.SpellsJson := by
  constructor
  · intro specifier
    cases specifier with
    | builtin type => exact .builtin .string
    | named name => exact .named (.object (Identifier.codec_reads.encode name))
    | qualified name => exact .qualified (.object (QualifiedName.pairCodec_reads.encode name))
  · intro j specifier
    constructor
    · intro read
      unfold TypeSpecifier.codec at read
      dsimp only at read
      split at read
      · next payload given =>
        obtain ⟨name, spelled, rfl⟩ := Identifier.codec_reads.map_decode_iff.1 read
        obtain rfl := Codec.variant?_eq_some_payload_iff.1 given
        exact .named (.object spelled)
      · next payload given =>
        obtain ⟨name, spelled, rfl⟩ := QualifiedName.pairCodec_reads.map_decode_iff.1 read
        obtain rfl := Codec.variant?_eq_some_payload_iff.1 given
        exact .qualified (.object spelled)
      · next given =>
        split at read
        · next type found =>
          cases read
          obtain rfl := BuiltinType.ofVariantName?_eq_some_iff.1 found
          exact .builtin (Codec.spellsUnit_iff.2 (.inl given))
        · cases read
      · next given =>
        split at read
        · next type found =>
          cases read
          obtain rfl := BuiltinType.ofVariantName?_eq_some_iff.1 found
          exact .builtin (Codec.spellsUnit_iff.2 (.inr given))
        · cases read
      · cases read
    · intro spelled
      cases spelled with
      | @builtin type j variant => cases variant <;> cases type <;> rfl
      | named variant =>
        obtain ⟨spelled⟩ := variant
        exact Identifier.codec_reads.map_decode_iff.2 ⟨_, spelled, rfl⟩
      | qualified variant =>
        obtain ⟨spelled⟩ := variant
        exact QualifiedName.pairCodec_reads.map_decode_iff.2 ⟨_, spelled, rfl⟩

theorem TypeSpecifier.simpleCodec_reads : simpleCodec.Reads SpellsSimple :=
  codec_reads.variant "Simple"

theorem TypeSpecifier.definingCodec_reads : definingCodec.Reads SpellsDefining :=
  simpleCodec_reads.variant "Type"

theorem TypeSpecifier.declarationCodec_reads : declarationCodec.Reads SpellsDeclaration :=
  definingCodec_reads.variant "DefiningType"

theorem SpecifierSequence.codec_reads : SpecifierSequence.codec.Reads SpecifierSequence.SpellsJson := by
  have specifiers := Codec.Reads.record (.required "specifiers" TypeSpecifier.declarationCodec.list)
    TypeSpecifier.declarationCodec_reads.list
  exact specifiers.map (fun _ => rfl) fun _ => rfl

/-! ## Tokens -/

/-- A token is its lexeme and its tag. -/
def Token.SpellsJson (token : Token) : Json → Prop :=
  SpellsRecordPair "lexeme" none (SpellsOnly Json.string) "tag" none Tag.SpellsJson
    (token.lexeme, token.tag)

theorem Token.codec_reads : Token.codec.Reads Token.SpellsJson := by
  have parts := Codec.Reads.recordPair (.required "lexeme" stringCodec) (.required "tag" Tag.codec)
    stringCodec_reads Tag.codec_reads (by decide)
  exact parts.map (fun _ => rfl) fun _ => rfl

/-! ## Declarators -/

/-- What stands between parentheses. -/
def ParameterClause.SpellsContent (clause : ParameterClause) : Json → Prop :=
  SpellsRecord "ellipsis" none (SpellsOnly Json.bool) clause.isVariadic

/-- A parameter clause. -/
def ParameterClause.SpellsJson : ParameterClause → Json → Prop :=
  SpellsRecord "clause" none ParameterClause.SpellsContent

/-- A declarator; its parameter clause may be `null`, and an object may leave it out then. -/
def Declarator.SpellsJson (declarator : Declarator) : Json → Prop :=
  SpellsRecordPair "id" none IdExpression.SpellsJson
    "parameters" (some none) (SpellsOption ParameterClause.SpellsJson)
    (declarator.id, declarator.parameters)

theorem ParameterClause.contentCodec_reads : contentCodec.Reads SpellsContent := by
  have ellipsis := Codec.Reads.record (.required "ellipsis" Codec.bool) Codec.bool_reads
  exact ellipsis.map ofIsVariadic_isVariadic isVariadic_ofIsVariadic

theorem ParameterClause.codec_reads : ParameterClause.codec.Reads ParameterClause.SpellsJson :=
  Codec.Reads.record (.required "clause" ParameterClause.contentCodec) contentCodec_reads

theorem ParameterClause.not_spells_null (clause : ParameterClause) : ¬ clause.SpellsJson .null := by
  intro spelled
  cases spelled

theorem Declarator.codec_reads : Declarator.codec.Reads Declarator.SpellsJson := by
  have parts := Codec.Reads.recordPair (.required "id" IdExpression.codec)
    (.optional "parameters" ParameterClause.codec) IdExpression.codec_reads
    (ParameterClause.codec_reads.option ParameterClause.not_spells_null) (by decide)
  exact parts.map (fun _ => rfl) fun _ => rfl

/-! ## Node types -/

namespace NodeType

/-- The spellings of the values of a node type. -/
def SpellsJson : (type : NodeType) → type.Carrier → Json → Prop
  | tag => Tag.SpellsJson
  | token => Token.SpellsJson
  | identifier | unqualifiedId => Identifier.SpellsJson
  | nestedNameSpecifier => NestedName.SpellsJson
  | qualifiedId => QualifiedName.SpellsJson
  | idExpression | declaratorId => IdExpression.SpellsJson
  | simpleTypeSpecifier => TypeSpecifier.SpellsJson
  | typeSpecifier => TypeSpecifier.SpellsSimple
  | definingTypeSpecifier => TypeSpecifier.SpellsDefining
  | declarationSpecifier => TypeSpecifier.SpellsDeclaration
  | declarationSpecifierSequence => SpecifierSequence.SpellsJson
  | parameterDeclarationClause => ParameterClause.SpellsContent
  | parametersAndQualifiers => ParameterClause.SpellsJson
  | noptrDeclarator | ptrDeclarator | declarator => Declarator.SpellsJson

theorem codec_reads (type : NodeType) : type.codec.Reads type.SpellsJson := by
  cases type with
  | tag => exact Tag.codec_reads
  | token => exact Token.codec_reads
  | identifier | unqualifiedId => exact Identifier.codec_reads
  | nestedNameSpecifier => exact NestedName.codec_reads
  | qualifiedId => exact QualifiedName.codec_reads
  | idExpression | declaratorId => exact IdExpression.codec_reads
  | simpleTypeSpecifier => exact TypeSpecifier.codec_reads
  | typeSpecifier => exact TypeSpecifier.simpleCodec_reads
  | definingTypeSpecifier => exact TypeSpecifier.definingCodec_reads
  | declarationSpecifier => exact TypeSpecifier.declarationCodec_reads
  | declarationSpecifierSequence => exact SpecifierSequence.codec_reads
  | parameterDeclarationClause => exact ParameterClause.contentCodec_reads
  | parametersAndQualifiers => exact ParameterClause.codec_reads
  | noptrDeclarator | ptrDeclarator | declarator => exact Declarator.codec_reads

/-- **Written and read back.** What is written for a value of a node type is one of its spellings, and
reading gives it back; reading any of its other spellings gives the same value, and reading nothing else
does. -/
theorem decode_spelling (type : NodeType) (x : type.Carrier) :
    type.SpellsJson x (type.codec.encode x) ∧
    type.codec.decode (type.codec.encode x) = .ok x ∧
    ∀ tree, type.codec.decode tree = .ok x ↔ type.SpellsJson x tree := by
  have written := type.codec_reads.encode x
  refine ⟨written, (type.codec_reads.decode_iff _ x).2 written, fun tree => ?_⟩
  exact type.codec_reads.decode_iff tree x

/-- An object with a key that is ignored, a name in it, and an array as the parameter clause. -/
example :
    NodeType.declarator.codec.decode
      (.object [("id", .object [("Unqualified", .string "f")]),
        ("line", .number 3 0), ("parameters", .array [.array [.bool true]])]) =
      .ok (⟨.unqualified ⟨"f", by decide⟩, some .variadic⟩ : Declarator) := by rfl

/-- A key that is not ignored comes twice. -/
example :
    NodeType.declarator.codec.decode
      (.object [("id", .object [("Unqualified", .string "f")]), ("id", .null),
        ("parameters", .null)]) = .error .shape := by rfl

end NodeType

end FunctionSymbols
