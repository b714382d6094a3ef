import FunctionSymbols.Declarator
import FunctionSymbols.Json.Codec
import FunctionSymbols.TypeSpecifier

/-!
# Written forms of nodes

The codecs of tags, tokens, names, specifiers and declarators. Every identifier passes the same check
as in a source, wherever it stands in a tree.
-/

namespace FunctionSymbols

/-- A tag is a number of 32 bits. -/
def Tag.codec : Codec Tag where
  encode tag := .number tag.raw.toNat 0
  decode
    | .number (.ofNat n) 0 => if n < UInt32.size then .ok ⟨.ofNat n⟩ else .error .shape
    | _ => .error .shape

/-- Any text. -/
def stringCodec : Codec String where
  encode := .string
  decode
    | .string text => .ok text
    | _ => .error .shape

/-- A token is a record of its lexeme and its tag. -/
def Token.codec : Codec Token :=
  (Codec.recordPair (.required "lexeme" stringCodec) (.required "tag" Tag.codec)).map
    (fun p => ⟨p.1, p.2⟩) (fun token => (token.lexeme, token.tag))

/-- An identifier is its text. -/
def Identifier.codec : Codec Identifier where
  encode name := .string name.text
  decode
    | .string text => (Identifier.ofString text).mapError .text
    | _ => .error .shape

/-- The scopes of a name are a record of their list. -/
def NestedName.codec : Codec NestedName :=
  (Codec.record (.required "segments" Identifier.codec.list)).map NestedName.mk NestedName.segments

/-- A qualified name is a record of its scopes and its last identifier. -/
def QualifiedName.codec : Codec QualifiedName :=
  (Codec.recordPair (.required "nested" NestedName.codec)
    (.required "unqualified" Identifier.codec)).map
    (fun p => ⟨p.1, p.2⟩) (fun name => (name.nested, name.last))

/-- An id-expression is one of two variants. -/
def IdExpression.codec : Codec IdExpression where
  encode
    | .unqualified name => Codec.encodeVariant "Unqualified" (Identifier.codec.encode name)
    | .qualified name => Codec.encodeVariant "Qualified" (QualifiedName.codec.encode name)
  decode j :=
    match Codec.variant? j with
    | some ("Unqualified", some payload) =>
      (Identifier.codec.decode payload).map IdExpression.unqualified
    | some ("Qualified", some payload) =>
      (QualifiedName.codec.decode payload).map IdExpression.qualified
    | _ => .error .shape

/-- The name of the variant for a built-in type. -/
def BuiltinType.variantName : BuiltinType → String
  | int => "Int"
  | float => "Float"
  | bool => "Bool"
  | char => "Char"
  | wcharT => "WcharT"
  | short => "Short"
  | long => "Long"
  | signed => "Signed"
  | unsigned => "Unsigned"
  | double => "Double"

/-- The built-in type whose variant has this name. -/
def BuiltinType.ofVariantName? (name : String) : Option BuiltinType :=
  all.find? fun type => type.variantName == name

/-- A qualified type name is a pair of its scopes and its last identifier. -/
def QualifiedName.pairCodec : Codec QualifiedName :=
  (Codec.pair NestedName.codec Identifier.codec).map
    (fun p => ⟨p.1, p.2⟩) (fun name => (name.nested, name.last))

/-- The variant for a built-in type has no payload, those for type names have one. -/
def TypeSpecifier.codec : Codec TypeSpecifier where
  encode
    | .builtin type => .string type.variantName
    | .named name => Codec.encodeVariant "Identifier" (Identifier.codec.encode name)
    | .qualified name =>
      Codec.encodeVariant "QualifiedIdentifier" (QualifiedName.pairCodec.encode name)
  decode j :=
    match Codec.variant? j with
    | some ("Identifier", some payload) =>
      (Identifier.codec.decode payload).map TypeSpecifier.named
    | some ("QualifiedIdentifier", some payload) =>
      (QualifiedName.pairCodec.decode payload).map TypeSpecifier.qualified
    | some (name, none) | some (name, some .null) =>
      match BuiltinType.ofVariantName? name with
      | some type => .ok (.builtin type)
      | none => .error .shape
    | _ => .error .shape

/-- A type specifier in the layer of the grammar above. -/
def TypeSpecifier.simpleCodec : Codec TypeSpecifier := Codec.variant "Simple" TypeSpecifier.codec

/-- A type specifier two layers of the grammar above. -/
def TypeSpecifier.definingCodec : Codec TypeSpecifier :=
  Codec.variant "Type" TypeSpecifier.simpleCodec

/-- A type specifier as a specifier of a declaration. -/
def TypeSpecifier.declarationCodec : Codec TypeSpecifier :=
  Codec.variant "DefiningType" TypeSpecifier.definingCodec

/-- A sequence of specifiers is a record of their list. -/
def SpecifierSequence.codec : Codec SpecifierSequence :=
  (Codec.record (.required "specifiers" TypeSpecifier.declarationCodec.list)).map
    SpecifierSequence.mk SpecifierSequence.specifiers

/-- What stands between the parentheses is a record that tells whether it is an ellipsis. -/
def ParameterClause.contentCodec : Codec ParameterClause :=
  (Codec.record (.required "ellipsis" Codec.bool)).map ofIsVariadic isVariadic

/-- A parameter clause is a record of what stands between its parentheses. -/
def ParameterClause.codec : Codec ParameterClause :=
  Codec.record (.required "clause" ParameterClause.contentCodec)

/-- A declarator is a record of its name and its parameter clause, which may be left out. -/
def Declarator.codec : Codec Declarator :=
  (Codec.recordPair (.required "id" IdExpression.codec)
    (.optional "parameters" ParameterClause.codec)).map
    (fun p => ⟨p.1, p.2⟩) (fun declarator => (declarator.id, declarator.parameters))

end FunctionSymbols
