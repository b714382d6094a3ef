import FunctionSymbols.Json.Node

/-!
# Node types

The types that have a written form, by name. Several layers of the grammar hold the same values and
differ in how they are written, or not even in that.
-/

namespace FunctionSymbols

/-- A type with a written form. -/
inductive NodeType where
  | tag
  | token
  | identifier
  | unqualifiedId
  | nestedNameSpecifier
  | qualifiedId
  | idExpression
  | declaratorId
  | simpleTypeSpecifier
  | typeSpecifier
  | definingTypeSpecifier
  | declarationSpecifier
  | declarationSpecifierSequence
  | parameterDeclarationClause
  | parametersAndQualifiers
  | noptrDeclarator
  | ptrDeclarator
  | declarator
deriving DecidableEq, Repr

namespace NodeType

/-- Every node type, from the smallest part to the whole. -/
def all : List NodeType :=
  [tag, token, identifier, unqualifiedId, nestedNameSpecifier, qualifiedId, idExpression,
   declaratorId, simpleTypeSpecifier, typeSpecifier, definingTypeSpecifier, declarationSpecifier,
   declarationSpecifierSequence, parameterDeclarationClause, parametersAndQualifiers,
   noptrDeclarator, ptrDeclarator, declarator]

/-- The name of a node type. -/
def name : NodeType → String
  | tag => "Tag"
  | token => "Token"
  | identifier => "Identifier"
  | unqualifiedId => "UnqualifiedId"
  | nestedNameSpecifier => "NestedNameSpecifier"
  | qualifiedId => "QualifiedId"
  | idExpression => "IdExpression"
  | declaratorId => "DeclaratorId"
  | simpleTypeSpecifier => "SimpleTypeSpecifier"
  | typeSpecifier => "TypeSpecifier"
  | definingTypeSpecifier => "DefiningTypeSpecifier"
  | declarationSpecifier => "DeclarationSpecifier"
  | declarationSpecifierSequence => "DeclarationSpecifierSequence"
  | parameterDeclarationClause => "ParameterDeclarationClause"
  | parametersAndQualifiers => "ParametersAndQualifiers"
  | noptrDeclarator => "NoptrDeclarator"
  | ptrDeclarator => "PtrDeclarator"
  | declarator => "Declarator"

/-- The node type of this name. -/
def ofName? (text : String) : Option NodeType := all.find? fun type => type.name == text

/-- The values of a node type. -/
abbrev Carrier : NodeType → Type
  | tag => Tag
  | token => Token
  | identifier | unqualifiedId => Identifier
  | nestedNameSpecifier => NestedName
  | qualifiedId => QualifiedName
  | idExpression | declaratorId => IdExpression
  | simpleTypeSpecifier | typeSpecifier | definingTypeSpecifier | declarationSpecifier =>
    TypeSpecifier
  | declarationSpecifierSequence => SpecifierSequence
  | parameterDeclarationClause | parametersAndQualifiers => ParameterClause
  | noptrDeclarator | ptrDeclarator | declarator => Declarator

/-- The written form of a node type. -/
def codec : (type : NodeType) → Codec type.Carrier
  | tag => Tag.codec
  | token => Token.codec
  | identifier | unqualifiedId => Identifier.codec
  | nestedNameSpecifier => NestedName.codec
  | qualifiedId => QualifiedName.codec
  | idExpression | declaratorId => IdExpression.codec
  | simpleTypeSpecifier => TypeSpecifier.codec
  | typeSpecifier => TypeSpecifier.simpleCodec
  | definingTypeSpecifier => TypeSpecifier.definingCodec
  | declarationSpecifier => TypeSpecifier.declarationCodec
  | declarationSpecifierSequence => SpecifierSequence.codec
  | parameterDeclarationClause => ParameterClause.contentCodec
  | parametersAndQualifiers => ParameterClause.codec
  | noptrDeclarator | ptrDeclarator | declarator => Declarator.codec

/-- The source text of a node. -/
def text : (type : NodeType) → type.Carrier → String
  | tag => Tag.text
  | token => Token.text
  | identifier | unqualifiedId => Identifier.text
  | nestedNameSpecifier => NestedName.text
  | qualifiedId => QualifiedName.text
  | idExpression | declaratorId => IdExpression.text
  | simpleTypeSpecifier | typeSpecifier | definingTypeSpecifier | declarationSpecifier =>
    TypeSpecifier.text
  | declarationSpecifierSequence => SpecifierSequence.text
  | parameterDeclarationClause => ParameterClause.innerText
  | parametersAndQualifiers => ParameterClause.text
  | noptrDeclarator | ptrDeclarator | declarator => Declarator.text

/-- Reads a node and gives its own written form and its source text. -/
def recode (type : NodeType) (tree : Json) : Except DecodeError (Json × String) := do
  let node ← type.codec.decode tree
  return (type.codec.encode node, type.text node)

end NodeType

end FunctionSymbols
