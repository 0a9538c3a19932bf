import ShaderReflection.Wgsl.Rules

/-!
# Kinds of nodes

The closed set of kinds that the nodes of a syntax tree can have, and the fields by which a node
of some kind gives access to its parts.
-/

namespace ShaderReflection.Tree

open ShaderReflection.Wgsl

/-- The kind of a node. Tokens are `anonymous`; every other kind is what some rule builds. -/
inductive Kind where
  | translationUnit | enableDirective | requiresDirective | structDeclaration
  | functionDeclaration | globalVariableDeclaration | globalConstantDeclaration
  | typeAliasDeclaration | constAssertStatement | attributeUse | structMember
  | variableIdentifierDeclaration | parameterList | parameter | functionReturnType
  | compoundStatement | variableDeclaration | variableQualifier | addressSpace | accessMode
  | typeDeclaration | binaryExpression | unaryExpression | memberExpression | indexExpression
  | parenExpression | callExpression | argumentList | identifier | intLiteral | floatLiteral
  | boolLiteral | stringLiteral | anonymous
deriving DecidableEq, Repr

namespace Kind

def name : Kind → String
  | translationUnit => "translation_unit"
  | enableDirective => "enable_directive"
  | requiresDirective => "requires_directive"
  | structDeclaration => "struct_declaration"
  | functionDeclaration => "function_declaration"
  | globalVariableDeclaration => "global_variable_declaration"
  | globalConstantDeclaration => "global_constant_declaration"
  | typeAliasDeclaration => "type_alias_declaration"
  | constAssertStatement => "const_assert_statement"
  | attributeUse => "attribute"
  | structMember => "struct_member"
  | variableIdentifierDeclaration => "variable_identifier_declaration"
  | parameterList => "parameter_list"
  | parameter => "parameter"
  | functionReturnType => "function_return_type"
  | compoundStatement => "compound_statement"
  | variableDeclaration => "variable_declaration"
  | variableQualifier => "variable_qualifier"
  | addressSpace => "address_space"
  | accessMode => "access_mode"
  | typeDeclaration => "type_declaration"
  | binaryExpression => "binary_expression"
  | unaryExpression => "unary_expression"
  | memberExpression => "member_expression"
  | indexExpression => "index_expression"
  | parenExpression => "paren_expression"
  | callExpression => "call_expression"
  | argumentList => "argument_list"
  | identifier => "identifier"
  | intLiteral => "int_literal"
  | floatLiteral => "float_literal"
  | boolLiteral => "bool_literal"
  | stringLiteral => "string_literal"
  | anonymous => "anonymous"

/-- All kinds, in the order of their declaration. -/
def all : List Kind := [
  .translationUnit, .enableDirective, .requiresDirective, .structDeclaration,
  .functionDeclaration, .globalVariableDeclaration, .globalConstantDeclaration,
  .typeAliasDeclaration, .constAssertStatement, .attributeUse, .structMember,
  .variableIdentifierDeclaration, .parameterList, .parameter, .functionReturnType,
  .compoundStatement, .variableDeclaration, .variableQualifier, .addressSpace, .accessMode,
  .typeDeclaration, .binaryExpression, .unaryExpression, .memberExpression, .indexExpression,
  .parenExpression, .callExpression, .argumentList, .identifier, .intLiteral, .floatLiteral,
  .boolLiteral, .stringLiteral, .anonymous]

def ofName? (text : String) : Option Kind := all.find? fun kind => kind.name == text

/-- The fields of the nodes of a kind: a field is the first child of the given kind. -/
def fields : Kind → List (String × Kind)
  | structDeclaration => [("name", identifier)]
  | functionDeclaration =>
      [("name", identifier), ("parameters", parameterList), ("return_type", functionReturnType),
        ("body", compoundStatement)]
  | functionReturnType => [("type", typeDeclaration)]
  | variableIdentifierDeclaration => [("name", identifier), ("type", typeDeclaration)]
  | variableDeclaration => [("qualifier", variableQualifier), ("name", identifier)]
  | variableQualifier => [("address_space", addressSpace), ("access_mode", accessMode)]
  | globalConstantDeclaration => [("name", identifier)]
  | typeAliasDeclaration => [("name", identifier), ("type", typeDeclaration)]
  | attributeUse => [("name", identifier)]
  | _ => []

def field? (kind : Kind) (field : String) : Option Kind := kind.fields.lookup field

end Kind

/-- The kind of the nodes that a nonterminal builds; `none` for nonterminals that are not shown in
a tree. A nested block is a compound statement like any other. -/
def kindOf? : Nonterminal → Option Kind
  | .translationUnit => some .translationUnit
  | .enableDirective => some .enableDirective
  | .requiresDirective => some .requiresDirective
  | .structDeclaration => some .structDeclaration
  | .functionDeclaration => some .functionDeclaration
  | .globalVariableDeclaration => some .globalVariableDeclaration
  | .globalConstantDeclaration => some .globalConstantDeclaration
  | .typeAliasDeclaration => some .typeAliasDeclaration
  | .constAssertStatement => some .constAssertStatement
  | .attributeUse => some .attributeUse
  | .structMember => some .structMember
  | .variableIdentifierDeclaration => some .variableIdentifierDeclaration
  | .parameterList => some .parameterList
  | .parameter => some .parameter
  | .functionReturnType => some .functionReturnType
  | .compoundStatement => some .compoundStatement
  | .nestedBlock => some .compoundStatement
  | .variableDeclaration => some .variableDeclaration
  | .variableQualifier => some .variableQualifier
  | .addressSpace => some .addressSpace
  | .accessMode => some .accessMode
  | .typeDeclaration => some .typeDeclaration
  | .binaryExpression => some .binaryExpression
  | .unaryExpression => some .unaryExpression
  | .memberExpression => some .memberExpression
  | .indexExpression => some .indexExpression
  | .parenExpression => some .parenExpression
  | .callExpression => some .callExpression
  | .argumentList => some .argumentList
  | .identifier => some .identifier
  | .intLiteral => some .intLiteral
  | .floatLiteral => some .floatLiteral
  | .boolLiteral => some .boolLiteral
  | .stringLiteral => some .stringLiteral
  | .globalItem | .globalItems | .attributes | .attributeRun | .attributeArguments
  | .constantKeyword | .predeclaredType | .templateList | .templateArgument | .expression
  | .unary | .postfixed | .primary | .moreNames | .moreArguments | .moreMembers
  | .moreParameters | .moreTemplateArguments | .blockParts => none

end ShaderReflection.Tree
