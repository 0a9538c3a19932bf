import ShaderReflection.Grammar.Basic
import ShaderReflection.Wgsl.Terminal

/-!
# Rules

The grammar of the shading language as far as reflection needs it. Function bodies are balanced
braces with free text between them.
-/

namespace ShaderReflection.Wgsl

open ShaderReflection.Grammar ShaderReflection.Grammar.Part ShaderReflection.Grammar.Rule

/-- The nonterminals. Those of the first group are shown in a syntax tree; those of the second are
only steps on the way, and a tree shows their parts in their place. -/
inductive Nonterminal where
  | translationUnit | enableDirective | requiresDirective | structDeclaration
  | functionDeclaration | globalVariableDeclaration | globalConstantDeclaration
  | typeAliasDeclaration | constAssertStatement
  | attributeUse | structMember | variableIdentifierDeclaration | parameterList | parameter
  | functionReturnType | compoundStatement | nestedBlock | variableDeclaration
  | variableQualifier | addressSpace | accessMode | typeDeclaration
  | binaryExpression | unaryExpression | memberExpression | indexExpression | parenExpression
  | callExpression | argumentList
  | identifier | intLiteral | floatLiteral | boolLiteral | stringLiteral
  | globalItem | globalItems | attributes | attributeRun | attributeArguments | constantKeyword
  | predeclaredType | templateList | templateArgument | expression | unary | postfixed | primary
  | moreNames | moreArguments | moreMembers | moreParameters | moreTemplateArguments | blockParts
deriving DecidableEq, Repr

instance : Alphabet Nonterminal where
  number := Nonterminal.ctorIdx
  number_injective := by
    intro left right equal
    rw [← Nonterminal.ofNat_ctorIdx left, equal, Nonterminal.ofNat_ctorIdx]

/-! ## Rules by subject -/

/-- A module is a row of declarations and directives; a semicolon may stand alone. -/
def moduleRules : List (Rule Terminal Nonterminal) := List.flatten [
  build .translationUnit [part? .globalItems],
  build .globalItem [part .enableDirective],
  build .globalItem [part .requiresDirective],
  build .globalItem [part .structDeclaration],
  build .globalItem [part .functionDeclaration],
  build .globalItem [part .globalVariableDeclaration],
  build .globalItem [part .globalConstantDeclaration],
  build .globalItem [part .typeAliasDeclaration],
  build .globalItem [part .constAssertStatement],
  build .globalItem [token .semicolon],
  build .globalItems [part? .globalItems, part .globalItem],
  build .enableDirective [token .enableWord, part .identifier, part? .moreNames, token? .comma,
    token .semicolon],
  build .requiresDirective [token .requiresWord, part .identifier, part? .moreNames, token? .comma,
    token .semicolon],
  build .moreNames [part? .moreNames, token .comma, part .identifier],
  build .typeAliasDeclaration [token .aliasWord, part .identifier, token .equal,
    part .typeDeclaration, token .semicolon],
  build .constAssertStatement [token .constAssertWord, part .expression, token .semicolon]]

/-- Attributes, which may stand before many things and take arguments. -/
def attributeRules : List (Rule Terminal Nonterminal) := List.flatten [
  build .attributes [part .attributeRun],
  build .attributeRun [part? .attributeRun, part .attributeUse],
  build .attributeUse [token .atSign, part .identifier, token .leftParen,
    part? .attributeArguments, token .rightParen],
  build .attributeUse [token .atSign, part .identifier],
  build .attributeArguments [part .expression, part? .moreArguments, token? .comma]]

def structureRules : List (Rule Terminal Nonterminal) := List.flatten [
  build .structDeclaration [token .structWord, part .identifier, token .leftBrace,
    part .structMember, part? .moreMembers, token? .comma, token .rightBrace],
  build .structMember [part? .attributes, part .variableIdentifierDeclaration],
  build .moreMembers [part? .moreMembers, token .comma, part .structMember],
  build .variableIdentifierDeclaration [part .identifier, token .colon, part .typeDeclaration]]

/-- Functions. A nested block looks like the body itself, but is not the end of the function. -/
def functionRules : List (Rule Terminal Nonterminal) := List.flatten [
  build .functionDeclaration [part? .attributes, token .fnWord, part .identifier, token .leftParen,
    part? .parameterList, token .rightParen, part? .functionReturnType, part .compoundStatement],
  build .parameterList [part .parameter, part? .moreParameters, token? .comma],
  build .parameter [part? .attributes, part .variableIdentifierDeclaration],
  build .moreParameters [part? .moreParameters, token .comma, part .parameter],
  build .functionReturnType [token .arrow, part? .attributes, part .typeDeclaration],
  build .compoundStatement [token .leftBrace, part? .blockParts, token .rightBrace],
  build .nestedBlock [token .leftBrace, part? .blockParts, token .rightBrace],
  build .blockParts [part? .blockParts, part .nestedBlock],
  build .blockParts [part? .blockParts, token .bodyText]]

def variableRules : List (Rule Terminal Nonterminal) := List.flatten [
  build .globalVariableDeclaration [part? .attributes, part .variableDeclaration, token .equal,
    part .expression, token .semicolon],
  build .globalVariableDeclaration [part? .attributes, part .variableDeclaration,
    token .semicolon],
  build .variableDeclaration [token .varWord, part? .variableQualifier,
    part .variableIdentifierDeclaration],
  build .variableDeclaration [token .varWord, part? .variableQualifier, part .identifier],
  build .variableQualifier [token .less, part .addressSpace, token .comma, part .accessMode,
    token .greater],
  build .variableQualifier [token .less, part .addressSpace, token .greater],
  build .addressSpace [token .identifier],
  build .accessMode [token .identifier],
  build .globalConstantDeclaration [part? .attributes, part .constantKeyword,
    part .variableIdentifierDeclaration, token .equal, part .expression, token .semicolon],
  build .globalConstantDeclaration [part? .attributes, part .constantKeyword,
    part .variableIdentifierDeclaration, token .semicolon],
  build .globalConstantDeclaration [part? .attributes, part .constantKeyword, part .identifier,
    token .equal, part .expression, token .semicolon],
  build .globalConstantDeclaration [part? .attributes, part .constantKeyword, part .identifier,
    token .semicolon],
  build .constantKeyword [token .constWord],
  build .constantKeyword [token .overrideWord]]

/-- Types: a declared name, or a predeclared name with optional template arguments. -/
def typeRules : List (Rule Terminal Nonterminal) := List.flatten [
  build .typeDeclaration [part .identifier],
  build .typeDeclaration [part .predeclaredType, part? .templateList],
  build .predeclaredType [token .typeName],
  build .templateList [token .less, part .templateArgument, part? .moreTemplateArguments,
    token? .comma, token .greater],
  build .templateArgument [part .typeDeclaration],
  build .templateArgument [part .intLiteral],
  build .moreTemplateArguments [part? .moreTemplateArguments, token .comma,
    part .templateArgument]]

/-- Expressions. All binary operators have one rank and group to the left. -/
def expressionRules : List (Rule Terminal Nonterminal) := List.flatten [
  build .expression [part .unary],
  build .expression [part .binaryExpression],
  build .binaryExpression [part .expression, token .binaryOperator, part .unary],
  build .unary [part .postfixed],
  build .unary [part .unaryExpression],
  build .unaryExpression [token .unaryOperator, part .unary],
  build .postfixed [part .primary],
  build .postfixed [part .memberExpression],
  build .postfixed [part .indexExpression],
  build .memberExpression [part .postfixed, token .dot, part .identifier],
  build .indexExpression [part .postfixed, token .leftBracket, part .expression,
    token .rightBracket],
  build .primary [part .identifier],
  build .primary [part .intLiteral],
  build .primary [part .floatLiteral],
  build .primary [part .boolLiteral],
  build .primary [part .stringLiteral],
  build .primary [part .parenExpression],
  build .primary [part .callExpression],
  build .parenExpression [token .leftParen, part .expression, token .rightParen],
  build .callExpression [part .identifier, part .argumentList],
  build .callExpression [part .predeclaredType, part? .templateList, part .argumentList],
  build .argumentList [token .leftParen, part .expression, part? .moreArguments, token? .comma,
    token .rightParen],
  build .argumentList [token .leftParen, token .rightParen],
  build .moreArguments [part? .moreArguments, token .comma, part .expression]]

def leafRules : List (Rule Terminal Nonterminal) := List.flatten [
  build .identifier [token .identifier],
  build .intLiteral [token .intLiteral],
  build .floatLiteral [token .floatLiteral],
  build .boolLiteral [token .trueWord],
  build .boolLiteral [token .falseWord],
  build .stringLiteral [token .stringLiteral]]

def rules : Rules Terminal Nonterminal where
  start := .translationUnit
  list := moduleRules ++ attributeRules ++ structureRules ++ functionRules ++ variableRules ++
    typeRules ++ expressionRules ++ leafRules

end ShaderReflection.Wgsl
