import Mathlib.Computability.RegularExpressions
import ShaderReflection.Tree.Kind

/-!
# What the children of a node can be

The grammar of a module as a reader of a syntax tree sees it: for each kind of node a regular
expression over terminals and kinds, which says what the children of such a node are. Rules that a
tree does not show are written out in place. No parser, state or table occurs here.
-/

namespace ShaderReflection.Tree

open ShaderReflection.Grammar ShaderReflection.Wgsl

/-- A regular expression over what a child of a node can be: a token or a named node. -/
abbrev Expansion := RegularExpression (Grammar.Symbol Terminal Kind)

namespace Expansion

def token (terminal : Terminal) : Expansion := .char (.terminal terminal)

def part (kind : Kind) : Expansion := .char (.nonterminal kind)

/-- Any one of the alternatives. -/
def oneOf (alternatives : List Expansion) : Expansion := alternatives.foldr (· + ·) 0

def maybe (inner : Expansion) : Expansion := 1 + inner

def many (inner : Expansion) : Expansion := .star inner

def several (inner : Expansion) : Expansion := inner * many inner

/-- What a list has behind its first element. -/
def further (inner : Expansion) : Expansion := token .comma * inner

/-- One or more, with commas between them and possibly one more comma at the end. -/
def listed (inner : Expansion) : Expansion :=
  inner * many (further inner) * maybe (token .comma)

/-! ## Parts that are not shown -/

def attributes : Expansion := several (part .attributeUse)

def constantKeyword : Expansion := oneOf [token .constWord, token .overrideWord]

def templateArgument : Expansion := oneOf [part .typeDeclaration, part .intLiteral]

def templateList : Expansion := token .less * listed templateArgument * token .greater

def primary : Expansion :=
  oneOf [part .identifier, part .intLiteral, part .floatLiteral, part .boolLiteral,
    part .stringLiteral, part .parenExpression, part .callExpression]

def postfixed : Expansion := oneOf [primary, part .memberExpression, part .indexExpression]

def unary : Expansion := oneOf [postfixed, part .unaryExpression]

def expression : Expansion := oneOf [unary, part .binaryExpression]

def initializer : Expansion := token .equal * expression

def blockPart : Expansion := oneOf [part .compoundStatement, token .bodyText]

def variableName : Expansion :=
  oneOf [part .variableIdentifierDeclaration, part .identifier]

def globalItem : Expansion :=
  oneOf [part .enableDirective, part .requiresDirective, part .structDeclaration,
    part .functionDeclaration, part .globalVariableDeclaration, part .globalConstantDeclaration,
    part .typeAliasDeclaration, part .constAssertStatement, token .semicolon]

end Expansion

open Expansion

/-- What the children of a node of a kind can be. A token has no children, so `anonymous` has no
expansion. -/
def rightHandSide : Kind → Expansion
  | .translationUnit => many globalItem
  | .enableDirective => token .enableWord * listed (part .identifier) * token .semicolon
  | .requiresDirective => token .requiresWord * listed (part .identifier) * token .semicolon
  | .attributeUse =>
      token .atSign * part .identifier *
        maybe (token .leftParen * maybe (listed expression) * token .rightParen)
  | .structDeclaration =>
      token .structWord * part .identifier * token .leftBrace * listed (part .structMember) *
        token .rightBrace
  | .structMember => maybe attributes * part .variableIdentifierDeclaration
  | .variableIdentifierDeclaration =>
      part .identifier * token .colon * part .typeDeclaration
  | .functionDeclaration =>
      maybe attributes * token .fnWord * part .identifier * token .leftParen *
        maybe (part .parameterList) * token .rightParen * maybe (part .functionReturnType) *
        part .compoundStatement
  | .parameterList => listed (part .parameter)
  | .parameter => maybe attributes * part .variableIdentifierDeclaration
  | .functionReturnType => token .arrow * maybe attributes * part .typeDeclaration
  | .compoundStatement => token .leftBrace * many blockPart * token .rightBrace
  | .globalVariableDeclaration =>
      maybe attributes * part .variableDeclaration * maybe initializer * token .semicolon
  | .variableDeclaration =>
      token .varWord * maybe (part .variableQualifier) * variableName
  | .variableQualifier =>
      token .less * part .addressSpace * maybe (token .comma * part .accessMode) *
        token .greater
  | .addressSpace => token .identifier
  | .accessMode => token .identifier
  | .globalConstantDeclaration =>
      maybe attributes * constantKeyword * variableName * maybe initializer * token .semicolon
  | .typeAliasDeclaration =>
      token .aliasWord * part .identifier * token .equal * part .typeDeclaration *
        token .semicolon
  | .constAssertStatement => token .constAssertWord * expression * token .semicolon
  | .typeDeclaration => oneOf [part .identifier, token .typeName * maybe templateList]
  | .binaryExpression => expression * token .binaryOperator * unary
  | .unaryExpression => token .unaryOperator * unary
  | .memberExpression => postfixed * token .dot * part .identifier
  | .indexExpression => postfixed * token .leftBracket * expression * token .rightBracket
  | .parenExpression => token .leftParen * expression * token .rightParen
  | .callExpression =>
      oneOf [part .identifier * part .argumentList,
        token .typeName * maybe templateList * part .argumentList]
  | .argumentList => token .leftParen * maybe (listed expression) * token .rightParen
  | .identifier => token .identifier
  | .intLiteral => token .intLiteral
  | .floatLiteral => token .floatLiteral
  | .boolLiteral => oneOf [token .trueWord, token .falseWord]
  | .stringLiteral => token .stringLiteral
  | .anonymous => 0

end ShaderReflection.Tree
