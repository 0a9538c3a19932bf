import ShaderReflection.Text.Blank
import ShaderReflection.Tree.Node
import ShaderReflection.Wgsl.Language

/-!
# From source text to syntax tree

A derivation of the grammar becomes a tree: tokens become tokens, the nonterminals that are shown
become named nodes, and the parts of those that are not shown go to the node above.
-/

namespace ShaderReflection.Tree

open ShaderReflection.Grammar ShaderReflection.Text ShaderReflection.Wgsl

namespace Node

def cover (nodes : List Node) : Option Span :=
  match nodes.head?.bind span?, nodes.getLast?.bind span? with
  | some first, some last => some ⟨first.start, last.stop⟩
  | _, _ => none

/-- Put the parts of a nonterminal under a node, if the nonterminal is shown. -/
def wrap (head : Nonterminal) (parts : List Node) : List Node :=
  match kindOf? head with
  | some kind => [named (.known kind) (cover parts) parts]
  | none => parts

mutual

/-- The nodes that a derivation contributes to the node above it. -/
def forest : Derivation Terminal Nonterminal Token → List Node
  | .leaf terminal lexeme => [token (.known terminal) lexeme.span]
  | .node rule children => wrap rule.head (forestAll children)

def forestAll : List (Derivation Terminal Nonterminal Token) → List Node
  | [] => []
  | tree :: rest => forest tree ++ forestAll rest

end

def ofDerivation (tree : Derivation Terminal Nonterminal Token) : Node :=
  match forest tree with
  | [node] => node
  | nodes => named (.known .translationUnit) (cover nodes) nodes

end Node

def SyntaxTree.parse (source : List Char) : Except (Rejection Terminal) SyntaxTree :=
  match language.read source with
  | .ok tree => .ok ⟨source, Node.ofDerivation tree⟩
  | .error rejection => .error rejection

/-! ## Messages -/

/-- The name under which a terminal is reported, with its text, both in quotes. -/
def describeToken (name text : String) : String :=
  let quotedName := Quoted.ofString name
  let quotedText := Quoted.ofString text
  s!"Token({quotedName}, {quotedText})"

def rejectionDetail (rejection : Rejection Terminal) : String :=
  let line := rejection.position.line
  let column := rejection.position.column
  match rejection with
  | .terminal letter token =>
      let text := String.ofList token.text
      let described := describeToken (letter.name text) text
      s!"Unexpected token {described} at line {line}, column {column}."
  | .ending _ =>
      let described := describeToken "$END" ""
      s!"Unexpected token {described} at line {line}, column {column}."
  | .character char _ =>
      s!"No terminal matches '{char}' in the current parser context, at line {line} col {column}"

/-- The message of a rejection. Only the first line of the detail is kept. -/
def rejectionMessage (rejection : Rejection Terminal) : String :=
  let line := rejection.position.line
  let column := rejection.position.column
  let detail := String.ofList (firstLine (rejectionDetail rejection).toList)
  s!"Syntax error at line {line}, column {column}: {detail}"

end ShaderReflection.Tree
