import ShaderReflection.Text.Position
import ShaderReflection.Text.Quoted
import ShaderReflection.Tree.Kind

/-!
# Nodes of a syntax tree

A node is named, with a label and children, or it is a token. Nodes keep spans and no text, so most
questions about them are asked together with the source text. Trees come from parsing or are put
together by hand, so a label may be a name outside of the grammar.
-/

namespace ShaderReflection.Tree

open ShaderReflection.Text ShaderReflection.Wgsl

/-- A label that the grammar knows, or any other name. -/
inductive Label (α : Type) where
  | known (value : α)
  | other (name : String)
deriving DecidableEq, Repr

/-- A node. A named node without a span stands for the whole source. -/
inductive Node where
  | named (label : Label Kind) (span : Option Span) (children : List Node)
  | token (label : Label Terminal) (span : Span)
deriving Repr

/-- The root of an empty module. -/
instance : Inhabited Node := ⟨.named (.known .translationUnit) none []⟩

/-- A source text with the root of its tree. -/
structure SyntaxTree where
  source : List Char
  root : Node
deriving Repr

/-! ## Labels by name -/

def Label.ofKindName (name : String) : Label Kind :=
  match Kind.ofName? name with
  | some kind => .known kind
  | none => .other name

/-- The label of a token whose terminal has a given name. Only classes of lexemes matter: any other
token is shown by its text. -/
def Label.ofTerminalName (name : String) : Label Terminal :=
  match Terminal.ofClassName? name with
  | some terminal => .known terminal
  | none => .other name

namespace Node

/-! ## Single nodes -/

def isNamed : Node → Bool
  | named .. => true
  | token .. => false

def children : Node → List Node
  | named _ _ children => children
  | token .. => []

def namedChildren (node : Node) : List Node := node.children.filter isNamed

/-- The kind of a node; `none` if its label is not a kind. -/
def kind? : Node → Option Kind
  | named (.known kind) _ _ => some kind
  | named (.other name) _ _ => Kind.ofName? name
  | token .. => some .anonymous

/-- The span of a node, if it has one of its own. -/
def span? : Node → Option Span
  | named _ span _ => span
  | token _ span => some span

def span (source : List Char) (node : Node) : Span := node.span?.getD (Span.whole source)

def chars (source : List Char) (node : Node) : List Char := (node.span source).slice source

def text (source : List Char) (node : Node) : String := String.ofList (node.chars source)

/-- The type of a node: its label for a named node, the class of lexemes or the text for a
token. -/
def type (source : List Char) : Node → String
  | named (.known kind) _ _ => kind.name
  | named (.other name) _ _ => name
  | token (.known terminal) span =>
      terminal.className?.getD (String.ofList (span.slice source))
  | token (.other _) span => String.ofList (span.slice source)

def startByte (source : List Char) (node : Node) : Nat := byteOffset source (node.span source).start

def stopByte (source : List Char) (node : Node) : Nat := byteOffset source (node.span source).stop

/-- A short description: the type and the bytes of a node. -/
def describe (source : List Char) (node : Node) : String :=
  let type := node.type source
  let start := node.startByte source
  let stop := node.stopByte source
  s!"<SyntaxNode {type} [{start}, {stop})>"

def firstOfKind? (node : Node) (kind : Kind) : Option Node :=
  node.children.find? fun child => child.kind? == some kind

def field? (node : Node) (field : String) : Option Node :=
  (node.kind?.bind fun kind => kind.field? field).bind node.firstOfKind?

/-! ## Whole trees -/

mutual

/-- A node and all nodes below it with their depths, parents before children and siblings in
order. -/
def outline (depth : Nat) : Node → List (Nat × Node)
  | named label span children =>
      (depth, named label span children) :: outlineAll (depth + 1) children
  | token label span => [(depth, token label span)]

/-- The outlines of nodes in a row, all at one depth. -/
def outlineAll (depth : Nat) : List Node → List (Nat × Node)
  | [] => []
  | node :: rest => node.outline depth ++ outlineAll depth rest

end

mutual

/-- The number of nodes in a tree. -/
def size : Node → Nat
  | named _ _ children => sizeOfAll children + 1
  | token .. => 1

def sizeOfAll : List Node → Nat
  | [] => 0
  | node :: rest => node.size + sizeOfAll rest

end

/-- Take the nodes from a stack, each time putting the children of the one taken on top. -/
def traverse : (steps : Nat) → (stack : List Node) → List Node
  | 0, _ => []
  | _ + 1, [] => []
  | steps + 1, node :: stack => node :: traverse steps (node.children ++ stack)

/-- A node and all nodes below it, parents before children and siblings in order. Every step takes
one of them, so there are as many steps as nodes. -/
def walk (node : Node) : List Node := traverse node.size [node]

mutual

/-- The tokens below a node, from left to right. -/
def leaves : Node → List Node
  | named _ _ children => leavesOfAll children
  | token label span => [token label span]

def leavesOfAll : List Node → List Node
  | [] => []
  | node :: rest => node.leaves ++ leavesOfAll rest

end

mutual

/-- The named nodes as nested lists in parentheses. A named node without named children shows its
text in quotes; a token shows nothing. -/
def dump (source : List Char) : Node → List Char
  | named label span children =>
      let node := named label span children
      let inner :=
        match dumpAll source children with
        | [] => ' ' :: Quoted.encode (node.chars source)
        | inner => inner
      '(' :: (node.type source).toList ++ inner ++ [')']
  | token .. => []

/-- The dumps of the named nodes in a row, each behind a space. -/
def dumpAll (source : List Char) : List Node → List Char
  | [] => []
  | named label span children :: rest =>
      ' ' :: dump source (named label span children) ++ dumpAll source rest
  | token .. :: rest => dumpAll source rest

end

end Node

end ShaderReflection.Tree
