import ShaderReflection.Text.Numeral
import ShaderReflection.Tree.Parse

/-!
# Faults

Everything that can go wrong, from the source text to the finished reflection, and how it is
reported.
-/

namespace ShaderReflection

open ShaderReflection.Text ShaderReflection.Tree ShaderReflection.Wgsl

/-- Why an operation gave no result. -/
inductive Fault where
  | rejected (rejection : Grammar.Rejection Terminal)
  | malformedQuery (column : Nat) (query : String)
  | unknownPatternKind (kind : String)
  | noCapture (name : String)
  | expectedKind (kind : Kind) (found : String)
  | strayChild (child owner text : String)
  | namelessStructure (text : String)
  | namelessFunction (text : String)
  | namelessInput (type text : String)
  | incompleteDeclaration (text : String)
  | valuelessAttribute (name : String)
  | unsupportedLiteral (name type text : String)
  /-- A variable is in an address space that buffers do not live in. -/
  | unsupportedAddressSpace (text : String)
  | unparsableType (text : String)
  | malformedBinding (text : String) (missing : List String)
  | missingFunction (name : String)
  | noChild (index : Int) (type : String)
  | noNamedChild (index : Int) (type : String)
  | noElement
  | noEntryPoint (stage : String) (index : Int) (available : Nat)
  | unknownKind (name : String)
  | malformedInteger (base : Nat) (text : String)
  /-- A decimal numeral has more digits than are read. -/
  | unreadableInteger (digits : Nat)
  /-- A number has more decimal digits than are written. -/
  | unwritableInteger
deriving Repr

namespace Fault

def limitNote : String :=
  let limit := Numeral.digitLimit
  s!"Exceeds the limit ({limit} digits) for integer string conversion"

def limitHint : String := "use sys.set_int_max_str_digits() to increase the limit"

def message : Fault → String
  | rejected rejection => rejectionMessage rejection
  | malformedQuery column query =>
      let quoted := Quoted.ofString query
      s!"Invalid query pattern at column {column}: {quoted}"
  | unknownPatternKind kind => s!"Unknown node kind '{kind}' in query"
  | noCapture name => s!"No capture named '{name}' in match"
  | expectedKind kind found =>
      let name := kind.name
      s!"Expected {name}, got '{found}'"
  | strayChild child owner text => s!"Unexpected '{child}' in {owner} '{text}'"
  | namelessStructure text => s!"Struct declaration without a name: '{text}'"
  | namelessFunction text => s!"Function declaration without a name: '{text}'"
  | namelessInput type text => s!"{type} '{text}' has no name"
  | incompleteDeclaration text => s!"Incomplete declaration '{text}'"
  | valuelessAttribute name => s!"@{name} requires a value"
  | unsupportedLiteral name type text => s!"{name} value of type {type} unsupported: {text}"
  | unsupportedAddressSpace text => s!"Unknown address_space: {text}"
  | unparsableType text => s!"Unable to parse type decl: {text}"
  | malformedBinding text missing =>
      let names := ", ".intercalate missing
      s!"Global '{text}' is missing: {names}"
  | missingFunction name => s!"Entry point '{name}' is missing from the function table"
  | noChild index type => s!"Out of range child index {index} on '{type}'"
  | noNamedChild index type => s!"Out of range named child index {index} on '{type}'"
  | noElement => "list index out of range"
  | noEntryPoint stage index available =>
      s!"{stage} entry point index {index} out of range ({available} available)"
  | unknownKind name =>
      let quoted := Quoted.ofString name
      s!"{quoted} is not a valid NodeKind"
  | malformedInteger base text =>
      let quoted := String.ofList ((Quoted.encode text.toList).take 200)
      s!"invalid literal for int() with base {base}: {quoted}"
  | unreadableInteger digits =>
      s!"{limitNote}: value has {digits} digits; {limitHint}"
  | unwritableInteger => s!"{limitNote}; {limitHint}"

end Fault

/-- A result, or why there is none. -/
abbrev Attempt (α : Type) := Except Fault α

def parse (source : String) : Attempt SyntaxTree :=
  (SyntaxTree.parse source.toList).mapError Fault.rejected

namespace Tree.Node

/-- The kind of a node. A label that is not a kind is a fault. -/
def kind : Node → Attempt Kind
  | named (.known kind) _ _ => .ok kind
  | named (.other name) _ _ =>
      match Kind.ofName? name with
      | some kind => .ok kind
      | none => .error (.unknownKind name)
  | token .. => .ok .anonymous

/-- The first child of a kind. Every child up to it has to have a kind. -/
def firstOfKind (kind : Kind) : List Node → Attempt (Option Node)
  | [] => .ok none
  | child :: rest => do
      if (← child.kind) = kind then .ok (some child) else firstOfKind kind rest

def field (node : Node) (name : String) : Attempt (Option Node) := do
  match (← node.kind).field? name with
  | none => .ok none
  | some kind => firstOfKind kind node.children

end Tree.Node

end ShaderReflection
