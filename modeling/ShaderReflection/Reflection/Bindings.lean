import ShaderReflection.Reflection.Structures
import ShaderReflection.Text.Numeral
import ShaderReflection.Text.WordChar

/-!
# Bindings of a module

A variable of the module binds a resource if it says which group and binding it has, and if its
type or address space tells what kind of resource it is.
-/

namespace ShaderReflection.Reflection

open ShaderReflection.Text ShaderReflection.Tree

/-! ## Integers -/

def withoutSuffix (text : List Char) : List Char :=
  (text.reverse.dropWhile fun char => char == 'i' || char == 'u').reverse

def integerIn (base : Nat) (text : List Char) : Attempt Int :=
  match Numeral.integer base text with
  | .ok value => return value
  | .error .malformed => throw (.malformedInteger base (String.ofList text))
  | .error (.tooLong digits) => throw (.unreadableInteger digits)

def integerValue (text : List Char) : Attempt Int :=
  match withoutSuffix text with
  | '0' :: 'x' :: digits => integerIn 16 digits
  | '0' :: 'X' :: digits => integerIn 16 digits
  | digits => integerIn 10 digits

/-- The value of an attribute whose first argument has to be an integer literal. -/
def readIntegerAttribute (source : List Char) (node : Node) (name : String) : Attempt Int :=
  match node.namedChildren with
  | _ :: value :: _ => do
      unless (← value.kind) = .intLiteral do
        throw (.unsupportedLiteral name (value.type source) (value.text source))
      integerValue (value.text source).toList
  | _ => throw (.valuelessAttribute name)

/-! ## Types -/

/-- The name of a handle type: a word, then possibly a space, then possibly one more word in angle
brackets. A line feed may end the text. -/
def handleType? (text : List Char) : Option (List Char) :=
  let name := text.takeWhile isWordChar
  let afterSpace :=
    match text.drop name.length with
    | ' ' :: rest => rest
    | rest => rest
  let afterArgument :=
    match afterSpace with
    | '<' :: rest =>
        let argument := rest.takeWhile isWordChar
        match argument, rest.drop argument.length with
        | _ :: _, '>' :: final => final
        | _, _ => afterSpace
    | _ => afterSpace
  if name.isEmpty then none
  else if afterArgument = [] ∨ afterArgument = ['\n'] then some name
  else none

def bufferSpaces : List String := ["uniform", "storage"]

/-! ## Variables -/

/-- What has been read of a binding. -/
structure BindingDraft where
  group : Option Int
  binding : Option Int
  name : Option String
  type : Option String
  bindingType : Option String

namespace BindingDraft

def empty : BindingDraft := ⟨none, none, none, none, none⟩

def missing (draft : BindingDraft) : List String :=
  [("group", draft.group.isNone), ("binding", draft.binding.isNone), ("name", draft.name.isNone),
    ("type", draft.type.isNone), ("binding_type", draft.bindingType.isNone)].filterMap
    fun (name, absent) => if absent then some name else none

/-- The finished binding, if nothing is missing. -/
def finish? (draft : BindingDraft) : Option Binding := do
  return ⟨← draft.group, ← draft.binding, ← draft.name, ← draft.type, ← draft.bindingType⟩

end BindingDraft

/-- Read the address space of a variable: it makes the variable a buffer. An access mode plays no
role. -/
def readSpace (source : List Char) (node : Node) (draft : BindingDraft) :
    Attempt BindingDraft := do
  match ← node.field "qualifier" with
  | none => return draft
  | some qualifier =>
      match ← qualifier.field "address_space" with
      | none => return draft
      | some space =>
          unless bufferSpaces.contains (space.text source) do
            throw (.unsupportedAddressSpace (space.text source))
          return { draft with bindingType := some "buffer" }

/-- The type that a buffer holds: the first named part of its type, or else the whole type. -/
def bufferType (source : List Char) (type : Node) : String :=
  match type.namedChildren with
  | first :: _ => first.text source
  | [] => type.text source

def readNameAndType (source : List Char) (node : Node) (draft : BindingDraft) :
    Attempt BindingDraft := do
  match ← Node.firstOfKind .variableIdentifierDeclaration node.children with
  | none => return draft
  | some declaration =>
      let declared ← readDeclared source declaration
      let type ← declaration.field "type"
      match draft.bindingType with
      | some _ =>
          return { draft with
            name := some declared.name, type := type.map (bufferType source) }
      | none =>
          match handleType? declared.type.toList with
          | none => throw (.unparsableType declared.type)
          | some handle =>
              let handle := String.ofList handle
              return { draft with
                name := some declared.name, type := some handle, bindingType := some handle }

/-- Read one child of a variable declaration of the module. An initial value plays no role. -/
def readBindingChild (source : List Char) (draft : BindingDraft) (child : Node) :
    Attempt BindingDraft := do
  match ← child.kind with
  | .attributeUse =>
      match child.namedChildren with
      | [] => throw (.noNamedChild 0 (child.type source))
      | mark :: _ =>
          match mark.text source with
          | "group" =>
              return { draft with group := some (← readIntegerAttribute source child "group") }
          | "binding" =>
              return { draft with binding := some (← readIntegerAttribute source child "binding") }
          | _ => return draft
  | .variableDeclaration => readNameAndType source child (← readSpace source child draft)
  | _ => return draft

def readBinding (source : List Char) (node : Node) : Attempt Binding := do
  unless (← node.kind) = .globalVariableDeclaration do
    throw (.expectedKind .globalVariableDeclaration (node.type source))
  let draft ← node.namedChildren.foldlM (readBindingChild source) .empty
  match draft.finish? with
  | some binding => return binding
  | none => throw (.malformedBinding (node.text source) draft.missing)

def variableQuery : List Query.Pattern :=
  Query.ofKind .globalVariableDeclaration "global"

/-- The bindings of a module in the order of their declaration. -/
def bindingsOf (tree : SyntaxTree) : Attempt (List Binding) :=
  (Query.matchesIn variableQuery tree).mapM fun found => do
    readBinding tree.source (← found.get "global")

end ShaderReflection.Reflection
