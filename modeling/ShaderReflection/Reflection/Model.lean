import ShaderReflection.Fault
import ShaderReflection.NameTable

/-!
# The reflection of a module

What reflection tells about a module: its structures, the signatures of its functions, which of
them are entry points of which stage, and the resources that it binds.
-/

namespace ShaderReflection.Reflection

/-! ## Parts -/

/-- An attribute with the text of its value. -/
structure Attribute where
  name : String
  value : String
deriving DecidableEq, Repr

/-- A member of a structure or a parameter of a function. -/
structure Input where
  name : String
  type : String
  attributes : List Attribute
deriving DecidableEq, Repr

def Input.attribute? (input : Input) (name : String) : Option String :=
  (input.attributes.find? fun entry => entry.name == name).map Attribute.value

/-- A structure with its members in order. -/
structure Structure where
  name : String
  members : List Input
deriving DecidableEq, Repr

/-- The signature of a function. A parameter whose type is a structure is replaced by the members
of that structure. -/
structure Signature where
  name : String
  attributes : NameTable String
  inputs : List Input
  returnType : Option String
deriving Repr

namespace Signature

def attribute? (signature : Signature) (name : String) : Option String :=
  signature.attributes.get? name

/-- Signatures that agree in everything but the order of their attributes. -/
def same (left right : Signature) : Bool :=
  left.name == right.name && left.attributes.same (· == ·) right.attributes &&
    left.inputs == right.inputs && left.returnType == right.returnType

def sameAll : List Signature → List Signature → Bool
  | [], [] => true
  | left :: lefts, right :: rights => left.same right && sameAll lefts rights
  | _, _ => false

end Signature

/-- A stage of the pipeline. -/
inductive Stage where
  | vertex | fragment | compute
deriving DecidableEq, Repr

namespace Stage

/-- The name of a stage, which is also the attribute that marks its entry points. -/
def name : Stage → String
  | vertex => "vertex"
  | fragment => "fragment"
  | compute => "compute"

def all : List Stage := [vertex, fragment, compute]

def ofName? (text : String) : Option Stage := all.find? fun stage => stage.name == text

end Stage

/-- The entry points of each stage in the order of their declaration. -/
structure EntryPoints where
  vertex : List Signature
  fragment : List Signature
  compute : List Signature
deriving Repr

namespace EntryPoints

def empty : EntryPoints := ⟨[], [], []⟩

def ofStage (entryPoints : EntryPoints) : Stage → List Signature
  | .vertex => entryPoints.vertex
  | .fragment => entryPoints.fragment
  | .compute => entryPoints.compute

def add (entryPoints : EntryPoints) (stage : Stage) (signature : Signature) : EntryPoints :=
  match stage with
  | .vertex => { entryPoints with vertex := entryPoints.vertex ++ [signature] }
  | .fragment => { entryPoints with fragment := entryPoints.fragment ++ [signature] }
  | .compute => { entryPoints with compute := entryPoints.compute ++ [signature] }

end EntryPoints

/-- A resource that a variable of the module binds. `bindingType` is `buffer` for a variable in
memory and the name of the type for a resource handle. -/
structure Binding where
  group : Int
  binding : Int
  name : String
  type : String
  bindingType : String
deriving DecidableEq, Repr

/-! ## The whole -/

/-- The reflection of a module. -/
structure Model where
  structures : NameTable Structure
  functions : NameTable Signature
  entryPoints : EntryPoints
  bindings : List Binding
deriving Repr

namespace Model

def structure? (model : Model) (name : String) : Option Structure := model.structures.get? name

def function? (model : Model) (name : String) : Option Signature := model.functions.get? name

def entryPoint (model : Model) (stage : Stage) (index : Int) : Attempt Signature :=
  let entries := model.entryPoints.ofStage stage
  let found :=
    match index with
    | .ofNat index => entries[index]?
    | .negSucc _ => none
  match found with
  | some signature => .ok signature
  | none => .error (.noEntryPoint stage.name index entries.length)

/-- Models that agree in everything but the order of names in tables. -/
def same (left right : Model) : Bool :=
  left.structures.same (· == ·) right.structures &&
    left.functions.same Signature.same right.functions &&
    (Stage.all.all fun stage =>
      Signature.sameAll (left.entryPoints.ofStage stage) (right.entryPoints.ofStage stage)) &&
    left.bindings == right.bindings

end Model

end ShaderReflection.Reflection
