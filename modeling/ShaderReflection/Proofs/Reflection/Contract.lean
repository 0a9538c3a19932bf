import ShaderReflection.Proofs.Reflection.Handles

/-!
# What makes a variable a binding

The contract of reading a binding. A variable of a parsed module is a binding if it says where it is
bound, and its type or address space tells to what kind of resource (`Binds`). It is read as one if
and only if besides none of its numbers is too long (`AllShort`). The binding then is what the
variable says (`DescribesBinding`). Otherwise the fault names the first thing that is wrong
(`Explains`).

A variable is read in three steps: its attributes one after the other, then what it declares, and
an initial value, which plays no role.
-/

namespace ShaderReflection.Reflection

open ShaderReflection.Tree ShaderReflection.Attempt ShaderReflection.Wgsl

/-! ## What a variable says -/

/-- The names of the attributes that have to have a number. -/
def numberedMarks : List String := ["group", "binding"]

/-- The attributes with a name, in order. -/
def marksNamed (source : List Char) (name : String) (marks : List Node) : List Node :=
  marks.filter fun mark => markName? source mark == some name

/-- The first argument of an attribute is an integer literal. -/
def IsNumbered (mark : Node) : Prop :=
  ∃ literal, argument? mark = some literal ∧ literal.kind? = some .intLiteral

/-- All attributes that have to have a number have one. -/
def AllNumbered (source : List Char) (marks : List Node) : Prop :=
  ∀ name ∈ numberedMarks, ∀ mark ∈ marksNamed source name marks, IsNumbered mark

/-- None of these numbers has more decimal digits than are read. -/
def AllShort (source : List Char) (marks : List Node) : Prop :=
  ∀ name ∈ numberedMarks, ∀ mark ∈ marksNamed source name marks,
    ∀ count, ¬ HasLongNumber source mark count

/-- All numbers that attributes have to have are there and are read. -/
structure Readable (source : List Char) (marks : List Node) : Prop where
  numbered : AllNumbered source marks
  short : AllShort source marks

/-- The number of the last attribute with a name. -/
def HasLastNumber (source : List Char) (name : String) (marks : List Node) (value : Int) : Prop :=
  ∃ mark number, (marksNamed source name marks).getLast? = some mark ∧
    HasNumber source mark number ∧ value = number

def qualifier? (node : Node) : Option Node :=
  (node.firstOfKind? .variableDeclaration).bind fun part => part.firstOfKind? .variableQualifier

def addressSpace? (node : Node) : Option Node :=
  (qualifier? node).bind fun part => part.firstOfKind? .addressSpace

/-- The part of a variable that declares a name together with a type. -/
def declaration? (node : Node) : Option Node :=
  (node.firstOfKind? .variableDeclaration).bind fun part =>
    part.firstOfKind? .variableIdentifierDeclaration

def name? (node : Node) : Option Node :=
  (declaration? node).bind fun part => part.firstOfKind? .identifier

def type? (node : Node) : Option Node :=
  (declaration? node).bind fun part => part.firstOfKind? .typeDeclaration

/-- The part of a type that a binding is reported with: for a buffer the first named part or else
all of it, for a handle the first token. -/
def reported? (node : Node) : Option Node :=
  (type? node).bind fun type =>
    if (qualifier? node).isSome then some (type.namedChildren.headD type) else type.leaves.head?

/-- The fields of a binding that a variable leaves open. -/
def missingFields (source : List Char) (node : Node) : List String :=
  [("group", (marksNamed source "group" (node.parts .attributeUse)).isEmpty),
    ("binding", (marksNamed source "binding" (node.parts .attributeUse)).isEmpty),
    ("name", (declaration? node).isNone), ("type", (declaration? node).isNone),
    ("binding_type", (declaration? node).isNone && (qualifier? node).isNone)].filterMap
    fun (name, absent) => if absent then some name else none

/-! ## The contract -/

/-- What a variable has to say to be a binding. -/
structure Binds (source : List Char) (node : Node) : Prop where
  group : marksNamed source "group" (node.parts .attributeUse) ≠ []
  binding : marksNamed source "binding" (node.parts .attributeUse) ≠ []
  numbered : AllNumbered source (node.parts .attributeUse)
  resource : ∃ type, type? node = some type ∧
    ((∃ space, addressSpace? node = some space ∧ space.text source ∈ ["uniform", "storage"]) ∨
      (qualifier? node = none ∧ IsHandle (type.chars source)))

/-- A binding that is just what the variable says. -/
structure DescribesBinding (source : List Char) (node : Node) (found : Binding) : Prop where
  group : HasLastNumber source "group" (node.parts .attributeUse) found.group
  binding : HasLastNumber source "binding" (node.parts .attributeUse) found.binding
  name : (name? node).map (Node.text source) = some found.name
  type : (reported? node).map (Node.text source) = some found.type
  bindingType : found.bindingType = if (qualifier? node).isSome then "buffer" else found.type

/-- What is wrong with the first attribute whose number is not read. -/
inductive FirstLacking (source : List Char) (marks : List Node) : Fault → Prop
  | intro {before after : List Node} {mark : Node} {name : String} {fault : Fault}
      (row : marks = before ++ mark :: after) (readable : Readable source before)
      (isName : markName? source mark = some name) (isNumberedMark : name ∈ numberedMarks)
      (lacks : LacksNumber source name mark fault) : FirstLacking source marks fault

/-- Why a variable is no binding. A reason counts only where none of those before it does. -/
inductive Explains (source : List Char) (node : Node) : Fault → Prop
  | mark {fault : Fault} (lacks : FirstLacking source (node.parts .attributeUse) fault) :
      Explains source node fault
  | space {space : Node} (readable : Readable source (node.parts .attributeUse))
      (isSpace : addressSpace? node = some space)
      (isOther : space.text source ∉ ["uniform", "storage"]) :
      Explains source node (.unsupportedAddressSpace (space.text source))
  | type {type : Node} (readable : Readable source (node.parts .attributeUse))
      (unqualified : qualifier? node = none) (isType : type? node = some type)
      (isOther : ¬ IsHandle (type.chars source)) :
      Explains source node (.unparsableType (type.text source))
  | missing (readable : Readable source (node.parts .attributeUse))
      (buffer : ∀ space ∈ addressSpace? node, space.text source ∈ ["uniform", "storage"])
      (handle : qualifier? node = none → ∀ type ∈ type? node, IsHandle (type.chars source))
      (isMissing : missingFields source node ≠ []) :
      Explains source node (.malformedBinding (node.text source) (missingFields source node))

variable {source : List Char} {node : Node}

/-! ## Attributes -/

section Marks

variable {name other : String} {mark : Node} {marks : List Node}

theorem marksNamed_concat_of_eq (isName : markName? source mark = some name) (marks : List Node) :
    marksNamed source name (marks ++ [mark]) = marksNamed source name marks ++ [mark] := by
  simp [marksNamed, isName]

theorem marksNamed_concat_of_ne (isOther : markName? source mark ≠ some name)
    (marks : List Node) :
    marksNamed source name (marks ++ [mark]) = marksNamed source name marks := by
  simp [marksNamed, isOther]

theorem marksNamed_ne_nil (isMark : mark ∈ marks) (isName : markName? source mark = some name) :
    marksNamed source name marks ≠ [] :=
  List.ne_nil_of_mem (List.mem_filter.mpr ⟨isMark, by simp [isName]⟩)

theorem HasNumber.isNumbered {number : Nat} (hasNumber : HasNumber source mark number) :
    IsNumbered mark := by
  rcases hasNumber with ⟨literal, isArgument, isLiteral, -⟩
  exact ⟨literal, isArgument, isLiteral⟩

/-- An attribute whose number is not read has none, or one that is too long. -/
theorem LacksNumber.notNumbered_or {fault : Fault} (lacks : LacksNumber source name mark fault) :
    ¬ IsNumbered mark ∨ ∃ count, HasLongNumber source mark count := by
  cases lacks with
  | bare noArgument =>
      refine .inl ?_
      rintro ⟨literal, isArgument, -⟩
      rw [noArgument] at isArgument
      cases isArgument
  | other isOther notLiteral =>
      refine .inl ?_
      rintro ⟨literal, isArgument, isLiteral⟩
      rw [isOther] at isArgument
      cases isArgument
      exact notLiteral isLiteral
  | long isLong => exact .inr ⟨_, isLong⟩

/-- What holds of every attribute with a number holds when one more attribute comes behind. -/
theorem forall_marksNamed_concat {property : Node → Prop}
    (each : ∀ name ∈ numberedMarks, ∀ mark ∈ marksNamed source name marks, property mark)
    (further : ∀ name ∈ numberedMarks, markName? source mark = some name → property mark) :
    ∀ name ∈ numberedMarks, ∀ other ∈ marksNamed source name (marks ++ [mark]), property other := by
  intro name isNumberedMark other isMark
  by_cases isName : markName? source mark = some name
  · rw [marksNamed_concat_of_eq isName, List.mem_append, List.mem_singleton] at isMark
    rcases isMark with isOld | rfl
    · exact each name isNumberedMark other isOld
    · exact further name isNumberedMark isName
  · rw [marksNamed_concat_of_ne isName] at isMark
    exact each name isNumberedMark other isMark

theorem Readable.concat (readable : Readable source marks)
    (further : ∀ name ∈ numberedMarks, markName? source mark = some name →
      IsNumbered mark ∧ ∀ count, ¬ HasLongNumber source mark count) :
    Readable source (marks ++ [mark]) :=
  ⟨forall_marksNamed_concat readable.numbered fun name isMark isName =>
      (further name isMark isName).1,
    forall_marksNamed_concat readable.short fun name isMark isName =>
      (further name isMark isName).2⟩

theorem FirstLacking.not_readable {fault : Fault} (lacks : FirstLacking source marks fault) :
    ¬ Readable source marks := by
  intro readable
  cases lacks with
  | @intro before after mark name _ row _ isName isNumberedMark lacks =>
      have isMark : mark ∈ marksNamed source name marks :=
        List.mem_filter.mpr ⟨by simp [row], by simp [isName]⟩
      rcases lacks.notNumbered_or with notNumbered | ⟨count, isLong⟩
      · exact notNumbered (readable.numbered name isNumberedMark mark isMark)
      · exact readable.short name isNumberedMark mark isMark count isLong

/-- What the attributes with a name put into a draft: nothing, or the number of the last one. -/
def Fills (source : List Char) (name : String) (marks : List Node) (slot : Option Int) : Prop :=
  match slot with
  | none => marksNamed source name marks = []
  | some value => HasLastNumber source name marks value

theorem Fills.skip {slot : Option Int} (fills : Fills source name marks slot)
    (isOther : markName? source mark ≠ some name) : Fills source name (marks ++ [mark]) slot := by
  cases slot with
  | none => exact (marksNamed_concat_of_ne isOther marks).trans fills
  | some value =>
      rcases fills with ⟨last, number, isLast, further⟩
      exact ⟨last, number, (marksNamed_concat_of_ne isOther marks).symm ▸ isLast, further⟩

theorem fills_concat {number : Nat} (isName : markName? source mark = some name)
    (hasNumber : HasNumber source mark number) :
    Fills source name (marks ++ [mark]) (some (number : Int)) :=
  ⟨mark, number, by rw [marksNamed_concat_of_eq isName, List.getLast?_concat], hasNumber, rfl⟩

/-- What the attributes that have been read so far say. -/
structure DescribesMarks (source : List Char) (marks : List Node) (draft : BindingDraft) :
    Prop where
  readable : Readable source marks
  group : Fills source "group" marks draft.group
  binding : Fills source "binding" marks draft.binding
  rest : draft.name = none ∧ draft.type = none ∧ draft.bindingType = none

theorem readMark_describes {draft : BindingDraft} (describes : DescribesMarks source marks draft)
    (ofKind : mark.OfKind source .attributeUse) :
    Gives (fun fault => ∃ name ∈ numberedMarks, markName? source mark = some name ∧
        LacksNumber source name mark fault)
      (DescribesMarks source (marks ++ [mark])) (readBindingChild source draft mark) := by
  rcases exists_attributeName ofKind with ⟨title, others, isFull⟩
  have isName : markName? source mark = some (title.text source) := by
    rw [markName?, isFull]
    rfl
  rw [readBindingChild, ofKind.kind_eq]
  simp only [isFull, bind, Except.bind]
  split
  · rename_i isGroup
    rw [isGroup] at isName
    refine ((readIntegerAttribute_describes ofKind).weaken (fun _ lacks =>
      ⟨"group", by decide, isName, lacks⟩) fun _ => id).bind ?_
    rintro _ ⟨⟨number, hasNumber, rfl⟩, short⟩
    constructor
    case readable => exact describes.readable.concat fun _ _ _ => ⟨hasNumber.isNumbered, short⟩
    case group => exact fills_concat isName hasNumber
    case binding => exact describes.binding.skip (by simp [isName])
    case rest => exact describes.rest
  · rename_i isBinding
    rw [isBinding] at isName
    refine ((readIntegerAttribute_describes ofKind).weaken (fun _ lacks =>
      ⟨"binding", by decide, isName, lacks⟩) fun _ => id).bind ?_
    rintro _ ⟨⟨number, hasNumber, rfl⟩, short⟩
    constructor
    case readable => exact describes.readable.concat fun _ _ _ => ⟨hasNumber.isNumbered, short⟩
    case group => exact describes.group.skip (by simp [isName])
    case binding => exact fills_concat isName hasNumber
    case rest => exact describes.rest
  · rename_i notGroup notBinding
    constructor
    case readable =>
      refine describes.readable.concat fun name isNumberedMark isSame => ?_
      rw [isName, Option.some.injEq] at isSame
      rcases List.mem_pair.mp isNumberedMark with rfl | rfl
      · exact absurd isSame notGroup
      · exact absurd isSame notBinding
    case group => exact describes.group.skip (by simpa [isName] using notGroup)
    case binding => exact describes.binding.skip (by simpa [isName] using notBinding)
    case rest => exact describes.rest

/-- The attributes of a variable are read up to the first one that lacks its number. -/
theorem readMarks_describes (ofKind : ∀ mark ∈ marks, mark.OfKind source .attributeUse) :
    Gives (FirstLacking source marks) (DescribesMarks source marks)
      (marks.foldlM (readBindingChild source) .empty) := by
  apply Gives.foldlM_split
  · exact ⟨⟨by simp [AllNumbered, marksNamed], by simp [AllShort, marksNamed]⟩,
      rfl, rfl, rfl, rfl, rfl⟩
  · intro before mark after row draft describes
    refine (readMark_describes describes (ofKind mark (by simp [row]))).weaken ?_ fun _ => id
    rintro fault ⟨name, isNumberedMark, isName, lacks⟩
    exact .intro row describes.readable isName isNumberedMark lacks

end Marks

/-! ## What is declared -/

/-- What has been read of a variable before its initial value. -/
structure DescribesVariable (source : List Char) (node : Node) (draft : BindingDraft) : Prop where
  group : Fills source "group" (node.parts .attributeUse) draft.group
  binding : Fills source "binding" (node.parts .attributeUse) draft.binding
  buffer : ∀ space ∈ addressSpace? node, space.text source ∈ bufferSpaces
  handle : qualifier? node = none → ∀ type ∈ type? node, IsHandle (type.chars source)
  name : draft.name = (name? node).map (Node.text source)
  type : draft.type = (reported? node).map (Node.text source)
  bindingType : draft.bindingType = if (qualifier? node).isSome then some "buffer" else draft.type
  declared : draft.name.isNone = (declaration? node).isNone ∧
    draft.type.isNone = (declaration? node).isNone

/-- A child of a variable that says nothing about its binding. -/
theorem readBindingChild_skip {child : Node} {kind : Kind} (ofKind : child.OfKind source kind)
    (isOther : kind ∉ [.attributeUse, .variableDeclaration]) (draft : BindingDraft) :
    readBindingChild source draft child = .ok draft := by
  rw [readBindingChild, ofKind.kind_eq]
  cases kind <;> first | rfl | exact absurd (by decide) isOther

/-- A variable is written with its attributes, what it declares, possibly an initial value, and a
semicolon. -/
theorem exists_variable_row (ofKind : node.OfKind source .globalVariableDeclaration) :
    ∃ marks part rest last, node.children = marks ++ ([part] ++ (rest ++ [last])) ∧
      (∀ child ∈ marks, child.OfKind source .attributeUse) ∧
      part.OfKind source .variableDeclaration ∧
      (∀ child ∈ rest, child.isNamed = true → ∃ kind,
        kind ∉ [Kind.attributeUse, .variableDeclaration] ∧ child.OfKind source kind) ∧
      last.isNamed = false := by
  rcases ofKind.exists_row with ⟨row, isRow, symbols⟩
  rcases Language.mem_mul.mp isRow with ⟨_, isFront, _, rfl, rfl⟩
  rcases Language.mem_mul.mp isFront with ⟨_, isStart, initial, isInitial, rfl⟩
  rcases Language.mem_mul.mp isStart with ⟨attributes, areAttributes, _, rfl, rfl⟩
  simp only [List.map_append, List.map_singleton, List.append_assoc] at symbols
  rcases List.map_eq_append_iff.mp symbols with ⟨marks, _, children, areMarks, isBehind⟩
  rcases List.map_eq_append_iff.mp isBehind with ⟨_, _, rfl, isPart, isRest⟩
  rcases List.map_eq_singleton_iff.mp isPart with ⟨part, rfl, isVariable⟩
  rcases List.map_eq_append_iff.mp isRest with ⟨rest, _, rfl, areRest, isLast⟩
  rcases List.map_eq_singleton_iff.mp isLast with ⟨last, rfl, isSemicolon⟩
  refine ⟨marks, part, rest, last, children, ?_, ?_, ?_, Node.isNamed_of_symbol? isSemicolon⟩
  · intro child isChild
    have isSymbol : child.symbol? ∈ attributes.map some := areMarks ▸ List.mem_map_of_mem isChild
    rcases List.mem_map.mp isSymbol with ⟨symbol, inRow, isSymbol⟩
    have only : ∀ symbol ∈ Expansion.symbols (Expansion.maybe Expansion.attributes),
        symbol = .nonterminal .attributeUse := by
      decide
    rw [only symbol (Expansion.mem_symbols areAttributes inRow)] at isSymbol
    rcases Node.symbol?_eq_nonterminal.mp isSymbol.symm with ⟨isNamed, isKind⟩
    exact ⟨ofKind.child (by simp [children, isChild]), isNamed, isKind⟩
  · rcases Node.symbol?_eq_nonterminal.mp isVariable with ⟨isNamed, isKind⟩
    exact ⟨ofKind.child (by simp [children]), isNamed, isKind⟩
  · intro child isChild isNamed
    have grammatical : child.Grammatical source := ofKind.child (by simp [children, isChild])
    rcases grammatical.exists_kind with ⟨kind, isKind, -⟩
    have isSymbol : some (.nonterminal kind) ∈ initial.map some := by
      rw [← areRest, ← Node.symbol?_eq_nonterminal.mpr ⟨isNamed, isKind⟩]
      exact List.mem_map_of_mem isChild
    rcases List.mem_map.mp isSymbol with ⟨_, inRow, isSymbol⟩
    cases isSymbol
    have all : ∀ kind ∈ Expansion.kinds (Expansion.maybe Expansion.initializer),
        kind ∉ [Kind.attributeUse, .variableDeclaration] := by
      decide
    exact ⟨kind, all kind (Expansion.mem_kinds isInitial inRow), grammatical, isNamed, isKind⟩

/-- The named parts of a variable in order. -/
theorem exists_variable_parts (ofKind : node.OfKind source .globalVariableDeclaration) :
    ∃ part rest, node.namedChildren = node.parts .attributeUse ++ part :: rest ∧
      part.OfKind source .variableDeclaration ∧
      node.firstOfKind? .variableDeclaration = some part ∧
      ∀ child ∈ rest, ∃ kind, kind ∉ [Kind.attributeUse, .variableDeclaration] ∧
        child.OfKind source kind := by
  rcases exists_variable_row ofKind with
    ⟨marks, part, rest, last, children, areMarks, isVariable, areRest, isToken⟩
  have namedRest : ∀ child ∈ rest.filter Node.isNamed, ∃ kind,
      kind ∉ [Kind.attributeUse, .variableDeclaration] ∧ child.OfKind source kind := by
    intro child isChild
    rcases List.mem_filter.mp isChild with ⟨inRest, isNamed⟩
    exact areRest child inRest isNamed
  have areNamed : node.namedChildren = marks ++ part :: rest.filter Node.isNamed := by
    have allMarks : marks.filter Node.isNamed = marks :=
      List.filter_eq_self.mpr fun child isChild => (areMarks child isChild).isNamed
    rw [Node.namedChildren, children]
    simp [allMarks, isVariable.isNamed, isToken]
  have areParts : node.parts .attributeUse = marks := by
    have allMarks : Node.among .attributeUse marks = marks :=
      List.filter_eq_self.mpr fun child isChild => by simp [(areMarks child isChild).isKind]
    have noMarks : Node.among .attributeUse (part :: rest.filter Node.isNamed) = [] := by
      rw [Node.among, List.filter_eq_nil_iff, List.forall_mem_cons]
      refine ⟨by simp [isVariable.isKind], fun child isChild => ?_⟩
      rcases namedRest child isChild with ⟨kind, isOther, childOfKind⟩
      simp only [List.mem_cons, not_or] at isOther
      simp [childOfKind.isKind, isOther.1]
    rw [← Node.among_namedChildren (by decide), areNamed, Node.among, List.filter_append,
      ← Node.among, ← Node.among, allMarks, noMarks, List.append_nil]
  have isFirst : node.firstOfKind? .variableDeclaration = some part := by
    rcases ofKind.parts_eq_singleton .variableDeclaration (by decide) rfl rfl with ⟨only, isOnly, -⟩
    have isPart : part ∈ node.parts .variableDeclaration :=
      List.mem_filter.mpr ⟨by simp [children], by simp [isVariable.isKind]⟩
    rw [isOnly, List.mem_singleton] at isPart
    rw [Node.firstOfKind?, ← List.head?_filter, ← Node.among, ← Node.parts, isOnly, isPart]
    rfl
  exact ⟨part, _, areParts ▸ areNamed, isVariable, isFirst, namedRest⟩

theorem text_bufferType (type : Node) :
    bufferType source type = (type.namedChildren.headD type).text source := by
  rw [bufferType]
  cases type.namedChildren <;> rfl

section Part

variable {part : Node} {draft : BindingDraft}
  (isPart : node.firstOfKind? .variableDeclaration = some part)
include isPart

theorem qualifier?_eq : qualifier? node = part.firstOfKind? .variableQualifier := by
  rw [qualifier?, isPart, Option.bind_some]

theorem addressSpace?_eq : addressSpace? node = spaceOf? part := by
  rw [addressSpace?, qualifier?_eq isPart, spaceOf?]

theorem declaration?_eq :
    declaration? node = part.firstOfKind? .variableIdentifierDeclaration := by
  rw [declaration?, isPart, Option.bind_some]

theorem type?_eq {declaration type : Node}
    (isDeclaration : part.firstOfKind? .variableIdentifierDeclaration = some declaration)
    (isType : declaration.firstOfKind? .typeDeclaration = some type) : type? node = some type := by
  rw [type?, declaration?_eq isPart, isDeclaration, Option.bind_some, isType]

theorem name?_eq {declaration name : Node}
    (isDeclaration : part.firstOfKind? .variableIdentifierDeclaration = some declaration)
    (isName : declaration.firstOfKind? .identifier = some name) : name? node = some name := by
  rw [name?, declaration?_eq isPart, isDeclaration, Option.bind_some, isName]

/-- What is known of a variable once its attributes and its address space have been read. -/
structure DescribesSpace (source : List Char) (node : Node) (draft : BindingDraft) : Prop where
  group : Fills source "group" (node.parts .attributeUse) draft.group
  binding : Fills source "binding" (node.parts .attributeUse) draft.binding
  buffer : ∀ space ∈ addressSpace? node, space.text source ∈ bufferSpaces
  rest : draft.name = none ∧ draft.type = none
  bindingType : draft.bindingType = if (qualifier? node).isSome then some "buffer" else none

theorem readSpace_describesSpace
    (describes : DescribesMarks source (node.parts .attributeUse) draft)
    (ofKind : part.OfKind source .variableDeclaration) :
    Gives (Explains source node) (DescribesSpace source node) (readSpace source part draft) := by
  refine (readSpace_describes ofKind draft).weaken ?_ ?_
  · rintro _ ⟨space, isSpace, isOther, rfl⟩
    exact .space describes.readable ((addressSpace?_eq isPart).trans isSpace) isOther
  · rintro later ⟨buffer, rfl⟩
    rw [isSome_spaceOf? ofKind, ← qualifier?_eq isPart]
    rw [← addressSpace?_eq isPart] at buffer
    rcases describes.rest with ⟨noName, noType, noKind⟩
    split
    · rename_i isSome
      exact ⟨describes.group, describes.binding, buffer, ⟨noName, noType⟩, by rw [if_pos isSome]⟩
    · rename_i isNone
      exact ⟨describes.group, describes.binding, buffer, ⟨noName, noType⟩,
        by rw [if_neg isNone, noKind]⟩

theorem describesVariable_of_nothing (describes : DescribesSpace source node draft)
    (undeclared : part.firstOfKind? .variableIdentifierDeclaration = none) :
    DescribesVariable source node draft := by
  have noDeclaration : declaration? node = none := (declaration?_eq isPart).trans undeclared
  have noType : type? node = none := by rw [type?, noDeclaration, Option.bind_none]
  rcases describes.rest with ⟨isName, isType⟩
  constructor
  case group => exact describes.group
  case binding => exact describes.binding
  case buffer => exact describes.buffer
  case handle => simp [noType]
  case name => rw [isName, name?, noDeclaration, Option.bind_none, Option.map_none]
  case type => rw [isType, reported?, noType, Option.bind_none, Option.map_none]
  case bindingType => rw [isType, describes.bindingType]
  case declared => simp [isName, isType, noDeclaration]

section Declared

variable {declaration name type : Node} (describes : DescribesSpace source node draft)
  (isDeclaration : part.firstOfKind? .variableIdentifierDeclaration = some declaration)
  (isName : declaration.firstOfKind? .identifier = some name)
  (isType : declaration.firstOfKind? .typeDeclaration = some type)
include describes isDeclaration isName isType

theorem describesVariable_of_buffer (isBuffer : draft.bindingType.isSome) :
    DescribesVariable source node
      { draft with name := some (name.text source), type := some (bufferType source type) } := by
  have isKind := describes.bindingType
  have isSome : (qualifier? node).isSome = true := by
    by_contra isNone
    rw [isKind, if_neg isNone] at isBuffer
    cases isBuffer
  rw [if_pos isSome] at isKind
  constructor
  case group => exact describes.group
  case binding => exact describes.binding
  case buffer => exact describes.buffer
  case handle =>
    intro isNone
    rw [isNone] at isSome
    cases isSome
  case name => rw [name?_eq isPart isDeclaration isName, Option.map_some]
  case type =>
    rw [reported?, type?_eq isPart isDeclaration isType, Option.bind_some, if_pos isSome,
      Option.map_some, text_bufferType]
  case bindingType => rw [if_pos isSome, isKind]
  case declared => simp [declaration?_eq isPart, isDeclaration]

theorem describesVariable_of_handle {handle : List Char}
    (typeOfKind : type.OfKind source .typeDeclaration) (typeWritten : type.Written source)
    (notBuffer : draft.bindingType = none)
    (isHandle : handleType? (type.chars source) = some handle) :
    DescribesVariable source node
      { draft with
        name := some (name.text source), type := some (String.ofList handle)
        bindingType := some (String.ofList handle) } := by
  have isNone : ¬ (qualifier? node).isSome = true := by
    intro isSome
    rw [describes.bindingType, if_pos isSome] at notBuffer
    cases notBuffer
  rcases exists_head_of_typeDeclaration typeOfKind typeWritten with ⟨token, isToken, isFirst⟩
  rw [eq_takeWhile_of_handleType? isHandle]
  constructor
  case group => exact describes.group
  case binding => exact describes.binding
  case buffer => exact describes.buffer
  case handle =>
    intro _ other isOther
    rw [type?_eq isPart isDeclaration isType] at isOther
    cases isOther
    exact isHandle_of_handleType? isHandle (noSpace_of_typeDeclaration typeOfKind typeWritten)
  case name => rw [name?_eq isPart isDeclaration isName, Option.map_some]
  case type =>
    rw [reported?, type?_eq isPart isDeclaration isType, Option.bind_some, if_neg isNone,
      isToken, Option.map_some, isFirst]
    rfl
  case bindingType => rw [if_neg isNone]
  case declared => simp [declaration?_eq isPart, isDeclaration]

end Declared

theorem describesVariable_of_declares {final : BindingDraft}
    (describes : DescribesSpace source node draft) (written : part.Written source)
    (ofKind : part.OfKind source .variableDeclaration)
    (declares : Declares source part draft final) : DescribesVariable source node final := by
  cases declares with
  | nothing undeclared => exact describesVariable_of_nothing isPart describes undeclared
  | buffer isDeclaration isName isType isBuffer =>
      exact describesVariable_of_buffer isPart describes isDeclaration isName isType isBuffer
  | handle isDeclaration isName isType notBuffer isHandle =>
      have declarationOfKind := ofKind.of_find? (by decide) isDeclaration
      have typeOfKind := declarationOfKind.of_find? (by decide) isType
      have declarationWritten := written.child (List.mem_of_find?_eq_some isDeclaration)
      have typeWritten := declarationWritten.child (List.mem_of_find?_eq_some isType)
      exact describesVariable_of_handle isPart describes isDeclaration isName isType typeOfKind
        typeWritten notBuffer isHandle

theorem readVariable_describes (describes : DescribesMarks source (node.parts .attributeUse) draft)
    (ofKind : part.OfKind source .variableDeclaration) (written : part.Written source) :
    Gives (Explains source node) (DescribesVariable source node)
      (readBindingChild source draft part) := by
  rw [readBindingChild, ofKind.kind_eq]
  refine (readSpace_describesSpace isPart describes ofKind).bind fun later space => ?_
  refine (readNameAndType_describes ofKind later).weaken ?_ fun final =>
    describesVariable_of_declares isPart space written ofKind
  rintro _ ⟨noBuffer, declaration, type, isDeclaration, isType, notHandle, rfl⟩
  refine .type describes.readable ?_ (type?_eq isPart isDeclaration isType) ?_
  · rw [← Option.not_isSome_iff_eq_none]
    intro isSome
    rw [space.bindingType, if_pos isSome] at noBuffer
    cases noBuffer
  · intro isHandle
    rw [handleType?_of_isHandle isHandle] at notHandle
    cases notHandle

end Part

/-! ## Finished bindings -/

theorem Fills.isNone {name : String} {marks : List Node} {slot : Option Int}
    (fills : Fills source name marks slot) :
    slot.isNone = (marksNamed source name marks).isEmpty := by
  cases slot with
  | none =>
      have isEmpty : marksNamed source name marks = [] := fills
      rw [isEmpty]
      rfl
  | some value =>
      rcases fills with ⟨mark, number, isLast, -⟩
      rw [Option.isNone_some, eq_comm, List.isEmpty_eq_false_iff]
      rintro isEmpty
      rw [isEmpty] at isLast
      cases isLast

theorem Fills.ne_nil {name : String} {marks : List Node} {value : Int}
    (fills : Fills source name marks (some value)) : marksNamed source name marks ≠ [] := by
  have isFull := fills.isNone
  rwa [Option.isNone_some, eq_comm, List.isEmpty_eq_false_iff] at isFull

/-- A draft lacks just what the variable does not say. -/
theorem missing_eq {draft : BindingDraft} (describes : DescribesVariable source node draft) :
    draft.missing = missingFields source node := by
  have isKind : draft.bindingType.isNone =
      ((declaration? node).isNone && (qualifier? node).isNone) := by
    rw [describes.bindingType, ← describes.declared.2]
    cases qualifier? node <;> simp
  rw [BindingDraft.missing, missingFields, describes.group.isNone, describes.binding.isNone,
    describes.declared.1, describes.declared.2, isKind]

theorem missing_ne_nil {draft : BindingDraft} (isOpen : draft.finish? = none) :
    draft.missing ≠ [] := by
  rcases draft with ⟨_ | group, _ | slot, _ | name, _ | type, _ | bindingType⟩ <;>
    first | (simp [BindingDraft.missing]; done) | cases isOpen

/-- What explains a fault is against a binding. -/
theorem Explains.not_binds {fault : Fault} (explains : Explains source node fault) :
    ¬ (Binds source node ∧ AllShort source (node.parts .attributeUse)) := by
  rintro ⟨⟨hasGroup, hasBinding, numbered, type, isType, resource⟩, short⟩
  cases explains with
  | mark lacks => exact lacks.not_readable ⟨numbered, short⟩
  | space _ isSpace isOther =>
      rcases resource with ⟨space, isOnly, isBuffer⟩ | ⟨unqualified, -⟩
      · rw [isSpace] at isOnly
        cases isOnly
        exact isOther isBuffer
      · rw [addressSpace?, unqualified] at isSpace
        cases isSpace
  | type _ unqualified isOnly isOther =>
      rcases resource with ⟨space, isSpace, -⟩ | ⟨-, isHandle⟩
      · rw [addressSpace?, unqualified] at isSpace
        cases isSpace
      · rw [isType] at isOnly
        cases isOnly
        exact isOther isHandle
  | missing _ _ _ isMissing =>
      have isDeclared : (declaration? node).isNone = false := by
        cases declared : declaration? node with
        | none =>
            rw [type?, declared] at isType
            cases isType
        | some declaration => rfl
      refine isMissing ?_
      simp [missingFields, hasGroup, hasBinding, isDeclared]

theorem binds_of_finish? {draft : BindingDraft} {found : Binding}
    (describes : DescribesVariable source node draft) (isFinished : draft.finish? = some found)
    (readable : Readable source (node.parts .attributeUse))
    (sameSome : (addressSpace? node).isSome = (qualifier? node).isSome) :
    (Binds source node ∧ AllShort source (node.parts .attributeUse)) ∧
      DescribesBinding source node found := by
  rcases eq_of_finish? isFinished with ⟨isGroup, isBinding, isName, isType, isKind⟩
  have group := describes.group
  have binding := describes.binding
  rw [isGroup] at group
  rw [isBinding] at binding
  have reported := describes.type.symm.trans isType
  have typeIs : ∃ type, type? node = some type := by
    cases declared : type? node with
    | none =>
        rw [reported?, declared] at reported
        cases reported
    | some type => exact ⟨type, rfl⟩
  rcases typeIs with ⟨type, typeIs⟩
  refine ⟨⟨⟨group.ne_nil, binding.ne_nil, readable.numbered, type, typeIs, ?_⟩, readable.short⟩,
    ⟨group, binding, describes.name.symm.trans isName, reported, ?_⟩⟩
  · cases isSpace : addressSpace? node with
    | none =>
        rw [isSpace, Option.isSome_none, eq_comm, Option.isSome_eq_false_iff,
          Option.isNone_iff_eq_none] at sameSome
        exact .inr ⟨sameSome, describes.handle sameSome type typeIs⟩
    | some space => exact .inl ⟨space, rfl, describes.buffer space isSpace⟩
  · have isKind := describes.bindingType.symm.trans isKind
    rw [isType] at isKind
    split at isKind <;> simp_all

/-- A binding is read from a variable that makes one, and a fault explained for any other. -/
theorem readBinding_gives_binding (ofKind : node.OfKind source .globalVariableDeclaration)
    (written : node.Written source) :
    Gives (Explains source node)
      (fun found => (Binds source node ∧ AllShort source (node.parts .attributeUse)) ∧
        DescribesBinding source node found)
      (readBinding source node) := by
  rcases exists_variable_parts ofKind with ⟨part, rest, children, partOfKind, isPart, areRest⟩
  have isChild : part ∈ node.children := List.mem_of_find?_eq_some isPart
  have skipped : ∀ draft, rest.foldlM (readBindingChild source) draft = .ok draft := by
    intro draft
    clear children
    induction rest with
    | nil => rfl
    | cons child rest induction =>
        rcases List.forall_mem_cons.mp areRest with ⟨⟨kind, isOther, childOfKind⟩, others⟩
        rw [List.foldlM_cons, readBindingChild_skip childOfKind isOther]
        exact induction others
  have folded : Gives (Explains source node)
      (fun draft => Readable source (node.parts .attributeUse) ∧
        DescribesVariable source node draft)
      (node.namedChildren.foldlM (readBindingChild source) .empty) := by
    rw [children, List.foldlM_append]
    refine ((readMarks_describes fun mark => ofKind.part (by decide)).weaken
      (fun _ => .mark) fun _ => id).bind fun draft marks => ?_
    rw [List.foldlM_cons]
    refine (readVariable_describes isPart marks partOfKind (written.child isChild)).bind ?_
    intro later describes
    rw [skipped]
    exact ⟨marks.readable, describes⟩
  rw [readBinding, ofKind.kind_eq]
  refine folded.bind fun draft found => ?_
  rcases found with ⟨readable, describes⟩
  have sameSome := isSome_spaceOf? partOfKind
  rw [← qualifier?_eq isPart, ← addressSpace?_eq isPart] at sameSome
  cases isFinished : draft.finish? with
  | some binding => exact binds_of_finish? describes isFinished readable sameSome
  | none =>
      have isMissing := missing_ne_nil isFinished
      rw [missing_eq describes] at isMissing
      show Explains source node (.malformedBinding (node.text source) draft.missing)
      rw [missing_eq describes]
      exact .missing readable describes.buffer describes.handle isMissing

/-- The contract of reading a binding: when there is one, what it is, and which fault there is
otherwise. -/
theorem readBinding_contract {text : String} {tree : SyntaxTree} (accepted : parse text = .ok tree)
    {node : Node} (isVariable : node ∈ nodesOfKind tree .globalVariableDeclaration) :
    ((∃ found, readBinding tree.source node = .ok found) ↔
      Binds tree.source node ∧ AllShort tree.source (node.parts .attributeUse)) ∧
    (∀ found, readBinding tree.source node = .ok found →
      DescribesBinding tree.source node found) ∧
    ∀ fault, readBinding tree.source node = .error fault → Explains tree.source node fault := by
  have isTree := parse_source accepted
  rcases grammatical_of_parse isTree with ⟨-, grammatical, isModule⟩
  have ofKind := ofKind_of_mem_nodesOfKind grammatical isVariable
  have rootOfKind : tree.root.OfKind tree.source .translationUnit :=
    ⟨grammatical, Node.isNamed_of_kind? (by decide) isModule, isModule⟩
  rw [nodesOfKind_eq_parts rootOfKind (by decide)] at isVariable
  have written := (Node.written_of_parse isTree).child (List.mem_filter.mp isVariable).1
  have gives := readBinding_gives_binding ofKind written
  cases result : readBinding tree.source node with
  | ok found =>
      rw [result] at gives
      refine ⟨⟨fun _ => gives.1, fun _ => ⟨found, rfl⟩⟩, ?_, ?_⟩
      · rintro _ ⟨⟩
        exact gives.2
      · rintro _ ⟨⟩
  | error fault =>
      rw [result] at gives
      refine ⟨⟨?_, fun binds => absurd binds gives.not_binds⟩, ?_, ?_⟩
      · rintro ⟨_, ⟨⟩⟩
      · rintro _ ⟨⟩
      · rintro _ ⟨⟩
        exact gives

/-- A buffer with two groups of which the second one counts, and a handle whose group is not an
integer. -/
def boundSource : String :=
  "@group(0)@group(0x1Fu)@binding(3)var<uniform>a:array<f32>;@group(1.)var b:sampler;"

theorem readBinding_contract_boundSource :
    ∃ tree buffer handle fault, parse boundSource = .ok tree ∧
      nodesOfKind tree .globalVariableDeclaration = [buffer, handle] ∧
      Binds tree.source buffer ∧ AllShort tree.source (buffer.parts .attributeUse) ∧
      DescribesBinding tree.source buffer ⟨31, 3, "a", "f32", "buffer"⟩ ∧
      readBinding tree.source handle = .error fault ∧ Explains tree.source handle fault ∧
      fault.message = "group value of type float_literal unsupported: 1." := by
  have checked : (parse boundSource).toOption.any (fun tree =>
      (nodesOfKind tree .globalVariableDeclaration).map (fun node =>
        (readBinding tree.source node).mapError Fault.message) ==
      [.ok ⟨31, 3, "a", "f32", "buffer"⟩,
        .error "group value of type float_literal unsupported: 1."]) = true := by
    decide +kernel
  rcases exists_ok_of_any checked with ⟨tree, accepted, isFound⟩
  rcases List.map_eq_cons_iff.mp (beq_iff_eq.mp isFound) with
    ⟨buffer, others, areVariables, isBound, areFaulty⟩
  rcases List.map_eq_singleton_iff.mp areFaulty with ⟨handle, rfl, isFaulty⟩
  rcases Attempt.eq_error_of_mapError isFaulty with ⟨fault, isFault, isMessage⟩
  have isBound := Attempt.eq_ok_of_mapError isBound
  have ofBuffer := readBinding_contract accepted (areVariables ▸ List.mem_cons_self)
  have isHandle : handle ∈ nodesOfKind tree .globalVariableDeclaration := by
    simp [areVariables]
  have ofHandle := readBinding_contract accepted isHandle
  rcases ofBuffer.1.mp ⟨_, isBound⟩ with ⟨binds, short⟩
  exact ⟨tree, buffer, handle, fault, accepted, areVariables, binds, short,
    ofBuffer.2.1 _ isBound, isFault, ofHandle.2.2 _ isFault, isMessage⟩

theorem binds_handlePhrase {token : Nat → Grammar.Token}
    (isGroup : (token 1).span.slice source = "group".toList)
    (isBinding : (token 11).span.slice source = "binding".toList)
    (isType : (token 18).span.slice source = "sampler".toList) :
    Binds source (handlePhrase token).toNode := by
  have areMarks : (handlePhrase token).toNode.parts .attributeUse =
      [(markPhrase token).toNode, (markPhrase fun index => token (index + 5)).toNode,
        (markPhrase fun index => token (index + 10)).toNode] := rfl
  have isFirst : markName? source (markPhrase token).toNode = some "group" :=
    congrArg (some ∘ String.ofList) isGroup
  have isThird : markName? source (markPhrase fun index => token (index + 10)).toNode =
      some "binding" := congrArg (some ∘ String.ofList) isBinding
  have isHandle : IsHandle "sampler".toList := .plain ⟨by decide, List.all_eq_true.mp rfl⟩
  constructor
  case group =>
    rw [areMarks]
    exact marksNamed_ne_nil (by simp) isFirst
  case binding =>
    rw [areMarks]
    exact marksNamed_ne_nil (by simp) isThird
  case numbered =>
    intro name _ mark isMark
    have isPart := (List.mem_filter.mp isMark).1
    simp only [areMarks, List.mem_cons, List.not_mem_nil, or_false] at isPart
    rcases isPart with rfl | rfl | rfl
    · exact ⟨_, rfl, rfl⟩
    · exact ⟨_, rfl, rfl⟩
    · exact ⟨_, rfl, rfl⟩
  case resource =>
    refine ⟨_, rfl, .inr ⟨rfl, ?_⟩⟩
    show IsHandle ((token 18).span.slice source)
    rw [isType]
    exact isHandle

theorem binds_handleVariable {literal : List Char}
    (isText : literal ∈ Terminal.texts .intLiteral) :
    Binds (handleSource literal) (handleVariable literal) := by
  have shows := (parse_handleSource isText).2
  exact binds_handlePhrase (shows 1 _ rfl) (shows 11 _ rfl) (shows 18 _ rfl)

/-- This variable says all that a binding has to say, but it is not read as one. -/
theorem readBinding_longSource_fails :
    parse longSource = .ok (handleTree longLiteral) ∧
      handleVariable longLiteral ∈
        nodesOfKind (handleTree longLiteral) .globalVariableDeclaration ∧
      Binds (handleTree longLiteral).source (handleVariable longLiteral) ∧
      ¬ ∃ found, readBinding (handleTree longLiteral).source (handleVariable longLiteral) =
        .ok found := by
  refine ⟨parse_longSource, ?_, binds_handleVariable longLiteral_mem_texts, ?_⟩
  · rw [nodesOfKind_handleTree longLiteral_mem_texts]
    exact List.mem_cons_self
  · rintro ⟨found, isOk⟩
    rw [readBinding_longSource] at isOk
    cases isOk

end ShaderReflection.Reflection
