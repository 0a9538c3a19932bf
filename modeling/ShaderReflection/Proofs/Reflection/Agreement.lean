import ShaderReflection.Proofs.Reflection.EntryPoints
import ShaderReflection.Proofs.Tree.Counterparts

/-!
# Declarations in the same place of two trees

Counterparts in two trees that differ in their trivia say the same: names are equal, and texts of
types and values are equal but for trivia. Names of structures are single words, so a type finds
the same structure in both modules, and the same parameters are replaced by the same members.
-/

namespace ShaderReflection.Reflection

open ShaderReflection.Tree ShaderReflection.Attempt

/-! ## What agrees but for trivia -/

section Agreement

variable (left right : SyntaxTree)

/-- The texts of two types in the same place with the same leaves. -/
def TypesAgree (text other : String) : Prop :=
  ∃ type found, type.kind? = some .typeDeclaration ∧ SameLeaves left right type found ∧
    text = type.text left.source ∧ other = found.text right.source

/-- The texts of two attributes in the same place, between whose parentheses there are nodes with
the same leaves. A value is made of the nodes that are picked from them. -/
def ValuesAgree (pick : List Node → List Node) (text other : String) : Prop :=
  ∃ mark found name otherName inside others, SamePlace left right mark found ∧
    mark.UsesAttribute name inside ∧ found.UsesAttribute otherName others ∧
    List.Forall₂ (SameLeaves left right) inside others ∧
    text = String.join ((pick inside).map (Node.text left.source)) ∧
    other = String.join ((pick others).map (Node.text right.source))

structure AttributesAgree (pick : List Node → List Node) (mark other : Attribute) : Prop where
  name : mark.name = other.name
  value : ValuesAgree left right pick mark.value other.value

/-- Members and parameters. Of their attributes the first argument is the value. -/
structure InputsAgree (input other : Input) : Prop where
  name : input.name = other.name
  type : TypesAgree left right input.type other.type
  attributes : List.Forall₂ (AttributesAgree left right (List.take 1)) input.attributes
    other.attributes

structure StructuresAgree (declared other : Structure) : Prop where
  name : declared.name = other.name
  members : List.Forall₂ (InputsAgree left right) declared.members other.members

/-- Functions. All that stands between the parentheses of their attributes is the value. -/
structure SignaturesAgree (signature other : Signature) : Prop where
  name : signature.name = other.name
  attributes : signature.attributes.Agree (ValuesAgree left right id) other.attributes
  inputs : List.Forall₂ (InputsAgree left right) signature.inputs other.inputs
  returnType : Option.Rel (TypesAgree left right) signature.returnType other.returnType

end Agreement

variable {left right : SyntaxTree} {node found : Node}

theorem sameLeaves_of_type {type otherType : Node} (same : Counterparts left right type otherType)
    (ofKind : type.OfKind left.source .typeDeclaration) : SameLeaves left right type otherType := by
  apply same.sameLeaves
  rw [ofKind.isKind]
  decide

theorem typesAgree_of_counterparts {type otherType : Node}
    (same : Counterparts left right type otherType)
    (ofKind : type.OfKind left.source .typeDeclaration) :
    TypesAgree left right (type.text left.source) (otherType.text right.source) :=
  ⟨type, otherType, ofKind.isKind, sameLeaves_of_type same ofKind, rfl, rfl⟩

/-- What is said by related nodes agrees, if it does for each two of them. -/
theorem forall₂_of_described {α β : Type} {related : Node → Node → Prop}
    {describes : Node → α → Prop} {otherDescribes : Node → β → Prop} {agree : α → β → Prop}
    {nodes others : List Node} {values : List α} {otherValues : List β}
    (rows : List.Forall₂ related nodes others) (described : List.Forall₂ describes nodes values)
    (otherDescribed : List.Forall₂ otherDescribes others otherValues)
    (each : ∀ node found value other, related node found → describes node value →
      otherDescribes found other → agree value other) :
    List.Forall₂ agree values otherValues := by
  induction rows generalizing values otherValues with
  | nil =>
      cases described
      cases otherDescribed
      exact .nil
  | cons areRelated _ induction =>
      cases described with
      | cons reads described =>
          cases otherDescribed with
          | cons otherReads otherDescribed =>
              exact .cons (each _ _ _ _ areRelated reads otherReads)
                (induction described otherDescribed)

/-! ## Attributes -/

section Attributes

variable {name otherName : Node} {inside others : List Node}

theorem symbol?_of_usesAttribute (uses : node.UsesAttribute name inside) :
    name.symbol? = some (.nonterminal .identifier) := by
  cases uses with
  | bare _ isName => exact isName
  | called _ isName => exact isName

variable (counterparts : Counterparts left right node found)
  (uses : node.UsesAttribute name inside) (otherUses : found.UsesAttribute otherName others)
include counterparts uses otherUses

theorem forall₂_of_usesAttribute :
    Counterparts left right name otherName ∧
      List.Forall₂ (Counterparts left right) inside others := by
  have rows := counterparts.children
  have lengths := rows.length_eq
  cases uses with
  | bare _ _ children =>
      cases otherUses with
      | bare _ _ otherChildren =>
          rw [children, otherChildren] at rows
          rcases rows with _ | ⟨-, _ | ⟨sameName, -⟩⟩
          exact ⟨sameName, .nil⟩
      | called _ _ _ _ otherChildren =>
          rw [children, otherChildren] at lengths
          simp at lengths
  | called _ _ _ _ children =>
      cases otherUses with
      | bare _ _ otherChildren =>
          rw [children, otherChildren] at lengths
          simp at lengths
      | called _ _ _ _ otherChildren =>
          rw [children, otherChildren] at rows lengths
          rcases rows with _ | ⟨-, _ | ⟨sameName, _ | ⟨-, rest⟩⟩⟩
          have sameLength : inside.length = others.length := by simpa using lengths
          have front := List.forall₂_take inside.length rest
          rw [List.take_left, sameLength, List.take_left] at front
          exact ⟨sameName, front⟩

theorem name_eq_of_usesAttribute : name.text left.source = otherName.text right.source := by
  have sameName := (forall₂_of_usesAttribute counterparts uses otherUses).1
  exact sameName.text_eq_of_token (sameName.ofKind_of_symbol? (symbol?_of_usesAttribute uses)) rfl
    rfl

theorem attributesAgree_of_usesAttribute (ofKind : node.OfKind left.source .attributeUse)
    (pick : List Node → List Node) :
    AttributesAgree left right pick
      ⟨name.text left.source, String.join ((pick inside).map (Node.text left.source))⟩
      ⟨otherName.text right.source, String.join ((pick others).map (Node.text right.source))⟩ := by
  refine ⟨name_eq_of_usesAttribute counterparts uses otherUses, node, found, name, otherName,
    inside, others, counterparts.samePlace, uses, otherUses, ?_, rfl, rfl⟩
  have notModules : ∀ part ∈ inside, part.kind? ≠ some .translationUnit := fun part isPart =>
    ofKind.kind?_child_ne (uses.mem_children isPart)
  have rows := (forall₂_of_usesAttribute counterparts uses otherUses).2
  refine ((List.forall₂_and_left _ _).mpr ⟨notModules, rows⟩).imp ?_
  rintro part other ⟨notModule, same⟩
  exact same.sameLeaves notModule

end Attributes

/-- The first text, if there is one, as a text that is joined. -/
theorem getD_head?_map_eq_join (source : List Char) (nodes : List Node) :
    (nodes.head?.map (Node.text source)).getD "" =
      String.join ((nodes.take 1).map (Node.text source)) := by
  cases nodes with
  | nil => rfl
  | cons node nodes =>
      rw [List.take_succ_cons, List.take_zero, List.map_singleton, String.join_cons]
      exact (String.append_empty).symm

section Counterparts

variable (counterparts : Counterparts left right node found)
include counterparts

theorem attributesAgree_of_describes (ofKind : node.OfKind left.source .attributeUse)
    {mark other : Attribute} (describes : DescribesAttribute left.source node mark)
    (otherDescribes : DescribesAttribute right.source found other) :
    AttributesAgree left right (List.take 1) mark other := by
  rcases describes with ⟨name, inside, uses, rfl⟩
  rcases otherDescribes with ⟨otherName, others, otherUses, rfl⟩
  rw [getD_head?_map_eq_join, getD_head?_map_eq_join]
  exact attributesAgree_of_usesAttribute counterparts uses otherUses ofKind _

theorem attributesAgree_of_marks (ofKind : node.OfKind left.source .attributeUse)
    {mark other : Attribute} (describes : DescribesMark left.source node mark)
    (otherDescribes : DescribesMark right.source found other) :
    AttributesAgree left right id mark other := by
  rcases describes with ⟨name, inside, uses, rfl⟩
  rcases otherDescribes with ⟨otherName, others, otherUses, rfl⟩
  exact attributesAgree_of_usesAttribute counterparts uses otherUses ofKind id

/-! ## Names, members and parameters -/

theorem name_eq_of_describes {name other : String} (describes : DescribesName left.source node name)
    (otherDescribes : DescribesName right.source found other) : name = other := by
  rcases describes with ⟨part, isPart, rfl⟩
  rcases otherDescribes with ⟨otherPart, isOther, rfl⟩
  rcases counterparts.only_part (by decide) isPart isOther with ⟨isWord, same⟩
  exact same.text_eq_of_token isWord rfl rfl

/-- What is declared has the same name, and the types are counterparts. -/
theorem exists_types_of_declared {declared other : Declared}
    (describes : DescribesDeclared left.source node declared)
    (otherDescribes : DescribesDeclared right.source found other) :
    declared.name = other.name ∧ ∃ type otherType, type.OfKind left.source .typeDeclaration ∧
      Counterparts left right type otherType ∧ declared.type = type.text left.source ∧
      other.type = otherType.text right.source := by
  rcases describes with ⟨name, type, isName, isType, rfl⟩
  rcases otherDescribes with ⟨otherName, otherType, otherIsName, otherIsType, rfl⟩
  have sameName : name.text left.source = otherName.text right.source :=
    name_eq_of_describes counterparts ⟨name, isName, rfl⟩ ⟨otherName, otherIsName, rfl⟩
  rcases counterparts.only_part (by decide) isType otherIsType with ⟨ofKind, sameType⟩
  exact ⟨sameName, type, otherType, ofKind, sameType, rfl, rfl⟩

/-- Members and parameters have the same name, and their types are counterparts. -/
theorem exists_types_of_describes {input other : Input}
    (describes : DescribesInput left.source node input)
    (otherDescribes : DescribesInput right.source found other) :
    input.name = other.name ∧ ∃ type otherType, type.OfKind left.source .typeDeclaration ∧
      Counterparts left right type otherType ∧ input.type = type.text left.source ∧
      other.type = otherType.text right.source := by
  rcases describes.declared with ⟨declaration, isOnly, declared⟩
  rcases otherDescribes.declared with ⟨otherDeclaration, otherIsOnly, otherDeclared⟩
  rcases counterparts.only_part (by decide) isOnly otherIsOnly with ⟨-, same⟩
  exact exists_types_of_declared same declared otherDeclared

theorem inputsAgree_of_describes {input other : Input}
    (describes : DescribesInput left.source node input)
    (otherDescribes : DescribesInput right.source found other) :
    InputsAgree left right input other := by
  rcases exists_types_of_describes counterparts describes otherDescribes with
    ⟨sameName, type, otherType, ofKind, sameType, isType, otherIsType⟩
  refine ⟨sameName, ?_, ?_⟩
  · rw [isType, otherIsType]
    exact typesAgree_of_counterparts sameType ofKind
  · refine forall₂_of_described (counterparts.partsOfKind (by decide)) describes.attributes
      otherDescribes.attributes ?_
    rintro _ _ _ _ ⟨ofKind, same⟩ reads otherReads
    exact attributesAgree_of_describes same ofKind reads otherReads

theorem structuresAgree_of_describes {declared other : Structure}
    (describes : DescribesStructure left.source node declared)
    (otherDescribes : DescribesStructure right.source found other) :
    StructuresAgree left right declared other := by
  refine ⟨name_eq_of_describes counterparts describes.name otherDescribes.name, ?_⟩
  refine forall₂_of_described (counterparts.parts _) describes.members otherDescribes.members ?_
  intro _ _ _ _ same reads otherReads
  exact inputsAgree_of_describes same reads otherReads

end Counterparts

/-! ## Structures by the text of a type -/

/-- A name of a structure is a word, so no angle bracket occurs in it. -/
theorem notMem_of_mem_identifier {text : List Char}
    (isText : text ∈ Wgsl.Terminal.texts .identifier) : '<' ∉ text := by
  rcases Language.mem_mul.mp isText with ⟨_, ⟨char, isStart, rfl⟩, others, areOthers, rfl⟩
  intro isAngle
  rcases List.mem_append.mp isAngle with isFirst | isLater
  · cases List.mem_singleton.mp isFirst
    revert isStart
    decide
  · have isPart := Wgsl.Texts.mem_star_one.mp areOthers '<' isLater
    revert isPart
    decide

theorem notMem_of_describesName {kind : Kind} {name : String}
    (ofKind : node.OfKind left.source kind)
    (describes : DescribesName left.source node name) : '<' ∉ name.toList := by
  rcases describes with ⟨part, isOnly, rfl⟩
  have isPart : part ∈ node.parts .identifier := isOnly ▸ List.mem_singleton_self part
  have isWord := ofKind.part (by decide) isPart
  rcases isWord.exists_terminal rfl rfl with ⟨terminal, isTerminal, isText⟩
  cases List.mem_singleton.mp isTerminal
  rw [Node.text, String.toList_ofList]
  exact notMem_of_mem_identifier isText

/-- Tables of structures that agree, with a word for every name. -/
structure StructureTables (left right : SyntaxTree) (structures others : NameTable Structure) :
    Prop where
  agree : structures.Agree (StructuresAgree left right) others
  words : ∀ name, (structures.get? name).isSome → '<' ∉ name.toList

theorem StructureTables.get?_eq_none {structures others : NameTable Structure}
    (tables : StructureTables left right structures others) {name : String}
    (isAngle : '<' ∈ name.toList) :
    structures.get? name = none ∧ others.get? name = none := by
  have values := tables.agree.values name
  have absent : structures.get? name = none := by
    cases found : structures.get? name with
    | none => rfl
    | some declared => exact absurd isAngle (tables.words name (by rw [found]; rfl))
  rw [absent] at values
  refine ⟨absent, ?_⟩
  generalize others.get? name = result at values
  cases values
  rfl

/-- A type finds the structure of its counterpart, whatever trivia there is in either. -/
theorem StructureTables.rel_get? {structures others : NameTable Structure}
    (tables : StructureTables left right structures others) {type otherType : Node}
    (ofKind : type.OfKind left.source .typeDeclaration)
    (same : Counterparts left right type otherType) :
    Option.Rel (StructuresAgree left right) (structures.get? (type.text left.source))
      (others.get? (otherType.text right.source)) := by
  rcases ofKind.lexemes_typeDeclaration with ⟨lexeme, -, -, single⟩ |
    ⟨word, inside, -, isTemplate⟩
  · rw [same.text_eq single]
    exact tables.agree.values _
  · -- A type with arguments has an angle bracket in it and is not the name of a structure.
    have isLess : (Wgsl.Terminal.less, ['<']) ∈ type.lexemes left.source := by simp [isTemplate]
    have leaves := sameLeaves_of_type same ofKind
    have isAngle : '<' ∈ (type.text left.source).toList :=
      (leaves.spaced.infix_of_mem isLess).subset (List.mem_singleton_self '<')
    have otherIsAngle : '<' ∈ (otherType.text right.source).toList :=
      (leaves.foundSpaced.infix_of_mem (leaves.lexemes_eq ▸ isLess)).subset
        (List.mem_singleton_self '<')
    rw [(tables.get?_eq_none isAngle).1, (tables.get?_eq_none otherIsAngle).2]
    exact .none

/-! ## Functions -/

/-- Parameters that agree, with types that find structures that agree, or none. -/
structure ParametersAgree (left right : SyntaxTree) (structures others : NameTable Structure)
    (parameter other : Input) : Prop where
  agree : InputsAgree left right parameter other
  found : Option.Rel (StructuresAgree left right) (structures.get? parameter.type)
    (others.get? other.type)

theorem ParametersAgree.expand {structures others : NameTable Structure}
    {parameter other : Input}
    (agree : ParametersAgree left right structures others parameter other) :
    List.Forall₂ (InputsAgree left right) (expand structures parameter) (expand others other) := by
  have found := agree.found
  rw [Reflection.expand, Reflection.expand]
  generalize structures.get? parameter.type = result, others.get? other.type = otherResult
    at found ⊢
  cases found with
  | none => exact .cons agree.agree .nil
  | some same => exact same.members

theorem parametersAgree_of_describes (counterparts : Counterparts left right node found)
    {structures others : NameTable Structure}
    (tables : StructureTables left right structures others)
    {parameter other : Input} (describes : DescribesInput left.source node parameter)
    (otherDescribes : DescribesInput right.source found other) :
    ParametersAgree left right structures others parameter other := by
  refine ⟨inputsAgree_of_describes counterparts describes otherDescribes, ?_⟩
  rcases exists_types_of_describes counterparts describes otherDescribes with
    ⟨-, type, otherType, ofKind, same, isType, otherIsType⟩
  rw [isType, otherIsType]
  exact tables.rel_get? ofKind same

theorem returnTypes_agree (counterparts : Counterparts left right node found)
    {structures others : NameTable Structure} {signature other : Signature}
    (describes : DescribesSignature left.source structures node signature)
    (otherDescribes : DescribesSignature right.source others found other) :
    Option.Rel (TypesAgree left right) signature.returnType other.returnType := by
  have rows := counterparts.parts .functionReturnType
  rcases describes.returnType with ⟨isNone, noType⟩ | ⟨part, type, isPart, isType, isText⟩
  · rcases otherDescribes.returnType with ⟨-, otherNoType⟩ | ⟨otherPart, _, otherIsPart, -⟩
    · rw [noType, otherNoType]
      exact .none
    · rw [isNone, otherIsPart] at rows
      cases rows
  · rcases otherDescribes.returnType with
      ⟨otherIsNone, -⟩ | ⟨otherPart, otherType, otherIsPart, otherIsType, otherIsText⟩
    · rw [isPart, otherIsNone] at rows
      cases rows
    · rcases counterparts.only_part (by decide) isPart otherIsPart with ⟨-, same⟩
      rcases same.only_part (by decide) isType otherIsType with ⟨ofKind, sameType⟩
      rw [isText, otherIsText]
      exact .some (typesAgree_of_counterparts sameType ofKind)

theorem signaturesAgree_of_describes (counterparts : Counterparts left right node found)
    {structures others : NameTable Structure}
    (tables : StructureTables left right structures others)
    {signature other : Signature}
    (describes : DescribesSignature left.source structures node signature)
    (otherDescribes : DescribesSignature right.source others found other) :
    SignaturesAgree left right signature other := by
  constructor
  · exact name_eq_of_describes counterparts describes.name otherDescribes.name
  · rcases describes.attributes with ⟨marks, described, tabulates⟩
    rcases otherDescribes.attributes with ⟨otherMarks, otherDescribed, otherTabulates⟩
    apply tabulates.agree otherTabulates
    rw [List.forall₂_map_left_iff, List.forall₂_map_right_iff]
    refine forall₂_of_described (counterparts.partsOfKind (by decide)) described otherDescribed ?_
    rintro _ _ _ _ ⟨ofKind, same⟩ reads otherReads
    have agree := attributesAgree_of_marks same ofKind reads otherReads
    exact ⟨agree.name, agree.value⟩
  · rcases describes.inputs with ⟨parameters, described, isInputs⟩
    rcases otherDescribes.inputs with ⟨otherParameters, otherDescribed, otherIsInputs⟩
    have rows : List.Forall₂ (Counterparts left right)
        ((node.parts .parameterList).flatMap fun list => list.parts .parameter)
        ((found.parts .parameterList).flatMap fun list => list.parts .parameter) :=
      List.rel_flatMap (counterparts.parts _) fun _ _ same => same.parts _
    have agree : List.Forall₂ (ParametersAgree left right structures others) parameters
        otherParameters :=
      forall₂_of_described rows described otherDescribed fun _ _ _ _ same =>
        parametersAgree_of_describes same tables
    rw [isInputs, otherIsInputs]
    exact List.rel_flatMap agree fun _ _ same => same.expand
  · exact returnTypes_agree counterparts describes otherDescribes

/-! ## Tables and entry points -/

theorem agree_of_tabulates {α : Type} {agree : α → α → Prop} {name : α → String}
    {values others : List α} {table other : NameTable α}
    (tabulates : table.Tabulates (values.map fun value => (name value, value)))
    (otherTabulates : other.Tabulates (others.map fun value => (name value, value)))
    (rows : List.Forall₂ agree values others)
    (sameName : ∀ value found, agree value found → name value = name found) :
    table.Agree agree other := by
  apply tabulates.agree otherTabulates
  rw [List.forall₂_map_left_iff, List.forall₂_map_right_iff]
  exact rows.imp fun value found same => ⟨sameName value found same, same⟩

theorem notMem_of_described {nodes : List Node} {values : List Structure}
    (described : List.Forall₂ (DescribesStructure left.source) nodes values)
    (ofKind : ∀ node ∈ nodes, node.OfKind left.source .structDeclaration) :
    ∀ value ∈ values, '<' ∉ value.name.toList := by
  induction described with
  | nil => simp
  | cons describes _ induction =>
      rw [List.forall_mem_cons] at ofKind ⊢
      exact ⟨notMem_of_describesName ofKind.1 describes.name, induction ofKind.2⟩

section Trees

variable {tree other : SyntaxTree} (reformatted : Reformatted tree other)
include reformatted

theorem structureTables_of_describes {structures others : NameTable Structure}
    (describes : DescribesTable (DescribesStructure tree.source) Structure.name
      (tree.root.parts .structDeclaration) structures)
    (otherDescribes : DescribesTable (DescribesStructure other.source) Structure.name
      (other.root.parts .structDeclaration) others) :
    StructureTables tree other structures others := by
  rcases describes with ⟨values, described, tabulates⟩
  rcases otherDescribes with ⟨otherValues, otherDescribed, otherTabulates⟩
  have rows := reformatted.roots.partsOfKind (show Kind.structDeclaration ≠ .anonymous by decide)
  have agree : List.Forall₂ (StructuresAgree tree other) values otherValues :=
    forall₂_of_described rows described otherDescribed fun _ _ _ _ both =>
      structuresAgree_of_describes both.2
  refine ⟨agree_of_tabulates tabulates otherTabulates agree fun _ _ same => same.name, ?_⟩
  intro name isFound
  rcases (tabulates.isSome_get? name).mp isFound with ⟨entry, isEntry, rfl⟩
  rcases List.mem_map.mp isEntry with ⟨value, isValue, rfl⟩
  exact notMem_of_described described ((List.forall₂_and_left _ _).mp rows).1 value isValue

theorem signaturesAgree_of_passes {structures others : NameTable Structure}
    (tables : StructureTables tree other structures others)
    {declared otherDeclared : List Signature}
    (described : List.Forall₂ (DescribesSignature tree.source structures)
      (tree.root.parts .functionDeclaration) declared)
    (otherDescribed : List.Forall₂ (DescribesSignature other.source others)
      (other.root.parts .functionDeclaration) otherDeclared) :
    List.Forall₂ (SignaturesAgree tree other) declared otherDeclared := by
  refine forall₂_of_described (reformatted.roots.parts _) described otherDescribed ?_
  intro _ _ _ _ same
  exact signaturesAgree_of_describes same tables

theorem forall₂_nodesOfKind (kind : Kind) :
    List.Forall₂ (Counterparts tree other) (nodesOfKind tree kind)
      (nodesOfKind other kind) := by
  refine List.rel_filter ?_ (Counterparts.walk tree.root reformatted.roots)
  intro node found same
  simp only [same.isNamed_eq, same.kind?_eq]

/-- The parameters of both modules, wherever they are declared. -/
theorem parameters_agree {structures others : NameTable Structure}
    (tables : StructureTables tree other structures others) :
    List.Forall₂ (fun node found => ∃ parameter otherParameter,
        readInput tree.source node = .ok parameter ∧
        readInput other.source found = .ok otherParameter ∧
        ParametersAgree tree other structures others parameter otherParameter)
      (nodesOfKind tree .parameter) (nodesOfKind other .parameter) := by
  have grammatical := reformatted.roots.written.grammatical
  have ofKind : ∀ node ∈ nodesOfKind tree .parameter, node.OfKind tree.source .parameter :=
    fun node isNode => ofKind_of_mem_nodesOfKind grammatical isNode
  refine ((List.forall₂_and_left _ _).mpr ⟨ofKind, forall₂_nodesOfKind reformatted _⟩).imp ?_
  rintro node found ⟨isParameter, same⟩
  rcases (readInput_describes isParameter (.inr rfl)).exists_ok with
    ⟨parameter, isOk, describes⟩
  rcases (readInput_describes (same.ofKind_right isParameter) (.inr rfl)).exists_ok with
    ⟨otherParameter, otherIsOk, otherDescribes⟩
  exact ⟨parameter, otherParameter, isOk, otherIsOk,
    parametersAgree_of_describes same tables describes otherDescribes⟩

end Trees

theorem SignaturesAgree.isSome_attribute?_eq {signature other : Signature}
    (agree : SignaturesAgree left right signature other) (name : String) :
    (signature.attribute? name).isSome = (other.attribute? name).isSome := by
  have values := agree.attributes.values name
  rw [Signature.attribute?, Signature.attribute?]
  generalize signature.attributes.get? name = result, other.attributes.get? name = otherResult
    at values ⊢
  cases values <;> rfl

/-- Declarations that agree give the same names of entry points. -/
theorem map_name_stageList_eq {functions others : NameTable Signature}
    {declared otherDeclared : List Signature}
    (tabulates : functions.Tabulates (declared.map fun signature => (signature.name, signature)))
    (otherTabulates : others.Tabulates
      (otherDeclared.map fun signature => (signature.name, signature)))
    (rows : List.Forall₂ (SignaturesAgree left right) declared otherDeclared) (stage : Stage) :
    (stageList functions stage declared).map Signature.name =
      (stageList others stage otherDeclared).map Signature.name := by
  have marked : List.Forall₂ (SignaturesAgree left right)
      (declared.filter fun signature => (signature.attribute? stage.name).isSome)
      (otherDeclared.filter fun signature => (signature.attribute? stage.name).isSome) := by
    refine List.rel_filter ?_ rows
    intro signature other agree
    simp only [agree.isSome_attribute?_eq]
  rw [map_name_stageList tabulates, map_name_stageList otherTabulates, ← List.forall₂_eq_eq_eq,
    List.forall₂_map_left_iff, List.forall₂_map_right_iff]
  exact marked.imp fun _ _ agree => agree.name

end ShaderReflection.Reflection
