import ShaderReflection.Proofs.Reflection.Agreement
import ShaderReflection.Proofs.Reflection.Bindings
import ShaderReflection.Proofs.Tree.Covering

/-!
# Sources that differ in their trivia

White space and comments play no role in reflection. Two sources with the same tokens in the same
tree have the same structures, functions, entry points and bindings, up to trivia inside of the
texts of types and values.
-/

namespace ShaderReflection.Reflection

open ShaderReflection.Tree ShaderReflection.Attempt ShaderReflection.Text ShaderReflection.Wgsl

variable {left right : SyntaxTree} {node found : Node}

/-! ## Handle types -/

/-- Trivia is no part of a word. -/
theorem stops_of_skipped {row rest : List Char} (skipped : Skipped row rest)
    (stops : Lexeme.Stops isWordChar rest) : Lexeme.Stops isWordChar (row ++ rest) := by
  cases skipped with
  | nil => exact stops
  | @cons piece row _ kind isText =>
      cases kind with
      | space =>
          rcases Texts.mem_several_one.mp isText with ⟨isFull, areSpaces⟩
          rcases List.exists_cons_of_ne_nil isFull with ⟨char, others, rfl⟩
          have isSpace := areSpaces char List.mem_cons_self
          simp only [Lexeme.isSpace, Bool.or_eq_true, beq_iff_eq] at isSpace
          apply Lexeme.stops_cons
          rcases isSpace with (((rfl | rfl) | rfl) | rfl) | rfl <;> decide
      | lineComment =>
          rcases mem_lineComment.mp isText with ⟨inner, -, rfl⟩
          exact Lexeme.stops_cons (by decide)
      | blockComment =>
          rcases isText with ⟨inner, rfl, -⟩
          exact Lexeme.stops_cons (by decide)

theorem isWordChar_of_typeName {word : List Char} (isWord : word ∈ Terminal.texts .typeName) :
    ∀ char ∈ word, isWordChar char = true := by
  have all : (spellings.all fun spelling =>
      spelling.terminal != .typeName || spelling.text.all isWordChar) = true := by
    decide +kernel
  have each := List.all_eq_true.mp all ⟨word, .typeName⟩ isWord
  simpa using each

/-- The first word of a type with arguments is the name of the type. -/
theorem takeWhile_of_spaced {word text : List Char} {rest : List (Terminal × List Char)}
    (isWord : word ∈ Terminal.texts .typeName)
    (spaced : Spaced ((.typeName, word) :: (.less, ['<']) :: rest) text) :
    text.takeWhile isWordChar = word := by
  cases spaced with
  | cons _ skipped _ further =>
      cases further with
      | cons =>
          apply Lexeme.takeWhile_append (isWordChar_of_typeName isWord)
          exact stops_of_skipped skipped (Lexeme.stops_cons (by decide))

theorem eq_takeWhile_of_handleType? {text name : List Char}
    (isHandle : handleType? text = some name) : name = text.takeWhile isWordChar := by
  simp only [handleType?, Option.ite_none_left_eq_some, Option.ite_none_right_eq_some,
    Option.some.injEq] at isHandle
  exact isHandle.2.2.symm

/-- Where two counterparts both are names of handle types, the names are the same. -/
theorem handleType?_eq {type otherType : Node} (ofKind : type.OfKind left.source .typeDeclaration)
    (same : Counterparts left right type otherType) {name otherName : List Char}
    (isHandle : handleType? (type.text left.source).toList = some name)
    (otherIsHandle : handleType? (otherType.text right.source).toList = some otherName) :
    name = otherName := by
  rcases ofKind.lexemes_typeDeclaration with ⟨lexeme, -, -, single⟩ |
    ⟨word, inside, isWord, isTemplate⟩
  · rw [same.text_eq single, otherIsHandle] at isHandle
    exact (Option.some.inj isHandle).symm
  · rcases sameLeaves_of_type same ofKind with ⟨-, sameLexemes, spaced, otherSpaced⟩
    rw [← sameLexemes, isTemplate] at otherSpaced
    rw [isTemplate] at spaced
    rw [eq_takeWhile_of_handleType? isHandle, eq_takeWhile_of_handleType? otherIsHandle,
      takeWhile_of_spaced isWord spaced, takeWhile_of_spaced isWord otherSpaced]

/-! ## Variables -/

structure BindingsAgree (found other : Binding) : Prop where
  group : found.group = other.group
  binding : found.binding = other.binding
  name : found.name = other.name
  bindingType : found.bindingType = other.bindingType

/-- What has been read of two bindings that will agree. -/
structure DraftsAgree (draft other : BindingDraft) : Prop where
  group : draft.group = other.group
  binding : draft.binding = other.binding
  name : draft.name = other.name
  bindingType : draft.bindingType = other.bindingType

/-- What a finished binding has was in its draft. -/
theorem eq_of_finish? {draft : BindingDraft} {binding : Binding}
    (isFinished : draft.finish? = some binding) :
    draft.group = some binding.group ∧ draft.binding = some binding.binding ∧
      draft.name = some binding.name ∧ draft.type = some binding.type ∧
      draft.bindingType = some binding.bindingType := by
  rcases draft with ⟨_ | group, _ | slot, _ | name, _ | type, _ | bindingType⟩ <;> cases isFinished
  exact ⟨rfl, rfl, rfl, rfl, rfl⟩

theorem bindingsAgree_of_finish? {draft other : BindingDraft} (agree : DraftsAgree draft other)
    {binding otherBinding : Binding} (isFinished : draft.finish? = some binding)
    (otherIsFinished : other.finish? = some otherBinding) :
    BindingsAgree binding otherBinding := by
  rcases eq_of_finish? isFinished with ⟨isGroup, isBinding, isName, -, isType⟩
  rcases eq_of_finish? otherIsFinished with ⟨otherGroup, otherSlot, otherName, -, otherType⟩
  rw [agree.group, otherGroup] at isGroup
  rw [agree.binding, otherSlot] at isBinding
  rw [agree.name, otherName] at isName
  rw [agree.bindingType, otherType] at isType
  exact ⟨(Option.some.inj isGroup).symm, (Option.some.inj isBinding).symm,
    (Option.some.inj isName).symm, (Option.some.inj isType).symm⟩

section Counterparts

variable (same : Counterparts left right node found)
include same

theorem kind_relates : Relates (fun kind other => node.kind? = some kind ∧ kind = other)
    node.kind found.kind := by
  rcases same.written.grammatical.exists_kind with ⟨kind, isKind, isOk⟩
  rcases same.foundWritten.grammatical.exists_kind with ⟨otherKind, otherIsKind, otherIsOk⟩
  rw [same.kind?_eq, otherIsKind] at isKind
  cases isKind
  rw [isOk, otherIsOk]
  exact .ok ⟨same.kind?_eq.trans otherIsKind, rfl⟩

theorem readIntegerAttribute_relates (name : String) :
    Relates Eq (readIntegerAttribute left.source node name)
      (readIntegerAttribute right.source found name) := by
  have rows := same.namedChildren
  rw [readIntegerAttribute, readIntegerAttribute]
  generalize node.namedChildren = named, found.namedChildren = otherNamed at rows ⊢
  cases rows with
  | nil => exact .error
  | cons _ rest =>
      cases rest with
      | nil => exact .error
      | @cons value otherValue _ _ sameValue _ =>
          refine (kind_relates sameValue).bind ?_
          rintro kind _ ⟨isKind, rfl⟩
          by_cases isLiteral : kind = .intLiteral
          · have isNamed := Node.isNamed_of_kind? (isLiteral ▸ by decide) isKind
            have ofKind : value.OfKind left.source .intLiteral :=
              ⟨sameValue.written.grammatical, isNamed, isLiteral ▸ isKind⟩
            rw [sameValue.text_eq_of_token ofKind rfl rfl]
            simp only [isLiteral, if_true]
            intro number other isNumber isOther
            exact Except.ok.inj (isNumber.symm.trans isOther)
          · simp only [isLiteral, if_false]
            exact .error

/-- A field of counterparts is missing in both, or found in both as counterparts. -/
theorem field_relates {kind inner : Kind} (ofKind : node.OfKind left.source kind) (name : String)
    (isField : kind.field? name = some inner) (isNode : inner ≠ .anonymous) :
    Relates (Option.Rel fun part other =>
        part.OfKind left.source inner ∧ Counterparts left right part other)
      (node.field name) (found.field name) := by
  rw [ofKind.field_eq_head? name isField, (same.ofKind_right ofKind).field_eq_head? name isField]
  exact .ok (same.head?_parts isNode)

theorem readSpace_relates {draft other : BindingDraft} (agree : DraftsAgree draft other)
    (ofKind : node.OfKind left.source .variableDeclaration) :
    Relates DraftsAgree (readSpace left.source node draft)
      (readSpace right.source found other) := by
  refine (field_relates same ofKind "qualifier" rfl (by decide)).bind ?_
  rintro _ _ (⟨isQualifier, sameQualifier⟩ | _)
  · refine (field_relates sameQualifier isQualifier "address_space" rfl (by decide)).bind ?_
    rintro _ _ (⟨isSpace, sameSpace⟩ | _)
    · simp only [sameSpace.text_eq_of_token isSpace rfl rfl]
      split
      · exact .ok ⟨agree.group, agree.binding, agree.name, rfl⟩
      · exact .error
    · exact .ok agree
  · exact .ok agree

theorem readDeclared_relates (ofKind : node.OfKind left.source .variableIdentifierDeclaration) :
    Relates (fun declared other => declared.name = other.name ∧
        ∃ type otherType, type.OfKind left.source .typeDeclaration ∧
          Counterparts left right type otherType ∧ declared.type = type.text left.source ∧
          other.type = otherType.text right.source)
      (readDeclared left.source node) (readDeclared right.source found) := by
  rcases (readDeclared_describes ofKind).exists_ok with ⟨declared, isOk, describes⟩
  rcases (readDeclared_describes (same.ofKind_right ofKind)).exists_ok with
    ⟨other, otherIsOk, otherDescribes⟩
  rw [isOk, otherIsOk]
  exact .ok (exists_types_of_declared same describes otherDescribes)

theorem readNameAndType_relates {draft other : BindingDraft} (agree : DraftsAgree draft other)
    (ofKind : node.OfKind left.source .variableDeclaration) :
    Relates DraftsAgree (readNameAndType left.source node draft)
      (readNameAndType right.source found other) := by
  rw [readNameAndType, readNameAndType, ofKind.firstOfKind_eq_head?,
    (same.ofKind_right ofKind).firstOfKind_eq_head?]
  refine (Relates.ok (same.head?_parts (by decide))).bind ?_
  rintro _ _ (⟨isDeclaration, sameDeclaration⟩ | _)
  · refine (readDeclared_relates sameDeclaration isDeclaration).bind ?_
    rintro declared otherDeclared ⟨sameName, type, otherType, typeOfKind, sameType, isType, isOther⟩
    refine (field_relates sameDeclaration isDeclaration "type" rfl (by decide)).bind ?_
    intro _ _ _
    rw [isType, isOther, ← agree.bindingType]
    cases draft.bindingType with
    | some _ => exact .ok ⟨agree.group, agree.binding, congrArg some sameName, rfl⟩
    | none =>
        cases isHandle : handleType? (type.text left.source).toList with
        | none => exact .error
        | some handle =>
            cases otherIsHandle : handleType? (otherType.text right.source).toList with
            | none => exact .error_right
            | some otherHandle =>
                rw [handleType?_eq typeOfKind sameType isHandle otherIsHandle]
                exact .ok ⟨agree.group, agree.binding, congrArg some sameName, rfl⟩
  · exact .ok agree

theorem readBindingChild_relates {draft other : BindingDraft} (agree : DraftsAgree draft other)
    (isNamed : node.isNamed = true) :
    Relates DraftsAgree (readBindingChild left.source draft node)
      (readBindingChild right.source other found) := by
  rw [readBindingChild, readBindingChild]
  refine (kind_relates same).bind ?_
  rintro kind _ ⟨isKind, rfl⟩
  have ofKind : node.OfKind left.source kind := ⟨same.written.grammatical, isNamed, isKind⟩
  split
  · rcases ofKind.exists_usesAttribute with ⟨name, inside, uses, -⟩
    rcases (same.ofKind_right ofKind).exists_usesAttribute with ⟨otherName, others, otherUses, -⟩
    have sameName := name_eq_of_usesAttribute same uses otherUses
    simp only [uses.namedChildren, otherUses.namedChildren, sameName]
    split
    · refine (readIntegerAttribute_relates same "group").bind ?_
      rintro number _ rfl
      exact .ok ⟨rfl, agree.binding, agree.name, agree.bindingType⟩
    · refine (readIntegerAttribute_relates same "binding").bind ?_
      rintro number _ rfl
      exact .ok ⟨agree.group, rfl, agree.name, agree.bindingType⟩
    · exact .ok agree
  · refine (readSpace_relates same agree ofKind).bind fun later otherLater laterAgree => ?_
    exact readNameAndType_relates same laterAgree ofKind
  · exact .ok agree

theorem readBinding_relates :
    Relates BindingsAgree (readBinding left.source node) (readBinding right.source found) := by
  have rows : List.Forall₂ (fun child other => child.isNamed = true ∧
      Counterparts left right child other) node.namedChildren found.namedChildren := by
    refine (List.forall₂_and_left _ _).mpr ⟨?_, same.namedChildren⟩
    intro child isChild
    exact (List.mem_filter.mp isChild).2
  have drafts : Relates DraftsAgree
      (node.namedChildren.foldlM (readBindingChild left.source) .empty)
      (found.namedChildren.foldlM (readBindingChild right.source) .empty) := by
    refine Relates.foldlM rows ?_ ⟨rfl, rfl, rfl, rfl⟩
    rintro draft other child otherChild agree ⟨isNamed, sameChild⟩
    exact readBindingChild_relates sameChild agree isNamed
  rw [readBinding, readBinding]
  refine (kind_relates same).bind ?_
  rintro kind _ ⟨-, rfl⟩
  split
  · refine drafts.bind fun draft other agree => ?_
    cases isFinished : draft.finish? with
    | none => exact .error
    | some binding =>
        cases otherIsFinished : other.finish? with
        | none => exact .error_right
        | some otherBinding =>
            exact .ok (bindingsAgree_of_finish? agree isFinished otherIsFinished)
  · exact .error

end Counterparts

theorem bindingsOf_relates {tree other : SyntaxTree} (reformatted : Reformatted tree other) :
    Relates (List.Forall₂ BindingsAgree) (bindingsOf tree) (bindingsOf other) := by
  rw [bindingsOf_eq, bindingsOf_eq]
  exact Relates.mapM (forall₂_nodesOfKind reformatted _) fun _ _ same => readBinding_relates same

/-! ## Both modules -/

/-- What the passes over two modules give, compared. -/
structure ReflectionsAgree (tree other : SyntaxTree) (structures others : NameTable Structure)
    (functions otherFunctions : NameTable Signature) (entryPoints otherEntryPoints : EntryPoints) :
    Prop where
  /-- The same structures in the same order, with the same members. -/
  sameStructures : structures.Agree (StructuresAgree tree other) others
  /-- The same functions in the same order, with the same inputs. -/
  sameFunctions : functions.Agree (SignaturesAgree tree other) otherFunctions
  /-- The same parameters, each of which stands for the same structure or for none. -/
  sameParameters : List.Forall₂ (fun node found => ∃ parameter otherParameter,
      readInput tree.source node = .ok parameter ∧
      readInput other.source found = .ok otherParameter ∧
      ParametersAgree tree other structures others parameter otherParameter)
    (nodesOfKind tree .parameter) (nodesOfKind other .parameter)
  /-- The same names of entry points in each stage. -/
  sameStages : ∀ stage, (entryPoints.ofStage stage).map Signature.name =
    (otherEntryPoints.ofStage stage).map Signature.name
  /-- The same bindings, if there are any for both modules. -/
  sameBindings : ∀ bindings otherBindings, bindingsOf tree = .ok bindings →
    bindingsOf other = .ok otherBindings → List.Forall₂ BindingsAgree bindings otherBindings

theorem parse_source {source : String} {tree : SyntaxTree} (accepted : parse source = .ok tree) :
    SyntaxTree.parse tree.source = .ok tree := by
  have isTree := parse_eq_ok accepted
  rw [(grammatical_of_parse isTree).1]
  exact isTree

/-- Formatting does not change what is reflected. If two sources are parsed to trees with the same
kinds, terminals and texts of leaves, then what reflection gives for them agrees but for trivia. -/
theorem reflections_agree {left right : String} {tree other : SyntaxTree}
    (accepted : parse left = .ok tree) (otherAccepted : parse right = .ok other)
    (samePhrase : tree.root.phrase? tree.source = other.root.phrase? other.source) :
    ∃ structures functions entryPoints others otherFunctions otherEntryPoints,
      (structuresOf tree = .ok structures ∧ functionsOf tree structures = .ok functions ∧
        entryPointsOf tree functions = .ok entryPoints) ∧
      (structuresOf other = .ok others ∧ functionsOf other others = .ok otherFunctions ∧
        entryPointsOf other otherFunctions = .ok otherEntryPoints) ∧
      ReflectionsAgree tree other structures others functions otherFunctions entryPoints
        otherEntryPoints := by
  have reformatted : Reformatted tree other :=
    ⟨parse_source accepted, parse_source otherAccepted, samePhrase⟩
  rcases exists_passes_of_parse accepted with
    ⟨structures, functions, entryPoints, declared, passes⟩
  rcases exists_passes_of_parse otherAccepted with
    ⟨others, otherFunctions, otherEntryPoints, otherDeclared, otherPasses⟩
  have tables := structureTables_of_describes reformatted passes.describesStructures
    otherPasses.describesStructures
  have agree := signaturesAgree_of_passes reformatted tables passes.describesFunctions
    otherPasses.describesFunctions
  refine ⟨structures, functions, entryPoints, others, otherFunctions, otherEntryPoints,
    ⟨passes.structures_eq, passes.functions_eq, passes.entryPoints_eq⟩,
    ⟨otherPasses.structures_eq, otherPasses.functions_eq, otherPasses.entryPoints_eq⟩, ?_⟩
  constructor
  case sameStructures => exact tables.agree
  case sameFunctions =>
    exact agree_of_tabulates passes.tabulates otherPasses.tabulates agree
      fun _ _ same => same.name
  case sameParameters => exact parameters_agree reformatted tables
  case sameStages =>
    intro stage
    rw [passes.lists, otherPasses.lists]
    exact map_name_stageList_eq passes.tabulates otherPasses.tabulates agree stage
  case sameBindings => exact bindingsOf_relates reformatted

/-- A module without trivia, in which a parameter stands for a structure. -/
def compactSource : String :=
  "struct S\x7ba:vec2<f32>\x7dfn f(s:S)\x7b\x7d@group(0)@binding(1)var t:sampler;"

/-- The same module with white space and comments. -/
def spacedSource : String :=
  "struct S\x7ba: vec2<f32>\x7d // s\nfn f(s:S /* t */)\x7b\x7d@group(0)@binding( 1 )var t:sampler;"

theorem reflections_agree_spacedSource :
    ∃ tree other structures functions entryPoints others otherFunctions otherEntryPoints bindings
        otherBindings,
      parse compactSource = .ok tree ∧ parse spacedSource = .ok other ∧
      tree.root.phrase? tree.source = other.root.phrase? other.source ∧
      functionsOf tree structures = .ok functions ∧
      functionsOf other others = .ok otherFunctions ∧
      ReflectionsAgree tree other structures others functions otherFunctions entryPoints
        otherEntryPoints ∧
      bindingsOf tree = .ok bindings ∧ bindingsOf other = .ok otherBindings ∧
      List.Forall₂ BindingsAgree bindings otherBindings := by
  have checked : (parse compactSource).toOption.any (fun tree =>
      (parse spacedSource).toOption.any fun other =>
        decide (tree.root.lexemes tree.source = other.root.lexemes other.source) &&
          ((bindingsOf tree).toOption.any fun _ => true) &&
          (bindingsOf other).toOption.any fun _ => true) = true := by
    decide +kernel
  rcases exists_ok_of_any checked with ⟨tree, accepted, further⟩
  rcases exists_ok_of_any further with ⟨other, otherAccepted, both⟩
  simp only [Bool.and_eq_true, decide_eq_true_eq] at both
  rcases both with ⟨⟨sameLexemes, hasBindings⟩, otherHasBindings⟩
  rcases exists_ok_of_any hasBindings with ⟨bindings, isBindings, -⟩
  rcases exists_ok_of_any otherHasBindings with ⟨otherBindings, otherIsBindings, -⟩
  have samePhrase := (reformatted_of_lexemes_eq (parse_source accepted)
    (parse_source otherAccepted) sameLexemes).samePhrase
  rcases reflections_agree accepted otherAccepted samePhrase with
    ⟨structures, functions, entryPoints, others, otherFunctions, otherEntryPoints,
      ⟨-, isFunctions, -⟩, ⟨-, otherIsFunctions, -⟩, agree⟩
  exact ⟨tree, other, structures, functions, entryPoints, others, otherFunctions,
    otherEntryPoints, bindings, otherBindings, accepted, otherAccepted, samePhrase, isFunctions,
    otherIsFunctions, agree, isBindings, otherIsBindings,
    agree.sameBindings _ _ isBindings otherIsBindings⟩

end ShaderReflection.Reflection
