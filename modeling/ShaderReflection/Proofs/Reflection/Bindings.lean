import ShaderReflection.Proofs.Reflection.Literals
import ShaderReflection.Proofs.Reflection.Passes

/-!
# Bindings of a parsed module

A variable of a parsed module may fail to be a binding, but only for what it says: an attribute
without a value or with one that is not an integer, an address space that holds no buffers, a type
that is not a resource, or something missing. One more fault is for a number with more decimal
digits than are read. All other faults are faults of trees that no parser gives.
-/

namespace ShaderReflection.Reflection

open ShaderReflection.Tree ShaderReflection.Attempt ShaderReflection.Text ShaderReflection.Wgsl

variable {source : List Char} {node : Node}

/-! ## Attributes -/

/-- The text of a literal is the text of its only token. -/
theorem chars_mem_texts (ofKind : node.OfKind source .intLiteral) :
    node.chars source ∈ Terminal.texts .intLiteral := by
  have isKind := ofKind.isKind
  have isNamed := ofKind.isNamed
  cases ofKind.grammatical with
  | named inner children row isRow symbols below =>
      cases isKind
      cases isRow
      rcases List.map_eq_singleton_iff.mp symbols with ⟨child, rfl, isToken⟩
      cases below child List.mem_cons_self with
      | named => cases isToken
      | token terminal span isText =>
          cases isToken
          exact isText
  | token terminal span isText => cases isNamed

/-- The first argument of an attribute. -/
def argument? (mark : Node) : Option Node := mark.namedChildren[1]?

/-- The first argument of an attribute is an integer literal that denotes a number. -/
def HasNumber (source : List Char) (mark : Node) (number : Nat) : Prop :=
  ∃ literal, argument? mark = some literal ∧ literal.kind? = some .intLiteral ∧
    Denotes (literal.chars source) number

/-- The first argument of an attribute is a decimal literal with more digits than are read. -/
def HasLongNumber (source : List Char) (mark : Node) (count : Nat) : Prop :=
  ∃ literal, argument? mark = some literal ∧ literal.kind? = some .intLiteral ∧
    Exceeds (literal.chars source) count

/-- Why no number is read from an attribute. -/
inductive LacksNumber (source : List Char) (name : String) (mark : Node) : Fault → Prop
  | bare (noArgument : argument? mark = none) :
      LacksNumber source name mark (.valuelessAttribute name)
  | other {argument : Node} (isArgument : argument? mark = some argument)
      (notLiteral : argument.kind? ≠ some .intLiteral) :
      LacksNumber source name mark
        (.unsupportedLiteral name (argument.type source) (argument.text source))
  | long {count : Nat} (isLong : HasLongNumber source mark count) :
      LacksNumber source name mark (.unreadableInteger count)

theorem exists_namedChildren_of_argument? {argument : Node}
    (isArgument : argument? node = some argument) :
    ∃ first others, node.namedChildren = first :: argument :: others := by
  rw [argument?] at isArgument
  cases children : node.namedChildren with
  | nil => simp [children] at isArgument
  | cons first rest =>
      cases rest with
      | nil => simp [children] at isArgument
      | cons second others =>
          simp only [children, List.getElem?_cons_succ, List.getElem?_cons_zero,
            Option.some.injEq] at isArgument
          exact ⟨first, others, by rw [isArgument]⟩

/-- Where the first argument is an integer literal, its text is read, in whatever node. -/
theorem readIntegerAttribute_eq {literal : Node} (isArgument : argument? node = some literal)
    (isLiteral : literal.kind? = some .intLiteral) (name : String) :
    readIntegerAttribute source node name = integerValue (literal.chars source) := by
  rcases exists_namedChildren_of_argument? isArgument with ⟨first, others, isFull⟩
  simp only [readIntegerAttribute, isFull, Node.kind_eq_ok.mpr isLiteral, bind, Except.bind,
    if_true, Node.text, String.toList_ofList]

theorem HasNumber.readIntegerAttribute_eq {number : Nat} (hasNumber : HasNumber source node number)
    (short : ∀ count, ¬ HasLongNumber source node count) (name : String) :
    readIntegerAttribute source node name = .ok (number : Int) := by
  rcases hasNumber with ⟨literal, isArgument, isLiteral, denotes⟩
  rw [Reflection.readIntegerAttribute_eq isArgument isLiteral]
  exact integerValue_of_denotes denotes fun count exceeds =>
    short count ⟨literal, isArgument, isLiteral, exceeds⟩

theorem HasLongNumber.readIntegerAttribute_eq {count : Nat}
    (isLong : HasLongNumber source node count) (name : String) :
    readIntegerAttribute source node name = .error (.unreadableInteger count) := by
  rcases isLong with ⟨literal, isArgument, isLiteral, exceeds⟩
  rw [Reflection.readIntegerAttribute_eq isArgument isLiteral, integerValue_of_exceeds exceeds]

theorem readIntegerAttribute_describes {name : String}
    (ofKind : node.OfKind source .attributeUse) :
    Gives (LacksNumber source name node)
      (fun value : Int => (∃ number : Nat, HasNumber source node number ∧ value = number) ∧
        ∀ count, ¬ HasLongNumber source node count)
      (readIntegerAttribute source node name) := by
  cases isArgument : argument? node with
  | none =>
      rcases exists_attributeName ofKind with ⟨first, others, isFull⟩
      cases others with
      | nil =>
          simp only [readIntegerAttribute, isFull]
          exact .bare isArgument
      | cons second others => simp [argument?, isFull] at isArgument
  | some argument =>
      rcases exists_namedChildren_of_argument? isArgument with ⟨first, others, isFull⟩
      have isChild : argument ∈ node.namedChildren := by simp [isFull]
      rcases List.mem_filter.mp isChild with ⟨inChildren, isNamed⟩
      rcases (ofKind.child inChildren).exists_kind with ⟨kind, isKind, isOk⟩
      by_cases isLiteral : kind = .intLiteral
      · subst isLiteral
        have isText := chars_mem_texts ⟨ofKind.child inChildren, isNamed, isKind⟩
        rcases exists_denotes isText with ⟨number, denotes⟩
        have hasNumber : HasNumber source node number := ⟨argument, isArgument, isKind, denotes⟩
        by_cases isLong : ∃ count, HasLongNumber source node count
        · rcases isLong with ⟨count, isLong⟩
          rw [isLong.readIntegerAttribute_eq]
          exact .long isLong
        · have short := not_exists.mp isLong
          rw [hasNumber.readIntegerAttribute_eq short]
          exact ⟨⟨number, hasNumber, rfl⟩, short⟩
      · simp only [readIntegerAttribute, isFull, isOk, bind, Except.bind, isLiteral, if_false]
        exact .other isArgument fun isOther =>
          isLiteral (Option.some.inj (isKind.symm.trans isOther))

/-! ## Address spaces and types -/

/-- The address space that a variable is qualified with. -/
def spaceOf? (node : Node) : Option Node :=
  (node.firstOfKind? .variableQualifier).bind fun part => part.firstOfKind? .addressSpace

/-- A qualifier has an address space. -/
theorem isSome_spaceOf? (ofKind : node.OfKind source .variableDeclaration) :
    (spaceOf? node).isSome = (node.firstOfKind? .variableQualifier).isSome := by
  rw [spaceOf?]
  cases isQualifier : node.firstOfKind? .variableQualifier with
  | none => rfl
  | some qualifier =>
      have qualifierOfKind := ofKind.of_find? (by decide) isQualifier
      rcases qualifierOfKind.exists_field "address_space" rfl rfl with ⟨space, isSpace⟩
      rw [qualifierOfKind.field_eq "address_space" rfl, ← Node.firstOfKind?] at isSpace
      rw [Option.bind_some, Except.ok.inj isSpace]
      rfl

/-- The address space of a variable makes it a buffer or is a fault. -/
theorem readSpace_describes (ofKind : node.OfKind source .variableDeclaration)
    (draft : BindingDraft) :
    Gives (fun fault => ∃ space ∈ spaceOf? node, space.text source ∉ bufferSpaces ∧
        fault = .unsupportedAddressSpace (space.text source))
      (fun later => (∀ space ∈ spaceOf? node, space.text source ∈ bufferSpaces) ∧
        later = if (spaceOf? node).isSome then { draft with bindingType := some "buffer" }
          else draft)
      (readSpace source node draft) := by
  rw [readSpace, spaceOf?, ofKind.field_eq "qualifier" rfl, ← Node.firstOfKind?]
  cases isQualifier : node.firstOfKind? .variableQualifier with
  | none => exact ⟨by simp, rfl⟩
  | some qualifier =>
      have qualifierOfKind := ofKind.of_find? (by decide) isQualifier
      rw [Option.bind_some]
      simp only [bind, Except.bind, qualifierOfKind.field_eq "address_space" rfl]
      rw [← Node.firstOfKind?]
      cases isSpace : qualifier.firstOfKind? .addressSpace with
      | none => exact ⟨by simp, rfl⟩
      | some space =>
          by_cases isBuffer : bufferSpaces.contains (space.text source) = true
          · simp only [isBuffer, if_true]
            exact ⟨by simpa using isBuffer, rfl⟩
          · simp only [isBuffer]
            exact ⟨space, rfl, by simpa using isBuffer, rfl⟩

/-- What the declared name and type of a variable add to a binding. -/
inductive Declares (source : List Char) (node : Node) (draft : BindingDraft) : BindingDraft → Prop
  | nothing (undeclared : node.firstOfKind? .variableIdentifierDeclaration = none) :
      Declares source node draft draft
  | buffer {declaration name type : Node}
      (isDeclaration : node.firstOfKind? .variableIdentifierDeclaration = some declaration)
      (isName : declaration.firstOfKind? .identifier = some name)
      (isType : declaration.firstOfKind? .typeDeclaration = some type)
      (isBuffer : draft.bindingType.isSome) :
      Declares source node draft
        { draft with name := some (name.text source), type := some (bufferType source type) }
  | handle {declaration name type : Node} {handle : List Char}
      (isDeclaration : node.firstOfKind? .variableIdentifierDeclaration = some declaration)
      (isName : declaration.firstOfKind? .identifier = some name)
      (isType : declaration.firstOfKind? .typeDeclaration = some type)
      (notBuffer : draft.bindingType = none)
      (isHandle : handleType? (type.chars source) = some handle) :
      Declares source node draft
        { draft with
          name := some (name.text source), type := some (String.ofList handle)
          bindingType := some (String.ofList handle) }

theorem readNameAndType_describes (ofKind : node.OfKind source .variableDeclaration)
    (draft : BindingDraft) :
    Gives (fun fault => draft.bindingType = none ∧
        ∃ declaration type, node.firstOfKind? .variableIdentifierDeclaration = some declaration ∧
          declaration.firstOfKind? .typeDeclaration = some type ∧
          handleType? (type.chars source) = none ∧ fault = .unparsableType (type.text source))
      (Declares source node draft) (readNameAndType source node draft) := by
  rw [readNameAndType, Node.firstOfKind_eq fun child isChild => ofKind.child isChild,
    ← Node.firstOfKind?]
  cases isDeclaration : node.firstOfKind? .variableIdentifierDeclaration with
  | none => exact .nothing isDeclaration
  | some declaration =>
      have declarationOfKind := ofKind.of_find? (by decide) isDeclaration
      rcases declarationOfKind.exists_field "name" rfl rfl with ⟨name, nameField⟩
      rcases declarationOfKind.exists_field "type" rfl rfl with ⟨type, typeField⟩
      have isName : declaration.firstOfKind? .identifier = some name := by
        rw [declarationOfKind.field_eq "name" rfl] at nameField
        exact Except.ok.inj nameField
      have isType : declaration.firstOfKind? .typeDeclaration = some type := by
        rw [declarationOfKind.field_eq "type" rfl] at typeField
        exact Except.ok.inj typeField
      have isDeclared :
          readDeclared source declaration = .ok ⟨name.text source, type.text source⟩ := by
        rw [readDeclared, nameField, typeField]
        rfl
      simp only [bind, Except.bind, isDeclared, typeField, Node.text, String.toList_ofList]
      cases isBuffer : draft.bindingType with
      | some text =>
          have declares : Declares source node draft _ :=
            .buffer isDeclaration isName isType (Option.isSome_of_mem isBuffer)
          rw [isBuffer] at declares
          exact declares
      | none =>
          cases isHandle : handleType? (type.chars source) with
          | none => exact ⟨rfl, declaration, type, rfl, isType, isHandle, rfl⟩
          | some handle => exact .handle isDeclaration isName isType isBuffer isHandle

/-! ## Faults of variables -/

/-- The faults that say something about a variable of a parsed module. -/
def IsBindingFault : Fault → Prop
  | .valuelessAttribute _ | .unsupportedLiteral .. | .unsupportedAddressSpace _
  | .unparsableType _ | .malformedBinding .. => True
  | _ => False

/-- A variable has an attribute whose number is too long, and the fault says so. -/
def FailsOnLongNumber (source : List Char) (node : Node) (fault : Fault) : Prop :=
  ∃ mark ∈ node.children, mark.kind? = some .attributeUse ∧
    (markName? source mark = some "group" ∨ markName? source mark = some "binding") ∧
    ∃ count, HasLongNumber source mark count ∧ fault = .unreadableInteger count

/-- Why no binding is read from a variable of a parsed module. -/
def FailsToBind (source : List Char) (node : Node) (fault : Fault) : Prop :=
  IsBindingFault fault ∨ FailsOnLongNumber source node fault

theorem LacksNumber.isBindingFault_or {name : String} {fault : Fault}
    (lacks : LacksNumber source name node fault) :
    IsBindingFault fault ∨ ∃ count, HasLongNumber source node count ∧
      fault = .unreadableInteger count := by
  cases lacks with
  | bare => exact .inl trivial
  | other => exact .inl trivial
  | long isLong => exact .inr ⟨_, isLong, rfl⟩

theorem readBindingChild_gives {draft : BindingDraft} {child : Node}
    (grammatical : child.Grammatical source) (isNamed : child.isNamed = true)
    (isChild : child ∈ node.children) :
    Gives (FailsToBind source node) (fun _ => True) (readBindingChild source draft child) := by
  rcases grammatical.exists_kind with ⟨kind, isKind, isOk⟩
  rw [readBindingChild, isOk]
  simp only [bind, Except.bind]
  split
  · have ofKind : child.OfKind source .attributeUse := ⟨grammatical, isNamed, isKind⟩
    rcases exists_attributeName ofKind with ⟨mark, others, isFull⟩
    have isName : markName? source child = some (mark.text source) := by
      rw [markName?, isFull]
      rfl
    have reads (name : String) (isEither : name = "group" ∨ name = "binding")
        (isText : mark.text source = name) :
        Gives (FailsToBind source node) (fun _ => True)
          (readIntegerAttribute source child name) := by
      refine (readIntegerAttribute_describes ofKind).weaken ?_ fun _ _ => trivial
      intro fault lacks
      refine lacks.isBindingFault_or.imp id fun isLong => ⟨child, isChild, isKind, ?_, isLong⟩
      rw [isName, isText]
      exact isEither.imp (congrArg some) (congrArg some)
    rw [isFull]
    simp only
    split
    · rename_i isGroup
      exact Gives.bind (reads "group" (.inl rfl) isGroup) fun _ _ => trivial
    · rename_i isBinding
      exact Gives.bind (reads "binding" (.inr rfl) isBinding) fun _ _ => trivial
    · trivial
  · have ofKind : child.OfKind source .variableDeclaration := ⟨grammatical, isNamed, isKind⟩
    refine ((readSpace_describes ofKind draft).weaken ?_ fun _ => id).bind fun later _ => ?_
    · rintro _ ⟨space, -, -, rfl⟩
      exact .inl trivial
    refine (readNameAndType_describes ofKind later).weaken ?_ fun _ _ => trivial
    rintro _ ⟨-, declaration, type, -, -, -, rfl⟩
    exact .inl trivial
  · trivial

theorem readBinding_gives (ofKind : node.OfKind source .globalVariableDeclaration) :
    Gives (FailsToBind source node) (fun _ => True) (readBinding source node) := by
  rw [readBinding, ofKind.kind_eq]
  have folded : Gives (FailsToBind source node) (fun _ => True)
      (node.namedChildren.foldlM (readBindingChild source) .empty) := by
    apply Gives.foldlM trivial
    intro draft _ child isChild
    rcases List.mem_filter.mp isChild with ⟨inChildren, isNamed⟩
    exact readBindingChild_gives (ofKind.child inChildren) isNamed inChildren
  refine folded.bind fun draft _ => ?_
  split
  · trivial
  · exact .inl trivial

theorem bindingsOf_gives {tree : SyntaxTree} (grammatical : tree.root.Grammatical tree.source) :
    Gives (fun fault => ∃ node ∈ nodesOfKind tree .globalVariableDeclaration,
      FailsToBind tree.source node fault) (fun _ => True) (bindingsOf tree) := by
  rw [bindingsOf_eq]
  apply Gives.mapM
  intro node isNode
  refine (readBinding_gives (ofKind_of_mem_nodesOfKind grammatical isNode)).weaken ?_ fun _ => id
  exact fun fault fails => ⟨node, isNode, fails⟩

/-- Without a variable of the module there is nothing to bind. -/
theorem bindingsOf_eq_nil {tree : SyntaxTree} (grammatical : tree.root.Grammatical tree.source)
    (isModule : tree.root.kind? = some .translationUnit)
    (noVariable : ∀ child ∈ tree.root.children,
      child.kind? ≠ some .globalVariableDeclaration) : bindingsOf tree = .ok [] := by
  have module : tree.root.OfKind tree.source .translationUnit :=
    ⟨grammatical, Node.isNamed_of_kind? (by decide) isModule, isModule⟩
  have none : nodesOfKind tree .globalVariableDeclaration = [] := by
    rw [nodesOfKind_eq_parts module (by decide), Node.parts, Node.among, List.filter_eq_nil_iff]
    intro child isChild
    simp [noVariable child isChild]
  rw [bindingsOf_eq, none]
  rfl

end ShaderReflection.Reflection
