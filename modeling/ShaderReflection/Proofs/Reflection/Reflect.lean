import ShaderReflection.Proofs.Reflection.LongNumbers
import ShaderReflection.Reflection.Reflect

/-!
# Reflecting a parsed module

Of the passes that reflection is made of, only the one for bindings can fail once the source has
been parsed.
-/

namespace ShaderReflection.Reflection

open ShaderReflection.Tree ShaderReflection.Attempt

variable {source : String} {tree : SyntaxTree}

theorem parse_eq_ok (accepted : parse source = .ok tree) :
    SyntaxTree.parse source.toList = .ok tree := by
  rw [parse] at accepted
  cases result : SyntaxTree.parse source.toList with
  | error rejection =>
      rw [result] at accepted
      cases accepted
  | ok found =>
      rw [result] at accepted
      cases accepted
      rfl

theorem grammatical_of_parse_eq (accepted : parse source = .ok tree) :
    tree.root.Grammatical tree.source ∧ tree.root.kind? = some .translationUnit := by
  rcases Tree.grammatical_of_parse (parse_eq_ok accepted) with ⟨sameSource, grammatical, isTop⟩
  rw [sameSource]
  exact ⟨grammatical, isTop⟩

theorem plain_of_parse_eq (accepted : parse source = .ok tree) :
    tree.root.Plain tree.source := by
  rw [(Tree.grammatical_of_parse (parse_eq_ok accepted)).1]
  exact Node.plain_of_parse (parse_eq_ok accepted)

/-- The name of a kind that a node has is the type of the node. -/
theorem exists_kind_of_grammatical {chars : List Char} {node : Node}
    (grammatical : node.Grammatical chars) (isNamed : node.isNamed = true) :
    ∃ kind, node.kind = .ok kind ∧ Kind.ofName? (node.type chars) = some kind := by
  cases grammatical with
  | named kind children row isRow symbols below =>
      refine ⟨kind, rfl, ?_⟩
      cases kind <;> rfl
  | token terminal span isText => cases isNamed

/-- Once the source has been parsed, reflection is made of three passes that succeed and of the
bindings. -/
theorem exists_reflect_eq (accepted : parse source = .ok tree) :
    ∃ structures functions entryPoints,
      structuresOf tree = .ok structures ∧ functionsOf tree structures = .ok functions ∧
        entryPointsOf tree functions = .ok entryPoints ∧
        reflect source = (bindingsOf tree).map fun bindings =>
          ⟨structures, functions, entryPoints, bindings⟩ := by
  rcases grammatical_of_parse_eq accepted with ⟨grammatical, -⟩
  rcases (structuresOf_succeeds grammatical).exists_ok with ⟨structures, isStructures, -⟩
  rcases (functionsOf_succeeds grammatical structures).exists_ok with
    ⟨functions, isFunctions, covers⟩
  rcases (entryPointsOf_succeeds grammatical covers).exists_ok with
    ⟨entryPoints, isEntryPoints, -⟩
  refine ⟨structures, functions, entryPoints, isStructures, isFunctions, isEntryPoints, ?_⟩
  rw [reflect, accepted]
  simp only [bind, Except.bind, ofTree, isStructures, isFunctions, isEntryPoints]
  cases bindingsOf tree <;> rfl

/-- A parsed module has structures, functions and entry points. Its reflection is made of them and
of the bindings, and fails only as the bindings do: for what a variable says, or for a number in it
that is too long. -/
theorem reflect_of_parse (accepted : parse source = .ok tree) :
    (∃ structures functions entryPoints,
        structuresOf tree = .ok structures ∧ functionsOf tree structures = .ok functions ∧
          entryPointsOf tree functions = .ok entryPoints ∧
          reflect source = (bindingsOf tree).map fun bindings =>
            ⟨structures, functions, entryPoints, bindings⟩) ∧
      (∀ node ∈ tree.root.walk, node.isNamed = true →
        ∃ kind, node.kind = .ok kind ∧ Kind.ofName? (node.type tree.source) = some kind) ∧
      (∀ fault, bindingsOf tree = .error fault →
        ∃ node ∈ nodesOfKind tree .globalVariableDeclaration,
          FailsToBind tree.source node fault) ∧
      ((∀ child ∈ tree.root.children, child.kind? ≠ some .globalVariableDeclaration) →
        ∃ model, reflect source = .ok model) := by
  rcases grammatical_of_parse_eq accepted with ⟨grammatical, isModule⟩
  have made := exists_reflect_eq accepted
  refine ⟨made, ?_, ?_, ?_⟩
  · intro node isNode
    exact exists_kind_of_grammatical (grammatical.of_mem_walk isNode)
  · intro fault isFault
    have gives := bindingsOf_gives grammatical
    rw [isFault] at gives
    exact gives
  · intro noVariable
    rcases made with ⟨_, _, _, -, -, -, whole⟩
    rw [whole, bindingsOf_eq_nil grammatical isModule noVariable]
    exact ⟨_, rfl⟩

/-- A variable whose group is no number. -/
def faultySource : String := "struct S\x7bx:f32\x7d@group(a)@binding(0)var t:sampler;"

/-- A module without a variable, in which a parameter stands for a structure. -/
def plainSource : String := "struct S\x7bx:f32\x7d@vertex fn f(s:S)\x7b\x7d"

/-- The first source fails as its variable does, and the second one is reflected. -/
theorem reflect_of_parse_faultySource :
    ∃ tree fault node other model,
      parse faultySource = .ok tree ∧ reflect faultySource = .error fault ∧
      fault.message = "group value of type identifier unsupported: a" ∧
      node ∈ nodesOfKind tree .globalVariableDeclaration ∧ FailsToBind tree.source node fault ∧
      parse plainSource = .ok other ∧ reflect plainSource = .ok model := by
  have checked : (parse faultySource).toOption.any (fun tree =>
      ((bindingsOf tree).map fun _ => ()).mapError Fault.message ==
        .error "group value of type identifier unsupported: a") = true ∧
      (parse plainSource).toOption.any (fun other =>
        other.root.children.all fun child =>
          child.kind? != some .globalVariableDeclaration) = true := by
    decide +kernel
  rcases exists_ok_of_any checked.1 with ⟨tree, accepted, isFaulty⟩
  rcases exists_ok_of_any checked.2 with ⟨other, otherAccepted, isPlain⟩
  rcases eq_error_of_mapError (beq_iff_eq.mp isFaulty) with ⟨fault, isFault, isMessage⟩
  replace isFault : bindingsOf tree = .error fault := eq_error_of_map isFault
  have noVariable : ∀ child ∈ other.root.children,
      child.kind? ≠ some .globalVariableDeclaration := fun child isChild =>
    bne_iff_ne.mp (List.all_eq_true.mp isPlain child isChild)
  have ofFaulty := reflect_of_parse accepted
  rcases ofFaulty.1 with ⟨_, _, _, -, -, -, whole⟩
  rcases ofFaulty.2.2.1 fault isFault with ⟨node, isNode, fails⟩
  rcases (reflect_of_parse otherAccepted).2.2.2 noVariable with ⟨model, isModel⟩
  rw [isFault] at whole
  exact ⟨tree, fault, node, other, model, accepted, whole, isMessage, isNode, fails, otherAccepted,
    isModel⟩

/-- The variable of this source says all that a binding has to say, and yet the source is not
reflected. -/
theorem reflect_longSource_fails :
    (∃ tree, parse longSource = .ok tree) ∧
      ∃ fault, reflect longSource = .error fault ∧ ¬ IsBindingFault fault := by
  have isFault : bindingsOf (handleTree longLiteral) =
      .error (.unreadableInteger longLiteral.length) := by
    rw [bindingsOf_eq, nodesOfKind_handleTree longLiteral_mem_texts, List.mapM_cons,
      readBinding_longSource]
    rfl
  rcases exists_reflect_eq parse_longSource with ⟨_, _, _, -, -, -, whole⟩
  rw [isFault] at whole
  exact ⟨⟨_, parse_longSource⟩, _, whole, id⟩

end ShaderReflection.Reflection
