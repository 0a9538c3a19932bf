import ShaderReflection.Proofs.Reflection.Reflect
import ShaderReflection.Proofs.Tree.Covering

/-!
# What the tables of a module hold

The passes give what the declarations that they look at say. In a parsed module these are the
declarations that stand directly in it, and there attributes are read as they are written.
-/

namespace ShaderReflection.Reflection

open ShaderReflection.Tree ShaderReflection.Attempt

/-- What is reflected has been parsed, and each pass has given its part. -/
theorem exists_passes_of_reflect {source : String} {model : Model}
    (reflected : reflect source = .ok model) :
    ∃ tree, parse source = .ok tree ∧ structuresOf tree = .ok model.structures ∧
      functionsOf tree model.structures = .ok model.functions ∧
      entryPointsOf tree model.functions = .ok model.entryPoints ∧
      bindingsOf tree = .ok model.bindings := by
  rcases bind_eq_ok.mp reflected with ⟨tree, accepted, passes⟩
  rcases bind_eq_ok.mp passes with ⟨structures, isStructures, passes⟩
  rcases bind_eq_ok.mp passes with ⟨functions, isFunctions, passes⟩
  rcases bind_eq_ok.mp passes with ⟨entryPoints, isEntryPoints, passes⟩
  rcases bind_eq_ok.mp passes with ⟨bindings, isBindings, passes⟩
  cases passes
  exact ⟨tree, accepted, isStructures, isFunctions, isEntryPoints, isBindings⟩

theorem module_of_parse {source : String} {tree : SyntaxTree} (accepted : parse source = .ok tree) :
    tree.root.OfKind tree.source .translationUnit := by
  rcases grammatical_of_parse_eq accepted with ⟨grammatical, isModule⟩
  exact ⟨grammatical, Node.isNamed_of_kind? (by decide) isModule, isModule⟩

/-- The signatures in a table are all that the declarations of a plain module say. -/
theorem DescribesTable.signatures {source : List Char} {structures : NameTable Structure}
    {root : Node} {functions : NameTable Signature} (plain : root.Plain source)
    (table : DescribesTable (ReadsFunction source structures) Signature.name
      (root.parts .functionDeclaration) functions) :
    DescribesTable (DescribesSignature source structures) Signature.name
      (root.parts .functionDeclaration) functions := by
  rcases table with ⟨signatures, described, tabulates⟩
  refine ⟨signatures, ?_, tabulates⟩
  have nodesPlain : ∀ node ∈ root.parts .functionDeclaration, node.Plain source :=
    fun node isNode => plain.child (List.mem_filter.mp isNode).1
  have both := (List.forall₂_and_left _ _).mpr ⟨nodesPlain, described⟩
  exact both.imp fun node signature ⟨nodePlain, reads⟩ => reads.describes nodePlain

/-- The tables of a reflected module hold what the declarations in its tree say. -/
theorem exists_tables_of_reflect {source : String} {model : Model}
    (reflected : reflect source = .ok model) :
    ∃ tree, parse source = .ok tree ∧ tree.source = source.toList ∧
      DescribesTable (DescribesStructure source.toList) Structure.name
        (tree.root.parts .structDeclaration) model.structures ∧
      DescribesTable (DescribesSignature source.toList model.structures) Signature.name
        (tree.root.parts .functionDeclaration) model.functions ∧
      entryPointsOf tree model.functions = .ok model.entryPoints := by
  rcases exists_passes_of_reflect reflected with
    ⟨tree, accepted, isStructures, isFunctions, isEntryPoints, -⟩
  have isModule := module_of_parse accepted
  have sameSource := (grammatical_of_parse (parse_eq_ok accepted)).1
  have plain := Node.plain_of_parse (parse_eq_ok accepted)
  have structures := structuresOf_describes isModule.grammatical
  have functions := functionsOf_reads isModule.grammatical model.structures
  rw [isStructures, nodesOfKind_eq_parts isModule (by decide), sameSource] at structures
  rw [isFunctions, nodesOfKind_eq_parts isModule (by decide), sameSource] at functions
  exact ⟨tree, accepted, sameSource, structures, functions.signatures plain, isEntryPoints⟩

/-- The declarations of a reflected module stand directly in it. The tables of structures and
functions have the declared names in order, each with what its last declaration says; a parameter
whose type is the name of a structure in the table stands for the members of that structure. -/
theorem reflect_describes {source : String} {model : Model}
    (reflected : reflect source = .ok model) :
    ∃ tree, parse source = .ok tree ∧
      (∀ kind ∈ Node.declarations, Node.among kind tree.root.walk = tree.root.parts kind) ∧
      DescribesTable (DescribesStructure source.toList) Structure.name
        (tree.root.parts .structDeclaration) model.structures ∧
      DescribesTable (DescribesSignature source.toList model.structures) Signature.name
        (tree.root.parts .functionDeclaration) model.functions := by
  rcases exists_tables_of_reflect reflected with ⟨tree, accepted, -, structures, functions, -⟩
  refine ⟨tree, accepted, ?_, structures, functions⟩
  intro kind isDeclaration
  exact (module_of_parse accepted).among_walk isDeclaration

/-! ## Declarations of the same name -/

/-- Structures and functions that are declared again, with structures used before they are
declared. -/
def redeclaredSource : String :=
  "fn f() \x7b\x7d struct S \x7b x: f32 \x7d struct T \x7b z: f32 \x7d struct S \x7b w: T \x7d" ++
    "@a(8, 2) fn f(a: T, b: S) -> T \x7b\x7d"

/-- Two functions that are declared twice, one with the attribute of a stage on both declarations,
the other with it on the first one only. -/
def repeatedSource : String :=
  "@vertex fn f() \x7b\x7d @vertex fn f() \x7b\x7d @vertex fn g() \x7b\x7d fn g() \x7b\x7d"

def namesAndTypes (inputs : List Input) : List (String × String) :=
  inputs.map fun input => (input.name, input.type)

/-- The tables of the first module. The structures count as they are declared last, wherever that
is, and their members are not expanded again. -/
def RedeclaredTables (model : Model) : Prop :=
  model.structures.values.map (fun found => (found.name, namesAndTypes found.members)) =
      [("S", [("w", "T")]), ("T", [("z", "f32")])] ∧
    model.functions.values.map (fun signature =>
      (signature.name, signature.attributes.entries, namesAndTypes signature.inputs,
        signature.returnType)) =
      [("f", [("a", "8,2")], [("z", "f32"), ("w", "T")], some "T")]

instance (model : Model) : Decidable (RedeclaredTables model) :=
  inferInstanceAs (Decidable (_ ∧ _))

-- Both sources in one evaluation, because building the automaton takes most of the time.
theorem redeclarations_tested :
    ((reflect redeclaredSource).toOption.any fun model => decide (RedeclaredTables model)) = true ∧
    ((reflect repeatedSource).toOption.any fun model =>
      (model.entryPoints.ofStage .vertex).map Signature.name == ["f", "f", "g"] &&
        (model.entryPoints.ofStage .vertex).any fun entry =>
          (entry.attribute? "vertex").isNone) = true := by
  decide +kernel

theorem exists_reflect_repeatedSource : ∃ model, reflect repeatedSource = .ok model ∧
    (model.entryPoints.ofStage .vertex).map Signature.name = ["f", "f", "g"] ∧
    (model.entryPoints.ofStage .vertex).any fun entry => (entry.attribute? "vertex").isNone := by
  rcases exists_ok_of_any redeclarations_tested.2 with ⟨model, reflected, entries⟩
  rcases Bool.and_eq_true_iff.mp entries with ⟨names, unmarked⟩
  exact ⟨model, reflected, beq_iff_eq.mp names, unmarked⟩

theorem reflect_describes_redeclaredSource :
    ∃ model tree, reflect redeclaredSource = .ok model ∧ parse redeclaredSource = .ok tree ∧
      RedeclaredTables model ∧
      Node.among .functionDeclaration tree.root.walk = tree.root.parts .functionDeclaration ∧
      DescribesTable (DescribesStructure redeclaredSource.toList) Structure.name
        (tree.root.parts .structDeclaration) model.structures ∧
      DescribesTable (DescribesSignature redeclaredSource.toList model.structures) Signature.name
        (tree.root.parts .functionDeclaration) model.functions := by
  rcases exists_ok_of_any redeclarations_tested.1 with ⟨model, reflected, tables⟩
  rcases reflect_describes reflected with ⟨tree, accepted, direct, structures, functions⟩
  exact ⟨model, tree, reflected, accepted, of_decide_eq_true tables, direct _ (by decide),
    structures, functions⟩

end ShaderReflection.Reflection
