import ShaderReflection.Proofs.Attempt
import ShaderReflection.Proofs.Query.RoundTrip
import ShaderReflection.Reflection.Reflect

/-!
# The queries of the passes

Each pass asks for the declarations of one kind. Its query has one match for every node of that
kind, in the order of a walk, with the node under the name of the capture (`matchesIn_ofKind`). So
what a pass asks a match for is there, and the pass reads the nodes of the kind one after the other.
-/

namespace ShaderReflection.Query

open ShaderReflection.Tree ShaderReflection.Reflection

/-! ## Nodes of a kind -/

theorem ofName?_eq_some {name : String} {kind : Kind} :
    Kind.ofName? name = some kind ↔ name = kind.name := by
  constructor
  · intro isFound
    have isName := List.find?_some isFound
    exact (beq_iff_eq.mp isName).symm
  · rintro rfl
    exact ofName?_name kind

/-- A named node is of the kind that its type is the name of. -/
theorem type_eq_name {source : List Char} {node : Node} {kind : Kind}
    (isNamed : node.isNamed = true) : node.type source = kind.name ↔ node.kind? = some kind := by
  cases node with
  | named label span children =>
      cases label with
      | known other =>
          rw [← ofName?_eq_some, Node.type, ofName?_name]
          rfl
      | other name => exact ofName?_eq_some.symm
  | token label span => cases isNamed

theorem name_ne_wildcard (kind : Kind) : kind.name ≠ Pattern.wildcard := by
  cases kind <;> decide

end ShaderReflection.Query

namespace ShaderReflection.Reflection

open ShaderReflection.Tree ShaderReflection.Query

/-- The nodes of a kind in a tree, parents before children and siblings in order. -/
def nodesOfKind (tree : SyntaxTree) (kind : Kind) : List Node :=
  tree.root.walk.filter fun node => node.isNamed && node.kind? == some kind

/-! ## Matches -/

/-- A match of the first pattern that has kept one node. -/
def captured (capture : String) (node : Node) : Match := ⟨0, NameTable.empty.put capture node⟩

theorem get_captured (capture : String) (node : Node) :
    (captured capture node).get capture = .ok node := by
  rw [Match.get, captured, NameTable.get?_put, if_pos rfl]

variable {tree : SyntaxTree} {kind : Kind} {capture : String}

theorem matchNode_ofKind (source : List Char) (node : Node) :
    (Pattern.mk kind.name none (some capture) []).matchNode source node =
      if node.isNamed && node.kind? == some kind then
        some (NameTable.empty.put capture node)
      else none := by
  cases isNamed : node.isNamed with
  | false => rw [Pattern.matchNode, isNamed, Bool.false_and, Bool.false_and]; rfl
  | true =>
      have asks : Pattern.asksFor kind.name (node.type source) = (node.kind? == some kind) := by
        rw [Pattern.asksFor, beq_eq_false_iff_ne.mpr (name_ne_wildcard kind), Bool.false_or,
          Bool.eq_iff_iff, beq_iff_eq, beq_iff_eq, type_eq_name isNamed]
      rw [Pattern.matchNode, isNamed, asks, Pattern.matchChildren]
      rfl

/-- A query for a kind has one match for every node of that kind. -/
theorem matchesIn_ofKind :
    matchesIn (ofKind kind capture) tree = (nodesOfKind tree kind).map (captured capture) := by
  rw [matchesIn, nodesOfKind]
  induction tree.root.walk with
  | nil => rfl
  | cons node walk induction =>
      rw [List.flatMap_cons, induction, List.filter_cons]
      simp only [ofKind, List.mapIdx_cons, List.mapIdx_nil, matchNode_ofKind]
      split <;> rfl

/-- A loop over the matches that asks each one for its node is a loop over the nodes. -/
theorem foldlM_matchesIn {α : Type} (step : α → Node → Attempt α) (start : α) :
    (matchesIn (ofKind kind capture) tree).foldlM
        (fun sofar found => found.get capture >>= step sofar) start =
      (nodesOfKind tree kind).foldlM step start := by
  rw [matchesIn_ofKind, List.foldlM_map]
  congr 1
  funext sofar node
  rw [get_captured]
  rfl

theorem mapM_matchesIn {α : Type} (read : Node → Attempt α) :
    (matchesIn (ofKind kind capture) tree).mapM (fun found => found.get capture >>= read) =
      (nodesOfKind tree kind).mapM read := by
  rw [matchesIn_ofKind, List.mapM_map]
  congr 1
  funext node
  rw [Function.comp_apply, get_captured]
  rfl

/-! ## Passes -/

theorem structuresOf_eq (tree : SyntaxTree) :
    structuresOf tree = (nodesOfKind tree .structDeclaration).foldlM (fun table node => do
      let found ← readStructure tree.source node
      return table.put found.name found) .empty :=
  foldlM_matchesIn _ _

theorem functionsOf_eq (tree : SyntaxTree) (structures : NameTable Structure) :
    functionsOf tree structures =
      (nodesOfKind tree .functionDeclaration).foldlM (fun table node => do
        let found ← readFunction tree.source structures node
        return table.put found.name found) .empty :=
  foldlM_matchesIn _ _

theorem entryPointsOf_eq (tree : SyntaxTree) (functions : NameTable Signature) :
    entryPointsOf tree functions =
      (nodesOfKind tree .functionDeclaration).foldlM (readStages tree.source functions) .empty :=
  foldlM_matchesIn _ _

theorem bindingsOf_eq (tree : SyntaxTree) :
    bindingsOf tree =
      (nodesOfKind tree .globalVariableDeclaration).mapM (readBinding tree.source) :=
  mapM_matchesIn _

/-! ## Queries in writing -/

/-- The query for a kind can be written in the pattern language. -/
theorem read_ofKind {query : String} (isQuery : query = "(" ++ kind.name ++ ") @" ++ capture)
    (notToken : kind ≠ .anonymous) (isWord : isCaptureName capture.toList = true) :
    read query = .ok (ofKind kind capture) := by
  have wellFormed : ∀ pattern ∈ ofKind kind capture, pattern.WellFormed IsKind := by
    rw [ofKind, List.forall_mem_singleton]
    exact .mk (.inr ⟨kind, notToken, rfl⟩) (by simp) (by simpa using isWord)
      (List.forall_mem_nil _)
  have known : ∀ name ∈ Pattern.kindsOfAll (ofKind kind capture), IsKind name :=
    Pattern.isKind_of_mem_kindsOfAll fun pattern isPattern =>
      (wellFormed pattern isPattern).isKind_of_mem_kinds
  have isWritten : write (ofKind kind capture) = query := by
    rw [isQuery]
    apply String.toList_inj.mp
    simp [write, ofKind, Pattern.write, Pattern.writeRow, Pattern.fieldMark, Pattern.captureMark]
  rw [← isWritten, read_write_eq_check (by simp [ofKind]) isName_of_isKind wellFormed
    (by simp [ofKind, Pattern.field]), Pattern.check_eq_ok known]

theorem read_queries :
    read "(struct_declaration) @struct" = .ok structureQuery ∧
      read "(function_declaration) @func" = .ok functionQuery ∧
      read "(global_variable_declaration) @global" = .ok variableQuery :=
  ⟨read_ofKind (by decide +kernel) (by decide) (by decide),
    read_ofKind (by decide +kernel) (by decide) (by decide),
    read_ofKind (by decide +kernel) (by decide) (by decide)⟩

end ShaderReflection.Reflection
