import ShaderReflection.Proofs.Reflection.Tables

/-!
# Entry points and the attributes of functions

The entry points of a stage follow the declarations: each declaration that carries the attribute of
the stage adds the function that the table has under its name. A name that is declared once is
therefore listed just if its function carries the attribute; a name that is declared more often can
be listed more often.
-/

namespace ShaderReflection.Reflection

open ShaderReflection.Tree ShaderReflection.Attempt

variable {source : List Char} {node : Node}

/-! ## One declaration -/

theorem map_markName? {nodes : List Node} {marks : List Attribute}
    (described : List.Forall₂ (DescribesMark source) nodes marks) :
    nodes.map (markName? source) = marks.map fun mark => some mark.name := by
  induction described with
  | nil => rfl
  | cons isMark _ induction =>
      rcases isMark with ⟨name, inside, uses, rfl⟩
      rw [List.map_cons, List.map_cons, induction, markName?, uses.namedChildren]
      rfl

/-- A function carries the attributes that stand in its declaration. -/
theorem DescribesSignature.isSome_attribute? {structures : NameTable Structure}
    {signature : Signature} (describes : DescribesSignature source structures node signature)
    (name : String) :
    (signature.attribute? name).isSome ↔
      some name ∈ (node.parts .attributeUse).map (markName? source) := by
  rcases describes.attributes with ⟨marks, described, tabulates⟩
  rw [Signature.attribute?, tabulates.isSome_get?, map_markName? described]
  simp

/-! ## All declarations -/

/-- The entry points of a stage: for each declaration that carries its attribute, what the table has
under the name of the declaration. -/
def stageList (functions : NameTable Signature) (stage : Stage) (declared : List Signature) :
    List Signature :=
  (declared.filter fun signature => (signature.attribute? stage.name).isSome).filterMap
    fun signature => functions.get? signature.name

theorem foldlM_readStages {structures : NameTable Structure} {functions : NameTable Signature}
    {nodes : List Node} {declared : List Signature}
    (ofKind : ∀ node ∈ nodes, node.OfKind source .functionDeclaration)
    (described : List.Forall₂ (DescribesSignature source structures) nodes declared)
    (known : ∀ signature ∈ declared, (functions.get? signature.name).isSome)
    (start : EntryPoints) :
    Succeeds (fun entryPoints => ∀ stage, entryPoints.ofStage stage =
        start.ofStage stage ++ stageList functions stage declared)
      (nodes.foldlM (readStages source functions) start) := by
  induction described generalizing start with
  | nil =>
      intro stage
      exact (List.append_nil _).symm
  | @cons node signature nodes declared describes _ induction =>
      rw [List.forall_mem_cons] at ofKind known
      rcases Option.isSome_iff_exists.mp known.1 with ⟨found, isFound⟩
      rcases describes.name with ⟨name, isName, isText⟩
      rw [List.foldlM_cons]
      refine (readStages_describes ofKind.1 isName (isText ▸ isFound)).bind fun sofar first => ?_
      refine (induction ofKind.2 known.2 sofar).weaken (fun _ => id) fun entryPoints others => ?_
      intro stage
      rw [others stage, first stage, List.append_assoc]
      simp only [← describes.isSome_attribute?]
      congr 1
      rw [stageList, stageList, List.filter_cons]
      split
      · rw [List.filterMap_cons, isFound]
        rfl
      · rfl

theorem entryPointsOf_describes {tree : SyntaxTree} {structures : NameTable Structure}
    {functions : NameTable Signature} {declared : List Signature}
    (isModule : tree.root.OfKind tree.source .translationUnit)
    (described : List.Forall₂ (DescribesSignature tree.source structures)
      (tree.root.parts .functionDeclaration) declared)
    (known : ∀ signature ∈ declared, (functions.get? signature.name).isSome) :
    Succeeds (fun entryPoints => ∀ stage,
        entryPoints.ofStage stage = stageList functions stage declared)
      (entryPointsOf tree functions) := by
  rw [entryPointsOf_eq, nodesOfKind_eq_parts isModule (by decide)]
  have ofKind : ∀ node ∈ tree.root.parts .functionDeclaration,
      node.OfKind tree.source .functionDeclaration := fun node isNode =>
    isModule.part (by decide) isNode
  refine (foldlM_readStages ofKind described known .empty).weaken (fun _ => id) ?_
  intro entryPoints lists stage
  rw [lists stage]
  cases stage <;> rfl

/-! ## Tables and lists -/

section Table

variable {functions : NameTable Signature} {declared : List Signature}
  (tabulates : functions.Tabulates (declared.map fun signature => (signature.name, signature)))
include tabulates

/-- What the table has under a name is a declaration of that name. -/
theorem mem_declared_of_get? {name : String} {signature : Signature}
    (found : functions.get? name = some signature) :
    signature ∈ declared ∧ signature.name = name := by
  rcases List.mem_map.mp (tabulates.mem_of_get? found) with ⟨other, isOther, isEntry⟩
  cases isEntry
  exact ⟨isOther, rfl⟩

theorem exists_get?_of_mem_declared {signature : Signature} (isDeclared : signature ∈ declared) :
    ∃ found, functions.get? signature.name = some found ∧ found.name = signature.name := by
  have known : (functions.get? signature.name).isSome := by
    rw [tabulates.isSome_get?]
    exact ⟨_, List.mem_map_of_mem isDeclared, rfl⟩
  rcases Option.isSome_iff_exists.mp known with ⟨found, isFound⟩
  exact ⟨found, isFound, (mem_declared_of_get? tabulates isFound).2⟩

/-- The names in the list of a stage are those of the declarations that carry its attribute. -/
theorem map_name_stageList (stage : Stage) :
    (stageList functions stage declared).map Signature.name =
      (declared.filter fun signature => (signature.attribute? stage.name).isSome).map
        Signature.name := by
  have names : ∀ signature ∈ declared.filter fun signature =>
      (signature.attribute? stage.name).isSome,
      (functions.get? signature.name).map Signature.name = some signature.name := by
    intro signature isMarked
    rcases exists_get?_of_mem_declared tabulates (List.mem_filter.mp isMarked).1 with
      ⟨found, isFound, sameName⟩
    rw [isFound, Option.map_some, sameName]
  rw [stageList, List.map_filterMap, List.filterMap_congr names]
  exact congrFun List.filterMap_eq_map _

end Table

/-- How the list of a stage agrees with the declarations and the table of functions. -/
structure AgreesWithStage (functions : NameTable Signature) (declared : List Signature)
    (stage : Stage) (entries : List Signature) : Prop where
  /-- A name is listed once for each of its declarations that carry the attribute. -/
  counts : ∀ name, (entries.map Signature.name).count name =
    declared.countP fun signature =>
      signature.name == name && (signature.attribute? stage.name).isSome
  /-- What is listed is what the table has. -/
  resolved : ∀ entry ∈ entries, functions.get? entry.name = some entry
  /-- A function of the table that carries the attribute is listed. -/
  listed : ∀ name signature, functions.get? name = some signature →
    (signature.attribute? stage.name).isSome → signature ∈ entries
  /-- With a single declaration, a function is listed at most once, and just if it carries the
  attribute. -/
  single : ∀ name signature, functions.get? name = some signature →
    (declared.map Signature.name).count name = 1 →
      (entries.map Signature.name).count name ≤ 1 ∧
        (signature ∈ entries ↔ (signature.attribute? stage.name).isSome)

theorem eq_of_count_eq_one {declared : List Signature} {name : String} {left right : Signature}
    (single : (declared.map Signature.name).count name = 1) (isLeft : left ∈ declared)
    (isRight : right ∈ declared) (leftName : left.name = name) (rightName : right.name = name) :
    left = right := by
  rw [List.count_eq_countP, List.countP_map, List.countP_eq_length_filter] at single
  rcases List.length_eq_one_iff.mp single with ⟨only, isOnly⟩
  have inFilter : ∀ signature ∈ declared, signature.name = name → signature = only := by
    intro signature isDeclared isName
    apply List.mem_singleton.mp
    rw [← isOnly, List.mem_filter]
    exact ⟨isDeclared, by simp [isName]⟩
  rw [inFilter left isLeft leftName, inFilter right isRight rightName]

theorem agreesWithStage {functions : NameTable Signature} {declared : List Signature}
    (tabulates : functions.Tabulates (declared.map fun signature => (signature.name, signature)))
    (stage : Stage) :
    AgreesWithStage functions declared stage (stageList functions stage declared) := by
  have listed : ∀ name signature, functions.get? name = some signature →
      (signature.attribute? stage.name).isSome →
        signature ∈ stageList functions stage declared := by
    intro name signature found isMarked
    rcases mem_declared_of_get? tabulates found with ⟨isDeclared, sameName⟩
    refine List.mem_filterMap.mpr ⟨signature, List.mem_filter.mpr ⟨isDeclared, isMarked⟩, ?_⟩
    rw [sameName]
    exact found
  refine ⟨?_, ?_, listed, ?_⟩
  · intro name
    rw [map_name_stageList tabulates, List.count_eq_countP, List.countP_map, List.countP_filter]
    rfl
  · intro entry isEntry
    rcases List.mem_filterMap.mp isEntry with ⟨signature, -, found⟩
    rw [(mem_declared_of_get? tabulates found).2]
    exact found
  · intro name signature found single
    constructor
    · rw [map_name_stageList tabulates, ← single]
      exact (List.filter_sublist.map Signature.name).count_le name
    · refine ⟨?_, listed name signature found⟩
      intro isEntry
      rcases List.mem_filterMap.mp isEntry with ⟨other, isOther, otherFound⟩
      rcases List.mem_filter.mp isOther with ⟨otherDeclared, isMarked⟩
      rcases mem_declared_of_get? tabulates found with ⟨isDeclared, isName⟩
      have sameName := (mem_declared_of_get? tabulates otherFound).2
      rw [eq_of_count_eq_one single isDeclared otherDeclared isName (sameName.symm.trans isName)]
      exact isMarked

/-! ## The passes over a parsed module -/

/-- What the first three passes over a module give, with the functions as they are declared. -/
structure Passes (tree : SyntaxTree) (structures : NameTable Structure)
    (functions : NameTable Signature) (entryPoints : EntryPoints) (declared : List Signature) :
    Prop where
  structures_eq : structuresOf tree = .ok structures
  functions_eq : functionsOf tree structures = .ok functions
  entryPoints_eq : entryPointsOf tree functions = .ok entryPoints
  describesStructures : DescribesTable (DescribesStructure tree.source) Structure.name
    (tree.root.parts .structDeclaration) structures
  read : List.Forall₂ (fun node signature =>
    readFunction tree.source structures node = .ok signature)
    (tree.root.parts .functionDeclaration) declared
  describesFunctions : List.Forall₂ (DescribesSignature tree.source structures)
    (tree.root.parts .functionDeclaration) declared
  tabulates : functions.Tabulates (declared.map fun signature => (signature.name, signature))
  lists : ∀ stage, entryPoints.ofStage stage = stageList functions stage declared

theorem exists_passes_of_parse {source : String} {tree : SyntaxTree}
    (accepted : parse source = .ok tree) :
    ∃ structures functions entryPoints declared,
      Passes tree structures functions entryPoints declared := by
  have isModule := module_of_parse accepted
  have plain := plain_of_parse_eq accepted
  rcases (structuresOf_describes isModule.grammatical).exists_ok with
    ⟨structures, structures_eq, isStructures⟩
  rw [nodesOfKind_eq_parts isModule (by decide)] at isStructures
  -- Each declaration is read, and what is read is what it says.
  have each : ∀ node ∈ nodesOfKind tree .functionDeclaration,
      Succeeds (fun signature => readFunction tree.source structures node = .ok signature ∧
        DescribesSignature tree.source structures node signature)
        (readFunction tree.source structures node) := by
    intro node isNode
    have ofKind := ofKind_of_mem_nodesOfKind isModule.grammatical isNode
    rw [nodesOfKind_eq_parts isModule (by decide)] at isNode
    rcases (readFunction_reads ofKind structures).exists_ok with ⟨signature, read, reads⟩
    rw [read]
    exact ⟨rfl, reads.describes (plain.child (List.mem_filter.mp isNode).1)⟩
  have folded := @foldlM_describes _ _ _ Signature.name _ each
  rw [← functionsOf_eq] at folded
  rcases folded.exists_ok with ⟨functions, functions_eq, declared, described, tabulates⟩
  rw [nodesOfKind_eq_parts isModule (by decide)] at described
  have read := described.imp fun _ _ both => both.1
  have describes := described.imp fun _ _ both => both.2
  have known : ∀ signature ∈ declared, (functions.get? signature.name).isSome := by
    intro signature isDeclared
    rcases exists_get?_of_mem_declared tabulates isDeclared with ⟨found, isFound, -⟩
    rw [isFound]
    rfl
  rcases (entryPointsOf_describes isModule describes known).exists_ok with
    ⟨entryPoints, entryPoints_eq, lists⟩
  exact ⟨structures, functions, entryPoints, declared, structures_eq, functions_eq,
    entryPoints_eq, isStructures, read, describes, tabulates, lists⟩

/-- The lists of a reflected module are made from its declarations and its table. -/
theorem exists_stageLists_of_reflect {source : String} {model : Model}
    (reflected : reflect source = .ok model) :
    ∃ tree declared, parse source = .ok tree ∧
      List.Forall₂ (DescribesSignature source.toList model.structures)
        (tree.root.parts .functionDeclaration) declared ∧
      model.functions.Tabulates (declared.map fun signature => (signature.name, signature)) ∧
      ∀ stage, model.entryPoints.ofStage stage = stageList model.functions stage declared := by
  rcases exists_passes_of_reflect reflected with
    ⟨tree, accepted, isStructures, isFunctions, isEntryPoints, -⟩
  rcases exists_passes_of_parse accepted with
    ⟨structures, functions, entryPoints, declared, passes⟩
  cases isStructures.symm.trans passes.structures_eq
  cases isFunctions.symm.trans passes.functions_eq
  cases isEntryPoints.symm.trans passes.entryPoints_eq
  have sameSource := (grammatical_of_parse (parse_eq_ok accepted)).1
  exact ⟨tree, declared, accepted, sameSource ▸ passes.describesFunctions, passes.tabulates,
    passes.lists⟩

/-- In every reflected module the list of each stage agrees with the attributes of the functions as
they are declared. -/
theorem stages_of_reflect {source : String} {model : Model}
    (reflected : reflect source = .ok model) :
    ∃ tree declared, parse source = .ok tree ∧
      List.Forall₂ (DescribesSignature source.toList model.structures)
        (tree.root.parts .functionDeclaration) declared ∧
      ∀ stage, AgreesWithStage model.functions declared stage
        (model.entryPoints.ofStage stage) := by
  rcases exists_stageLists_of_reflect reflected with
    ⟨tree, declared, accepted, described, tabulates, lists⟩
  refine ⟨tree, declared, accepted, described, ?_⟩
  intro stage
  rw [lists stage]
  exact agreesWithStage tabulates stage

theorem stages_of_reflect_repeatedSource : ∃ model declared,
    reflect repeatedSource = .ok model ∧
      AgreesWithStage model.functions declared .vertex (model.entryPoints.ofStage .vertex) ∧
      (declared.countP fun signature =>
        signature.name == "f" && (signature.attribute? Stage.vertex.name).isSome) = 2 := by
  rcases exists_reflect_repeatedSource with ⟨model, reflected, names, -⟩
  rcases stages_of_reflect reflected with ⟨-, declared, -, -, agrees⟩
  refine ⟨model, declared, reflected, agrees .vertex, ?_⟩
  rw [← (agrees .vertex).counts "f", names]
  rfl

/-- With repeated declarations a name can be listed twice, and a function can be listed that does
not carry the attribute. -/
theorem stages_disagree_repeatedSource : ∃ model, reflect repeatedSource = .ok model ∧
    ¬ ((model.entryPoints.ofStage .vertex).map Signature.name).Nodup ∧
    ∃ entry ∈ model.entryPoints.ofStage .vertex,
      model.functions.get? entry.name = some entry ∧ entry.attribute? "vertex" = none := by
  rcases exists_reflect_repeatedSource with ⟨model, reflected, names, unmarked⟩
  refine ⟨model, reflected, ?_, ?_⟩
  · rw [names]
    decide
  · rcases List.any_eq_true.mp unmarked with ⟨entry, isEntry, isNone⟩
    rcases exists_stageLists_of_reflect reflected with ⟨-, declared, -, -, tabulates, lists⟩
    have resolved := (agreesWithStage tabulates .vertex).resolved entry (lists .vertex ▸ isEntry)
    exact ⟨entry, isEntry, resolved, Option.isNone_iff_eq_none.mp isNone⟩

end ShaderReflection.Reflection
