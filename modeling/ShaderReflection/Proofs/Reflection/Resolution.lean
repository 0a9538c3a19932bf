import ShaderReflection.Proofs.Reflection.Attributes
import ShaderReflection.Proofs.Reflection.EntryPoints

/-!
# Entry points resolve

The entry points of a stage are found by a pass of its own over the declarations. What it finds is
what the attributes of the functions say, declaration by declaration, and in a report each name of
an entry point is the name of one function.
-/

namespace ShaderReflection

/-- The text under a key of an object. -/
def Json.textUnder? (key : String) (value : Json) : Option (List Char) :=
  match value.member? key with
  | some (.text chars) => some chars
  | _ => none

namespace Reflection

open ShaderReflection.Tree ShaderReflection.Attempt

variable {source : String} {tree : SyntaxTree}

/-! ## Lists and tables -/

section Lists

variable {functions : NameTable Signature} {declared : List Signature}
  (tabulates : functions.Tabulates (declared.map fun signature => (signature.name, signature)))
include tabulates

theorem map_some_stageList (stage : Stage) :
    (stageList functions stage declared).map some =
      (declared.filter fun signature => (signature.attribute? stage.name).isSome).map
        fun signature => functions.get? signature.name := by
  have found : ∀ signature ∈ declared.filter fun signature =>
      (signature.attribute? stage.name).isSome,
      (functions.get? signature.name).map some = some (functions.get? signature.name) := by
    intro signature isMarked
    rcases exists_get?_of_mem_declared tabulates (List.mem_filter.mp isMarked).1 with
      ⟨signature, isFound, -⟩
    rw [isFound]
    rfl
  rw [stageList, List.map_filterMap, List.filterMap_congr found]
  exact congrFun List.filterMap_eq_map _

/-- In the table each function stands under its own name. -/
theorem map_name_values : functions.values.map Signature.name = functions.names := by
  rw [NameTable.values, NameTable.names, List.map_map]
  apply List.map_congr_left
  intro entry isEntry
  exact (mem_declared_of_get? tabulates (NameTable.get?_of_mem_entries isEntry)).2

end Lists

/-! ## Reports -/

/-- What a report lists under a stage. -/
def Report.entries (report : Json) (stage : Stage) : List Json :=
  match report.member? "entry_points" with
  | some found => found.itemsUnder stage.name
  | none => []

theorem Report.entries_ofModel (model : Model) (sourceName : String) (stage : Stage) :
    Report.entries (Report.ofModel model sourceName) stage =
      (model.entryPoints.ofStage stage).map fun signature => .text signature.name.toList := by
  cases stage <;> rfl

/-- The names of the functions in a report. -/
def Report.functionNames (report : Json) : List (Option (List Char)) :=
  (report.itemsUnder "functions").map (Json.textUnder? "name")

theorem Report.functionNames_ofModel (model : Model) (sourceName : String) :
    Report.functionNames (Report.ofModel model sourceName) =
      (model.functions.values.map Signature.name).map fun name => some name.toList := by
  have functions : (Report.ofModel model sourceName).itemsUnder "functions" =
      model.functions.values.map Report.ofSignature := rfl
  rw [Report.functionNames, functions, List.map_map, List.map_map]
  rfl

theorem Report.count_functionNames {model : Model} {declared : List Signature}
    (tabulates : model.functions.Tabulates
      (declared.map fun signature => (signature.name, signature)))
    {name : String} (found : (model.functions.get? name).isSome) (sourceName : String) :
    (Report.functionNames (Report.ofModel model sourceName)).count (some name.toList) = 1 := by
  have injective : Function.Injective fun name : String => some name.toList := by
    intro left right same
    exact String.toList_inj.mp (Option.some.inj same)
  rw [functionNames_ofModel, map_name_values tabulates,
    List.count_map_of_injective _ _ injective]
  exact List.count_eq_one_of_mem model.functions.distinct (NameTable.mem_names_iff.mpr found)

/-- In every parsed module the list of a stage has, for each declaration that is read as a function
with the attribute of the stage, what the table has under the name of the function, in the order of
the declarations. In a report each name in these lists is the name of just one function. -/
theorem entryPoints_resolve (accepted : parse source = .ok tree) :
    ∃ structures functions entryPoints declared,
      structuresOf tree = .ok structures ∧ functionsOf tree structures = .ok functions ∧
      entryPointsOf tree functions = .ok entryPoints ∧
      List.Forall₂ (fun node signature =>
        readFunction tree.source structures node = .ok signature)
        (tree.root.parts .functionDeclaration) declared ∧
      (∀ stage, (entryPoints.ofStage stage).map some =
        (declared.filter fun signature => (signature.attribute? stage.name).isSome).map
          fun signature => functions.get? signature.name) ∧
      ∀ bindings sourceName text,
        Model.report ⟨structures, functions, entryPoints, bindings⟩ sourceName = .ok text →
        ∃ report, Json.decode text.toList = some report.toDatum ∧
        ∀ stage, ∀ item ∈ Report.entries report stage, ∃ name, item = .text name ∧
          (Report.functionNames report).count (some name) = 1 := by
  rcases exists_passes_of_parse accepted with
    ⟨structures, functions, entryPoints, declared, passes⟩
  refine ⟨structures, functions, entryPoints, declared, passes.structures_eq,
    passes.functions_eq, passes.entryPoints_eq, passes.read, ?_, ?_⟩
  · intro stage
    rw [passes.lists stage]
    exact map_some_stageList passes.tabulates stage
  · intro bindings sourceName text isText
    refine ⟨Report.ofModel ⟨structures, functions, entryPoints, bindings⟩ sourceName, ?_, ?_⟩
    · rw [(Report.render_eq_ok.mp isText).2]
      exact Json.decode_render _
    · intro stage item isItem
      rw [Report.entries_ofModel] at isItem
      rcases List.mem_map.mp isItem with ⟨signature, isEntry, rfl⟩
      refine ⟨signature.name.toList, rfl, ?_⟩
      apply Report.count_functionNames passes.tabulates
      have listed : signature ∈ stageList functions stage declared := passes.lists stage ▸ isEntry
      rw [(agreesWithStage passes.tabulates stage).resolved signature listed]
      rfl

theorem entryPoints_resolve_repeatedSource :
    ∃ tree functions entryPoints, ∃ declared : List Signature,
      parse repeatedSource = .ok tree ∧ entryPointsOf tree functions = .ok entryPoints ∧
      (entryPoints.ofStage .vertex).map Signature.name = ["f", "f", "g"] ∧
      (entryPoints.ofStage .vertex).map some =
        (declared.filter fun signature => (signature.attribute? Stage.vertex.name).isSome).map
          fun signature => functions.get? signature.name := by
  rcases exists_reflect_repeatedSource with ⟨model, reflected, names, -⟩
  rcases exists_passes_of_reflect reflected with
    ⟨tree, accepted, isStructures, isFunctions, isEntryPoints, -⟩
  rcases entryPoints_resolve accepted with
    ⟨structures, functions, entryPoints, declared, sameStructures, sameFunctions,
      sameEntryPoints, -, lists, -⟩
  cases isStructures.symm.trans sameStructures
  cases isFunctions.symm.trans sameFunctions
  cases isEntryPoints.symm.trans sameEntryPoints
  exact ⟨tree, model.functions, model.entryPoints, declared, accepted, isEntryPoints, names,
    lists .vertex⟩

end Reflection

end ShaderReflection
