import Mathlib.Data.List.Forall2
import ShaderReflection.Proofs.NameTable
import ShaderReflection.Proofs.Reflection.Report

/-!
# Attributes in reports

A model keeps all the attributes of a member or parameter and looks up the first one of a name. A
report has one value for each name, which is the last one. So the two answer alike for the names
whose first and last values are the same.
-/

namespace ShaderReflection

/-! ## Looking into a report -/

namespace Json

/-- The value under a key of an object. -/
def member? (key : String) : Json → Option Json
  | object members => (members.find? fun member => member.1 == key.toList).map Prod.snd
  | _ => none

/-- The items of the list under a key of an object. -/
def itemsUnder (key : String) (value : Json) : List Json :=
  match value.member? key with
  | some (list items) => items
  | _ => []

/-- Keys are the names of a table, each with its value. -/
theorem member?_table (table : NameTable String) (name : String) :
    (Json.object ((table.entries.map fun (name, value) => (name, Json.text value.toList)).map
      fun (key, value) => (key.toList, value))).member? name =
      (table.get? name).map fun value => Json.text value.toList := by
  have sameKey : ∀ entry : String × String,
      (entry.1.toList == name.toList) = (entry.1 == name) := by
    intro entry
    apply Bool.eq_iff_iff.mpr
    rw [beq_iff_eq, beq_iff_eq, String.toList_inj]
  rw [member?, NameTable.get?, List.map_map, List.find?_map, Option.map_map, Option.map_map]
  simp only [Function.comp_def, sameKey]

end Json

namespace Reflection

/-- All members of structures and inputs of functions, in the order of the tables. -/
def Model.inputs (model : Model) : List Input :=
  model.structures.values.flatMap Structure.members ++
    model.functions.values.flatMap Signature.inputs

/-- What a report says about the members of structures and the inputs of functions. -/
def Report.inputs (report : Json) : List Json :=
  ((report.itemsUnder "structures").flatMap fun found => found.itemsUnder "members") ++
    (report.itemsUnder "functions").flatMap fun signature => signature.itemsUnder "inputs"

theorem Report.inputs_ofModel (model : Model) (sourceName : String) :
    Report.inputs (Report.ofModel model sourceName) = model.inputs.map Report.ofInput := by
  have structures : (Report.ofModel model sourceName).itemsUnder "structures" =
      model.structures.values.map Report.ofStructure := rfl
  have functions : (Report.ofModel model sourceName).itemsUnder "functions" =
      model.functions.values.map Report.ofSignature := rfl
  rw [Report.inputs, structures, functions, Model.inputs, List.map_append, List.map_flatMap,
    List.map_flatMap, List.flatMap_map, List.flatMap_map]
  rfl

/-! ## First and last values -/

/-- The values that the attributes of one name have, in order. -/
def Input.valuesOf (input : Input) (name : String) : List String :=
  (input.attributes.filter fun entry => entry.name == name).map Attribute.value

theorem Input.attribute?_eq_head? (input : Input) (name : String) :
    input.attribute? name = (input.valuesOf name).head? := by
  rw [Input.attribute?, Input.valuesOf, List.head?_map, List.head?_filter]

/-- The table that a report has for the attributes of an input holds the last values. -/
theorem Input.get?_ofList (input : Input) (name : String) :
    (NameTable.ofList (input.attributes.map fun entry => (entry.name, entry.value))).get? name =
      (input.valuesOf name).getLast? := by
  have tabulates : ∀ (entries : List (String × String)) {table : NameTable String}
      {before : List (String × String)}, table.Tabulates before →
      (table.putAll entries).Tabulates (before ++ entries) := by
    intro entries
    induction entries with
    | nil =>
        intro table before tabulates
        rw [List.append_nil]
        exact tabulates
    | cons entry rest induction =>
        intro table before tabulates
        have whole := induction (tabulates.put entry.1 entry.2)
        rw [List.append_assoc] at whole
        exact whole
  rw [NameTable.ofList, (tabulates _ NameTable.tabulates_empty).values, List.nil_append,
    List.filter_map, Input.valuesOf, List.getLast?_map, List.getLast?_map, Option.map_map]
  rfl

/-- The attributes that a report has for an input: the names are those of its attributes and the
values the last ones, which is what the model answers just where the first value is the last. -/
structure WritesLast (input : Input) (written : Json) (name : String) : Prop where
  last : written.member? name = (input.valuesOf name).getLast?.map fun value => .text value.toList
  names : (written.member? name).isSome ↔ (input.attribute? name).isSome
  agrees : (written.member? name = (input.attribute? name).map fun value => .text value.toList) ↔
    (input.valuesOf name).head? = (input.valuesOf name).getLast?

theorem Report.writesLast_ofInput (input : Input) :
    ∃ written, (Report.ofInput input).member? "attributes" = some written ∧
      ∀ name, WritesLast input written name := by
  have isTable : ∃ written, (Report.ofInput input).member? "attributes" = some written ∧
      ∀ name, written.member? name = (input.valuesOf name).getLast?.map fun value =>
        .text value.toList := by
    refine ⟨_, rfl, ?_⟩
    intro name
    rw [← Input.get?_ofList]
    exact Json.member?_table _ name
  have injective : Function.Injective fun value : String => Json.text value.toList := by
    intro left right equal
    exact String.toList_inj.mp (Json.text.inj equal)
  rcases isTable with ⟨written, isWritten, last⟩
  refine ⟨written, isWritten, ?_⟩
  intro name
  refine ⟨last name, ?_, ?_⟩
  · rw [last, Input.attribute?_eq_head?, Option.isSome_map, List.getLast?_isSome, List.isSome_head?]
  · rw [last, Input.attribute?_eq_head?, Option.map_inj_right fun _ _ equal => injective equal]
    exact eq_comm

/-- In every report all members of structures and inputs of functions have the last values of their
attributes. -/
theorem attributes_of_report (model : Model) (sourceName : String) :
    List.Forall₂ (fun input found => ∃ written, Json.member? "attributes" found = some written ∧
      ∀ name, WritesLast input written name)
      model.inputs (Report.inputs (Report.ofModel model sourceName)) := by
  rw [Report.inputs_ofModel, List.forall₂_map_right_iff, List.forall₂_same]
  intro input _
  exact Report.writesLast_ofInput input

/-- A member with two attributes of one name. -/
def doubledSource : String := "struct S \x7b @a(1) @a(2) x: f32 \x7d"

theorem exists_reflect_doubledSource : ∃ model, reflect doubledSource = .ok model ∧
    model.inputs = [⟨"x", "f32", [⟨"a", "1"⟩, ⟨"a", "2"⟩]⟩] := by
  have evaluated : (match reflect doubledSource with
      | .ok model => model.inputs == [⟨"x", "f32", [⟨"a", "1"⟩, ⟨"a", "2"⟩]⟩]
      | .error _ => false) = true := by
    decide +kernel
  split at evaluated
  · rename_i model result
    exact ⟨model, result, beq_iff_eq.mp evaluated⟩
  · cases evaluated

/-- With a repeated name the model answers with the first value and the report has the last. -/
theorem attributes_disagree_doubledSource : ∃ model input found written,
    reflect doubledSource = .ok model ∧ model.inputs = [input] ∧
      Report.inputs (Report.ofModel model "") = [found] ∧
      found.member? "attributes" = some written ∧ input.attribute? "a" = some "1" ∧
      written.member? "a" = some (.text ['2']) := by
  rcases exists_reflect_doubledSource with ⟨model, reflected, inputs⟩
  rcases Report.writesLast_ofInput ⟨"x", "f32", [⟨"a", "1"⟩, ⟨"a", "2"⟩]⟩ with
    ⟨written, isWritten, writes⟩
  refine ⟨model, _, _, written, reflected, inputs, ?_, isWritten, by decide, ?_⟩
  · rw [Report.inputs_ofModel, inputs, List.map_singleton]
  · rw [(writes "a").last]
    rfl

end Reflection

end ShaderReflection
