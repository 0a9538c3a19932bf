import Mathlib.Data.List.Nodup
import ShaderReflection.Proofs.Json.Characters
import ShaderReflection.Proofs.Json.RoundTrip
import ShaderReflection.Reflection.Report

/-!
# Reports

What a reader of the data format makes of the text of a report is the report. Only a report with a
number that is too long has no text (`report_decodes`).
-/

namespace ShaderReflection.Reflection.Report

open Json (Datum)

/-! ## Keys -/

theorem distinctKeys_list {α : Type} {report : α → Json} (items : List α)
    (inside : ∀ item ∈ items, (report item).toDatum.DistinctKeys) :
    (Json.list (items.map report)).toDatum.DistinctKeys := by
  rw [Json.toDatum, Json.toData_eq_map]
  apply Datum.DistinctKeys.list
  intro item isItem
  simp only [List.map_map, List.mem_map] at isItem
  rcases isItem with ⟨source, isSource, rfl⟩
  exact inside source isSource

theorem distinctKeys_object {members : List (String × Json)}
    (distinct : (members.map Prod.fst).Nodup)
    (inside : ∀ member ∈ members, member.2.toDatum.DistinctKeys) :
    (Json.object (members.map fun (key, value) => (key.toList, value))).toDatum.DistinctKeys := by
  rw [Json.toDatum, Json.toMembers_eq_map]
  apply Datum.DistinctKeys.object
  · have keys := distinct.map fun _ _ => String.toList_inj.mp
    simpa only [List.map_map, Function.comp_def] using keys
  · intro member isMember
    simp only [List.map_map, List.mem_map] at isMember
    rcases isMember with ⟨source, isSource, rfl⟩
    exact inside source isSource

theorem distinctKeys_text (value : List Char) : (Json.text value).toDatum.DistinctKeys := by
  rw [Json.toDatum]
  exact .text value

theorem distinctKeys_number (value : Int) : (Json.number value).toDatum.DistinctKeys := by
  rw [Json.toDatum]
  exact .number value 0

/-- The names of a table are keys as they are. -/
theorem distinctKeys_table (table : NameTable String) :
    (Json.object ((table.entries.map fun (name, value) => (name, Json.text value.toList)).map
      fun (key, value) => (key.toList, value))).toDatum.DistinctKeys := by
  apply distinctKeys_object
  · rw [List.map_map]
    exact table.distinct
  · intro member isMember
    rcases List.mem_map.mp isMember with ⟨entry, -, rfl⟩
    exact distinctKeys_text entry.2.toList

theorem distinctKeys_ofInput (input : Input) : (ofInput input).toDatum.DistinctKeys := by
  apply distinctKeys_object
  · simp
  · simp only [List.forall_mem_cons]
    exact ⟨distinctKeys_text _, distinctKeys_text _, distinctKeys_table _, List.forall_mem_nil _⟩

theorem distinctKeys_ofStructure (found : Structure) :
    (ofStructure found).toDatum.DistinctKeys := by
  apply distinctKeys_object
  · simp
  · simp only [List.forall_mem_cons]
    refine ⟨distinctKeys_text _, ?_, List.forall_mem_nil _⟩
    exact distinctKeys_list _ fun input _ => distinctKeys_ofInput input

theorem distinctKeys_ofSignature (signature : Signature) :
    (ofSignature signature).toDatum.DistinctKeys := by
  apply distinctKeys_object
  · simp
  · simp only [List.forall_mem_cons]
    refine ⟨distinctKeys_text _, distinctKeys_table _, ?_, ?_, List.forall_mem_nil _⟩
    · exact distinctKeys_list _ fun input _ => distinctKeys_ofInput input
    · cases signature.returnType with
      | none => exact .null
      | some type => exact distinctKeys_text _

theorem distinctKeys_ofBinding (binding : Binding) : (ofBinding binding).toDatum.DistinctKeys := by
  apply distinctKeys_object
  · simp
  · simp only [List.forall_mem_cons]
    exact ⟨distinctKeys_number _, distinctKeys_number _, distinctKeys_text _, distinctKeys_text _,
      distinctKeys_text _, List.forall_mem_nil _⟩

theorem distinctKeys_ofEntryPoints (entryPoints : EntryPoints) :
    (ofEntryPoints entryPoints).toDatum.DistinctKeys := by
  apply distinctKeys_object
  · rw [List.map_map]
    show (Stage.all.map Stage.name).Nodup
    decide
  · intro member isMember
    rcases List.mem_map.mp isMember with ⟨stage, -, rfl⟩
    exact distinctKeys_list _ fun signature _ => distinctKeys_text _

theorem distinctKeys_ofModel (model : Model) (sourceName : String) :
    (ofModel model sourceName).toDatum.DistinctKeys := by
  apply distinctKeys_object
  · simp
  · simp only [List.forall_mem_cons]
    refine ⟨distinctKeys_number _, distinctKeys_text _, ?_, ?_, ?_, ?_, List.forall_mem_nil _⟩
    · exact distinctKeys_list _ fun found _ => distinctKeys_ofStructure found
    · exact distinctKeys_list _ fun signature _ => distinctKeys_ofSignature signature
    · exact distinctKeys_ofEntryPoints model.entryPoints
    · exact distinctKeys_list _ fun binding _ => distinctKeys_ofBinding binding

/-! ## Numbers -/

theorem fits_list {α : Type} {report : α → Json} {items : List α} :
    (Json.list (items.map report)).fits = true ↔ ∀ item ∈ items, (report item).fits = true := by
  show Json.fitsAll (items.map report) = true ↔ _
  induction items with
  | nil => exact ⟨fun _ => List.forall_mem_nil _, fun _ => rfl⟩
  | cons item items induction =>
      show ((report item).fits && Json.fitsAll (items.map report)) = true ↔ _
      rw [Bool.and_eq_true, induction, List.forall_mem_cons]

theorem fits_object {members : List (String × Json)} :
    (Json.object (members.map fun (key, value) => (key.toList, value))).fits = true ↔
      ∀ member ∈ members, member.2.fits = true := by
  show Json.fitsMembers (members.map fun (key, value) => (key.toList, value)) = true ↔ _
  induction members with
  | nil => exact ⟨fun _ => List.forall_mem_nil _, fun _ => rfl⟩
  | cons member members induction =>
      show (member.2.fits &&
        Json.fitsMembers (members.map fun (key, value) => (key.toList, value))) = true ↔ _
      rw [Bool.and_eq_true, induction, List.forall_mem_cons]

theorem fits_text (value : List Char) : (Json.text value).fits = true := rfl

theorem fits_number {value : Int} :
    (Json.number value).fits = true ↔ value.natAbs < 10 ^ Text.Numeral.digitLimit := by
  show decide (value.natAbs < 10 ^ Text.Numeral.digitLimit) = true ↔ _
  exact decide_eq_true_iff

theorem fits_table (table : NameTable String) :
    (Json.object ((table.entries.map fun (name, value) => (name, Json.text value.toList)).map
      fun (key, value) => (key.toList, value))).fits = true := by
  rw [fits_object, List.forall_mem_map]
  exact fun entry _ => fits_text _

theorem fits_ofInput (input : Input) : (ofInput input).fits = true := by
  apply fits_object.mpr
  simp only [List.forall_mem_cons]
  exact ⟨fits_text _, fits_text _, fits_table _, List.forall_mem_nil _⟩

theorem fits_ofStructure (found : Structure) : (ofStructure found).fits = true := by
  apply fits_object.mpr
  simp only [List.forall_mem_cons]
  exact ⟨fits_text _, fits_list.mpr fun input _ => fits_ofInput input, List.forall_mem_nil _⟩

theorem fits_ofSignature (signature : Signature) : (ofSignature signature).fits = true := by
  apply fits_object.mpr
  simp only [List.forall_mem_cons]
  refine ⟨fits_text _, fits_table _, fits_list.mpr fun input _ => fits_ofInput input, ?_,
    List.forall_mem_nil _⟩
  cases signature.returnType with
  | none => rfl
  | some type => exact fits_text _

theorem fits_ofEntryPoints (entryPoints : EntryPoints) :
    (ofEntryPoints entryPoints).fits = true := by
  apply fits_object.mpr
  rw [List.forall_mem_map]
  exact fun stage _ => fits_list.mpr fun signature _ => fits_text _

/-- A number has no more decimal digits than are written. -/
def IsShort (value : Int) : Prop := value.natAbs < 10 ^ Text.Numeral.digitLimit

instance (value : Int) : Decidable (IsShort value) :=
  inferInstanceAs (Decidable (_ < _))

theorem fits_ofBinding {binding : Binding} :
    (ofBinding binding).fits = true ↔ IsShort binding.group ∧ IsShort binding.binding := by
  refine fits_object.trans ?_
  simp only [List.forall_mem_cons]
  constructor
  · rintro ⟨group, slot, -⟩
    exact ⟨fits_number.mp group, fits_number.mp slot⟩
  · rintro ⟨group, slot⟩
    exact ⟨fits_number.mpr group, fits_number.mpr slot, fits_text _, fits_text _, fits_text _,
      List.forall_mem_nil _⟩

/-- Only bindings have numbers. -/
theorem fits_ofModel {model : Model} {sourceName : String} :
    (ofModel model sourceName).fits = true ↔
      ∀ binding ∈ model.bindings, IsShort binding.group ∧ IsShort binding.binding := by
  refine fits_object.trans ?_
  simp only [List.forall_mem_cons]
  constructor
  · rintro ⟨-, -, -, -, -, bindings, -⟩
    exact fun binding isBinding => fits_ofBinding.mp (fits_list.mp bindings binding isBinding)
  · intro short
    have version : (Json.number 1).fits = true := by decide +kernel
    refine ⟨version, fits_text _, ?_, ?_, fits_ofEntryPoints _, ?_, List.forall_mem_nil _⟩
    · exact fits_list.mpr fun found _ => fits_ofStructure found
    · exact fits_list.mpr fun signature _ => fits_ofSignature signature
    · exact fits_list.mpr fun binding isBinding => fits_ofBinding.mpr (short binding isBinding)

/-! ## The text -/

theorem render_eq_ok {report : Json} {text : String} :
    render report = .ok text ↔
      report.fits = true ∧ text.toList = report.render 0 ++ ['\n'] := by
  rw [render]
  split
  · rename_i fits
    rw [Except.ok.injEq, and_iff_right fits, ← String.toList_inj, String.toList_ofList]
    exact eq_comm
  · rename_i notFits
    simp [notFits]

/-- A report is written if and only if no number of a binding is too long. The text then is one of
ASCII characters with one line end at its end. It stands for the report that was made of the model,
member by member in the same order, and no key is there twice. -/
theorem report_decodes (model : Model) (sourceName : String) :
    ((∃ text, model.report sourceName = .ok text) ↔
      ∀ binding ∈ model.bindings, IsShort binding.group ∧ IsShort binding.binding) ∧
    ∀ text, model.report sourceName = .ok text →
      (∀ char ∈ text.toList, Json.IsAscii char) ∧
      (∃ body, text.toList = body ++ ['\n'] ∧ body.getLast? ≠ some '\n') ∧
      Json.decode text.toList = some (ofModel model sourceName).toDatum ∧
      (ofModel model sourceName).toDatum.DistinctKeys := by
  constructor
  · rw [← fits_ofModel]
    constructor
    · rintro ⟨text, isText⟩
      exact (render_eq_ok.mp isText).1
    · intro fits
      exact ⟨_, render_eq_ok.mpr ⟨fits, String.toList_ofList⟩⟩
  · intro text isText
    rw [(render_eq_ok.mp isText).2]
    refine ⟨?_, ⟨_, rfl, ?_⟩, ?_, ?_⟩
    · rw [List.forall_mem_append]
      exact ⟨Json.isAscii_render _ 0, Json.isAscii_of_all rfl⟩
    · exact Json.getLast?_render 0 _
    · exact Json.decode_render _
    · exact distinctKeys_ofModel model sourceName

/-- A module that is nothing but a sampler. -/
def samplerModel (group : Int) : Model :=
  ⟨.empty, .empty, .empty, [⟨group, 0, "t", "sampler", "sampler"⟩]⟩

theorem report_decodes_sampler :
    ∃ text, (samplerModel 255).report "a.wgsl" = .ok text ∧
      Json.decode text.toList = some (ofModel (samplerModel 255) "a.wgsl").toDatum := by
  have short : IsShort 255 ∧ IsShort 0 := by decide +kernel
  have contract := report_decodes (samplerModel 255) "a.wgsl"
  rcases contract.1.mpr (List.forall_mem_singleton.mpr short) with ⟨text, isText⟩
  exact ⟨text, isText, (contract.2 text isText).2.2.1⟩

/-- A group with one digit more than are written. -/
theorem report_longGroup :
    ¬ ∃ text, (samplerModel (10 ^ Text.Numeral.digitLimit)).report "a.wgsl" = .ok text := by
  rintro ⟨text, isText⟩
  have short := fits_ofModel.mp (render_eq_ok.mp isText).1 _ List.mem_cons_self
  have isShort : IsShort (10 ^ Text.Numeral.digitLimit) := short.1
  rw [IsShort, Int.natAbs_pow] at isShort
  generalize Text.Numeral.digitLimit = limit at isShort
  exact lt_irrefl _ isShort

end ShaderReflection.Reflection.Report
