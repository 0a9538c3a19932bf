import ShaderReflection.Json
import ShaderReflection.Reflection.Reflect

/-!
# Reports

The reflection of a module as a value of the data format and as the text of a file.
-/

namespace ShaderReflection.Reflection

namespace Report

private def text (value : String) : Json := .text value.toList

private def object (members : List (String × Json)) : Json :=
  .object (members.map fun (key, value) => (key.toList, value))

private def texts (table : NameTable String) : Json :=
  object (table.entries.map fun (name, value) => (name, text value))

/-- A member or parameter. Of several attributes of one name the last value is written. -/
def ofInput (input : Input) : Json :=
  object [
    ("name", text input.name),
    ("type", text input.type),
    ("attributes", texts (NameTable.ofList (input.attributes.map fun entry =>
      (entry.name, entry.value))))]

def ofStructure (found : Structure) : Json :=
  object [("name", text found.name), ("members", .list (found.members.map ofInput))]

def ofSignature (signature : Signature) : Json :=
  object [
    ("name", text signature.name),
    ("attributes", texts signature.attributes),
    ("inputs", .list (signature.inputs.map ofInput)),
    ("return_type", (signature.returnType.map text).getD .null)]

def ofBinding (binding : Binding) : Json :=
  object [
    ("group", .number binding.group),
    ("binding", .number binding.binding),
    ("name", text binding.name),
    ("type", text binding.type),
    ("binding_type", text binding.bindingType)]

def ofEntryPoints (entryPoints : EntryPoints) : Json :=
  object (Stage.all.map fun stage =>
    (stage.name, .list ((entryPoints.ofStage stage).map fun signature => text signature.name)))

/-- The report on a module. `sourceName` is the name of the file that the module comes from. -/
def ofModel (model : Model) (sourceName : String) : Json :=
  object [
    ("version", .number 1),
    ("source", text sourceName),
    ("structures", .list (model.structures.values.map ofStructure)),
    ("functions", .list (model.functions.values.map ofSignature)),
    ("entry_points", ofEntryPoints model.entryPoints),
    ("bindings", .list (model.bindings.map ofBinding))]

/-- The text of a report, unless one of its numbers is too long to be written. -/
def render (report : Json) : Attempt String :=
  if report.fits then .ok (String.ofList (report.render 0 ++ ['\n']))
  else .error .unwritableInteger

end Report

def Model.report (model : Model) (sourceName : String) : Attempt String :=
  Report.render (Report.ofModel model sourceName)

end ShaderReflection.Reflection
