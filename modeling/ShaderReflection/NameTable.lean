/-!
# Tables by name

A table from names to values in the order in which the names were first put in. A later value
replaces an earlier one under the same name and takes its place.
-/

namespace ShaderReflection

/-! ## Lists of entries -/

namespace Entries

variable {α : Type}

/-- Replace the value of a name, or add the name at the end. -/
def put (name : String) (value : α) : List (String × α) → List (String × α)
  | [] => [(name, value)]
  | (other, old) :: rest =>
      if other = name then (other, value) :: rest else (other, old) :: put name value rest

/-- Names stay where they are, and a new one goes to the end. -/
theorem names_put (name : String) (value : α) (entries : List (String × α)) :
    (put name value entries).map Prod.fst =
      if name ∈ entries.map Prod.fst then entries.map Prod.fst
      else entries.map Prod.fst ++ [name] := by
  induction entries with
  | nil => simp [put]
  | cons entry rest induction =>
      obtain ⟨other, old⟩ := entry
      by_cases equal : other = name
      · simp [put, equal]
      · have different : ¬ name = other := fun reverse => equal reverse.symm
        simp only [put, equal, if_false, List.map_cons, induction, List.mem_cons, different,
          false_or]
        split <;> simp

/-- No name occurs twice after a name has been put into a list in which none did. -/
theorem nodup_put (name : String) (value : α) (entries : List (String × α))
    (distinct : (entries.map Prod.fst).Nodup) :
    ((put name value entries).map Prod.fst).Nodup := by
  rw [names_put]
  split
  · exact distinct
  · rename_i absent
    refine List.nodup_append.mpr ⟨distinct, by simp, ?_⟩
    intro left leftMember right rightMember equal
    have same : right = name := by simpa using rightMember
    exact absent (same ▸ equal ▸ leftMember)

end Entries

/-! ## Tables -/

/-- A table from names to values, in order and without repeated names. -/
structure NameTable (α : Type) where
  entries : List (String × α)
  distinct : (entries.map Prod.fst).Nodup
deriving Repr

namespace NameTable

variable {α : Type}

def empty : NameTable α := ⟨[], List.nodup_nil⟩

/-- Give a name a value. A name that is already there keeps its place. -/
def put (table : NameTable α) (name : String) (value : α) : NameTable α :=
  ⟨Entries.put name value table.entries, Entries.nodup_put name value _ table.distinct⟩

def putAll (table : NameTable α) (entries : List (String × α)) : NameTable α :=
  entries.foldl (fun table entry => table.put entry.1 entry.2) table

/-- The table of a list of entries, in which the last value of a name counts. -/
def ofList (entries : List (String × α)) : NameTable α := empty.putAll entries

def get? (table : NameTable α) (name : String) : Option α :=
  (table.entries.find? fun entry => entry.1 == name).map Prod.snd

def names (table : NameTable α) : List String := table.entries.map Prod.fst

def values (table : NameTable α) : List α := table.entries.map Prod.snd

/-- Tables with the same values under the same names, whatever the order. -/
def same (equal : α → α → Bool) (left right : NameTable α) : Bool :=
  left.entries.length == right.entries.length &&
    left.entries.all fun entry =>
      match right.get? entry.1 with
      | some value => equal entry.2 value
      | none => false

/-! ## Laws -/

@[simp] theorem names_empty : (empty : NameTable α).names = [] := rfl

theorem names_put (table : NameTable α) (name : String) (value : α) :
    (table.put name value).names =
      if name ∈ table.names then table.names else table.names ++ [name] :=
  Entries.names_put name value table.entries

/-- The latest value counts, and other names keep theirs. -/
theorem get?_put (table : NameTable α) (name other : String) (value : α) :
    (table.put name value).get? other =
      if other = name then some value else table.get? other := by
  obtain ⟨entries, distinct⟩ := table
  simp only [put, get?]
  clear distinct
  induction entries with
  | nil =>
      by_cases equal : other = name
      · simp [Entries.put, equal]
      · have different : ¬ name = other := fun reverse => equal reverse.symm
        simp [Entries.put, equal, different]
  | cons entry rest induction =>
      obtain ⟨head, old⟩ := entry
      by_cases headIsName : head = name
      · subst headIsName
        by_cases equal : other = head
        · simp [Entries.put, equal]
        · have different : ¬ head = other := fun reverse => equal reverse.symm
          simp [Entries.put, equal, different]
      · by_cases equal : head = other
        · subst equal
          simp [Entries.put, headIsName]
        · simp [Entries.put, headIsName, equal, induction]

end NameTable

end ShaderReflection
