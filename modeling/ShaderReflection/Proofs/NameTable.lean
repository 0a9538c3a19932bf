import Mathlib.Data.List.Forall2
import Mathlib.Data.List.Induction
import Mathlib.Data.List.Nodup
import ShaderReflection.NameTable

/-!
# What a table holds

A table into which entries have been put one after the other, told by the list of these entries:
names stand in the order in which they came first, and have the value that they were given last.
-/

namespace ShaderReflection.NameTable

variable {α : Type} {table : NameTable α} {entries : List (String × α)}

/-- A table has the names of a list of entries in the order in which they occur first, each with
the value that it has last. -/
structure Tabulates (table : NameTable α) (entries : List (String × α)) : Prop where
  names : table.names = (entries.map Prod.fst).eraseDups
  values : ∀ name, table.get? name =
    (entries.filter fun entry => entry.1 == name).getLast?.map Prod.snd

theorem tabulates_empty : (empty : NameTable α).Tabulates [] where
  names := rfl
  values := fun _ => rfl

theorem Tabulates.put (tabulates : table.Tabulates entries) (name : String) (value : α) :
    (table.put name value).Tabulates (entries ++ [(name, value)]) where
  names := by
    rw [names_put, tabulates.names, List.map_append, List.eraseDups_append, List.map_singleton]
    simp only [List.mem_eraseDups]
    by_cases isOld : name ∈ entries.map Prod.fst
    · have nothing : [name].removeAll (entries.map Prod.fst) = [] := by
        simp [List.removeAll, isOld]
      rw [if_pos isOld, nothing, List.eraseDups_nil, List.append_nil]
    · have new : [name].removeAll (entries.map Prod.fst) = [name] := by
        simp [List.removeAll, isOld]
      rw [if_neg isOld, new, List.eraseDups_cons, List.filter_nil, List.eraseDups_nil]
  values := by
    intro other
    rw [get?_put, tabulates.values, List.filter_append, List.getLast?_append]
    by_cases isSame : other = name
    · simp [isSame]
    · have different : ¬ name = other := fun reverse => isSame reverse.symm
      simp [isSame, different]

/-- A name is in the table if some entry has it. -/
theorem Tabulates.isSome_get? (tabulates : table.Tabulates entries) (name : String) :
    (table.get? name).isSome ↔ ∃ entry ∈ entries, entry.1 = name := by
  rw [tabulates.values, Option.isSome_map, List.getLast?_isSome, ne_eq, List.filter_eq_nil_iff]
  simp

/-- What the table has under a name is one of its entries. -/
theorem Tabulates.mem_of_get? (tabulates : table.Tabulates entries) {name : String} {value : α}
    (found : table.get? name = some value) : (name, value) ∈ entries := by
  rw [tabulates.values] at found
  rcases Option.map_eq_some_iff.mp found with ⟨entry, isLast, rfl⟩
  rcases List.mem_filter.mp (List.mem_of_getLast? isLast) with ⟨isEntry, isName⟩
  rw [← beq_iff_eq.mp isName]
  exact isEntry

/-! ## Related tables -/

section Related

variable {β : Type} {related : α → β → Prop}

/-- Tables with the same names in the same order and with related values under each name. -/
structure Agree (related : α → β → Prop) (table : NameTable α) (other : NameTable β) : Prop where
  names : table.names = other.names
  values : ∀ name, Option.Rel related (table.get? name) (other.get? name)

theorem rel_getLast? {values : List α} {others : List β}
    (rows : List.Forall₂ related values others) :
    Option.Rel related values.getLast? others.getLast? := by
  have backwards := List.rel_reverse rows
  rw [List.getLast?_eq_head?_reverse, List.getLast?_eq_head?_reverse]
  generalize values.reverse = values, others.reverse = others at backwards ⊢
  cases backwards with
  | nil => exact .none
  | cons last _ => exact .some last

/-- Related entries under the same names make related tables. -/
theorem Tabulates.agree {other : NameTable β} {others : List (String × β)}
    (tabulates : table.Tabulates entries) (otherTabulates : other.Tabulates others)
    (rows : List.Forall₂ (fun entry found => entry.1 = found.1 ∧ related entry.2 found.2)
      entries others) : Agree related table other where
  names := by
    have sameNames : List.Forall₂ Eq (entries.map Prod.fst) (others.map Prod.fst) :=
      List.rel_map (fun _ _ both => both.1) rows
    rw [List.forall₂_eq_eq_eq] at sameNames
    rw [tabulates.names, otherTabulates.names, sameNames]
  values := by
    intro name
    have chosen : List.Forall₂ (fun entry found => entry.1 = found.1 ∧ related entry.2 found.2)
        (entries.filter fun entry => entry.1 == name)
        (others.filter fun found => found.1 == name) := by
      refine List.rel_filter ?_ rows
      intro entry found both
      simp only [both.1]
    have last := rel_getLast? chosen
    rw [tabulates.values, otherTabulates.values]
    generalize (entries.filter fun entry => entry.1 == name).getLast? = entry,
      (others.filter fun found => found.1 == name).getLast? = found at last ⊢
    cases last with
    | none => exact .none
    | some both => exact .some both.2

end Related

/-! ## Tables from tables -/

theorem mem_names_put {name other : String} {value : α} :
    name ∈ (table.put other value).names ↔ name ∈ table.names ∨ name = other := by
  rw [names_put]
  split
  · rename_i isOld
    exact ⟨.inl, fun either => either.elim id fun same => same ▸ isOld⟩
  · simp

theorem mem_names_putAll {name : String} :
    name ∈ (table.putAll entries).names ↔ name ∈ table.names ∨ name ∈ entries.map Prod.fst := by
  induction entries generalizing table with
  | nil => simp [putAll]
  | cons entry entries induction =>
      have later : table.putAll (entry :: entries) = (table.put entry.1 entry.2).putAll entries :=
        rfl
      rw [later, induction, mem_names_put, List.map_cons, List.mem_cons, or_assoc]

/-- What a table has after entries have been put into it was there before or is one of them. -/
theorem get?_putAll {name : String} {value : α}
    (found : (table.putAll entries).get? name = some value) :
    table.get? name = some value ∨ (name, value) ∈ entries := by
  induction entries generalizing table with
  | nil => exact .inl found
  | cons entry entries induction =>
      have later : ((table.put entry.1 entry.2).putAll entries).get? name = some value := found
      rcases induction later with isOld | isLater
      · rw [get?_put] at isOld
        split at isOld
        · rename_i isName
          cases isOld
          exact .inr (isName ▸ List.mem_cons_self)
        · exact .inl isOld
      · exact .inr (List.mem_cons_of_mem _ isLater)

theorem mem_names_iff {name : String} : name ∈ table.names ↔ (table.get? name).isSome := by
  rw [get?, Option.isSome_map, List.find?_isSome, names, List.mem_map]
  simp

/-- A name has the value that it stands with. -/
theorem get?_of_mem_entries {entry : String × α} (isEntry : entry ∈ table.entries) :
    table.get? entry.1 = some entry.2 := by
  have isName : entry.1 ∈ table.names := List.mem_map_of_mem isEntry
  rcases Option.isSome_iff_exists.mp (mem_names_iff.mp isName) with ⟨value, found⟩
  rcases Option.map_eq_some_iff.mp found with ⟨other, isOther, isValue⟩
  have sameName := List.find?_some isOther
  have same := List.inj_on_of_nodup_map table.distinct (List.mem_of_find?_eq_some isOther) isEntry
    (beq_iff_eq.mp sameName)
  rw [found, ← isValue, same]

theorem entries_ext {left right : List (String × α)} (distinct : (left.map Prod.fst).Nodup)
    (sameNames : left.map Prod.fst = right.map Prod.fst)
    (sameValues : ∀ name, (left.find? fun entry => entry.1 == name).map Prod.snd =
      (right.find? fun entry => entry.1 == name).map Prod.snd) : left = right := by
  induction left generalizing right with
  | nil => exact (List.map_eq_nil_iff.mp sameNames.symm).symm
  | cons entry left induction =>
      rcases List.map_eq_cons_iff.mp sameNames.symm with ⟨other, right, rfl, isName, isRest⟩
      rcases List.nodup_cons.mp distinct with ⟨isNew, distinctRest⟩
      have sameFirst := sameValues entry.1
      simp only [List.find?_cons, isName, beq_self_eq_true, Option.map_some,
        Option.some.injEq] at sameFirst
      have sameEntry : entry = other := Prod.ext isName.symm sameFirst
      rw [sameEntry, induction distinctRest isRest.symm]
      intro name
      by_cases isFirst : entry.1 = name
      · -- Behind its entry a name does not occur again.
        have absent : ∀ list : List (String × α), list.map Prod.fst = left.map Prod.fst →
            (list.find? fun entry => entry.1 == name) = none := by
          intro list isList
          rw [List.find?_eq_none]
          intro found isFound sameName
          apply isNew
          rw [← isList, isFirst, ← beq_iff_eq.mp sameName]
          exact List.mem_map_of_mem isFound
        rw [absent left rfl, absent right isRest]
      · have later := sameValues name
        simpa [List.find?_cons, isFirst, isName] using later

/-- A table is told by its names in order and by what it has under them. -/
theorem ext_get? {left right : NameTable α} (sameNames : left.names = right.names)
    (sameValues : ∀ name, left.get? name = right.get? name) : left = right := by
  rcases left with ⟨leftEntries, distinct⟩
  rcases right with ⟨rightEntries, _⟩
  have same : leftEntries = rightEntries := entries_ext distinct sameNames sameValues
  subst same
  rfl

theorem put_put_self (table : NameTable α) (name : String) (old value : α) :
    (table.put name old).put name value = table.put name value := by
  apply ext_get?
  · rw [names_put, names_put, names_put]
    by_cases isOld : name ∈ table.names <;> simp [isOld]
  · intro other
    rw [get?_put, get?_put, get?_put]
    by_cases isSame : other = name <;> simp [isSame]

/-- The order in which two names get their values matters only if both are new. -/
theorem put_comm {name other : String} (isOld : name ∈ table.names) (different : other ≠ name)
    (value another : α) :
    (table.put other another).put name value = (table.put name value).put other another := by
  apply ext_get?
  · rw [names_put, names_put, names_put, names_put]
    by_cases otherIsOld : other ∈ table.names <;> simp [isOld, otherIsOld]
  · intro third
    rw [get?_put, get?_put, get?_put, get?_put]
    by_cases isName : third = name
    · simp [isName, different.symm]
    · simp [isName]

theorem putAll_put {name : String} (isOld : name ∈ table.names)
    (isAbsent : name ∉ entries.map Prod.fst) (value : α) :
    (table.putAll entries).put name value = (table.put name value).putAll entries := by
  induction entries generalizing table with
  | nil => rfl
  | cons entry entries induction =>
      rw [List.map_cons, List.mem_cons, not_or] at isAbsent
      have isStillOld : name ∈ (table.put entry.1 entry.2).names := mem_names_put.mpr (.inl isOld)
      have later := induction isStillOld isAbsent.2
      rw [put_comm isOld (Ne.symm isAbsent.1)] at later
      exact later

theorem putAll_entriesPut (distinct : (entries.map Prod.fst).Nodup) (name : String) (value : α) :
    table.putAll (Entries.put name value entries) = (table.putAll entries).put name value := by
  induction entries generalizing table with
  | nil => rfl
  | cons entry entries induction =>
      rcases entry with ⟨other, old⟩
      rcases List.nodup_cons.mp distinct with ⟨isNew, distinctRest⟩
      rw [Entries.put]
      split
      · rename_i isName
        subst isName
        have isOld : other ∈ (table.put other old).names := by
          rw [mem_names_iff, get?_put, if_pos rfl]
          rfl
        have later := putAll_put isOld isNew value
        rw [put_put_self] at later
        exact later.symm
      · exact induction distinctRest

/-- The entries of a table do as much as the list that the table was made from. -/
theorem putAll_ofList (table : NameTable α) (entries : List (String × α)) :
    table.putAll (ofList entries).entries = table.putAll entries := by
  induction entries using List.reverseRecOn with
  | nil => rfl
  | append_singleton entries entry induction =>
      have onto : ∀ table : NameTable α, table.putAll (entries ++ [entry]) =
          (table.putAll entries).put entry.1 entry.2 := by
        intro table
        rw [putAll, List.foldl_append]
        rfl
      rw [ofList, onto, ← ofList, put, putAll_entriesPut (ofList entries).distinct, induction, onto]

end ShaderReflection.NameTable
