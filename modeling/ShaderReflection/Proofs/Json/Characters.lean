import Mathlib.Data.Nat.Basic
import ShaderReflection.Json

/-!
# The characters of a text

The text of a value has no characters outside of ASCII, and it does not end with a line end.
-/

namespace ShaderReflection.Json

open ShaderReflection.Text

/-! ## Characters -/

def IsAscii (char : Char) : Prop := char.toNat < 128

instance : DecidablePred IsAscii := fun char => inferInstanceAs (Decidable (char.toNat < 128))

/-- The characters of a list that is written out. -/
theorem isAscii_of_all {chars : List Char}
    (all : (chars.all fun char => decide (IsAscii char)) = true) :
    ∀ char ∈ chars, IsAscii char := by
  intro char isChar
  exact of_decide_eq_true (List.all_eq_true.mp all char isChar)

theorem isAscii_isDigit {char : Char} (isDigit : char.isDigit = true) : IsAscii char := by
  exact Nat.lt_of_le_of_lt (Char.isDigit_iff_toNat.mp isDigit).2 (by decide)

theorem isAscii_hexDigits (width number : Nat) : ∀ char ∈ hexDigits width number, IsAscii char := by
  have digits : ∀ digit < 16, IsAscii (Nat.digitChar digit) := by decide
  induction width generalizing number with
  | zero => exact List.forall_mem_nil _
  | succ width induction =>
      rw [hexDigits, List.forall_mem_append, List.forall_mem_singleton]
      exact ⟨induction (number / 16), digits (number % 16) (Nat.mod_lt _ (by omega))⟩

theorem isAscii_escapeUnit (unit : Nat) : ∀ char ∈ escapeUnit unit, IsAscii char := by
  simp only [escapeUnit, List.forall_mem_cons]
  exact ⟨by decide, by decide, isAscii_hexDigits 4 unit⟩

theorem isAscii_escape (char : Char) : ∀ written ∈ escape char, IsAscii written := by
  rw [escape]
  iterate 7
    split
    · exact isAscii_of_all rfl
  split
  · rename_i printable
    rw [List.forall_mem_singleton, IsAscii]
    omega
  split
  · exact isAscii_escapeUnit _
  · rw [List.forall_mem_append]
    exact ⟨isAscii_escapeUnit _, isAscii_escapeUnit _⟩

theorem isAscii_quote (value : List Char) : ∀ char ∈ quote value, IsAscii char := by
  intro char isChar
  simp only [quote, List.cons_append, List.mem_cons, List.mem_append, List.mem_flatMap,
    List.not_mem_nil, or_false] at isChar
  rcases isChar with rfl | ⟨source, -, isWritten⟩ | rfl
  · decide
  · exact isAscii_escape source char isWritten
  · decide

theorem isAscii_digits (value : Int) : ∀ char ∈ digits value, IsAscii char := by
  have decimal : ∀ number, ∀ char ∈ Nat.toDigits 10 number, IsAscii char := by
    intro number char isChar
    exact isAscii_isDigit (Nat.isDigit_of_mem_toDigits (by omega) (by omega) isChar)
  cases value with
  | ofNat number => exact decimal number
  | negSucc number =>
      rw [digits, List.forall_mem_cons]
      exact ⟨by decide, decimal (number + 1)⟩

theorem isAscii_newLine (level : Nat) : ∀ char ∈ newLine level, IsAscii char := by
  simp [newLine, IsAscii]

mutual

theorem isAscii_render (value : Json) (level : Nat) :
    ∀ char ∈ render level value, IsAscii char := by
  match value with
  | .null =>
      rw [render]
      exact isAscii_of_all rfl
  | .number value =>
      rw [render]
      exact isAscii_digits value
  | .text value =>
      rw [render]
      exact isAscii_quote value
  | .list [] =>
      rw [render]
      exact isAscii_of_all rfl
  | .list (item :: items) =>
      simp only [render, List.cons_append, List.forall_mem_cons, List.forall_mem_append]
      exact ⟨by decide, ⟨isAscii_newLine _, isAscii_render item _⟩,
        isAscii_renderItems items _⟩
  | .object [] =>
      rw [render]
      exact isAscii_of_all rfl
  | .object ((key, value) :: members) =>
      simp only [render, List.cons_append, List.forall_mem_cons, List.forall_mem_append]
      exact ⟨by decide, ⟨⟨⟨isAscii_newLine _, isAscii_quote key⟩, by decide, by decide,
        List.forall_mem_nil _⟩, isAscii_render value _⟩, isAscii_renderMembers members _⟩

theorem isAscii_renderItems (items : List Json) (level : Nat) :
    ∀ char ∈ renderItems level items, IsAscii char := by
  match items with
  | [] =>
      rw [renderItems, List.forall_mem_append]
      exact ⟨isAscii_newLine level, isAscii_of_all rfl⟩
  | item :: items =>
      simp only [renderItems, List.cons_append, List.forall_mem_cons, List.forall_mem_append]
      exact ⟨by decide, ⟨isAscii_newLine _, isAscii_render item _⟩,
        isAscii_renderItems items _⟩

theorem isAscii_renderMembers (members : List (List Char × Json)) (level : Nat) :
    ∀ char ∈ renderMembers level members, IsAscii char := by
  match members with
  | [] =>
      rw [renderMembers, List.forall_mem_append]
      exact ⟨isAscii_newLine level, isAscii_of_all rfl⟩
  | (key, value) :: members =>
      simp only [renderMembers, List.cons_append, List.forall_mem_cons, List.forall_mem_append]
      exact ⟨by decide, ⟨⟨⟨isAscii_newLine _, isAscii_quote key⟩, by decide, by decide,
        List.forall_mem_nil _⟩, isAscii_render value _⟩, isAscii_renderMembers members _⟩

end

/-! ## The end of a text -/

theorem getLast?_renderItems (level : Nat) (items : List Json) :
    (renderItems level items).getLast? = some ']' := by
  induction items with
  | nil => simp [renderItems]
  | cons item items induction =>
      rw [renderItems, List.getLast?_append, induction, Option.some_or]

theorem getLast?_renderMembers (level : Nat) (members : List (List Char × Json)) :
    (renderMembers level members).getLast? = some '\x7d' := by
  induction members with
  | nil => simp [renderMembers]
  | cons member members induction =>
      rw [renderMembers, List.getLast?_append, induction, Option.some_or]

theorem getLast?_digits (value : Int) : (digits value).getLast? ≠ some '\n' := by
  intro isLast
  have isMember := List.mem_of_getLast? isLast
  cases value with
  | ofNat number =>
      cases Nat.isDigit_of_mem_toDigits (by omega) (by omega) isMember
  | negSucc number =>
      rcases List.mem_cons.mp isMember with isMinus | isMember
      · exact absurd isMinus (by decide)
      · cases Nat.isDigit_of_mem_toDigits (by omega) (by omega) isMember

theorem getLast?_render (level : Nat) (value : Json) :
    (render level value).getLast? ≠ some '\n' := by
  cases value with
  | null =>
      rw [render]
      decide
  | number value =>
      rw [render]
      exact getLast?_digits value
  | text value =>
      rw [render, quote, List.getLast?_append, List.getLast?_singleton, Option.some_or]
      decide
  | list items =>
      cases items with
      | nil => simp [render]
      | cons item items =>
          rw [render, List.getLast?_append, getLast?_renderItems, Option.some_or]
          decide
  | object members =>
      cases members with
      | nil => simp [render]
      | cons member members =>
          rcases member with ⟨key, value⟩
          rw [render, List.getLast?_append, getLast?_renderMembers, Option.some_or]
          decide

end ShaderReflection.Json
