import ShaderReflection.Proofs.Json.Reader
import ShaderReflection.Text.Quoted

/-!
# Quoted text can be read back

Each character of a quoted text can be told from how it is written, whatever stands behind it, and a
quote that is not part of an escape ends the text. So a text is determined by any text that begins
with it in quotes, and so is what stands behind it (`encode_append_inj`).
-/

namespace ShaderReflection.Text.Quoted

/-! ## Reading a character -/

/-- How many digits stand behind a mark. -/
def digitsBehind? (mark : Char) : Option Nat := [('x', 2), ('u', 4), ('U', 8)].lookup mark

/-- What a backslash and a mark without digits stand for. -/
def marked (mark : Char) : Char :=
  ([('n', '\n'), ('r', '\r'), ('t', '\t')].lookup mark).getD mark

/-- The first character of a quoted text, and the text behind it. -/
def unescape : List Char → Option (Char × List Char)
  | [] => none
  | '\\' :: mark :: rest =>
      match digitsBehind? mark with
      | some width =>
          (Json.hexNumber? 0 (rest.take width)).map fun code =>
            (Char.ofNat code, rest.drop width)
      | none => some (marked mark, rest)
  | char :: rest => some (char, rest)

variable {quote : Char}

theorem unescape_code {mark : Char} {width : Nat} (isMark : digitsBehind? mark = some width)
    {char : Char} (isSmall : char.toNat < 16 ^ width) (rest : List Char) :
    unescape ('\\' :: mark :: hexDigits width char.toNat ++ rest) = some (char, rest) := by
  have front : (hexDigits width char.toNat ++ rest).take width = hexDigits width char.toNat :=
    List.take_left' (length_hexDigits width _)
  have back : (hexDigits width char.toNat ++ rest).drop width = rest :=
    List.drop_left' (length_hexDigits width _)
  simp only [List.cons_append, unescape, isMark, front, back, Json.hexNumber?_hexDigits,
    Nat.zero_mul, Nat.zero_add, Nat.mod_eq_of_lt isSmall, Option.map_some, Char.ofNat_toNat]

theorem unescape_plain {char : Char} (noEscape : char ≠ '\\') (rest : List Char) :
    unescape (char :: rest) = some (char, rest) := by
  rw [unescape]
  exact fun _ _ isEscape _ => noEscape isEscape

theorem toNat_lt_pow (char : Char) : char.toNat < 16 ^ 8 := char.val.toNat_lt

/-- A character is read back from how it is written. -/
theorem unescape_escape (isQuote : quote = '\'' ∨ quote = '"') (char : Char) (rest : List Char) :
    unescape (escape quote char ++ rest) = some (char, rest) := by
  rw [escape]
  split
  · rename_i isMark
    rcases isMark with rfl | rfl
    · rcases isQuote with rfl | rfl <;> rfl
    · rfl
  rename_i notMark
  split
  · rename_i isFeed
    cases isFeed
    rfl
  split
  · rename_i isReturn
    cases isReturn
    rfl
  split
  · rename_i isTab
    cases isTab
    rfl
  split
  · exact unescape_plain (fun isEscape => notMark (.inr isEscape)) rest
  split
  · rename_i isSmall
    exact unescape_code rfl isSmall rest
  split
  · rename_i isSmall
    exact unescape_code rfl isSmall rest
  · exact unescape_code rfl (toNat_lt_pow char) rest

/-! ## Reading a text -/

theorem escape_append_inj (isQuote : quote = '\'' ∨ quote = '"') {left right : Char}
    {leftRest rightRest : List Char}
    (same : escape quote left ++ leftRest = escape quote right ++ rightRest) :
    left = right ∧ leftRest = rightRest := by
  have leftRead := unescape_escape isQuote left leftRest
  rw [same, unescape_escape isQuote right rightRest] at leftRead
  cases leftRead
  exact ⟨rfl, rfl⟩

/-- No character is written with a quote in front. -/
theorem head?_escape (notEscape : quote ≠ '\\') (char : Char) :
    ∃ first rest, escape quote char = first :: rest ∧ first ≠ quote := by
  rw [escape]
  split
  · exact ⟨_, _, rfl, notEscape.symm⟩
  rename_i notMark
  split
  · exact ⟨_, _, rfl, notEscape.symm⟩
  split
  · exact ⟨_, _, rfl, notEscape.symm⟩
  split
  · exact ⟨_, _, rfl, notEscape.symm⟩
  split
  · exact ⟨_, _, rfl, fun isQuote => notMark (.inl isQuote)⟩
  split
  · exact ⟨_, _, rfl, notEscape.symm⟩
  split
  · exact ⟨_, _, rfl, notEscape.symm⟩
  · exact ⟨_, _, rfl, notEscape.symm⟩

/-- The closing quote is the first one that is not part of an escape. -/
theorem escapes_append_inj (isQuote : quote = '\'' ∨ quote = '"') {left right : List Char}
    {leftRest rightRest : List Char}
    (same : left.flatMap (escape quote) ++ quote :: leftRest =
      right.flatMap (escape quote) ++ quote :: rightRest) :
    left = right ∧ leftRest = rightRest := by
  have notEscape : quote ≠ '\\' := by rcases isQuote with rfl | rfl <;> decide
  induction left generalizing right with
  | nil =>
      cases right with
      | nil => exact ⟨rfl, (List.cons.inj same).2⟩
      | cons char right =>
          rcases head?_escape notEscape char with ⟨first, rest, isEscape, notQuote⟩
          rw [List.flatMap_cons, isEscape] at same
          exact absurd (List.cons.inj same).1.symm notQuote
  | cons char left induction =>
      cases right with
      | nil =>
          rcases head?_escape notEscape char with ⟨first, rest, isEscape, notQuote⟩
          rw [List.flatMap_cons, isEscape] at same
          exact absurd (List.cons.inj same).1 notQuote
      | cons other right =>
          rw [List.flatMap_cons, List.flatMap_cons, List.append_assoc, List.append_assoc] at same
          rcases escape_append_inj isQuote same with ⟨rfl, sameRest⟩
          rcases induction sameRest with ⟨rfl, sameBehind⟩
          exact ⟨rfl, sameBehind⟩

theorem quoteFor_eq (text : List Char) : quoteFor text = '\'' ∨ quoteFor text = '"' := by
  rw [quoteFor]
  split
  · exact .inr rfl
  · exact .inl rfl

/-- A text begins with at most one text in quotes. -/
theorem encode_append_inj {left right leftRest rightRest : List Char}
    (same : encode left ++ leftRest = encode right ++ rightRest) :
    left = right ∧ leftRest = rightRest := by
  simp only [encode, List.cons_append, List.append_assoc, List.nil_append, List.cons.injEq] at same
  rcases same with ⟨sameQuote, sameRest⟩
  rw [← sameQuote] at sameRest
  exact escapes_append_inj (quoteFor_eq left) sameRest

end ShaderReflection.Text.Quoted
