import ShaderReflection.Proofs.Wgsl.Lexing

/-!
# Trivia

What may stand between tokens: white space and comments. White space goes on as long as it can, and
a comment on a line goes on to the end of the line, so a piece of trivia is judged together with the
text behind it. Whatever is skipped is a piece of trivia in this sense
(`Lexeme.exists_trivia_of_read`).
-/

namespace ShaderReflection.Wgsl

open ShaderReflection.Grammar Texts Computability

inductive Trivia where
  | space | lineComment | blockComment
deriving DecidableEq, Repr

namespace Trivia

/-- How a piece of trivia is written. A comment between marks ends at the first closing mark. -/
def texts : Trivia → Texts
  | space => several (one Lexeme.isSpace)
  | lineComment => exactly '/' * exactly '/' * (one (· != '\n'))∗
  | blockComment =>
      {text | ∃ inner, text = '/' :: '*' :: inner ++ ['*', '/'] ∧ ¬ ['*', '/'] <:+: inner}

/-- Where a piece of trivia may end: not before something that belongs to it. -/
def Ends : Trivia → (rest : List Char) → Prop
  | space, rest => Lexeme.Stops Lexeme.isSpace rest
  | lineComment, rest => Lexeme.Stops (· != '\n') rest
  | blockComment, _ => True

end Trivia

/-- A row of pieces of trivia, with the text behind it. -/
inductive Skipped : (row rest : List Char) → Prop
  | nil {rest : List Char} : Skipped [] rest
  | cons {piece row rest : List Char} (kind : Trivia) (isText : piece ∈ kind.texts)
      (ends : kind.Ends (row ++ rest)) (further : Skipped row rest) : Skipped (piece ++ row) rest

namespace Lexeme

variable {text word : List Char}

/-- The longest piece of the front of a text in a class ends before something else. -/
theorem exists_rest_of_takeWhile (isMember : Char → Bool) (text : List Char) :
    ∃ rest, text = text.takeWhile isMember ++ rest ∧ Stops isMember rest := by
  induction text with
  | nil => exact ⟨[], rfl, by simp [Stops]⟩
  | cons char text induction =>
      rw [List.takeWhile_cons]
      split
      · rcases induction with ⟨rest, isText, stops⟩
        exact ⟨rest, congrArg (char :: ·) isText, stops⟩
      · rename_i notMember
        exact ⟨char :: text, rfl, stops_cons (by simpa using notMember)⟩

theorem space_sound (reads : space text = some word) :
    ∃ rest, text = word ++ rest ∧ word ∈ Trivia.space.texts ∧ Trivia.space.Ends rest := by
  rw [space] at reads
  split at reads
  · cases reads
  · rename_i isFull
    cases reads
    rcases exists_rest_of_takeWhile isSpace text with ⟨rest, isText, stops⟩
    exact ⟨rest, isText, mem_several_one.mpr ⟨isFull, fun _ => List.mem_takeWhile_imp⟩, stops⟩

theorem lineComment_sound (reads : lineComment text = some word) :
    ∃ rest, text = word ++ rest ∧ word ∈ Trivia.lineComment.texts ∧
      Trivia.lineComment.Ends rest := by
  rw [lineComment.eq_def] at reads
  split at reads
  · rename_i text
    cases reads
    rcases exists_rest_of_takeWhile (· != '\n') text with ⟨rest, isText, stops⟩
    refine ⟨rest, congrArg ('/' :: '/' :: ·) isText, ?_, stops⟩
    exact ⟨['/', '/'], ⟨['/'], rfl, ['/'], rfl, rfl⟩, _, takeWhile_mem _ _, rfl⟩
  · cases reads

/-- The rest of a comment between marks ends with the first closing mark. -/
theorem commentRest_sound (reads : commentRest text = some word) :
    ∃ inner rest, word = inner ++ ['*', '/'] ∧ text = word ++ rest ∧ ¬ ['*', '/'] <:+: inner := by
  fun_induction commentRest text generalizing word with
  | case1 => cases reads
  | case2 rest =>
      cases reads
      exact ⟨[], rest, rfl, rfl, by simp⟩
  | case3 char text notEnd induction =>
      rcases Option.map_eq_some_iff.mp reads with ⟨later, isLater, rfl⟩
      rcases induction isLater with ⟨inner, rest, rfl, rfl, noEnd⟩
      refine ⟨char :: inner, rest, rfl, rfl, ?_⟩
      intro isInfix
      rcases List.infix_cons_iff.mp isInfix with inFront | isLater
      · rcases List.cons_prefix_cons.mp inFront with ⟨rfl, next⟩
        rcases next with ⟨others, rfl⟩
        exact notEnd _ rfl rfl
      · exact noEnd isLater

theorem blockComment_sound (reads : blockComment text = some word) :
    ∃ rest, text = word ++ rest ∧ word ∈ Trivia.blockComment.texts := by
  rw [blockComment.eq_def] at reads
  split at reads
  · rcases Option.map_eq_some_iff.mp reads with ⟨later, isLater, rfl⟩
    rcases commentRest_sound isLater with ⟨inner, rest, rfl, rfl, noEnd⟩
    exact ⟨rest, rfl, inner, rfl, noEnd⟩
  · cases reads

/-- Wherever something is skipped, it is a piece of trivia. -/
theorem exists_trivia_of_read {accepted : Terminal → Bool}
    (reads : (lexicon.restrict accepted).read text = some ⟨none, word⟩) :
    ∃ kind rest, text = word ++ rest ∧ word ∈ Trivia.texts kind ∧ kind.Ends rest := by
  rcases Lexicon.read_eq_trivia reads with ⟨pattern, isPattern, isTrivia, isRead⟩
  have inPatterns := (List.mem_filter.mp isPattern).1
  simp only [lexicon, patterns, List.mem_cons, List.not_mem_nil, or_false] at inPatterns
  rcases inPatterns with rfl | rfl | rfl | rfl | rfl | rfl | rfl | rfl | rfl | rfl
  case inr.inr.inr.inr.inr.inl =>
    rcases blockComment_sound isRead with ⟨rest, isText, isWord⟩
    exact ⟨.blockComment, rest, isText, isWord, trivial⟩
  case inr.inr.inr.inr.inr.inr.inl => exact ⟨.lineComment, lineComment_sound isRead⟩
  case inr.inr.inr.inr.inr.inr.inr.inl => exact ⟨.space, space_sound isRead⟩
  all_goals cases isTrivia

end Lexeme

end ShaderReflection.Wgsl
