import ShaderReflection.Proofs.Wgsl.Trivia

/-!
# Filler

White space and closed comments in a row. Unlike a row of trivia, filler does not have to be judged
together with what stands behind it: it can be put in front of any trivia (`Skipped.after_filler`),
and a row of trivia, whose last comment may still be open, becomes filler with a line feed behind it
(`filler_of_skipped`).
-/

namespace ShaderReflection.Wgsl

open Lexeme Texts Computability

/-- White space, comments that a line feed ends, and comments between marks. -/
inductive Filler : List Char → Prop
  | nil : Filler []
  | space {char : Char} {rest : List Char} (isSpaced : isSpace char = true)
      (further : Filler rest) : Filler (char :: rest)
  | lineComment {text rest : List Char} (isLine : '\n' ∉ text) (further : Filler rest) :
      Filler ('/' :: '/' :: (text ++ '\n' :: rest))
  | blockComment {text rest : List Char} (isClosed : text ∈ Trivia.blockComment.texts)
      (further : Filler rest) : Filler (text ++ rest)

variable {row rest filler : List Char} {char : Char}

theorem mem_lineComment {text : List Char} :
    text ∈ Trivia.lineComment.texts ↔ ∃ inner, '\n' ∉ inner ∧ text = '/' :: '/' :: inner := by
  constructor
  · rintro ⟨_, ⟨_, rfl, _, rfl, rfl⟩, inner, isInner, rfl⟩
    refine ⟨inner, ?_, rfl⟩
    rcases Language.mem_kstar.mp isInner with ⟨pieces, rfl, arePieces⟩
    intro isEnd
    rcases List.mem_flatten.mp isEnd with ⟨piece, isPiece, inPiece⟩
    rcases arePieces piece isPiece with ⟨other, isOther, rfl⟩
    rw [List.mem_singleton.mp inPiece] at isEnd
    simp [← List.mem_singleton.mp inPiece] at isOther
  · rintro ⟨inner, isLine, rfl⟩
    have whole : inner.takeWhile (· != '\n') = inner := by
      rw [List.takeWhile_eq_self_iff]
      intro other isOther
      simpa using fun isEnd : other = '\n' => isLine (isEnd ▸ isOther)
    refine ⟨['/', '/'], ⟨['/'], rfl, ['/'], rfl, rfl⟩, inner, ?_, rfl⟩
    rw [← whole]
    exact takeWhile_mem _ _

/-! ## Trivia behind filler -/

/-- White space in front of a row of trivia joins the white space that the row begins with. -/
theorem Skipped.cons_space (isSpaced : isSpace char = true) (skipped : Skipped row rest)
    (stops : Stops isSpace rest) : Skipped (char :: row) rest := by
  have alone : [char] ∈ Trivia.space.texts := mem_several_one.mpr (by simpa using isSpaced)
  have slash : isSpace '/' = false := by decide
  cases skipped with
  | nil => exact .cons .space alone stops .nil
  | @cons piece row _ kind isText ends further =>
      have again := Skipped.cons kind isText ends further
      cases kind with
      | space =>
          rcases mem_several_one.mp isText with ⟨-, areSpaces⟩
          exact .cons .space (mem_several_one.mpr ⟨List.cons_ne_nil _ _,
            List.forall_mem_cons.mpr ⟨isSpaced, areSpaces⟩⟩) ends further
      | lineComment =>
          refine .cons .space alone ?_ again
          rcases mem_lineComment.mp isText with ⟨inner, -, rfl⟩
          exact stops_cons slash
      | blockComment =>
          refine .cons .space alone ?_ again
          rcases isText with ⟨inner, rfl, -⟩
          exact stops_cons slash

theorem Skipped.after_filler (isFiller : Filler filler) (skipped : Skipped row rest)
    (stops : Stops isSpace rest) : Skipped (filler ++ row) rest := by
  induction isFiller with
  | nil => exact skipped
  | space isSpaced _ induction => exact induction.cons_space isSpaced stops
  | @lineComment text behind isLine _ induction =>
      have next : Skipped ('\n' :: (behind ++ row)) rest := induction.cons_space (by decide) stops
      have whole : '/' :: '/' :: (text ++ '\n' :: behind) ++ row =
          ('/' :: '/' :: text) ++ '\n' :: (behind ++ row) := by
        simp
      rw [whole]
      exact .cons .lineComment (mem_lineComment.mpr ⟨text, isLine, rfl⟩) (stops_cons (by decide))
        next
  | blockComment isClosed _ induction =>
      rw [List.append_assoc]
      exact .cons .blockComment isClosed trivial induction

/-! ## Filler from trivia -/

theorem filler_append_of_space {spaces : List Char} (areSpaces : ∀ char ∈ spaces, isSpace char)
    (isFiller : Filler rest) : Filler (spaces ++ rest) := by
  induction spaces with
  | nil => exact isFiller
  | cons char spaces induction =>
      rcases List.forall_mem_cons.mp areSpaces with ⟨isSpaced, others⟩
      exact .space isSpaced (induction others)

theorem Filler.tail (isFiller : Filler (char :: rest)) (isSpaced : isSpace char = true) :
    Filler rest := by
  have notSlash : char ≠ '/' := by
    rintro rfl
    revert isSpaced
    decide
  generalize isWhole : char :: rest = whole at isFiller
  cases isFiller with
  | nil => cases isWhole
  | space _ further =>
      cases isWhole
      exact further
  | lineComment =>
      cases isWhole
      exact absurd rfl notSlash
  | blockComment isClosed _ =>
      rcases isClosed with ⟨inner, rfl, -⟩
      cases isWhole
      exact absurd rfl notSlash

/-- A line feed closes the comment that trivia may end with. -/
theorem filler_of_skipped (skipped : Skipped row rest) : Filler (row ++ ['\n']) := by
  have feed : isSpace '\n' = true := by decide
  induction skipped with
  | nil => exact .space feed .nil
  | @cons piece row rest kind isText ends further later =>
      rw [List.append_assoc]
      cases kind with
      | space => exact filler_append_of_space (mem_several_one.mp isText).2 later
      | lineComment =>
          rcases mem_lineComment.mp isText with ⟨inner, isLine, rfl⟩
          -- The comment goes on to a line feed, which is in the row or is the one added to it.
          have next : ∃ behind, row ++ ['\n'] = '\n' :: behind := by
            cases row with
            | nil => exact ⟨[], rfl⟩
            | cons first row =>
                have isFeed : first = '\n' := by simpa [Trivia.Ends, Stops] using ends
                exact ⟨row ++ ['\n'], by rw [isFeed]; rfl⟩
          rcases next with ⟨behind, isNext⟩
          rw [isNext] at later ⊢
          exact .lineComment isLine (later.tail feed)
      | blockComment => exact .blockComment isText later

end ShaderReflection.Wgsl
