import ShaderReflection.Proofs.Tree.Rejections
import ShaderReflection.Proofs.Wgsl.Completing

/-!
# Texts are rejected as early as possible

Whatever has been read of a text when it is rejected is the front of a text that is accepted: behind
a line feed, the samples of some terminals complete it (`parse_rejects_early`).
-/

namespace ShaderReflection.Tree

open ShaderReflection.Grammar ShaderReflection.Text ShaderReflection.Wgsl Lexeme

/-! ## Printed samples -/

def sampleLeaves (letters : List Terminal) : List (Terminal × List Char) :=
  letters.map fun letter => (letter, letter.sample)

section Samples

variable {letters : List Terminal} {stack : Stack Terminal Nonterminal Token}
  {position : Position} {tree : Derivation Terminal Nonterminal Token}

theorem eq_sample_of_mem {leaf : Terminal × List Char} (isLeaf : leaf ∈ sampleLeaves letters) :
    leaf.1 ∈ letters ∧ leaf.2 = leaf.1.sample := by
  rcases List.mem_map.mp isLeaf with ⟨letter, isLetter, rfl⟩
  exact ⟨isLetter, rfl⟩

theorem map_fst_place (position : Position) (letters : List Terminal) :
    (place position (sampleLeaves letters)).map Prod.fst = letters := by
  have leaves := congrArg (List.map Prod.fst) (map_text_place position (sampleLeaves letters))
  rw [sampleLeaves, List.map_map, List.map_map] at leaves
  exact leaves.trans (List.map_id _)

theorem star_notMem_render {leaves : List (Terminal × List Char)}
    (noStar : ∀ leaf ∈ leaves, '*' ∉ leaf.2) : '*' ∉ render leaves := by
  induction leaves with
  | nil => exact List.not_mem_nil
  | cons leaf leaves induction =>
      rcases List.forall_mem_cons.mp noStar with ⟨notFirst, others⟩
      have notGap : '*' ∉ gap leaf.1 leaves := by
        cases leaves with
        | nil => exact List.not_mem_nil
        | cons =>
            rw [gap]
            split <;> simp
      simp [render, notFirst, notGap, induction others]

/-- No comment is closed in printed samples. -/
theorem noEnd_samples (letters : List Terminal) :
    ¬ ['*', '/'] <:+: render (sampleLeaves letters) := by
  intro closes
  refine star_notMem_render ?_ (closes.subset List.mem_cons_self)
  intro leaf isLeaf
  rw [(eq_sample_of_mem isLeaf).2]
  exact star_notMem_sample leaf.1

theorem written_samples : ∀ leaf ∈ sampleLeaves letters, leaf.2 ∈ leaf.1.texts := by
  intro leaf isLeaf
  rw [(eq_sample_of_mem isLeaf).2]
  exact sample_mem_texts leaf.1

theorem unreserved_samples : ∀ leaf ∈ sampleLeaves letters, leaf.1 = .identifier →
    ∀ spelling ∈ spellings, spelling.text ≠ leaf.2 := by
  intro leaf isLeaf isName
  rw [(eq_sample_of_mem isLeaf).2, isName]
  decide

/-- What holds of an element whatever stands before it holds along a row. -/
theorem isChain_of_forall {α : Type} {relation : α → α → Prop} {row : List α}
    (holds : ∀ right ∈ row, ∀ left, relation left right) (before : Option α) :
    (before.toList ++ row).IsChain relation := by
  induction row generalizing before with
  | nil => cases before <;> simp
  | cons first row induction =>
      rcases List.forall_mem_cons.mp holds with ⟨firstHolds, others⟩
      exact isChain_before.mpr ⟨fun last _ => firstHolds last, induction others (some first)⟩

theorem braced_samples (outside : ∀ letter ∈ letters, letter ≠ .bodyText)
    (behind : parser.Behind stack (some .bodyText))
    (built : parser.run stack (place position (sampleLeaves letters)) = .ok tree) :
    Braced (render (sampleLeaves letters)) := by
  refine braced_render behind written_samples ?_ built
  intro leaf isFirst
  exact outside leaf.1 (eq_sample_of_mem (List.mem_of_mem_head? isFirst)).1

/-- Printed samples are read as what they are samples of. -/
theorem scan_samples (outside : ∀ letter ∈ letters, letter ≠ .bodyText)
    {before : Option Terminal} (behind : parser.Behind stack before)
    (built : parser.run stack (place position (sampleLeaves letters)) = .ok tree) :
    language.Scan stack position (render (sampleLeaves letters))
      (place position (sampleLeaves letters)) := by
  have letterOf : (before.map fun letter => (letter, letter.sample)).map Prod.fst = before := by
    cases before <;> rfl
  refine scan_render (before.map fun letter => (letter, letter.sample)) (letterOf.symm ▸ behind)
    written_samples unreserved_samples ?apart ?clear built
  case apart =>
    refine isChain_of_forall ?_ none
    intro right isRight left both
    exact outside right.1 (eq_sample_of_mem isRight).1 both.2
  case clear =>
    refine isChain_of_forall ?_ _
    rintro ⟨letter, text⟩ isRight left ⟨-, isOperator⟩
    cases isOperator
    cases (eq_sample_of_mem isRight).2

end Samples

/-! ## Completed fronts -/

section Completed

variable {front row rest whole more : List Char} {tokens found printed : List (Terminal × Token)}
  {stack : Stack Terminal Nonterminal Token} {left right : Derivation Terminal Nonterminal Token}

/-- A front and what stands behind it are read as one text, if the machine passes through the states
in which the front has been read. -/
theorem covers_completed {filler : List Char}
    (reads : Reads (0 :: parser.trace [] tokens) Position.start whole found (filler ++ more))
    (sameTrace : parser.trace [] found = parser.trace [] tokens) (isFiller : Filler filler)
    (shifts : parser.Shifts [] found stack)
    (scan : language.Scan stack ((Position.start.advance whole).advance filler) more printed) :
    Covers (0 :: parser.trace [] (found ++ printed)) Position.start (whole ++ (filler ++ more))
      (found ++ printed) := by
  have back := Covers.after_filler isFiller (covers_of_scan scan)
  rw [← shifts.drop_states_append printed] at back
  refine Covers.append back (reads.congr_states (congrArg _ ?_))
  rw [← sameTrace]
  exact shifts.take_states_append printed

/-- The states along a front of a sentence depend on the letters alone. -/
theorem trace_eq_of_fronts {others otherRest more : List (Terminal × Token)}
    (leftBuilt : parser.run [] (tokens ++ more) = .ok left)
    (rightBuilt : parser.run [] (others ++ otherRest) = .ok right)
    (sameFront : tokens.map Prod.fst = others.map Prod.fst)
    (sameRest : more.map Prod.fst = otherRest.map Prod.fst) :
    parser.trace [] tokens = parser.trace [] others := by
  rcases follows_of_run leftBuilt with ⟨leftFollows, leftStarts, leftLeaves, -⟩
  rcases follows_of_run rightBuilt with ⟨rightFollows, rightStarts, rightLeaves, -⟩
  have whole := Parser.trace_eq_of_letters parser_valid rules_graded leftFollows rightFollows
    leftStarts rightStarts
    (by rw [leftLeaves, rightLeaves, List.map_append, List.map_append, sameFront, sameRest])
  have isLength : tokens.length = others.length := by
    simpa using congrArg List.length sameFront
  rw [leftLeaves, rightLeaves] at whole
  rw [← Parser.take_trace tokens more, ← Parser.take_trace others otherRest, whole, isLength]

theorem exists_parse_of_covers {source : List Char}
    (covers : Covers (0 :: parser.trace [] tokens) Position.start source tokens)
    (built : parser.run [] tokens = .ok left) :
    ∃ tree, SyntaxTree.parse source = .ok tree := by
  have scan : language.Scan [] Position.start source tokens :=
    scan_of_covers covers (Parser.length_trace built)
  have reads := (Language.read_eq_ok_iff lexicon_honest).mpr ⟨_, scan, built⟩
  exact ⟨_, by rw [SyntaxTree.parse, reads]⟩

/-- What has been read is completed by the samples of letters that make a sentence of it. -/
theorem exists_parse_of_paused (paused : Paused tokens stack front row rest) :
    ∃ more tree, SyntaxTree.parse (front ++ row ++ '\n' :: more) = .ok tree := by
  rcases paused.exists_letters with ⟨letters, outside, sentences⟩
  have sentence (found : List (Terminal × Token)) (position : Position)
      (same : found.map Prod.fst = tokens.map Prod.fst) :
      ∃ tree, parser.run [] (found ++ place position (sampleLeaves letters)) = .ok tree := by
    apply sentences
    rw [List.map_append, map_fst_place, same]
  rcases sentence tokens Position.start rfl with ⟨first, firstBuilt⟩
  have braced : ∀ last ∈ tokens.getLast?, last.1 = .bodyText →
      Braced (render (sampleLeaves letters)) := by
    intro last isLast isBody
    have behind := paused.shifts.behind_last
    rw [Option.mem_def.mp isLast, Option.map_some, isBody] at behind
    exact braced_samples outside behind ((paused.shifts.run_append _).symm.trans firstBuilt)
  rcases paused.exists_lineFeed (noEnd_samples letters) braced with
    ⟨found, whole, filler, isWhole, isFiller, sameLetters, reads⟩
  rcases sentence found ((Position.start.advance whole).advance filler) sameLetters with
    ⟨second, built⟩
  rcases Parser.exists_shifts_of_run built with ⟨later, shifts, laterBuilt⟩
  have sameTrace : parser.trace [] found = parser.trace [] tokens :=
    trace_eq_of_fronts built firstBuilt sameLetters (by rw [map_fst_place, map_fst_place])
  have covers := covers_completed reads sameTrace isFiller shifts
    (scan_samples outside shifts.behind_last laterBuilt)
  have isSource : front ++ row ++ '\n' :: render (sampleLeaves letters) =
      whole ++ (filler ++ render (sampleLeaves letters)) := by
    rw [← List.append_assoc, ← isWhole]
    simp
  exact ⟨render (sampleLeaves letters), isSource ▸ exists_parse_of_covers covers built⟩

end Completed

/-! ## Rejected texts -/

/-- What has been accepted of a text when it is rejected: all of it, if its end is what is refused,
and otherwise what stands in front of the place of the rejection. -/
def acceptedFront (source : List Char) : Rejection Terminal → List Char
  | .ending _ => source
  | rejection => source.take rejection.position.offset

variable {source : List Char} {rejection : Rejection Terminal}

/-- What is refused behind a front is not the end of the text, so that the front is accepted. -/
theorem acceptedFront_of_position {front rest : List Char}
    (notEnding : ∀ position, rejection ≠ .ending position)
    (isPosition : rejection.position = Position.start.advance front) :
    acceptedFront (front ++ rest) rejection = front := by
  have isFront : (front ++ rest).take rejection.position.offset = front := by
    rw [isPosition, Position.advance_start]
    exact List.take_left
  cases rejection with
  | terminal letter token => exact isFront
  | character char position => exact isFront
  | ending position => exact absurd rfl (notEnding position)

theorem exists_paused_of_read (rejects : language.read source = .error rejection) :
    ∃ tokens stack front row rest, Paused tokens stack front row rest ∧
      acceptedFront source rejection = front ++ row := by
  rcases exists_step_of_read rejects with ⟨progress, reached, steps⟩
  rcases exists_paused_of_reaches reached with
    ⟨tokens, front, row, isSource, paused, isPosition, -⟩
  refine ⟨tokens, progress.stack, front, row, progress.rest, paused, ?_⟩
  rw [isSource, ← List.append_assoc]
  rcases Language.rejected_of_step steps with ⟨isEnd, rfl, -⟩ | ⟨char, text, -, -, rfl⟩ |
    ⟨letter, word, -, rfl, -⟩
  · rw [isEnd, List.append_nil]
    rfl
  · refine acceptedFront_of_position (Language.blame_ne_ending _ _ _) ?_
    rw [Language.position_of_blame, isPosition]
  · exact acceptedFront_of_position nofun isPosition

/-- No text is rejected later than it has to be: what has been accepted of it is the front of a text
that is parsed, with a line feed behind it. -/
theorem parse_rejects_early (source : String) :
    (∃ tree, parse source = .ok tree) ∨
    ∃ rejection, parse source = .error (.rejected rejection) ∧
      ∃ more tree, parse (String.ofList (acceptedFront source.toList rejection) ++ "\n" ++ more) =
        .ok tree := by
  rw [parse, SyntaxTree.parse]
  cases reads : language.read source.toList with
  | ok derivation => exact .inl ⟨_, rfl⟩
  | error rejection =>
      rcases exists_paused_of_read reads with ⟨tokens, stack, front, row, rest, paused, isFront⟩
      rcases exists_parse_of_paused paused with ⟨more, tree, accepted⟩
      refine .inr ⟨rejection, rfl, String.ofList more, tree, ?_⟩
      have isText : (String.ofList (acceptedFront source.toList rejection) ++ "\n" ++
          String.ofList more).toList = front ++ row ++ '\n' :: more := by
        simp [isFront]
      rw [parse, isText, accepted]
      rfl

end ShaderReflection.Tree
