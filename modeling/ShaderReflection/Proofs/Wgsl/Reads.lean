import ShaderReflection.Proofs.Wgsl.Filler
import ShaderReflection.Proofs.Wgsl.Items
import ShaderReflection.Proofs.Wgsl.Spacing

/-!
# Texts token by token

A text that is read falls into tokens with rows of trivia between them. `Reads` says so of the front
of a text together with what comes behind it, with the states in which the tokens are read. Unlike
a scan it knows no stack, so that fronts can be put together, moved and read with something else
behind them.
-/

namespace ShaderReflection.Text.Position

/-! ## Moving positions -/

/-- A position in a text, as positions are counted. -/
structure Proper (position : Position) : Prop where
  line : 0 < position.line
  column : 0 < position.column

theorem proper_start : Proper start := ⟨Nat.zero_lt_one, Nat.zero_lt_one⟩

theorem Proper.step {position : Position} (proper : Proper position) (char : Char) :
    Proper (position.step char) := by
  unfold Position.step
  split
  · exact ⟨Nat.succ_pos _, Nat.zero_lt_one⟩
  · exact ⟨proper.line, Nat.succ_pos _⟩

theorem Proper.advance {position : Position} (proper : Proper position) (text : List Char) :
    Proper (position.advance text) := by
  induction text generalizing position with
  | nil => exact proper
  | cons char text induction => exact induction (proper.step char)

/-- The position that is as far behind a place as another position is behind the start. -/
def plus (place position : Position) : Position where
  offset := place.offset + position.offset
  line := place.line + (position.line - 1)
  column :=
    if position.line = 1 then place.column + (position.column - 1) else position.column

theorem plus_start (place : Position) : place.plus start = place := rfl

theorem plus_step (place : Position) {position : Position} (proper : Proper position)
    (char : Char) : place.plus (position.step char) = (place.plus position).step char := by
  rcases position with ⟨offset, line, column⟩
  rcases proper with ⟨hasLine, hasColumn⟩
  simp only at hasLine hasColumn
  unfold step plus
  by_cases isEnd : char = '\n'
  · simp only [isEnd, if_true, mk.injEq]
    refine ⟨by omega, by omega, ?_⟩
    rw [if_neg (by omega)]
  · simp only [isEnd, if_false, mk.injEq]
    refine ⟨by omega, trivial, ?_⟩
    split <;> omega

theorem plus_advance (place : Position) {position : Position} (proper : Proper position)
    (text : List Char) :
    place.plus (position.advance text) = (place.plus position).advance text := by
  induction text generalizing position with
  | nil => rfl
  | cons char text induction =>
      rw [advance_cons, advance_cons, induction (proper.step char), plus_step place proper]

theorem drop_advance {position : Position} {source text rest : List Char}
    (isRest : source.drop position.offset = text ++ rest) :
    source.drop (position.advance text).offset = rest := by
  rw [offset_advance, ← List.drop_drop, isRest, List.drop_left]

end ShaderReflection.Text.Position

namespace ShaderReflection.Wgsl

open ShaderReflection.Grammar ShaderReflection.Text Lexeme

/-- A token as far behind a place as it was behind the start. -/
def moved (place : Position) (token : Token) : Token := ⟨place.plus token.start, token.text⟩

/-! ## Rows of trivia -/

variable {row rest other text word : List Char}

/-- Where trivia may end depends on the next character only. -/
theorem Trivia.Ends.congr {kind : Trivia} (ends : kind.Ends rest)
    (sameHead : rest.head? = other.head?) : kind.Ends other := by
  cases kind with
  | space =>
      rw [Trivia.Ends, Stops, sameHead] at ends
      exact ends
  | lineComment =>
      rw [Trivia.Ends, Stops, sameHead] at ends
      exact ends
  | blockComment => trivial

theorem Skipped.append (skipped : Skipped row (other ++ rest)) (further : Skipped other rest) :
    Skipped (row ++ other) rest := by
  generalize isBehind : other ++ rest = behind at skipped
  induction skipped with
  | nil => exact further
  | @cons piece row behind kind isText ends _ induction =>
      subst isBehind
      rw [← List.append_assoc] at ends
      rw [List.append_assoc]
      exact .cons kind isText ends (induction rfl)

theorem Skipped.congr (skipped : Skipped row rest) (sameHead : rest.head? = other.head?) :
    Skipped row other := by
  induction skipped with
  | nil => exact .nil
  | cons kind isText ends further induction =>
      refine .cons kind isText (ends.congr ?_) (induction sameHead)
      rw [List.head?_append, List.head?_append, sameHead]

theorem known_read_trivia {kind : Trivia} (isText : word ∈ kind.texts) (ends : kind.Ends rest)
    (state : Nat) : (language.known state).read (word ++ rest) = some ⟨none, word⟩ :=
  read_trivia isText ends

section Tokens

variable {state : Nat} {letter : Terminal}
  (reads : (language.known state).read text = some ⟨some letter, word⟩)

include reads

/-- No token begins with white space. -/
theorem stops_of_read : Stops isSpace text := by
  rcases exists_rest_of_takeWhile isSpace text with ⟨rest, isText, stops⟩
  by_cases noSpaces : text.takeWhile isSpace = []
  · rw [noSpaces, List.nil_append] at isText
    exact isText ▸ stops
  · have isTrivia : text.takeWhile isSpace ∈ Trivia.space.texts :=
      Texts.mem_several_one.mpr ⟨noSpaces, fun _ => List.mem_takeWhile_imp⟩
    have skips := known_read_trivia isTrivia stops state
    rw [← isText, reads] at skips
    cases skips

/-- No token stands where a comment on a line begins. -/
theorem notComment_of_read : ¬ ['/', '/'] <+: text := by
  rintro ⟨tail, rfl⟩
  rcases exists_rest_of_takeWhile (· != '\n') tail with ⟨rest, isTail, stops⟩
  have isTrivia : '/' :: '/' :: tail.takeWhile (· != '\n') ∈ Trivia.lineComment.texts := by
    refine mem_lineComment.mpr ⟨_, ?_, rfl⟩
    intro isEnd
    simpa using List.mem_takeWhile_imp isEnd
  have skips := known_read_trivia isTrivia stops state
  rw [List.cons_append, List.cons_append, ← isTail] at skips
  cases skips.symm.trans reads

end Tokens

/-! ## Fronts -/

/-- The front of a text falls into tokens, each read in its state and with trivia before it, and
the rest of the text stands behind the last of them. -/
inductive Reads : List Nat → Position → (front : List Char) → List (Terminal × Token) →
    (rest : List Char) → Prop
  | nil {states : List Nat} {position : Position} {rest : List Char} :
      Reads states position [] [] rest
  | cons {state : Nat} {states : List Nat} {position : Position} {row word front rest : List Char}
      {letter : Terminal} {terminals : List (Terminal × Token)}
      (skipped : Skipped row (word ++ (front ++ rest)))
      (reads : (language.known state).read (word ++ (front ++ rest)) = some ⟨some letter, word⟩)
      (further : Reads states ((position.advance row).advance word) front terminals rest) :
      Reads (state :: states) position (row ++ (word ++ front))
        ((letter, ⟨position.advance row, word⟩) :: terminals) rest

/-- A whole text falls into tokens, and trivia stands behind the last of them. -/
def Covers (states : List Nat) (position : Position) (text : List Char)
    (terminals : List (Terminal × Token)) : Prop :=
  ∃ front row, text = front ++ row ∧ Skipped row [] ∧ Reads states position front terminals row

namespace Reads

variable {states others : List Nat} {position : Position} {front back : List Char}
  {terminals more : List (Terminal × Token)}

theorem append (reads : Reads states position front terminals (back ++ rest))
    (further : Reads (states.drop terminals.length) (position.advance front) back more rest) :
    Reads states position (front ++ back) (terminals ++ more) rest := by
  generalize isRest : back ++ rest = behind at reads
  induction reads with
  | nil => exact further
  | @cons state states position row word front behind letter terminals skipped reads _ induction =>
      subst isRest
      rw [← List.append_assoc front back rest] at skipped reads
      simp only [Position.advance_append] at further
      rw [List.append_assoc, List.append_assoc]
      exact .cons skipped reads (induction further rfl)

theorem exists_append (reads : Reads states position front (terminals ++ more) rest) :
    ∃ left right, front = left ++ right ∧ Reads states position left terminals (right ++ rest) ∧
      Reads (states.drop terminals.length) (position.advance left) right more rest := by
  induction terminals generalizing states position front with
  | nil => exact ⟨[], front, rfl, .nil, reads⟩
  | cons terminal terminals induction =>
      cases reads with
      | @cons state states position row word front rest letter terminals skipped reads further =>
          rcases induction further with ⟨left, right, rfl, isLeft, isRight⟩
          refine ⟨row ++ (word ++ left), right, by simp, .cons ?_ ?_ isLeft, ?_⟩
          · rw [← List.append_assoc left]
            exact skipped
          · rw [← List.append_assoc left]
            exact reads
          · simpa only [Position.advance_append, List.length_cons, List.drop_succ_cons]
              using isRight

/-- Of the states only those of the tokens count, and of these only what is known there. -/
theorem congr_states (reads : Reads states position front terminals rest)
    (same : (others.take terminals.length).map language.known =
      (states.take terminals.length).map language.known) :
    Reads others position front terminals rest := by
  induction reads generalizing others with
  | nil => exact .nil
  | cons skipped reads further induction =>
      cases others with
      | nil => simp at same
      | cons state others =>
          simp only [List.length_cons, List.take_succ_cons, List.map_cons, List.cons.injEq] at same
          rw [← same.1] at reads
          exact .cons skipped reads (induction same.2)

theorem moved_plus (reads : Reads states position front terminals rest) (place : Position)
    (proper : position.Proper) :
    Reads states (place.plus position) front (terminals.map (Prod.map id (moved place)))
      rest := by
  induction reads with
  | nil => exact .nil
  | cons skipped reads further induction =>
      have later := induction ((proper.advance _).advance _)
      rw [Position.plus_advance place (proper.advance _), Position.plus_advance place proper]
        at later
      rw [List.map_cons, Prod.map, moved, Position.plus_advance place proper]
      exact .cons skipped reads later

theorem exists_of_plus {place : Position}
    (reads : Reads states (place.plus position) front terminals rest) (proper : position.Proper) :
    ∃ found, terminals = found.map (Prod.map id (moved place)) ∧
      Reads states position front found rest := by
  generalize isPlace : place.plus position = there at reads
  induction reads generalizing position with
  | nil => exact ⟨[], rfl, .nil⟩
  | @cons state states there row word front rest letter terminals skipped reads _ induction =>
      subst isPlace
      have sameEnd : place.plus ((position.advance row).advance word) =
          ((place.plus position).advance row).advance word := by
        rw [Position.plus_advance place (proper.advance _), Position.plus_advance place proper]
      rcases induction ((proper.advance _).advance _) sameEnd with ⟨found, rfl, further⟩
      refine ⟨(letter, ⟨position.advance row, word⟩) :: found, ?_, .cons skipped reads further⟩
      rw [List.map_cons, Prod.map, moved, Position.plus_advance place proper]
      rfl

/-- The same tokens from another position on. -/
theorem exists_at (reads : Reads states position front terminals rest) (place : Position) :
    ∃ found : List (Terminal × Token), Reads states place front found rest ∧
      found.map (Prod.map id Token.text) = terminals.map (Prod.map id Token.text) := by
  induction reads generalizing place with
  | nil => exact ⟨[], .nil, rfl⟩
  | @cons _ _ _ row word _ _ letter _ skipped reads _ induction =>
      rcases induction ((place.advance row).advance word) with ⟨found, further, same⟩
      exact ⟨(letter, ⟨place.advance row, word⟩) :: found, .cons skipped reads further,
        by rw [List.map_cons, List.map_cons, same]; rfl⟩

/-- The front ends where its last token ends. -/
theorem stop_getLast? (reads : Reads states position front terminals rest) :
    (terminals.getLast?.map fun terminal => terminal.2.span.stop).getD position.offset =
      position.offset + front.length := by
  induction reads with
  | nil => rfl
  | @cons _ _ position row word front _ letter terminals _ _ _ induction =>
      rw [List.getLast?_cons, Option.map_some, Option.getD_some]
      simp only [Position.offset_advance] at induction
      cases last : terminals.getLast? with
      | none =>
          simp only [last, Option.map_none, Option.getD_none] at induction
          simp only [Option.getD_none, Token.span, Position.offset_advance, List.length_append]
          omega
      | some terminal =>
          simp only [last, Option.map_some, Option.getD_some] at induction
          simp only [Option.getD_some, induction, List.length_append]
          omega

/-! ## Something else behind a front -/

theorem mem_getLast?_cons {terminal first : Terminal × Token}
    (isLast : terminal ∈ terminals.getLast?) : terminal ∈ (first :: terminals).getLast? := by
  rw [List.getLast?_cons, Option.mem_def.mp isLast]
  rfl

/-- The front alone has the same tokens, if it does not end within the marks of a comment. -/
theorem cut (reads : Reads states position front terminals rest) (parts : Parts front rest) :
    Reads states position front terminals [] := by
  induction reads with
  | nil => exact .nil
  | @cons state _ position row word front rest letter terminals skipped reads further induction =>
      rcases (Language.known_honest lexicon_honest state).isPrefix reads with ⟨-, isFull⟩
      have wordParts : Parts (word ++ front) rest := by
        rw [Parts, List.getLast?_append_of_ne_nil _ (by simp [isFull])] at parts
        exact parts
      refine .cons (skipped.congr ?_) ?_ (induction ?_)
      · rw [List.head?_append_of_ne_nil _ isFull, List.head?_append_of_ne_nil _ isFull]
      · rw [← List.append_assoc] at reads
        rw [List.append_nil]
        exact read_cut wordParts reads (by simp)
      · intro endsOpen
        have isPart : front ≠ [] := by
          rintro rfl
          cases endsOpen
        apply wordParts
        rw [List.getLast?_append_of_ne_nil _ isPart]
        exact endsOpen

/-- If no token stands where a comment seems to begin, a text does not end within the marks of a
comment behind its last token, unless that is the text of a body. -/
theorem parts {source : List Char} (reads : Reads states position front terminals rest)
    (isRest : source.drop position.offset = front ++ rest)
    (noMark : ∀ terminal ∈ terminals, ¬ ['/', '*'] <+: source.drop terminal.2.start.offset)
    (noBody : ∀ terminal ∈ terminals.getLast?, terminal.1 ≠ .bodyText) : Parts front rest := by
  induction reads with
  | nil => nofun
  | @cons state _ position row word front rest letter terminals _ reads further induction =>
      rcases (Language.known_honest lexicon_honest state).isPrefix reads with ⟨-, isFull⟩
      have isText : source.drop (position.advance row).offset = word ++ (front ++ rest) :=
        Position.drop_advance (by simpa using isRest)
      rcases List.forall_mem_cons.mp noMark with ⟨noComment, others⟩
      have later := induction (Position.drop_advance isText) others fun terminal isLast =>
        noBody terminal (mem_getLast?_cons isLast)
      intro isSlash
      rw [List.getLast?_append_of_ne_nil _ (by simp [isFull])] at isSlash
      cases further with
      | nil =>
          rw [List.append_nil] at isSlash
          rcases getLast?_of_mem_texts (mem_texts_of_read reads) isSlash with
            isBody | ⟨-, rfl⟩
          · exact absurd isBody (noBody _ rfl)
          · intro char isNext
            rcases List.head?_eq_some_iff.mp isNext with ⟨tail, rfl⟩
            rw [isText] at noComment
            constructor
            · rintro rfl
              exact notComment_of_read reads ⟨tail, rfl⟩
            · rintro rfl
              exact noComment ⟨tail, rfl⟩
      | cons _ nextReads _ =>
          have nextFull := ((Language.known_honest lexicon_honest _).isPrefix nextReads).2
          apply later
          rwa [List.getLast?_append_of_ne_nil _ (by simp [nextFull])] at isSlash

/-- White space and anything more behind a text leave its tokens as they are. No token may stand
where a comment seems to begin, and the last token is not the text of a body. -/
theorem spaced {source : List Char} {gap : Char} {more : List Char}
    (reads : Reads states position front terminals rest)
    (isRest : source.drop position.offset = front ++ rest)
    (noMark : ∀ terminal ∈ terminals, ¬ ['/', '*'] <+: source.drop terminal.2.start.offset)
    (noBody : ∀ terminal ∈ terminals.getLast?, terminal.1 ≠ .bodyText)
    (isSpaced : isSpace gap = true) :
    Reads states position front terminals (rest ++ gap :: more) := by
  induction reads with
  | nil => exact .nil
  | @cons state _ position row word front rest letter terminals skipped reads further induction =>
      rcases (Language.known_honest lexicon_honest state).isPrefix reads with ⟨-, isFull⟩
      have isText : source.drop (position.advance row).offset = word ++ (front ++ rest) :=
        Position.drop_advance (by simpa using isRest)
      rcases List.forall_mem_cons.mp noMark with ⟨noComment, others⟩
      rw [isText] at noComment
      have isLonger : letter = .bodyText → word ≠ word ++ (front ++ rest) := by
        rintro rfl isWhole
        have isEnd := (List.append_eq_nil_iff.mp (List.self_eq_append_right.mp isWhole)).1
        cases further with
        | nil => exact noBody _ rfl rfl
        | cons _ nextReads _ =>
            have nextFull := ((Language.known_honest lexicon_honest _).isPrefix nextReads).2
            simp [nextFull] at isEnd
      refine .cons (skipped.congr ?_) ?_ (induction (Position.drop_advance isText) others
        fun terminal isLast => noBody terminal (mem_getLast?_cons isLast))
      · rw [List.head?_append_of_ne_nil _ isFull, List.head?_append_of_ne_nil _ isFull]
      · have longer : (language.known state).read (word ++ (front ++ rest) ++ gap :: more) =
            some ⟨some letter, word⟩ :=
          read_spaced (parser_coherent state) reads noComment isLonger isSpaced
        simpa only [List.append_assoc] using longer

/-- White space behind a front takes the place of whatever stands there. -/
theorem respaced {source : List Char} {gap : Char} {more : List Char}
    (reads : Reads states position front terminals rest)
    (isRest : source.drop position.offset = front ++ rest)
    (noMark : ∀ terminal ∈ terminals, ¬ ['/', '*'] <+: source.drop terminal.2.start.offset)
    (noBody : ∀ terminal ∈ terminals.getLast?, terminal.1 ≠ .bodyText)
    (isSpaced : isSpace gap = true) :
    Reads states position front terminals (gap :: more) := by
  have alone := reads.cut (reads.parts isRest noMark noBody)
  have isFront : (source.take (position.offset + front.length)).drop position.offset =
      front ++ [] := by
    rw [List.drop_take, isRest, Nat.add_sub_cancel_left, List.take_left, List.append_nil]
  refine alone.spaced isFront ?_ noBody isSpaced
  intro terminal isTerminal isMark
  apply noMark terminal isTerminal
  rw [List.drop_take] at isMark
  exact isMark.trans (List.take_prefix _ _)

end Reads

/-! ## Whole texts -/

section Covers

variable {states : List Nat} {position : Position} {front : List Char}
  {terminals more : List (Terminal × Token)}

theorem Covers.append (covers : Covers (states.drop terminals.length) (position.advance front) text
    more) (reads : Reads states position front terminals text) :
    Covers states position (front ++ text) (terminals ++ more) := by
  rcases covers with ⟨back, row, rfl, skipped, further⟩
  exact ⟨front ++ back, row, by simp, skipped, reads.append further⟩

/-- What stands in front of the first token. -/
theorem Covers.exists_row (covers : Covers states position text terminals) :
    ∃ row behind, text = row ++ behind ∧ Skipped row behind ∧ Stops isSpace behind ∧
      Covers states (position.advance row) behind terminals ∧
      (∀ terminal ∈ terminals.head?, terminal.2.start = position.advance row) ∧
      (terminals = [] → behind = []) := by
  rcases covers with ⟨front, last, rfl, skipped, reads⟩
  cases reads with
  | nil => exact ⟨last, [], by simp, skipped, by simp [Stops], ⟨[], [], rfl, .nil, .nil⟩, by simp,
      by simp⟩
  | @cons _ _ _ row word front _ letter terminals skippedToo reads further =>
      refine ⟨row, word ++ (front ++ last), by simp, skippedToo, stops_of_read reads,
        ⟨[] ++ (word ++ front), last, by simp, skipped, .cons .nil reads further⟩, ?_, by simp⟩
      simp

theorem Covers.after_row {row : List Char} (skipped : Skipped row text)
    (covers : Covers states (position.advance row) text terminals) :
    Covers states position (row ++ text) terminals := by
  rcases covers with ⟨front, last, rfl, skippedLast, reads⟩
  cases reads with
  | nil =>
      refine ⟨[], row ++ last, rfl, Skipped.append ?_ skippedLast, .nil⟩
      simpa using skipped
  | @cons _ _ _ between word front _ letter terminals skippedToo reads further =>
      refine ⟨row ++ between ++ (word ++ front), last, by simp, skippedLast, ?_⟩
      rw [← Position.advance_append position row between] at further ⊢
      refine .cons (Skipped.append ?_ skippedToo) reads further
      simpa using skipped

/-- Filler in front of a text changes only where its tokens stand. -/
theorem Covers.after_filler {filler : List Char} (isFiller : Filler filler)
    (covers : Covers states (position.advance filler) text terminals) :
    Covers states position (filler ++ text) terminals := by
  rcases covers.exists_row with ⟨row, behind, rfl, skipped, stops, further, -, -⟩
  rw [← List.append_assoc]
  apply Covers.after_row (skipped.after_filler isFiller stops)
  rw [Position.advance_append]
  exact further

theorem Covers.exists_at (covers : Covers states position text terminals) (place : Position) :
    ∃ found : List (Terminal × Token), Covers states place text found ∧
      found.map (Prod.map id Token.text) = terminals.map (Prod.map id Token.text) := by
  rcases covers with ⟨front, row, rfl, skipped, reads⟩
  rcases reads.exists_at place with ⟨found, further, same⟩
  exact ⟨found, ⟨front, row, rfl, skipped, further⟩, same⟩

theorem Covers.congr_states {others : List Nat} (covers : Covers states position text terminals)
    (same : (others.take terminals.length).map language.known =
      (states.take terminals.length).map language.known) :
    Covers others position text terminals := by
  rcases covers with ⟨front, row, isText, skipped, reads⟩
  exact ⟨front, row, isText, skipped, reads.congr_states same⟩

theorem Covers.moved_plus (covers : Covers states Position.start text terminals)
    (place : Position) : Covers states place text (terminals.map (Prod.map id (moved place))) := by
  rcases covers with ⟨front, row, isText, skipped, reads⟩
  exact ⟨front, row, isText, skipped, reads.moved_plus place Position.proper_start⟩

theorem Covers.exists_of_plus {place : Position} (covers : Covers states place text terminals) :
    ∃ found, terminals = found.map (Prod.map id (moved place)) ∧
      Covers states Position.start text found := by
  rcases covers with ⟨front, row, isText, skipped, reads⟩
  rw [← Position.plus_start place] at reads
  rcases reads.exists_of_plus Position.proper_start with ⟨found, isMoved, further⟩
  exact ⟨found, isMoved, front, row, isText, skipped, further⟩

/-- Modules stand one behind the other in a text if each is read as it would be alone. -/
theorem covers_append_iff {left right : List (Terminal × Token)}
    {first second : Derivation Terminal Nonterminal Token}
    (leftBuilt : parser.run [] left = .ok first) (rightBuilt : parser.run [] right = .ok second) :
    Covers (0 :: parser.trace [] (left ++ right)) position text (left ++ right) ↔
      ∃ front back, text = front ++ back ∧
        Reads (0 :: parser.trace [] left) position front left back ∧
        Covers (0 :: parser.trace [] right) (position.advance front) back right := by
  rcases known_of_run leftBuilt with ⟨number, isLast, sameKnown⟩
  have isLength := Parser.length_trace leftBuilt
  -- The states of the first module, and behind it those of the second one after a state in which
  -- as much is known as at the start.
  have inFront : (0 :: parser.trace [] (left ++ right)).take left.length =
      (0 :: parser.trace [] left).take left.length := by
    rw [trace_append leftBuilt rightBuilt, ← List.cons_append,
      List.take_append_of_le_length (by simp [isLength])]
  have behind : (0 :: parser.trace [] (left ++ right)).drop left.length =
      number :: parser.trace [] right := by
    rcases List.getLast?_eq_some_iff.mp isLast with ⟨before, isRow⟩
    have sameLength := congrArg List.length isRow
    rw [List.length_cons, List.length_append, isLength, List.length_singleton] at sameLength
    rw [trace_append leftBuilt rightBuilt, ← List.cons_append, isRow, List.append_assoc,
      Nat.succ.inj sameLength, List.drop_left]
    rfl
  have asAtStart : ((number :: parser.trace [] right).take right.length).map language.known =
      ((0 :: parser.trace [] right).take right.length).map language.known := by
    cases right with
    | nil => rfl
    | cons terminal right => simp [sameKnown]
  constructor
  · rintro ⟨whole, row, rfl, skipped, reads⟩
    rcases reads.exists_append with ⟨front, back, rfl, isFront, isBack⟩
    rw [behind] at isBack
    refine ⟨front, back ++ row, by simp, isFront.congr_states (by rw [inFront]), ?_⟩
    exact Covers.congr_states ⟨back, row, rfl, skipped, isBack⟩ asAtStart.symm
  · rintro ⟨front, back, rfl, reads, covers⟩
    refine Covers.append ?_ (reads.congr_states (by rw [inFront]))
    rw [behind]
    exact covers.congr_states asAtStart

end Covers

/-! ## Scans -/

section Scan

variable {stack : Stack Terminal Nonterminal Token} {position : Position}
  {terminals more : List (Terminal × Token)}

theorem covers_of_scan (scan : language.Scan stack position text terminals) :
    Covers (Stack.state stack :: parser.trace stack terminals) position text terminals := by
  induction scan with
  | nil => exact ⟨[], [], rfl, .nil, .nil⟩
  | @trivia stack position text word terminals reads _ induction =>
      rcases exists_trivia_of_read reads with ⟨kind, tail, rfl, isText, ends⟩
      rw [List.drop_left] at induction
      refine Covers.after_row ?_ induction
      simpa using Skipped.cons kind isText (by simpa using ends) .nil
  | @token stack later position text word letter terminals reads shifts _ induction =>
      rcases (Language.known_honest lexicon_honest _).isPrefix reads with ⟨⟨tail, rfl⟩, -⟩
      rcases induction with ⟨front, row, isTail, skipped, further⟩
      rw [List.drop_left] at isTail
      subst isTail
      have passed : parser.trace stack ((letter, ⟨position, word⟩) :: terminals) =
          Stack.state later :: parser.trace later terminals := Parser.trace_of_feed shifts
      rw [passed]
      refine ⟨[] ++ (word ++ front), row, by simp, skipped, ?_⟩
      exact .cons .nil reads further

theorem scan_of_skipped (skipped : Skipped row text)
    (scan : language.Scan stack (position.advance row) text terminals) :
    language.Scan stack position (row ++ text) terminals := by
  induction skipped generalizing position with
  | nil => exact scan
  | @cons piece row text kind isText ends _ induction =>
      rw [Position.advance_append] at scan
      rw [List.append_assoc]
      apply Language.Scan.trivia (known_read_trivia isText ends _)
      rw [List.drop_left]
      exact induction scan

theorem scan_of_covers
    (covers : Covers (Stack.state stack :: parser.trace stack terminals) position text terminals)
    (complete : (parser.trace stack terminals).length = terminals.length) :
    language.Scan stack position text terminals := by
  rcases covers with ⟨front, row, rfl, skipped, reads⟩
  induction terminals generalizing stack position front with
  | nil =>
      cases reads
      rw [List.nil_append, ← List.append_nil row]
      exact scan_of_skipped skipped .nil
  | cons terminal terminals induction =>
      rcases Parser.exists_feed_of_length complete with ⟨later, shifts, laterComplete⟩
      rw [Parser.trace_of_feed shifts] at reads
      cases reads with
      | @cons _ _ _ before word front _ letter _ skippedToo reads further =>
          rw [List.append_assoc, List.append_assoc]
          apply scan_of_skipped skippedToo
          refine .token reads shifts ?_
          rw [List.drop_left]
          exact induction laterComplete front further

/-- A text falls into tokens in one way only. -/
theorem scan_unique (left : language.Scan stack position text terminals)
    (right : language.Scan stack position text more) : terminals = more := by
  have empty : ∀ {number lexeme}, (language.known number).read [] ≠ some lexeme := by
    intro number lexeme reads
    rcases (Language.exists_cons_of_read lexicon_honest reads).1 with ⟨_, _, isFull⟩
    cases isFull
  induction left generalizing more with
  | nil =>
      cases right with
      | nil => rfl
      | trivia reads _ => exact absurd reads empty
      | token reads _ _ => exact absurd reads empty
  | trivia reads _ induction =>
      cases right with
      | nil => exact absurd reads empty
      | trivia otherReads rest =>
          cases reads.symm.trans otherReads
          exact induction rest
      | token otherReads _ _ => cases reads.symm.trans otherReads
  | token reads shifts _ induction =>
      cases right with
      | nil => exact absurd reads empty
      | trivia otherReads _ => cases reads.symm.trans otherReads
      | token otherReads otherShifts rest =>
          cases reads.symm.trans otherReads
          cases shifts.symm.trans otherShifts
          rw [induction rest]

end Scan

end ShaderReflection.Wgsl
