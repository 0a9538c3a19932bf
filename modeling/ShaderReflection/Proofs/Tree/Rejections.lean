import ShaderReflection.Proofs.Tree.Covering
import ShaderReflection.Proofs.Tree.Totality
import ShaderReflection.Proofs.Wgsl.Pauses

/-!
# Where a text is rejected

A rejection has a place, which is told by its offset alone: its line and its column are those of
the offset (`Position.advance_start`). In front of the place the text falls into tokens that the
machine has put on its stack and trivia, and what stands at the place is refused there: nothing
acceptable can be read, or a token that the machine does not take, or the last token of a text that
must not end with it (`Refuses`).
-/

namespace ShaderReflection.Text

/-- The offset at which the last line of a text starts: just behind the last line feed, or zero. -/
def lineStart (text : List Char) : Nat :=
  text.length - (text.reverse.takeWhile (· != '\n')).length

theorem lineStart_concat_feed (text : List Char) :
    lineStart (text ++ ['\n']) = text.length + 1 := by
  simp [lineStart]

theorem lineStart_concat {char : Char} (notFeed : char ≠ '\n') (text : List Char) :
    lineStart (text ++ [char]) = lineStart text := by
  simp [lineStart, notFeed]

theorem lineStart_le (text : List Char) : lineStart text ≤ text.length := Nat.sub_le _ _

/-- Lines and columns are counted along a text, but depend only on its line feeds. -/
theorem Position.advance_start (text : List Char) :
    Position.start.advance text =
      ⟨text.length, 1 + text.count '\n', text.length - lineStart text + 1⟩ := by
  induction text using List.reverseRecOn with
  | nil => rfl
  | append_singleton text char induction =>
      rw [advance_append, induction, advance_cons, advance_nil, step]
      have bound := lineStart_le text
      split
      · rename_i isFeed
        subst isFeed
        simp [lineStart_concat_feed, Nat.add_assoc]
      · rename_i notFeed
        simp [lineStart_concat notFeed, notFeed]
        omega

end ShaderReflection.Text

namespace ShaderReflection.Tree

open ShaderReflection.Grammar ShaderReflection.Text ShaderReflection.Wgsl

variable {source rest : List Char} {stack : Stack Terminal Nonterminal Token}
  {position : Position} {rejection : Rejection Terminal}

/-- Why a text is refused at a place, behind the tokens on a stack. -/
inductive Refuses (stack : Stack Terminal Nonterminal Token) (position : Position) :
    (rest : List Char) → Rejection Terminal → Prop
  /-- Nothing that is acceptable can be read. -/
  | unread {char : Char} {text : List Char}
      (nothing : (language.known (Stack.state stack)).read (char :: text) = none) :
      Refuses stack position (char :: text) (language.blame position char text)
  /-- The machine does not take the token that is read. -/
  | unshifted {rest word : List Char} {letter : Terminal}
      (reads : (language.known (Stack.state stack)).read rest = some ⟨some letter, word⟩)
      (stuck : ∀ later,
        parser.feed stack (some (letter, ⟨position, word⟩)) ≠ .ok (.shifted later)) :
      Refuses stack position rest (.terminal letter ⟨position, word⟩)
  /-- The token is the last one, with trivia behind it, and the machine does not accept the end. -/
  | ending {word row : List Char} {letter : Terminal}
      {later : Stack Terminal Nonterminal Token}
      (reads : (language.known (Stack.state stack)).read (word ++ row) =
        some ⟨some letter, word⟩)
      (shifts : parser.feed stack (some (letter, ⟨position, word⟩)) = .ok (.shifted later))
      (skipped : Skipped row [])
      (unexpected : ∀ tree, parser.feed later none ≠ .ok (.accepted tree)) :
      Refuses stack position (word ++ row) (.ending position)

theorem Refuses.position_eq (refuses : Refuses stack position rest rejection) :
    rejection.position = position := by
  cases refuses with
  | unread => exact Language.position_of_blame _ _ _
  | unshifted => rfl
  | ending => rfl

/-- Reading ends with a rejection only where a step rejects. -/
theorem exists_step_of_read (rejects : language.read source = .error rejection) :
    ∃ progress, language.Reaches source progress ∧
      language.step progress = .rejected rejection := by
  rcases exists_takes_read source with ⟨count, -, takes⟩
  rw [rejects] at takes
  have all : ∀ {count progress outcome}, language.Takes count progress outcome →
      outcome = .error rejection → language.Reaches source progress →
        ∃ progress, language.Reaches source progress ∧
          language.step progress = .rejected rejection := by
    intro count progress outcome takes isError reached
    induction takes with
    | done => cases isError
    | rejected steps =>
        cases isError
        exact ⟨_, reached, steps⟩
    | more steps _ induction => exact induction isError (.more reached steps)
  exact all takes rfl .start

/-- The machine accepts the end of a text without tokens. -/
theorem exists_accepted_nil :
    ∃ tree : Derivation Terminal Nonterminal Token, parser.feed [] none = .ok (.accepted tree) := by
  have isModule : (Phrase.module ([] : List (Phrase Token))).IsModule :=
    Phrase.isModule_module_iff.mpr (by simp)
  rcases run_leaves_of_isModule isModule with ⟨tree, built, -⟩
  rw [Phrase.leaves_module, Phrase.leavesOfAll] at built
  exact ⟨tree, Parser.feed_eq_of_run built⟩

/-- What is refused at the end of a text is its last token. -/
theorem exists_refuses_of_ending {tokens : List (Terminal × Token)} {front row : List Char}
    (paused : Paused tokens stack front row [])
    (unexpected : ∀ tree, parser.feed stack none ≠ .ok (.accepted tree)) :
    ∃ before between inner stretch behind, front ++ row = inner ++ (stretch ++ behind) ∧
      Paused before between inner stretch behind ∧
      tokens.getLast?.map (fun token => token.2.start) =
        some (Position.start.advance (inner ++ stretch)) ∧
      Refuses between (Position.start.advance (inner ++ stretch)) behind
        (.ending (Position.start.advance (inner ++ stretch))) := by
  rcases List.eq_nil_or_concat' tokens with rfl | ⟨before, last, rfl⟩
  · cases paused.shifts
    rcases exists_accepted_nil with ⟨tree, accepts⟩
    exact absurd accepts (unexpected tree)
  · rcases paused.exists_last with
      ⟨between, inner, stretch, isFront, further, isStart, reads, shifts⟩
    rw [List.append_nil] at further reads
    refine ⟨before, between, inner, stretch, last.2.text ++ row, ?_, further, ?_, ?_⟩
    · rw [isFront]
      simp
    · rw [List.getLast?_concat, Option.map_some, isStart]
    · rw [← isStart]
      exact .ending reads shifts paused.skipped unexpected

theorem exists_refuses_of_read (rejects : language.read source = .error rejection) :
    ∃ tokens stack front row rest, source = front ++ (row ++ rest) ∧
      Paused tokens stack front row rest ∧
      Refuses stack (Position.start.advance (front ++ row)) rest rejection := by
  rcases exists_step_of_read rejects with ⟨progress, reached, steps⟩
  rcases exists_paused_of_reaches reached with
    ⟨tokens, front, row, isSource, paused, isPosition, isLast⟩
  rcases Language.rejected_of_step steps with ⟨isEnd, rfl, unexpected⟩ |
    ⟨char, text, isRest, nothing, rfl⟩ | ⟨letter, word, reads, rfl, stuck⟩
  · rw [isEnd] at isSource paused
    rcases exists_refuses_of_ending paused unexpected with
      ⟨before, between, inner, stretch, behind, isWhole, further, isStart, refuses⟩
    rw [isStart, Option.getD_some] at isLast
    refine ⟨before, between, inner, stretch, behind, ?_, further, isLast ▸ refuses⟩
    rw [isSource, List.append_nil, isWhole]
  · rw [isRest] at isSource paused nothing
    exact ⟨_, _, _, _, _, isSource, paused, isPosition ▸ .unread nothing⟩
  · exact ⟨_, _, _, _, _, isSource, paused, isPosition ▸ .unshifted reads stuck⟩

/-- Every text is parsed or rejected at an exact place. The line and the column are those of the
offset, and up to the offset the text falls into tokens that the machine has put on its stack and
trivia. What stands there is refused. -/
theorem parse_rejects_exactly (source : String) :
    (∃ tree, parse source = .ok tree) ∨
    ∃ rejection tokens stack front row, parse source = .error (.rejected rejection) ∧
      source.toList.take rejection.position.offset = front ++ row ∧
      rejection.position.offset = (front ++ row).length ∧
      rejection.position.line = 1 + (front ++ row).count '\n' ∧
      rejection.position.column =
        rejection.position.offset - lineStart (front ++ row) + 1 ∧
      Paused tokens stack front row (source.toList.drop rejection.position.offset) ∧
      Refuses stack rejection.position (source.toList.drop rejection.position.offset)
        rejection := by
  rw [parse, SyntaxTree.parse]
  cases reads : language.read source.toList with
  | ok derivation => exact .inl ⟨_, rfl⟩
  | error rejection =>
      rcases exists_refuses_of_read reads with
        ⟨tokens, stack, front, row, rest, isSource, paused, refuses⟩
      have isPosition := refuses.position_eq
      have isPlace := Position.advance_start (front ++ row)
      have isOffset : rejection.position.offset = (front ++ row).length := by
        rw [isPosition, isPlace]
      have isFront : source.toList.take rejection.position.offset = front ++ row := by
        rw [isOffset, isSource, ← List.append_assoc, List.take_left]
      have isRest : source.toList.drop rejection.position.offset = rest := by
        rw [isOffset, isSource, ← List.append_assoc, List.drop_left]
      refine .inr ⟨rejection, tokens, stack, front, row, rfl, isFront, isOffset, ?_, ?_, ?_, ?_⟩
      · rw [isPosition, isPlace]
      · rw [isPosition, isPlace]
      · rw [isRest]
        exact paused
      · rw [isRest, isPosition]
        exact refuses

end ShaderReflection.Tree
