import ShaderReflection.Proofs.Grammar.Reading
import ShaderReflection.Proofs.Grammar.Safety

/-!
# Reading always comes to an end

Each step of reading but the last takes a lexeme, and no lexeme is empty. So reading a text ends
after at most as many steps as the text has characters, and one more. On the way the stack stays
short enough for one bound on the reductions, computed from the length of the text alone, to do for
all lookaheads.
-/

namespace ShaderReflection.Grammar

open ShaderReflection.Text

variable {τ ν : Type}

/-- Before anything has been read. -/
def Progress.start (text : List Char) : Progress τ ν := ⟨[], .start, .start, text⟩

namespace Language

variable [Alphabet τ] [Alphabet ν] [DecidableEq τ] [DecidableEq ν] {language : Language τ ν}
  {progress later : Progress τ ν} {text : List Char}
  {outcome : Except (Rejection τ) (Derivation τ ν Token)}

/-! ## What a step can do -/

theorem more_of_step (steps : language.step progress = .more later) :
    ∃ lexeme, (language.known (Stack.state progress.stack)).read progress.rest = some lexeme ∧
      later.position = progress.position.advance lexeme.text ∧
      later.rest = progress.rest.drop lexeme.text.length ∧
      ((lexeme.terminal = none ∧ later.stack = progress.stack ∧ later.last = progress.last) ∨
        ∃ letter, lexeme.terminal = some letter ∧
          language.parser.feed progress.stack
            (some (letter, ⟨progress.position, lexeme.text⟩)) = .ok (.shifted later.stack) ∧
          later.last = progress.position) := by
  rcases progress with ⟨stack, last, position, _ | ⟨char, rest⟩⟩
  · simp only [step] at steps
    split at steps <;> cases steps
  · simp only [step] at steps
    split at steps
    · cases steps
    · rename_i word reads
      cases steps
      exact ⟨_, reads, rfl, rfl, .inl ⟨rfl, rfl, rfl⟩⟩
    · rename_i letter word reads
      split at steps
      · rename_i shifts
        cases steps
        exact ⟨_, reads, rfl, rfl, .inr ⟨letter, rfl, shifts, rfl⟩⟩
      · cases steps

omit [Alphabet τ] [Alphabet ν] [DecidableEq τ] [DecidableEq ν] in
theorem position_of_blame (position : Position) (char : Char) (rest : List Char) :
    (language.blame position char rest).position = position := by
  rw [blame]
  split <;> rfl

omit [Alphabet τ] [Alphabet ν] [DecidableEq τ] [DecidableEq ν] in
theorem blame_ne_ending (position : Position) (char : Char) (rest : List Char) (last : Position) :
    language.blame position char rest ≠ .ending last := by
  rw [blame]
  split <;> nofun

theorem rejected_of_step {rejection : Rejection τ}
    (steps : language.step progress = .rejected rejection) :
    (progress.rest = [] ∧ rejection = .ending progress.last ∧
      ∀ tree, language.parser.feed progress.stack none ≠ .ok (.accepted tree)) ∨
    (∃ char rest, progress.rest = char :: rest ∧
      (language.known (Stack.state progress.stack)).read progress.rest = none ∧
      rejection = language.blame progress.position char rest) ∨
    ∃ letter word, (language.known (Stack.state progress.stack)).read progress.rest =
        some ⟨some letter, word⟩ ∧
      rejection = .terminal letter ⟨progress.position, word⟩ ∧
      ∀ later, language.parser.feed progress.stack
        (some (letter, ⟨progress.position, word⟩)) ≠ .ok (.shifted later) := by
  rcases progress with ⟨stack, last, position, _ | ⟨char, rest⟩⟩
  · simp only [step] at steps
    split at steps
    · cases steps
    · rename_i unexpected
      cases steps
      exact .inl ⟨rfl, rfl, unexpected⟩
  · simp only [step] at steps
    split at steps
    · rename_i nothing
      cases steps
      exact .inr (.inl ⟨char, rest, rfl, nothing, rfl⟩)
    · cases steps
    · rename_i letter word reads
      split at steps
      · cases steps
      · rename_i stuck
        cases steps
        exact .inr (.inr ⟨letter, word, reads, rfl, stuck⟩)

/-- A text is rejected at the place that has been reached, or at the last token. -/
theorem position_of_step {rejection : Rejection τ}
    (steps : language.step progress = .rejected rejection) :
    rejection.position = progress.position ∨ rejection.position = progress.last := by
  rcases rejected_of_step steps with ⟨-, rfl, -⟩ | ⟨char, rest, -, -, rfl⟩ |
    ⟨letter, word, -, rfl, -⟩
  · exact .inr rfl
  · exact .inl (position_of_blame progress.position char rest)
  · exact .inl rfl

/-! ## How long reading takes -/

/-- Reading ends after a number of steps, with a result. -/
inductive Takes (language : Language τ ν) :
    Nat → Progress τ ν → Except (Rejection τ) (Derivation τ ν Token) → Prop
  | done {progress : Progress τ ν} {tree : Derivation τ ν Token}
      (steps : language.step progress = .done tree) : Takes language 1 progress (.ok tree)
  | rejected {progress : Progress τ ν} {rejection : Rejection τ}
      (steps : language.step progress = .rejected rejection) :
      Takes language 1 progress (.error rejection)
  | more {progress later : Progress τ ν} {count : Nat}
      {outcome : Except (Rejection τ) (Derivation τ ν Token)}
      (steps : language.step progress = .more later) (rest : Takes language count later outcome) :
      Takes language (count + 1) progress outcome

/-- Fuel beyond the number of steps makes no difference. -/
theorem Takes.loop_eq {count fuel : Nat} (takes : language.Takes count progress outcome)
    (enough : count ≤ fuel) : language.loop fuel progress = outcome := by
  induction takes generalizing fuel with
  | done steps =>
      cases fuel with
      | zero => omega
      | succ fuel => simp only [loop, steps]
  | rejected steps =>
      cases fuel with
      | zero => omega
      | succ fuel => simp only [loop, steps]
  | more steps rest induction =>
      cases fuel with
      | zero => omega
      | succ fuel =>
          simp only [loop, steps]
          exact induction (by omega)

theorem exists_takes (honest : language.lexicon.Honest) (progress : Progress τ ν) :
    ∃ count outcome, count ≤ progress.rest.length + 1 ∧
      language.Takes count progress outcome := by
  -- The text that is left gets shorter with every lexeme.
  induction left : progress.rest.length using Nat.strongRecOn generalizing progress with
  | ind length induction =>
      cases steps : language.step progress with
      | done tree => exact ⟨1, .ok tree, by omega, .done steps⟩
      | rejected rejection => exact ⟨1, .error rejection, by omega, .rejected steps⟩
      | more later =>
          rcases more_of_step steps with ⟨lexeme, reads, -, isRest, -⟩
          have shorter := (exists_cons_of_read honest reads).2
          rw [← isRest] at shorter
          rcases induction _ (by omega) later rfl with ⟨count, outcome, bound, takes⟩
          exact ⟨count + 1, outcome, by omega, .more steps takes⟩

theorem exists_takes_read (honest : language.lexicon.Honest) (text : List Char) :
    ∃ count ≤ text.length + 1, language.Takes count (.start text) (language.read text) := by
  rcases exists_takes honest (.start text) with ⟨count, outcome, bound, takes⟩
  have isRead : language.read text = outcome := takes.loop_eq bound
  exact ⟨count, bound, isRead ▸ takes⟩

/-! ## What reading comes through -/

/-- Everything that reading a text comes through. -/
inductive Reaches (language : Language τ ν) (text : List Char) : Progress τ ν → Prop
  | start : Reaches language text (.start text)
  | more {progress later : Progress τ ν} (reached : Reaches language text progress)
      (steps : language.step progress = .more later) : Reaches language text later

/-- The stack is a path of the automaton, with at most one tree more than characters have been read,
and the places are places in the text. -/
structure Orderly (language : Language τ ν) (text : List Char) (progress : Progress τ ν) :
    Prop where
  path : language.parser.Path progress.stack
  short : progress.stack.length ≤ progress.position.offset + 1
  place : ∃ front, front ++ progress.rest = text ∧ progress.position = Position.start.advance front
  last : ∃ front, front <+: text ∧ progress.last = Position.start.advance front

variable {rank : ν → Nat}

omit [DecidableEq τ] [DecidableEq ν] in
theorem orderly_start : language.Orderly text (.start text) where
  path := .nil
  short := Nat.zero_le _
  place := ⟨[], rfl, rfl⟩
  last := ⟨[], List.nil_prefix, rfl⟩

theorem Orderly.step (honest : language.lexicon.Honest) (valid : language.parser.Valid)
    (graded : language.parser.rules.Graded rank) (grounded : language.parser.Grounded)
    (orderly : language.Orderly text progress)
    (steps : language.step progress = .more later) : language.Orderly text later := by
  rcases more_of_step steps with ⟨lexeme, reads, isPosition, isRest, goesOn⟩
  rcases (known_honest honest _).isPrefix reads with ⟨⟨rest, isWhole⟩, isFull⟩
  have positive := List.length_pos_iff.mpr isFull
  rcases orderly.place with ⟨front, isText, isPlace⟩
  have place : ∃ front, front ++ later.rest = text ∧
      later.position = Position.start.advance front := by
    refine ⟨front ++ lexeme.text, ?_, ?_⟩
    · rw [isRest, ← isText, ← isWhole, List.drop_left, List.append_assoc]
    · rw [isPosition, isPlace, Position.advance_append]
  have offset : later.position.offset = progress.position.offset + lexeme.text.length := by
    rw [isPosition, Position.offset_advance]
  have short := orderly.short
  rcases goesOn with ⟨-, sameStack, sameLast⟩ | ⟨letter, -, shifts, isLast⟩
  · exact ⟨sameStack ▸ orderly.path, by rw [sameStack]; omega, place, sameLast ▸ orderly.last⟩
  · have safe := Parser.feed_safe valid graded grounded orderly.path
      (some (letter, (⟨progress.position, lexeme.text⟩ : Token)))
    rw [shifts] at safe
    rcases safe with ⟨-, path, bound⟩
    exact ⟨path, by omega, place, front, ⟨_, isText⟩, isLast.trans isPlace⟩

theorem orderly_of_reaches (honest : language.lexicon.Honest) (valid : language.parser.Valid)
    (graded : language.parser.rules.Graded rank) (grounded : language.parser.Grounded)
    (reached : language.Reaches text progress) : language.Orderly text progress := by
  induction reached with
  | start => exact orderly_start
  | more reached steps induction => exact induction.step honest valid graded grounded steps

/-- Enough reductions for any lookahead, whatever has been read of a text of the given length. -/
def patience (language : Language τ ν) (length : Nat) : Nat :=
  (length + 3) * (language.parser.rules.list.length + 1)

omit [DecidableEq τ] [DecidableEq ν] in
theorem Orderly.patience_le (orderly : language.Orderly text progress) :
    language.parser.patience progress.stack ≤ language.patience text.length := by
  rcases orderly.place with ⟨front, rfl, isPlace⟩
  have short := orderly.short
  rw [isPlace, Position.offset_advance] at short
  have isStart : Position.start.offset = 0 := rfl
  apply Nat.mul_le_mul_right
  rw [List.length_append]
  omega

/-- A text is rejected at a place in it. -/
theorem exists_place_of_takes (honest : language.lexicon.Honest) (valid : language.parser.Valid)
    (graded : language.parser.rules.Graded rank) (grounded : language.parser.Grounded)
    (orderly : language.Orderly text progress) {count : Nat} {rejection : Rejection τ}
    (takes : language.Takes count progress (.error rejection)) :
    ∃ front, front <+: text ∧ rejection.position = Position.start.advance front := by
  generalize isOutcome : Except.error rejection = outcome at takes
  induction takes with
  | done steps => cases isOutcome
  | rejected steps =>
      cases isOutcome
      rcases position_of_step steps with isPosition | isLast
      · rcases orderly.place with ⟨front, isText, isPlace⟩
        exact ⟨front, ⟨_, isText⟩, isPosition.trans isPlace⟩
      · rcases orderly.last with ⟨front, isFront, isPlace⟩
        exact ⟨front, isFront, isLast.trans isPlace⟩
  | more steps rest induction =>
      exact induction (orderly.step honest valid graded grounded steps) isOutcome

end Language

end ShaderReflection.Grammar
