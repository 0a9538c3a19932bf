import ShaderReflection.Proofs.Grammar.Totality
import ShaderReflection.Proofs.Wgsl.Turns

/-!
# Texts read in part

While a text is read, what lies behind falls into the tokens that the machine has put on its stack
and trivia (`Paused`). Every step of reading keeps it so (`exists_paused_of_reaches`).
-/

namespace ShaderReflection.Grammar.Parser

variable {τ ν κ : Type} [Alphabet τ] [Alphabet ν] [DecidableEq τ] [DecidableEq ν]
  {parser : Parser τ ν} {rank : ν → Nat} {stack between later : Stack τ ν κ} {terminal : τ × κ}
  {terminals rest : List (τ × κ)} {tree : Derivation τ ν κ}

theorem feed_eq_of_run (built : parser.run stack [] = .ok tree) :
    parser.feed stack none = .ok (.accepted tree) := by
  rw [run] at built
  split at built
  · rename_i accepts
    cases built
    exact accepts
  · cases built
  · cases built

/-! ## Terminals put on the stack -/

/-- The machine puts terminals on its stack one after the other. -/
inductive Shifts (parser : Parser τ ν) : Stack τ ν κ → List (τ × κ) → Stack τ ν κ → Prop
  | nil {stack : Stack τ ν κ} : Shifts parser stack [] stack
  | cons {stack between later : Stack τ ν κ} {terminal : τ × κ} {terminals : List (τ × κ)}
      (first : parser.feed stack (some terminal) = .ok (.shifted between))
      (further : Shifts parser between terminals later) :
      Shifts parser stack (terminal :: terminals) later

namespace Shifts

theorem append (shifts : parser.Shifts stack terminals between)
    (further : parser.Shifts between rest later) :
    parser.Shifts stack (terminals ++ rest) later := by
  induction shifts with
  | nil => exact further
  | cons first _ induction => exact .cons first (induction further)

theorem exists_append (shifts : parser.Shifts stack (terminals ++ rest) later) :
    ∃ between, parser.Shifts stack terminals between ∧ parser.Shifts between rest later := by
  induction terminals generalizing stack with
  | nil => exact ⟨stack, .nil, shifts⟩
  | cons terminal terminals induction =>
      cases shifts with
      | cons first further =>
          rcases induction further with ⟨between, front, back⟩
          exact ⟨between, .cons first front, back⟩

theorem trace_append (shifts : parser.Shifts stack terminals later) (rest : List (τ × κ)) :
    parser.trace stack (terminals ++ rest) =
      parser.trace stack terminals ++ parser.trace later rest := by
  induction shifts with
  | nil => rfl
  | cons first _ induction =>
      rw [List.cons_append, trace_of_feed first, trace_of_feed first, induction]
      rfl

theorem length_trace (shifts : parser.Shifts stack terminals later) :
    (parser.trace stack terminals).length = terminals.length := by
  induction shifts with
  | nil => rfl
  | cons first _ induction => rw [trace_of_feed first, List.length_cons, induction]; rfl

/-- The last state is that of the stack. -/
theorem drop_states (shifts : parser.Shifts stack terminals later) :
    (Stack.state stack :: parser.trace stack terminals).drop terminals.length =
      [Stack.state later] := by
  induction shifts with
  | nil => rfl
  | cons first _ induction =>
      rw [trace_of_feed first, List.length_cons, List.drop_succ_cons]
      exact induction

/-- The states in which the terminals are taken do not depend on what comes later. -/
theorem take_states_append (shifts : parser.Shifts stack terminals later) (rest : List (τ × κ)) :
    (Stack.state stack :: parser.trace stack (terminals ++ rest)).take terminals.length =
      (Stack.state stack :: parser.trace stack terminals).take terminals.length := by
  rw [shifts.trace_append, ← List.cons_append, List.take_append_of_le_length]
  rw [List.length_cons, shifts.length_trace]
  omega

/-- The states behind the terminals do not depend on how the machine came there. -/
theorem drop_states_append (shifts : parser.Shifts stack terminals later) (rest : List (τ × κ)) :
    (Stack.state stack :: parser.trace stack (terminals ++ rest)).drop terminals.length =
      Stack.state later :: parser.trace later rest := by
  rw [shifts.trace_append, ← List.cons_append, List.drop_append_of_le_length, shifts.drop_states]
  · rfl
  · rw [List.length_cons, shifts.length_trace]
    omega

theorem drop_states_concat (shifts : parser.Shifts stack terminals between)
    (last : parser.feed between (some terminal) = .ok (.shifted later)) :
    (Stack.state stack :: parser.trace stack (terminals ++ [terminal])).drop terminals.length =
      [Stack.state between, Stack.state later] := by
  rw [shifts.drop_states_append, trace_of_feed last]
  rfl

theorem run_append (shifts : parser.Shifts stack terminals later) (rest : List (τ × κ)) :
    parser.run stack (terminals ++ rest) = parser.run later rest := by
  induction shifts with
  | nil => rfl
  | cons first _ induction => rw [List.cons_append, run, first]; exact induction

theorem path (valid : parser.Valid) (graded : parser.rules.Graded rank)
    (grounded : parser.Grounded) (shifts : parser.Shifts stack terminals later)
    (path : parser.Path stack) : parser.Path later := by
  induction shifts with
  | nil => exact path
  | cons first _ induction => exact induction (path.feed valid graded grounded first)

/-- The terminals stand on the stack, below trees that follow the grammar. -/
theorem follows (shifts : parser.Shifts stack terminals later)
    (isFollowed : stack.Follows parser.rules) :
    later.Follows parser.rules ∧ later.leaves = stack.leaves ++ terminals := by
  induction shifts with
  | nil => exact ⟨isFollowed, (List.append_nil _).symm⟩
  | cons first _ induction =>
      rcases settle_shifted first isFollowed with ⟨nextFollowed, leaves⟩
      rcases induction nextFollowed with ⟨laterFollowed, laterLeaves⟩
      refine ⟨laterFollowed, ?_⟩
      rw [laterLeaves, leaves, Option.toList_some, List.append_assoc, List.singleton_append]

/-- The machine stands behind the last of the terminals. -/
theorem behind (shifts : parser.Shifts stack terminals later) {before : Option τ}
    (isBehind : parser.Behind stack before) :
    parser.Behind later ((terminals.getLast?.map Prod.fst).or before) := by
  induction shifts generalizing before with
  | nil => exact isBehind
  | @cons stack between later terminal terminals first further induction =>
      have behindLast := induction (behind_of_feed first).2
      rw [List.getLast?_cons]
      cases last : terminals.getLast? with
      | none => simpa [last] using behindLast
      | some found => simpa [last] using behindLast

theorem behind_last (shifts : parser.Shifts [] terminals later) :
    parser.Behind later (terminals.getLast?.map Prod.fst) := by
  have bottom : parser.Behind ([] : Stack τ ν κ) none := rfl
  have isBehind := shifts.behind bottom
  rwa [Option.or_none] at isBehind

end Shifts

/-- Whatever is run is put on the stack, one terminal after the other. -/
theorem exists_shifts_of_run (built : parser.run stack (terminals ++ rest) = .ok tree) :
    ∃ later, parser.Shifts stack terminals later ∧ parser.run later rest = .ok tree := by
  induction terminals generalizing stack with
  | nil => exact ⟨stack, .nil, built⟩
  | cons terminal terminals induction =>
      rcases exists_feed_of_run built with ⟨between, first, further⟩
      rcases induction further with ⟨later, shifts, behind⟩
      exact ⟨later, .cons first shifts, behind⟩

end ShaderReflection.Grammar.Parser

namespace ShaderReflection.Wgsl

open ShaderReflection.Grammar ShaderReflection.Text Lexeme

variable {source text front row rest word : List Char} {tokens : List (Terminal × Token)}
  {stack later : Stack Terminal Nonterminal Token} {letter : Terminal}

/-! ## Where reading stands -/

/-- The front of a text falls into tokens, each read with what the machine knows once those before
it are on its stack, and trivia stands behind the last of them. -/
structure Paused (tokens : List (Terminal × Token)) (stack : Stack Terminal Nonterminal Token)
    (front row rest : List Char) : Prop where
  shifts : parser.Shifts [] tokens stack
  reads : Reads (0 :: parser.trace [] tokens) Position.start front tokens (row ++ rest)
  skipped : Skipped row rest

theorem paused_start (text : List Char) : Paused [] [] [] [] text := ⟨.nil, .nil, .nil⟩

/-- One more piece of trivia. -/
theorem Paused.skip (paused : Paused tokens stack front row (word ++ rest))
    (skipped : Skipped word rest) : Paused tokens stack front (row ++ word) rest where
  shifts := paused.shifts
  reads := by
    rw [List.append_assoc]
    exact paused.reads
  skipped := paused.skipped.append skipped

/-- One more token. -/
theorem Paused.shift {position : Position}
    (paused : Paused tokens stack front row (word ++ rest))
    (isPosition : position = Position.start.advance (front ++ row))
    (reads : (language.known (Stack.state stack)).read (word ++ rest) = some ⟨some letter, word⟩)
    (shifts : parser.feed stack (some (letter, ⟨position, word⟩)) = .ok (.shifted later)) :
    Paused (tokens ++ [(letter, ⟨position, word⟩)]) later (front ++ (row ++ word)) [] rest where
  shifts := paused.shifts.append (.cons shifts .nil)
  reads := by
    have before : Reads (0 :: parser.trace [] (tokens ++ [(letter, ⟨position, word⟩)]))
        Position.start front tokens ((row ++ word) ++ rest) := by
      rw [List.append_assoc]
      exact paused.reads.congr_states (congrArg _ (paused.shifts.take_states_append _))
    have single : Reads [Stack.state stack, Stack.state later] (Position.start.advance front)
        (row ++ (word ++ [])) [(letter, ⟨(Position.start.advance front).advance row, word⟩)] rest :=
      .cons paused.skipped reads .nil
    rw [← Position.advance_append, ← isPosition, List.append_nil] at single
    rw [List.nil_append]
    refine before.append ?_
    have states := paused.shifts.drop_states_concat shifts
    exact states ▸ single
  skipped := .nil

/-- The last token, and the pause before it. -/
theorem Paused.exists_last {last : Terminal × Token}
    (paused : Paused (tokens ++ [last]) stack front row rest) :
    ∃ between before stretch, front = before ++ (stretch ++ last.2.text) ∧
      Paused tokens between before stretch (last.2.text ++ (row ++ rest)) ∧
      last.2.start = Position.start.advance (before ++ stretch) ∧
      (language.known (Stack.state between)).read (last.2.text ++ (row ++ rest)) =
        some ⟨some last.1, last.2.text⟩ ∧
      parser.feed between (some last) = .ok (.shifted stack) := by
  rcases paused.shifts.exists_append with ⟨between, shifts, lastShifts⟩
  rcases lastShifts with _ | ⟨first, ⟨⟩⟩
  rcases paused.reads.exists_append with ⟨left, right, rfl, isLeft, isRight⟩
  have states : (0 :: parser.trace [] (tokens ++ [last])).drop tokens.length =
      [Stack.state between, Stack.state stack] := shifts.drop_states_concat first
  rw [states] at isRight
  cases isRight with
  | @cons _ _ _ stretch word back _ letter _ skipped reads further =>
      cases further
      rw [List.append_nil] at isLeft ⊢
      refine ⟨between, left, stretch, rfl, ⟨shifts, ?_, skipped⟩, ?_, reads, first⟩
      · rw [List.append_assoc] at isLeft
        exact isLeft.congr_states (congrArg _ (shifts.take_states_append _)).symm
      · rw [Position.advance_append]

/-- Whatever reading comes through is a pause. -/
theorem exists_paused_of_reaches {progress : Progress Terminal Nonterminal}
    (reached : language.Reaches source progress) :
    ∃ tokens front row, source = front ++ (row ++ progress.rest) ∧
      Paused tokens progress.stack front row progress.rest ∧
      progress.position = Position.start.advance (front ++ row) ∧
      progress.last = (tokens.getLast?.map fun token => token.2.start).getD Position.start := by
  induction reached with
  | start => exact ⟨[], [], [], rfl, paused_start source, rfl, rfl⟩
  | @more progress later reached steps induction =>
      rcases induction with ⟨tokens, front, row, isSource, paused, isPosition, isLast⟩
      rcases Language.more_of_step steps with ⟨lexeme, reads, isPlace, isRest, goesOn⟩
      have isWhole : progress.rest = lexeme.text ++ later.rest := by
        rcases ((Language.known_honest lexicon_honest _).isPrefix reads).1 with ⟨rest, isWhole⟩
        rw [isRest, ← isWhole, List.drop_left]
      rw [isWhole] at isSource paused reads
      rcases lexeme with ⟨terminal, word⟩
      have isLater : later.position = Position.start.advance (front ++ (row ++ word)) := by
        rw [isPlace, isPosition, ← Position.advance_append, List.append_assoc]
      rcases goesOn with ⟨isTrivia, sameStack, sameLast⟩ | ⟨letter, isToken, shifts, isStart⟩
      · cases isTrivia
        rcases exists_trivia_of_read reads with ⟨kind, rest, isText, isPiece, ends⟩
        obtain rfl := List.append_cancel_left isText
        have piece : Skipped word later.rest := by
          rw [← List.append_nil word]
          exact .cons kind isPiece ends .nil
        rw [sameStack]
        refine ⟨tokens, front, row ++ word, ?_, paused.skip piece, isLater, ?_⟩
        · rw [isSource, List.append_assoc]
        · rw [sameLast, isLast]
      · cases isToken
        have further := paused.shift isPosition reads shifts
        refine ⟨_, _, _, ?_, further, ?_, ?_⟩
        · rw [isSource]
          simp
        · rw [isLater, List.append_nil]
        · rw [isStart]
          simp

end ShaderReflection.Wgsl
