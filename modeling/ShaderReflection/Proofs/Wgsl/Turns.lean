import ShaderReflection.Proofs.Wgsl.Reads

/-!
# One token at a time

When a token of an accepted text has its turn, the machine stands behind the token before it, reads
the token with what it knows there and puts it on its stack (`Turn`). What holds of all turns is
what the states of the automaton have in common, so facts about tokens side by side start from here.
-/

namespace ShaderReflection.Grammar.Parser

variable {τ ν κ : Type} [Alphabet τ] [Alphabet ν] [DecidableEq τ] [DecidableEq ν]
  {parser : Parser τ ν} {rank : ν → Nat} {stack later : Stack τ ν κ} {terminal : τ × κ}
  {before after : List (τ × κ)} {tree : Derivation τ ν κ}

theorem exists_below_of_settle {letter : τ} {token : κ} {fuel : Nat}
    (shifts : parser.settle (some (letter, token)) fuel stack = .ok (.shifted later)) :
    ∃ target below, later = ⟨target, .leaf letter token⟩ :: below := by
  induction fuel generalizing stack with
  | zero => cases shifts
  | succ fuel induction =>
      cases acts : parser.action (Stack.state stack) (some letter) with
      | none => simp [settle, acts] at shifts
      | some action =>
          cases action with
          | shift target =>
              simp only [settle, Option.map_some, acts] at shifts
              cases shifts
              exact ⟨target, stack, rfl⟩
          | reduce rule =>
              simp only [settle, Option.map_some, acts] at shifts
              split at shifts
              · exact induction shifts
              · cases shifts
          | accept =>
              simp only [settle, Option.map_some, acts] at shifts
              split at shifts
              · split at shifts <;> cases shifts
              · cases shifts

/-- A terminal that has been shifted is on top of the stack. -/
theorem exists_below_of_feed {letter : τ} {token : κ}
    (shifts : parser.feed stack (some (letter, token)) = .ok (.shifted later)) :
    ∃ target below, later = ⟨target, .leaf letter token⟩ :: below :=
  exists_below_of_settle shifts

/-- The machine stays on a path of the automaton. -/
theorem Path.feed (valid : parser.Valid) (graded : parser.rules.Graded rank)
    (grounded : parser.Grounded) (path : parser.Path stack)
    (shifts : parser.feed stack (some terminal) = .ok (.shifted later)) : parser.Path later := by
  have safe := feed_safe valid graded grounded path (some terminal)
  rw [shifts] at safe
  exact safe.2.1

/-- The terminal that was shifted last, if there is one, is on top of a stack. -/
def OnTop (last : Option (τ × κ)) (stack : Stack τ ν κ) : Prop :=
  stack.head?.map Frame.tree = last.map fun terminal => .leaf terminal.1 terminal.2

omit [DecidableEq τ] [DecidableEq ν] in
theorem Path.behind (path : parser.Path stack) {last : Option (τ × κ)}
    (onTop : OnTop last stack) : parser.Behind stack (last.map Prod.fst) := by
  cases path with
  | nil =>
      cases last with
      | none => rfl
      | some terminal => cases onTop
  | cons below leads =>
      cases last with
      | none => cases onTop
      | some terminal =>
          rw [Option.some.inj onTop] at leads
          exact ⟨_, leads⟩

/-- A run comes to each of its terminals on a path, with the terminal before it on top. -/
theorem exists_stack_of_run (valid : parser.Valid) (graded : parser.rules.Graded rank)
    (grounded : parser.Grounded) (path : parser.Path stack) {first : Option (τ × κ)}
    (onTop : OnTop first stack)
    (built : parser.run stack (before ++ terminal :: after) = .ok tree) :
    ∃ on : Stack τ ν κ, parser.Path on ∧ OnTop (before.getLast?.or first) on ∧
      parser.run on (terminal :: after) = .ok tree ∧
      (Stack.state stack :: parser.trace stack (before ++ terminal :: after)).drop before.length =
        Stack.state on :: parser.trace on (terminal :: after) := by
  induction before generalizing stack first with
  | nil => exact ⟨stack, path, onTop, built, rfl⟩
  | cons earlier before induction =>
      rcases earlier with ⟨letter, token⟩
      rcases exists_feed_of_run built with ⟨next, shifts, further⟩
      have nextPath := path.feed valid graded grounded shifts
      have nextOnTop : OnTop (some (letter, token)) next := by
        rcases exists_below_of_feed shifts with ⟨target, below, rfl⟩
        rfl
      rcases induction nextPath nextOnTop further with ⟨on, onPath, isOnTop, later, states⟩
      refine ⟨on, onPath, ?_, later, ?_⟩
      · rw [List.getLast?_cons]
        cases last : before.getLast? <;> simpa [last] using isOnTop
      · rw [List.cons_append, trace_of_feed shifts, List.length_cons, List.drop_succ_cons]
        exact states

end ShaderReflection.Grammar.Parser

namespace ShaderReflection.Wgsl

open ShaderReflection.Grammar ShaderReflection.Text Lexeme

variable {source text : List Char} {states : List Nat} {position : Position}
  {leaf second : Terminal × Token} {before after : List (Terminal × Token)}
  {stack later : Stack Terminal Nonterminal Token}

/-- A token of a text is read where it starts, and the tokens behind it cover the text behind it. -/
theorem Covers.exists_token (covers : Covers states position text (before ++ leaf :: after))
    (isRest : source.drop position.offset = text) :
    ∃ state others, states.drop before.length = state :: others ∧
      (language.known state).read (source.drop leaf.2.start.offset) =
        some ⟨some leaf.1, leaf.2.text⟩ ∧
      Covers others (leaf.2.start.advance leaf.2.text) (source.drop leaf.2.span.stop) after := by
  rcases covers with ⟨whole, last, rfl, skipped, reads⟩
  rcases reads.exists_append with ⟨front, back, rfl, -, isBack⟩
  rw [List.append_assoc] at isRest
  have atBack := Position.drop_advance isRest
  generalize isDrop : states.drop before.length = remaining at isBack
  cases isBack with
  | @cons state others _ row word back _ letter _ _ reads further =>
      rw [List.append_assoc, List.append_assoc] at atBack
      have atToken := Position.drop_advance atBack
      have behind := Position.drop_advance atToken
      refine ⟨state, others, rfl, ?_, back, last, ?_, skipped, further⟩
      · rw [atToken]
        exact reads
      · rw [← behind, Position.offset_advance]
        rfl

/-- In front of a token of a text stand the tokens before it, and trivia behind them. -/
theorem Covers.exists_front
    (covers : Covers states Position.start source (before ++ leaf :: after)) :
    ∃ front row, source.take leaf.2.start.offset = front ++ row ∧
      Skipped row (source.drop leaf.2.start.offset) ∧
      Reads states Position.start front before (row ++ source.drop leaf.2.start.offset) := by
  rcases covers with ⟨whole, last, rfl, -, reads⟩
  rcases reads.exists_append with ⟨front, back, rfl, inFront, isBack⟩
  generalize states.drop before.length = remaining at isBack
  cases isBack with
  | @cons _ _ _ row word back _ letter _ skipped _ _ =>
      have isStart : ((Position.start.advance front).advance row).offset =
          (front ++ row).length := by
        simp [Position.start]
      have isSource : front ++ (row ++ (word ++ back)) ++ last =
          (front ++ row) ++ (word ++ (back ++ last)) := by
        simp
      refine ⟨front, row, ?_, ?_, ?_⟩
      · rw [isSource, isStart, List.take_left]
      · rw [isSource, isStart, List.drop_left]
        exact skipped
      · rw [isSource, isStart, List.drop_left]
        simpa using inFront

/-- A token of a text at its turn, between the stack that the machine has and its next one. -/
structure Turn (source : List Char) (before : List (Terminal × Token)) (leaf : Terminal × Token)
    (after : List (Terminal × Token)) (stack later : Stack Terminal Nonterminal Token) : Prop where
  path : parser.Path stack
  onTop : Parser.OnTop before.getLast? stack
  reads : (language.known (Stack.state stack)).read (source.drop leaf.2.start.offset) =
    some ⟨some leaf.1, leaf.2.text⟩
  shifts : parser.feed stack (some leaf) = .ok (.shifted later)
  states : (0 :: parser.trace [] (before ++ leaf :: after)).drop before.length =
    Stack.state stack :: Stack.state later :: parser.trace later after
  built : ∃ tree, parser.run later after = .ok tree
  covers : Covers (Stack.state later :: parser.trace later after)
    (leaf.2.start.advance leaf.2.text) (source.drop leaf.2.span.stop) after

/-- Every token of a text has its turn. -/
theorem exists_turn {tree : Derivation Terminal Nonterminal Token}
    (built : parser.run [] (before ++ leaf :: after) = .ok tree)
    (covers : Covers (0 :: parser.trace [] (before ++ leaf :: after)) Position.start source
      (before ++ leaf :: after)) :
    ∃ stack later, Turn source before leaf after stack later := by
  have atStart : Parser.OnTop none ([] : Stack Terminal Nonterminal Token) := rfl
  rcases Parser.exists_stack_of_run parser_valid rules_graded parser_grounded .nil atStart built
    with ⟨stack, path, onTop, further, areStates⟩
  rw [Option.or_none] at onTop
  rcases covers.exists_token rfl with ⟨state, others, isDrop, reads, isBehind⟩
  rcases leaf with ⟨letter, token⟩
  rcases Parser.exists_feed_of_run further with ⟨later, shifts, finishes⟩
  rw [Parser.trace_of_feed shifts] at areStates
  cases isDrop.symm.trans areStates
  exact ⟨stack, later, path, onTop, reads, shifts, isDrop, ⟨tree, finishes⟩, isBehind⟩

namespace Turn

/-- The machine knows the token that it reads. -/
theorem accepts (turn : Turn source before leaf after stack later) :
    parser.accepts (Stack.state stack) leaf.1 = true :=
  accepted_of_read turn.reads

theorem behind (turn : Turn source before leaf after stack later) :
    parser.Behind stack (before.getLast?.map Prod.fst) :=
  turn.path.behind turn.onTop

/-- After its turn the machine stands behind the token. -/
theorem behind_later (turn : Turn source before leaf after stack later) :
    parser.Behind later (some leaf.1) :=
  (Parser.behind_of_feed turn.shifts).2

/-- The next token has the next turn. -/
theorem next (turn : Turn source before leaf (second :: after) stack later) :
    ∃ last, Turn source (before ++ [leaf]) second after later last := by
  rcases turn.built with ⟨tree, built⟩
  rcases Parser.exists_feed_of_run built with ⟨last, shifts, further⟩
  have covers := turn.covers
  rw [Parser.trace_of_feed shifts] at covers
  have isRest : source.drop (leaf.2.start.advance leaf.2.text).offset =
      source.drop leaf.2.span.stop := by
    rw [Position.offset_advance, Token.span]
  have covered : Covers _ _ _ ([] ++ second :: after) := covers
  rcases covered.exists_token isRest with ⟨state, others, isDrop, reads, isBehind⟩
  cases isDrop
  refine ⟨last, turn.path.feed parser_valid rules_graded parser_grounded turn.shifts, ?_, reads,
    shifts, ?_, ⟨tree, further⟩, isBehind⟩
  · rcases Parser.exists_below_of_feed turn.shifts with ⟨target, below, rfl⟩
    rw [List.getLast?_concat]
    rfl
  · have areStates := congrArg List.tail turn.states
    rw [List.tail_drop, List.tail_cons, Parser.trace_of_feed shifts] at areStates
    rw [List.append_assoc, List.length_append, List.length_singleton]
    exact areStates

end Turn

end ShaderReflection.Wgsl
