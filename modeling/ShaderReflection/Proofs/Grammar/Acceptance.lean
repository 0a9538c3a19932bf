import ShaderReflection.Proofs.Grammar.Validity

/-!
# What a state accepts

The terminals that a state accepts decide how the next lexeme is read. A terminal that the machine
puts on its stack was one of them, and its edge leads to the state that comes next.
-/

namespace ShaderReflection.Grammar

theorem Lookaheads.contains_foldl {α : Type} {step : Lookaheads → α → Lookaheads}
    (adds : α → Bool) {ahead : Option Nat}
    (one : ∀ set element, (step set element).contains ahead =
      (set.contains ahead || adds element)) (list : List α) (set : Lookaheads) :
    (list.foldl step set).contains ahead = (set.contains ahead || list.any adds) := by
  induction list generalizing set with
  | nil => simp
  | cons element list induction =>
      rw [List.foldl_cons, induction, one, List.any_cons, Bool.or_assoc]

namespace State

variable {state : State} {ahead : Option Nat}

/-- A state accepts what it has an edge for, and the lookaheads of its complete items. -/
theorem contains_accepted : state.accepted.contains ahead =
    ((state.edges.any fun edge =>
        match edge.1 with
        | .terminal letter => decide (ahead = some letter)
        | .nonterminal _ => false) ||
      state.items.any fun item => item.rest.isEmpty && item.ahead.contains ahead) := by
  rw [accepted,
    Lookaheads.contains_foldl fun item => item.rest.isEmpty && item.ahead.contains ahead,
    Lookaheads.contains_foldl fun edge : Symbol Nat Nat × Nat =>
      match edge.1 with
      | .terminal letter => decide (ahead = some letter)
      | .nonterminal _ => false]
  · rw [Lookaheads.contains_empty, Bool.false_or]
  · rintro set ⟨letter | letter, target⟩
    · simp
    · simp
  · intro set item
    cases item.rest with
    | nil => simp
    | cons symbol rest => simp

theorem accepts_of_target? {letter target : Nat}
    (leads : state.target? (.terminal letter) = some target) :
    state.accepted.contains (some letter) = true := by
  rw [contains_accepted, Bool.or_eq_true]
  exact .inl (List.any_eq_true.mpr ⟨_, target?_eq_some leads, by simp⟩)

theorem accepts_of_complete? {rule : Nat} (completes : state.complete? ahead = some rule) :
    state.accepted.contains ahead = true := by
  rcases Option.map_eq_some_iff.mp completes with ⟨item, search, -⟩
  have passes := List.find?_some search
  rw [contains_accepted, Bool.or_eq_true]
  exact .inr (List.any_eq_true.mpr ⟨item, List.mem_of_find?_eq_some search, passes⟩)

end State

namespace Parser

variable {τ ν κ : Type} [Alphabet τ] {parser : Parser τ ν} {number : Nat} {letter : τ}

theorem accepts_of_action {action : Action τ ν}
    (acts : parser.action number (some letter) = some action) :
    parser.accepts number letter = true := by
  simp only [Parser.action, Option.bind_some, Option.map_some] at acts
  split at acts
  · rename_i target leads
    exact State.accepts_of_target? leads
  · split at acts
    · cases acts
    · rename_i completes
      exact State.accepts_of_complete? completes
    · rename_i completes
      exact State.accepts_of_complete? completes

theorem target?_of_action_shift {target : Nat}
    (acts : parser.action number (some letter) = some (.shift target)) :
    (parser.state number).target? (.terminal (Alphabet.number letter)) = some target := by
  simp only [Parser.action, Option.bind_some] at acts
  split at acts
  · rename_i leads
    cases acts
    exact leads
  · split at acts
    · cases acts
    · cases acts
    · rcases Option.map_eq_some_iff.mp acts with ⟨rule, -, isReduction⟩
      cases isReduction

/-- Where the machine stands: at the beginning, or behind the terminal that it put on the stack
last. -/
def Behind (parser : Parser τ ν) (stack : Stack τ ν κ) : Option τ → Prop
  | none => stack = []
  | some letter => ∃ number, (parser.state number).target? (.terminal (Alphabet.number letter)) =
      some (Stack.state stack)

variable [Alphabet ν] [DecidableEq τ] [DecidableEq ν] {stack later : Stack τ ν κ} {token : κ}

theorem behind_of_settle {fuel : Nat}
    (shifts : parser.settle (some (letter, token)) fuel stack = .ok (.shifted later)) :
    parser.accepts (Stack.state stack) letter = true ∧ parser.Behind later (some letter) := by
  induction fuel generalizing stack with
  | zero => cases shifts
  | succ fuel induction =>
      cases acts : parser.action (Stack.state stack) (some letter) with
      | none => simp [settle, acts] at shifts
      | some action =>
          refine ⟨accepts_of_action acts, ?_⟩
          cases action with
          | shift target =>
              simp only [settle, Option.map_some, acts] at shifts
              cases shifts
              exact ⟨_, target?_of_action_shift acts⟩
          | reduce rule =>
              simp only [settle, Option.map_some, acts] at shifts
              split at shifts
              · exact (induction shifts).2
              · cases shifts
          | accept =>
              simp only [settle, Option.map_some, acts] at shifts
              split at shifts
              · split at shifts <;> cases shifts
              · cases shifts

/-- A terminal is put on the stack only if the state on top accepts it. -/
theorem behind_of_feed
    (shifts : parser.feed stack (some (letter, token)) = .ok (.shifted later)) :
    parser.accepts (Stack.state stack) letter = true ∧ parser.Behind later (some letter) :=
  behind_of_settle shifts

theorem exists_feed_of_run {terminals : List (τ × κ)} {tree : Derivation τ ν κ}
    (built : parser.run stack ((letter, token) :: terminals) = .ok tree) :
    ∃ later, parser.feed stack (some (letter, token)) = .ok (.shifted later) ∧
      parser.run later terminals = .ok tree := by
  rw [run] at built
  split at built
  · rename_i later shifts
    exact ⟨later, shifts, built⟩
  · cases built
  · cases built

end Parser

end ShaderReflection.Grammar
