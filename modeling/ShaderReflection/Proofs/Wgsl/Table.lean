import ShaderReflection.Proofs.Grammar.Trace
import ShaderReflection.Proofs.Grammar.Viable
import ShaderReflection.Proofs.Wgsl.Context
import ShaderReflection.Wgsl.Language

/-!
# The automaton of the shading language

The automaton is closed data, so its properties are found by evaluation. Everything else in this
library uses the facts stated here and never looks into the table.
-/

namespace ShaderReflection.Wgsl

open ShaderReflection.Grammar

/-! ## Validity -/

/-- How many rules with a single symbol can stand on top of each other below a nonterminal. -/
def Nonterminal.rank : Nonterminal → Nat
  | .identifier | .intLiteral | .floatLiteral | .boolLiteral | .stringLiteral => 1
  | .addressSpace | .accessMode | .predeclaredType | .constantKeyword | .blockParts => 1
  | .globalItem | .attributeRun | .structMember | .parameter => 1
  | .globalItems | .attributes | .parameterList | .primary | .typeDeclaration => 2
  | .translationUnit | .postfixed | .templateArgument => 3
  | .unary => 4
  | .expression => 5
  | .attributeArguments => 6
  | _ => 0

theorem rules_graded : rules.Graded Nonterminal.rank := by
  refine Rules.graded_of_tests ?bounded (by decide +kernel)
  intro letter
  have count : rules.list.length = 139 := by decide +kernel
  rw [count]
  cases letter <;> decide

/-! ## Tests -/

/-- A set of terminals. -/
def Terminal.set (letters : List Terminal) : Lookaheads :=
  letters.foldl (fun set letter => set.union (.singleton (some (Alphabet.number letter)))) .empty

theorem Terminal.contains_set {letters : List Terminal} {letter : Terminal}
    (isMember : (set letters).contains (some (Alphabet.number letter)) = true) :
    letter ∈ letters := by
  rw [set, Lookaheads.contains_foldl fun other =>
      decide (some (Alphabet.number letter) = some (Alphabet.number other)),
    Lookaheads.contains_empty, Bool.false_or, List.any_eq_true] at isMember
  · rcases isMember with ⟨other, isOther, sameNumber⟩
    have same : letter = other :=
      Alphabet.number_injective _ _ (Option.some.inj (of_decide_eq_true sameNumber))
    rw [same]
    exact isOther
  · intro set other
    rw [Lookaheads.contains_union, Lookaheads.contains_singleton]

def has (accepted : Lookaheads) (letter : Terminal) : Bool :=
  accepted.contains (some (Alphabet.number letter))

theorem accepts_eq_has (number : Nat) (letter : Terminal) :
    parser.accepts number letter = has (parser.state number).accepted letter :=
  rfl

/-- The test for `Lexeme.Coherent`. -/
def keepsApart (accepted : Lookaheads) : Bool :=
  (!has accepted .bodyText ||
      (Terminal.set [.bodyText, .leftBrace, .rightBrace]).covers accepted) &&
    (!has accepted .arrow || (Terminal.set [.arrow, .leftBrace]).covers accepted) &&
    (!has accepted .binaryOperator || !has accepted .unaryOperator && !has accepted .less) &&
    (!has accepted .typeName || has accepted .identifier)

/-- What is acceptable behind a terminal: only braces and more text behind the text of a body, and
of two meanings of `>` the operator alone, if the terminal is no name and no integer. -/
def suits (letter : Nat) (accepted : Lookaheads) : Bool :=
  (!Nat.beq letter (Alphabet.number Terminal.bodyText) ||
      (Terminal.set [.bodyText, .leftBrace, .rightBrace]).covers accepted) &&
    (!has accepted .binaryOperator || has accepted .greater ==
      (Nat.beq letter (Alphabet.number Terminal.identifier) ||
        Nat.beq letter (Alphabet.number Terminal.intLiteral)))

/-- Reserved words that a declaration or a directive begins with. -/
def itemWords : List Terminal :=
  [.enableWord, .requiresWord, .structWord, .fnWord, .varWord, .constWord, .overrideWord,
    .aliasWord, .constAssertWord]

/-- Numbers and the reserved words that stand for a value or a type. -/
def constants : List Terminal := [.intLiteral, .floatLiteral, .trueWord, .falseWord, .typeName]

/-- Terminals whose texts may begin with a letter, a digit or an underscore. -/
def wordTerminals : List Terminal := itemWords ++ constants ++ [.identifier, .bodyText]

def isAmong (letters : List Terminal) (letter : Nat) : Bool :=
  letters.any fun other => Nat.beq letter (Alphabet.number other)

theorem isAmong_iff {letters : List Terminal} {letter : Terminal} :
    isAmong letters (Alphabet.number letter) = true ↔ letter ∈ letters := by
  rw [isAmong, List.any_eq_true]
  constructor
  · rintro ⟨other, isOther, same⟩
    rw [Alphabet.number_injective _ _ (Nat.eq_of_beq_eq_true same)]
    exact isOther
  · intro isLetter
    exact ⟨letter, isLetter, Nat.beq_refl _⟩

/-- What is acceptable behind a terminal: no word behind a constant, words of items in the middle of
an item only where any word is, and a unary operator behind a binary one. -/
def follows (letter : Nat) (accepted : Lookaheads) : Bool :=
  (!isAmong constants letter || wordTerminals.all (!has accepted ·)) &&
    (isAmong [.semicolon, .rightBrace] letter || has accepted .identifier ||
      itemWords.all (!has accepted ·)) &&
    (!isAmong [.binaryOperator] letter || has accepted .unaryOperator)

def reduction? : Action Terminal Nonterminal → Option (Rule Terminal Nonterminal)
  | .reduce rule => some rule
  | _ => none

def shift? : Action Terminal Nonterminal → Option Nat
  | .shift target => some target
  | _ => none

/-- The terminal on top is all that a rule is made of, and `>` comes behind it once. -/
def closesOnce (state : State) (target : Nat) : Bool :=
  ((parser.action target (some .greater)).bind reduction?).any fun rule =>
    Nat.beq rule.body.length 1 &&
      (state.target? (.nonterminal (Alphabet.number rule.head))).all fun next =>
        ((parser.action next (some .greater)).bind shift?).any fun last =>
          !has (parser.state last).accepted .greater

/-- Behind a name or an integer that `>` may follow, an operator may follow as well, unless there
are no two of `>` to come. -/
def closes (state : State) (letter target : Nat) : Bool :=
  !isAmong [.identifier, .intLiteral] letter ||
    has (parser.state target).accepted .binaryOperator ||
    !has (parser.state target).accepted .greater || closesOnce state target

/-- Where the input may end, the same terminals are acceptable as at the beginning. -/
def beginsAnew (accepted : Lookaheads) : Bool :=
  !accepted.contains none || accepted == (parser.state 0).accepted

/-- The test for a state and for the states behind its terminals. -/
def isSuited (state : State) : Bool :=
  keepsApart state.accepted && state.edges.all fun edge =>
    match edge.1 with
    | .terminal letter =>
        suits letter (parser.state edge.2).accepted &&
          follows letter (parser.state edge.2).accepted && closes state letter edge.2 &&
          beginsAnew (parser.state edge.2).accepted
    | .nonterminal _ => true

/-- The nonterminals that a module and its rows of items are made of. -/
def outerSymbols : List (Grammar.Symbol Terminal Nonterminal) :=
  [.nonterminal .translationUnit, .nonterminal .globalItems, .nonterminal .globalItem]

/-- The state behind a row of items. -/
def itemState : Nat := parser.after 0 (.nonterminal .globalItems)

def isInner (edge : Grammar.Symbol Nat Nat × Nat) : Bool :=
  outerSymbols.all fun symbol => !edge.1.same symbol.numbered

/-- The terminals that nothing but the body of a function is made of are left out. -/
def isOutside (letter : Nat) : Bool := !Nat.beq letter (Alphabet.number Terminal.bodyText)

/-- What the automaton is tested for. Behind a row of items the machine goes on as at the
beginning. -/
structure Tested : Prop where
  isValid : parser.isValid = true
  isGrounded : parser.isGrounded = true
  isViable : parser.isViable isOutside = true
  noOperator : has (parser.state 0).accepted .binaryOperator = false
  sameEdges : (parser.state 0).edges.filter isInner = (parser.state itemState).edges.filter isInner
  areSuited : parser.automaton.states.all isSuited = true

-- All tests in one evaluation, because building the automaton takes most of the time.
theorem parser_tested : Tested := by
  have tests : (parser.isValid = true ∧ parser.isGrounded = true ∧
      parser.isViable isOutside = true) ∧
      has (parser.state 0).accepted .binaryOperator = false ∧
      (parser.state 0).edges.filter isInner = (parser.state itemState).edges.filter isInner ∧
      parser.automaton.states.all isSuited = true := by
    decide +kernel
  exact ⟨tests.1.1, tests.1.2.1, tests.1.2.2, tests.2.1, tests.2.2.1, tests.2.2.2⟩

theorem parser_valid : parser.Valid := Parser.valid_of_isValid parser_tested.isValid

theorem parser_grounded : parser.Grounded :=
  Parser.grounded_of_tests parser_tested.isValid parser_tested.isGrounded

theorem parser_viable : parser.Viable isOutside :=
  Parser.viable_of_isViable parser_tested.isViable

/-! ## Terminals side by side -/

theorem state_keepsApart (number : Nat) : keepsApart (parser.state number).accepted = true := by
  have passes := Parser.state_passes (by decide) parser_tested.areSuited number
  exact ((Bool.and_eq_true _ _).mp passes).1

/-- What the states behind a terminal are tested for. -/
structure SuitedTo (state : State) (letter target : Nat) : Prop where
  suits : suits letter (parser.state target).accepted = true
  follows : follows letter (parser.state target).accepted = true
  closes : closes state letter target = true
  beginsAnew : beginsAnew (parser.state target).accepted = true

theorem suitedTo_of_target? {number letter target : Nat}
    (leads : (parser.state number).target? (.terminal letter) = some target) :
    SuitedTo (parser.state number) letter target := by
  have passes := Parser.state_passes (by decide) parser_tested.areSuited number
  have edges := List.all_eq_true.mp ((Bool.and_eq_true _ _).mp passes).2 _
    (State.target?_eq_some leads)
  simp only [Bool.and_eq_true] at edges
  exact ⟨edges.1.1.1, edges.1.1.2, edges.1.2, edges.2⟩

/-- In every state, what is written alike is kept apart. -/
theorem parser_coherent (number : Nat) : Lexeme.Coherent (parser.accepts number) := by
  have passes := state_keepsApart number
  simp only [keepsApart, Bool.and_eq_true, Bool.or_eq_true, Bool.not_eq_true'] at passes
  rcases passes with ⟨⟨⟨body, arrow⟩, operator⟩, typeName⟩
  have absent : ∀ {letter}, parser.accepts number letter = true →
      ¬ has (parser.state number).accepted letter = false := by
    intro letter isAccepted isAbsent
    exact Bool.false_ne_true (isAbsent.symm.trans isAccepted)
  refine ⟨?body, ?arrow, ?operator, ?typeName⟩
  case body =>
    intro isBody letter isAccepted
    have covers := body.resolve_left (absent isBody)
    exact Terminal.contains_set (Lookaheads.contains_of_covers covers isAccepted)
  case arrow =>
    intro isArrow letter isAccepted
    have covers := arrow.resolve_left (absent isArrow)
    exact Terminal.contains_set (Lookaheads.contains_of_covers covers isAccepted)
  case operator =>
    intro isBinary
    exact operator.resolve_left (absent isBinary)
  case typeName =>
    intro isType
    exact typeName.resolve_left (absent isType)

section Behind

variable {κ : Type} {stack : Stack Terminal Nonterminal κ}

theorem suits_of_behind {letter : Terminal} (behind : parser.Behind stack (some letter)) :
    suits (Alphabet.number letter) (parser.state (Stack.state stack)).accepted = true := by
  rcases behind with ⟨number, leads⟩
  exact (suitedTo_of_target? leads).suits

theorem covers_behind_body (behind : parser.Behind stack (some .bodyText)) :
    (Terminal.set [.bodyText, .leftBrace, .rightBrace]).covers
      (parser.state (Stack.state stack)).accepted = true := by
  have isBody : Nat.beq (Alphabet.number Terminal.bodyText)
      (Alphabet.number Terminal.bodyText) = true := rfl
  have suited := suits_of_behind behind
  rw [suits, isBody, Bool.not_true, Bool.false_or, Bool.and_eq_true] at suited
  exact suited.1

/-- Behind the text of a body come braces or more text. -/
theorem accepts_behind_body (behind : parser.Behind stack (some .bodyText)) {letter : Terminal}
    (isAccepted : parser.accepts (Stack.state stack) letter = true) :
    letter ∈ [Terminal.bodyText, .leftBrace, .rightBrace] := by
  rw [accepts_eq_has] at isAccepted
  exact Terminal.contains_set
    (Lookaheads.contains_of_covers (covers_behind_body behind) isAccepted)

theorem notAccepts_end_behind_body (behind : parser.Behind stack (some .bodyText)) :
    (parser.state (Stack.state stack)).accepted.contains none ≠ true := by
  intro ends
  have isEnd := Lookaheads.contains_of_covers (covers_behind_body behind) ends
  revert isEnd
  decide

/-- Where an operator may come next, `>` may also close a list if and only if a name or an integer
has just been read. -/
theorem accepts_greater {before : Option Terminal} (behind : parser.Behind stack before)
    (isBinary : parser.accepts (Stack.state stack) .binaryOperator = true) :
    parser.accepts (Stack.state stack) .greater = true ↔
      before = some .identifier ∨ before = some .intLiteral := by
  cases before with
  | none =>
      cases behind
      rw [accepts_eq_has, Stack.state, parser_tested.noOperator] at isBinary
      cases isBinary
  | some letter =>
      have same : ∀ other : Terminal,
          Nat.beq (Alphabet.number letter) (Alphabet.number other) = true ↔ letter = other := by
        intro other
        rw [Nat.beq_eq]
        exact ⟨Alphabet.number_injective letter other, congrArg Alphabet.number⟩
      have suited := suits_of_behind behind
      rw [suits, Bool.and_eq_true] at suited
      have both := suited.2
      rw [accepts_eq_has] at isBinary ⊢
      rw [isBinary, Bool.not_true, Bool.false_or, beq_iff_eq] at both
      rw [both, Bool.or_eq_true, same, same, Option.some.injEq, Option.some.injEq]

theorem follows_of_behind {letter : Terminal} (behind : parser.Behind stack (some letter)) :
    follows (Alphabet.number letter) (parser.state (Stack.state stack)).accepted = true := by
  rcases behind with ⟨number, leads⟩
  exact (suitedTo_of_target? leads).follows

/-- No word comes behind a constant. -/
theorem notAccepts_behind_constant {letter word : Terminal}
    (behind : parser.Behind stack (some letter)) (isConstant : letter ∈ constants)
    (isWord : word ∈ wordTerminals) : parser.accepts (Stack.state stack) word = false := by
  have suited := follows_of_behind behind
  simp only [follows, Bool.and_eq_true, isAmong_iff.mpr isConstant, Bool.not_true,
    Bool.false_or, List.all_eq_true, Bool.not_eq_true'] at suited
  exact suited.1.1 word isWord

/-- In the middle of an item the words of items are acceptable only where all words are. -/
theorem accepts_identifier_of_itemWord {letter word : Terminal}
    (behind : parser.Behind stack (some letter)) (inItem : letter ∉ [.semicolon, .rightBrace])
    (isWord : word ∈ itemWords) (isAccepted : parser.accepts (Stack.state stack) word = true) :
    parser.accepts (Stack.state stack) .identifier = true := by
  have suited := follows_of_behind behind
  have notEnd := Bool.eq_false_iff.mpr (inItem ∘ isAmong_iff.mp)
  simp only [follows, Bool.and_eq_true, notEnd, Bool.false_or, Bool.or_eq_true,
    List.all_eq_true, Bool.not_eq_true'] at suited
  rcases suited.1.2 with isIdentifier | noWord
  · exact isIdentifier
  · rw [accepts_eq_has, noWord word isWord] at isAccepted
    cases isAccepted

theorem accepts_unary_behind_binary (behind : parser.Behind stack (some .binaryOperator)) :
    parser.accepts (Stack.state stack) .unaryOperator = true := by
  have suited := follows_of_behind behind
  have isBinary := isAmong_iff.mpr (List.mem_singleton_self Terminal.binaryOperator)
  rw [follows, Bool.and_eq_true, isBinary, Bool.not_true, Bool.false_or] at suited
  exact suited.2

end Behind

/-! ## Items side by side -/

theorem after_itemState {symbol : Grammar.Symbol Terminal Nonterminal}
    (notOuter : symbol ∉ outerSymbols) :
    parser.after itemState symbol = parser.after 0 symbol := by
  have inner : ∀ edge : Grammar.Symbol Nat Nat × Nat, edge.1.same symbol.numbered = true →
      isInner edge = true := by
    intro edge same
    rw [isInner, List.all_eq_true]
    intro other isOther
    rw [Symbol.same_iff.mp same, Bool.not_eq_true', Bool.eq_false_iff]
    intro sameToo
    exact notOuter (Symbol.numbered_injective (Symbol.same_iff.mp sameToo) ▸ isOther)
  have only : ∀ edges : List (Grammar.Symbol Nat Nat × Nat),
      (edges.find? fun edge => edge.1.same symbol.numbered) =
        (edges.filter isInner).find? fun edge => edge.1.same symbol.numbered := by
    intro edges
    rw [List.find?_filter]
    congr 1
    funext edge
    cases same : edge.1.same symbol.numbered with
    | false => simp
    | true => simp [inner edge same]
  rw [Parser.after, Parser.after, State.target?, State.target?, only (parser.state 0).edges,
    only (parser.state itemState).edges, parser_tested.sameEdges]

/-- Where the input may end, the next lexeme is read as at the beginning. -/
theorem known_of_end {κ : Type} {stack : Stack Terminal Nonterminal κ} {before : Option Terminal}
    (behind : parser.Behind stack before)
    (ends : (parser.state (Stack.state stack)).accepted.contains none = true) :
    language.known (Stack.state stack) = language.known 0 := by
  cases before with
  | none =>
      cases behind
      rfl
  | some letter =>
      rcases behind with ⟨number, leads⟩
      have passes := (suitedTo_of_target? leads).beginsAnew
      rw [beginsAnew, ends, Bool.not_true, Bool.false_or, beq_iff_eq] at passes
      have known : ∀ other, language.known other = Lexeme.lexicon.restrict
          fun letter => has (parser.state other).accepted letter := fun _ => rfl
      rw [known, known, passes]

end ShaderReflection.Wgsl
