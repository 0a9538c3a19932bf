import ShaderReflection.Grammar.Reader
import ShaderReflection.Grammar.Soundness

/-!
# Reading is scanning and parsing

A text is accepted if it falls into lexemes whose terminals the machine accepts. What stands in the
way of saying so is that the lexicon depends on the state of the machine; `Language.Scan` says what
the lexemes are for a given stack and leaves out fuel and rejections. The main statement is
`read_eq_ok_iff`.
-/

namespace ShaderReflection.Grammar

open ShaderReflection.Text

variable {τ ν : Type}

/-! ## Lexemes -/

namespace Lexicon

variable {lexicon : Lexicon τ} {text word : List Char} {letter : τ}

/-- Whatever is read stands at the front of the text and is not empty. -/
structure Honest (lexicon : Lexicon τ) : Prop where
  patterns : ∀ pattern ∈ lexicon.patterns, ∀ text word, pattern.read text = some word →
    word <+: text ∧ word ≠ []
  spellings : ∀ spelling ∈ lexicon.spellings, spelling.text ≠ []

theorem Honest.restrict (honest : lexicon.Honest) (accepted : τ → Bool) :
    (lexicon.restrict accepted).Honest where
  patterns := fun pattern isPattern =>
    honest.patterns pattern (List.mem_filter.mp isPattern |>.1)
  spellings := fun spelling isSpelling =>
    honest.spellings spelling (List.mem_filter.mp isSpelling |>.1)

/-- What a pattern reads is its own lexeme only if it is not spelled like another terminal. -/
theorem readPattern_eq_some {lexeme : Lexeme τ} (reads : lexicon.readPattern text = some lexeme) :
    ∃ pattern ∈ lexicon.patterns, pattern.read text = some lexeme.text ∧
      ((∃ spelling ∈ lexicon.spellings, spelling.text = lexeme.text ∧
          lexeme.terminal = some spelling.terminal) ∨
        lexeme.terminal = pattern.terminal ∧
          ∀ spelling ∈ lexicon.spellings, spelling.text ≠ lexeme.text) := by
  rcases List.exists_of_findSome?_eq_some reads with ⟨pattern, isPattern, found⟩
  rcases Option.map_eq_some_iff.mp found with ⟨word, isWord, rfl⟩
  cases search : lexicon.spellings.find? fun spelling => spelling.text == word with
  | none =>
      refine ⟨pattern, isPattern, isWord, .inr ⟨rfl, ?_⟩⟩
      intro spelling isSpelling
      simpa using List.find?_eq_none.mp search spelling isSpelling
  | some spelling =>
      have same := List.find?_some search
      refine ⟨pattern, isPattern, by simpa using isWord, .inl ⟨spelling, ?_, ?_, rfl⟩⟩
      · exact List.mem_of_find?_eq_some search
      · simpa using same

theorem readSpelling_eq_some {lexeme : Lexeme τ}
    (reads : lexicon.readSpelling text = some lexeme) :
    ∃ spelling ∈ lexicon.spellings, spelling.text = lexeme.text ∧
      lexeme.terminal = some spelling.terminal ∧ lexeme.text <+: text := by
  rcases Option.map_eq_some_iff.mp reads with ⟨spelling, search, rfl⟩
  have passes := List.find?_some search
  simp only [Bool.and_eq_true, List.isPrefixOf_iff_prefix] at passes
  exact ⟨spelling, List.mem_of_find?_eq_some search, rfl, rfl, passes.1⟩

theorem Honest.isPrefix (honest : lexicon.Honest) {lexeme : Lexeme τ}
    (reads : lexicon.read text = some lexeme) : lexeme.text <+: text ∧ lexeme.text ≠ [] := by
  rw [read] at reads
  split at reads
  · rename_i found
    cases reads
    rcases readPattern_eq_some found with ⟨pattern, isPattern, isRead, -⟩
    exact honest.patterns pattern isPattern text _ isRead
  · rcases readSpelling_eq_some reads with ⟨spelling, isSpelling, same, -, inFront⟩
    exact ⟨inFront, same ▸ honest.spellings spelling isSpelling⟩

/-- A terminal is read by one of its spellings, or by its pattern where no spelling is meant. -/
theorem read_eq_some (reads : lexicon.read text = some ⟨some letter, word⟩) :
    ⟨word, letter⟩ ∈ lexicon.spellings ∨
      ∃ pattern ∈ lexicon.patterns, pattern.terminal = some letter ∧
        pattern.read text = some word ∧
        ∀ spelling ∈ lexicon.spellings, spelling.text ≠ word := by
  rw [read] at reads
  split at reads
  · rename_i found
    cases reads
    rcases readPattern_eq_some found with ⟨pattern, isPattern, isRead, spelled | plain⟩
    · rcases spelled with ⟨spelling, isSpelling, rfl, isLetter⟩
      cases isLetter
      exact .inl isSpelling
    · exact .inr ⟨pattern, isPattern, plain.1.symm, isRead, plain.2⟩
  · rcases readSpelling_eq_some reads with ⟨spelling, isSpelling, rfl, isLetter, -⟩
    cases isLetter
    exact .inl isSpelling

/-- Trivia is read by a pattern without a terminal. -/
theorem read_eq_trivia (reads : lexicon.read text = some ⟨none, word⟩) :
    ∃ pattern ∈ lexicon.patterns, pattern.terminal = none ∧ pattern.read text = some word := by
  rw [read] at reads
  split at reads
  · rename_i found
    cases reads
    obtain ⟨pattern, isPattern, isRead, spelled | plain⟩ := readPattern_eq_some found
    · obtain ⟨spelling, -, -, isLetter⟩ := spelled
      cases isLetter
    · exact ⟨pattern, isPattern, plain.1.symm, isRead⟩
  · obtain ⟨spelling, -, -, isLetter, -⟩ := readSpelling_eq_some reads
    cases isLetter

/-! ## Lexemes of two texts -/

section Agree

variable {other : List Char} {lexeme : Lexeme τ}

theorem readPattern_eq_none_of_silent
    (silent : ∀ pattern ∈ lexicon.patterns, pattern.read text = none → pattern.read other = none)
    (nothing : lexicon.readPattern text = none) : lexicon.readPattern other = none := by
  apply List.findSome?_eq_none_iff.mpr
  intro pattern isPattern
  have isSilent := List.findSome?_eq_none_iff.mp nothing pattern isPattern
  rw [silent pattern isPattern (Option.map_eq_none_iff.mp isSilent)]
  rfl

theorem readPattern_of_agree (reads : lexicon.readPattern text = some lexeme)
    (silent : ∀ pattern ∈ lexicon.patterns, pattern.read text = none → pattern.read other = none)
    (keeps : ∀ pattern ∈ lexicon.patterns, pattern.read text = some lexeme.text →
      (pattern.terminal = lexeme.terminal ∨
        ∃ spelling ∈ lexicon.spellings, spelling.text = lexeme.text) →
      pattern.read other = some lexeme.text) : lexicon.readPattern other = some lexeme := by
  rcases List.findSome?_eq_some_iff.mp reads with
    ⟨before, pattern, after, split, isFound, nothing⟩
  rcases Option.map_eq_some_iff.mp isFound with ⟨word, isWord, isLexeme⟩
  have isPattern : pattern ∈ lexicon.patterns := by simp [split]
  have isText : lexeme.text = word := by
    rw [← isLexeme]
    split <;> rfl
  have isOwn : pattern.terminal = lexeme.terminal ∨
      ∃ spelling ∈ lexicon.spellings, spelling.text = lexeme.text := by
    rw [isText]
    cases search : lexicon.spellings.find? fun spelling => spelling.text == word with
    | none =>
        rw [search] at isLexeme
        exact .inl (congrArg Lexeme.terminal isLexeme)
    | some spelling =>
        have same := List.find?_some search
        exact .inr ⟨spelling, List.mem_of_find?_eq_some search, beq_iff_eq.mp same⟩
  have isKept := keeps pattern isPattern (isText ▸ isWord) isOwn
  apply List.findSome?_eq_some_iff.mpr
  refine ⟨before, pattern, after, split, ?_, ?_⟩
  · rw [isKept, isText, Option.map_some, isLexeme]
  · intro earlier isEarlier
    have isSilent := Option.map_eq_none_iff.mp (nothing earlier isEarlier)
    rw [silent earlier (by simp [split, isEarlier]) isSilent]
    rfl

theorem readSpelling_of_agree (reads : lexicon.readSpelling text = some lexeme)
    (fronts : ∀ spelling ∈ lexicon.spellings, spelling.text <+: other → spelling.text <+: text)
    (inFront : lexeme.text <+: other) : lexicon.readSpelling other = some lexeme := by
  rcases Option.map_eq_some_iff.mp reads with ⟨spelling, search, rfl⟩
  rcases List.find?_eq_some_iff_append.mp search with ⟨passes, before, after, split, nothing⟩
  simp only [Bool.and_eq_true] at passes
  have found : (lexicon.spellings.find? fun spelling =>
      spelling.text.isPrefixOf other && !lexicon.reserved spelling) = some spelling := by
    apply List.find?_eq_some_iff_append.mpr
    refine ⟨?_, before, after, split, ?_⟩
    · simp only [Bool.and_eq_true, List.isPrefixOf_iff_prefix]
      exact ⟨inFront, passes.2⟩
    · intro earlier isEarlier
      have fails := nothing earlier isEarlier
      simp only [Bool.not_eq_true', Bool.and_eq_false_iff] at fails ⊢
      rcases fails with notFront | isReserved
      · refine .inl (Bool.eq_false_iff.mpr fun isFront => ?_)
        have inText := fronts earlier (by simp [split, isEarlier])
          (List.isPrefixOf_iff_prefix.mp isFront)
        exact Bool.eq_false_iff.mp notFront (List.isPrefixOf_iff_prefix.mpr inText)
      · exact .inr isReserved
  rw [readSpelling, found]
  rfl

/-- Two texts have the same first lexeme if the patterns that read nothing from the one read
nothing from the other, those that read the lexeme from the one read it from the other, and no
other spelling stands at the front. -/
theorem read_of_agree (reads : lexicon.read text = some lexeme)
    (silent : ∀ pattern ∈ lexicon.patterns, pattern.read text = none → pattern.read other = none)
    (keeps : ∀ pattern ∈ lexicon.patterns, pattern.read text = some lexeme.text →
      (pattern.terminal = lexeme.terminal ∨
        ∃ spelling ∈ lexicon.spellings, spelling.text = lexeme.text) →
      pattern.read other = some lexeme.text)
    (fronts : ∀ spelling ∈ lexicon.spellings, spelling.text <+: other → spelling.text <+: text)
    (inFront : lexeme.text <+: other) : lexicon.read other = some lexeme := by
  rw [read] at reads ⊢
  cases byPattern : lexicon.readPattern text with
  | some found =>
      rw [byPattern] at reads
      cases reads
      rw [readPattern_of_agree byPattern silent keeps]
  | none =>
      rw [byPattern] at reads
      rw [readPattern_eq_none_of_silent silent byPattern]
      exact readSpelling_of_agree reads fronts inFront

end Agree

/-! ## Lexemes where only some terminals are acceptable -/

section Restrict

variable {accepted : τ → Bool}

/-- The patterns that are known read nothing. -/
def Silent (accepted : τ → Bool) (patterns : List (Pattern τ)) (text : List Char) : Prop :=
  ∀ pattern ∈ patterns, pattern.terminal.all accepted = true → pattern.read text = none

theorem Silent.findSome?_eq_none {β : Type} {patterns : List (Pattern τ)}
    (silent : Silent accepted patterns text) (finish : Pattern τ → List Char → β) :
    ((patterns.filter fun pattern => pattern.terminal.all accepted).findSome? fun pattern =>
      (pattern.read text).map (finish pattern)) = none := by
  apply List.findSome?_eq_none_iff.mpr
  intro pattern isPattern
  rcases List.mem_filter.mp isPattern with ⟨inPatterns, isKnown⟩
  rw [silent pattern inPatterns isKnown]
  rfl

/-- The first pattern that reads something decides, and a spelling takes precedence over it. -/
theorem read_restrict_of_pattern (before : List (Pattern τ)) {pattern : Pattern τ}
    {after : List (Pattern τ)} (split : lexicon.patterns = before ++ pattern :: after)
    (silent : Silent accepted before text) (isKnown : pattern.terminal.all accepted = true)
    (reads : pattern.read text = some word) :
    (lexicon.restrict accepted).read text =
      match (lexicon.restrict accepted).spellings.find? fun spelling => spelling.text == word with
      | some spelling => some ⟨some spelling.terminal, word⟩
      | none => some ⟨pattern.terminal, word⟩ := by
  rw [read, readPattern]
  simp only [restrict, split, List.filter_append, List.findSome?_append,
    silent.findSome?_eq_none, Option.none_or, List.filter_cons, isKnown, if_true,
    List.findSome?_cons, reads, Option.map_some]
  generalize List.find? _ _ = found
  cases found <;> rfl

/-- A text that is spelled like no other terminal is what its pattern says. -/
theorem read_restrict_of_unspelled (before : List (Pattern τ)) {pattern : Pattern τ}
    {after : List (Pattern τ)} (split : lexicon.patterns = before ++ pattern :: after)
    (silent : Silent accepted before text) (isKnown : pattern.terminal.all accepted = true)
    (reads : pattern.read text = some word)
    (unspelled : ∀ spelling ∈ lexicon.spellings, accepted spelling.terminal = true →
      spelling.text ≠ word) :
    (lexicon.restrict accepted).read text = some ⟨pattern.terminal, word⟩ := by
  have noSpelling : ((lexicon.restrict accepted).spellings.find? fun spelling =>
      spelling.text == word) = none := by
    apply List.find?_eq_none.mpr
    intro spelling isSpelling
    rcases List.mem_filter.mp isSpelling with ⟨inSpellings, spellingIsKnown⟩
    simpa using unspelled spelling inSpellings spellingIsKnown
  rw [read_restrict_of_pattern before split silent isKnown reads, noSpelling]

/-- A text that is spelled like a terminal is that terminal. -/
theorem read_restrict_of_spelled (before : List (Pattern τ)) {pattern : Pattern τ}
    {after : List (Pattern τ)} (split : lexicon.patterns = before ++ pattern :: after)
    (silent : Silent accepted before text) (isKnown : pattern.terminal.all accepted = true)
    (reads : pattern.read text = some word) (isSpelling : ⟨word, letter⟩ ∈ lexicon.spellings)
    (letterIsKnown : accepted letter = true)
    (unique : ∀ spelling ∈ lexicon.spellings, spelling.text = word →
      spelling.terminal = letter) :
    (lexicon.restrict accepted).read text = some ⟨some letter, word⟩ := by
  rw [read_restrict_of_pattern before split silent isKnown reads]
  cases search : (lexicon.restrict accepted).spellings.find? fun spelling =>
      spelling.text == word with
  | none =>
      have unspelled := List.find?_eq_none.mp search ⟨word, letter⟩
        (List.mem_filter.mpr ⟨isSpelling, letterIsKnown⟩)
      simp at unspelled
  | some spelling =>
      have isMember := (List.mem_filter.mp (List.mem_of_find?_eq_some search)).1
      have isText := List.find?_some search
      simp only [beq_iff_eq] at isText
      simp only [unique spelling isMember isText]

/-- A spelling is found if none that stands before it is a piece of it. -/
theorem find?_eq_of_pairwise {α : Type} {test : α → Bool} {relation : α → α → Prop}
    {list : List α} {element : α} (ordered : list.Pairwise relation) (isElement : element ∈ list)
    (passes : test element = true)
    (others : ∀ other ∈ list, test other = true → ¬ relation other element) :
    list.find? test = some element := by
  induction ordered with
  | nil => cases isElement
  | @cons first list before ordered induction =>
      rcases List.mem_cons.mp isElement with rfl | isLater
      · rw [List.find?_cons_of_pos passes]
      · have notFirst : ¬ test first = true := fun firstPasses =>
          others first List.mem_cons_self firstPasses (before element isLater)
        rw [List.find?_cons_of_neg notFirst]
        exact induction isLater fun other isOther => others other (List.mem_cons_of_mem _ isOther)

theorem read_restrict_of_spelling {spelling : Spelling τ}
    (isSpelling : spelling ∈ lexicon.spellings) (isKnown : accepted spelling.terminal = true)
    (silent : Silent accepted lexicon.patterns text)
    (unreserved : Silent accepted lexicon.patterns spelling.text)
    (inFront : spelling.text <+: text) {relation : Spelling τ → Spelling τ → Prop}
    (ordered : lexicon.spellings.Pairwise relation)
    (others : ∀ other ∈ lexicon.spellings, accepted other.terminal = true →
      other.text <+: text → ¬ relation other spelling) :
    (lexicon.restrict accepted).read text = some ⟨some spelling.terminal, spelling.text⟩ := by
  have noPattern : (lexicon.restrict accepted).readPattern text = none :=
    silent.findSome?_eq_none _
  have notReserved : (lexicon.restrict accepted).reserved spelling = false := by
    rw [reserved, List.any_eq_false]
    intro pattern isPattern
    rcases List.mem_filter.mp isPattern with ⟨inPatterns, patternIsKnown⟩
    rw [unreserved pattern inPatterns patternIsKnown]
    simp
  have found : ((lexicon.restrict accepted).spellings.find? fun other =>
      other.text.isPrefixOf text && !(lexicon.restrict accepted).reserved other) =
        some spelling := by
    apply find?_eq_of_pairwise (ordered.filter _)
    · exact List.mem_filter.mpr ⟨isSpelling, isKnown⟩
    · simp [inFront, notReserved]
    · intro other isOther passes
      rcases List.mem_filter.mp isOther with ⟨inSpellings, otherIsKnown⟩
      simp only [Bool.and_eq_true, List.isPrefixOf_iff_prefix] at passes
      exact others other inSpellings otherIsKnown passes.1
  rw [read, noPattern]
  simp only [readSpelling, found, Option.map_some]

end Restrict

end Lexicon

/-! ## Scans -/

namespace Language

variable [Alphabet τ] {language : Language τ ν} {text : List Char}

theorem known_honest (honest : language.lexicon.Honest) (number : Nat) :
    (language.known number).Honest :=
  honest.restrict _

/-- What is read is not empty, so a lexeme more leaves less of the text. -/
theorem exists_cons_of_read (honest : language.lexicon.Honest) {number : Nat} {lexeme : Lexeme τ}
    (reads : (language.known number).read text = some lexeme) :
    (∃ char rest, text = char :: rest) ∧
      (text.drop lexeme.text.length).length < text.length := by
  rcases (known_honest honest number).isPrefix reads with ⟨⟨rest, rfl⟩, isFull⟩
  have positive := List.length_pos_iff.mpr isFull
  rw [List.drop_left, List.length_append]
  refine ⟨List.exists_cons_of_ne_nil ?_, by omega⟩
  simp [isFull]

variable [Alphabet ν] [DecidableEq τ] [DecidableEq ν] {stack : Stack τ ν Token}
  {position last : Position} {terminals : List (τ × Token)} {tree : Derivation τ ν Token}

/-- From a stack and a position on, a text falls into terminals with trivia between them. Each
lexeme is read with the part of the lexicon that the machine knows there. -/
inductive Scan (language : Language τ ν) :
    Stack τ ν Token → Position → List Char → List (τ × Token) → Prop
  | nil {stack : Stack τ ν Token} {position : Position} : Scan language stack position [] []
  | trivia {stack : Stack τ ν Token} {position : Position} {text word : List Char}
      {terminals : List (τ × Token)}
      (reads : (language.known (Stack.state stack)).read text = some ⟨none, word⟩)
      (rest : Scan language stack (position.advance word) (text.drop word.length) terminals) :
      Scan language stack position text terminals
  | token {stack later : Stack τ ν Token} {position : Position} {text word : List Char}
      {letter : τ} {terminals : List (τ × Token)}
      (reads : (language.known (Stack.state stack)).read text = some ⟨some letter, word⟩)
      (shifts : language.parser.feed stack (some (letter, ⟨position, word⟩)) =
        .ok (.shifted later))
      (rest : Scan language later (position.advance word) (text.drop word.length) terminals) :
      Scan language stack position text ((letter, ⟨position, word⟩) :: terminals)

theorem exists_scan_of_loop {fuel : Nat} {progress : Progress τ ν}
    (reads : language.loop fuel progress = .ok tree) :
    ∃ terminals, language.Scan progress.stack progress.position progress.rest terminals ∧
      language.parser.run progress.stack terminals = .ok tree := by
  induction fuel generalizing progress with
  | zero => cases reads
  | succ fuel induction =>
      rcases progress with ⟨stack, last, position, text⟩
      rw [loop, step] at reads
      cases text with
      | nil =>
          refine ⟨[], .nil, ?_⟩
          cases settled : language.parser.feed stack none with
          | error failure => simp [settled] at reads
          | ok verdict =>
              cases verdict with
              | shifted later => simp [settled] at reads
              | accepted found => simpa [settled, Parser.run] using reads
      | cons char text =>
          cases lexeme : (language.known (Stack.state stack)).read (char :: text) with
          | none => simp [lexeme] at reads
          | some found =>
              rcases found with ⟨terminal, word⟩
              cases terminal with
              | none =>
                  simp only [lexeme] at reads
                  rcases induction reads with ⟨terminals, scan, built⟩
                  exact ⟨terminals, .trivia lexeme scan, built⟩
              | some letter =>
                  cases settled : language.parser.feed stack (some (letter, ⟨position, word⟩)) with
                  | error failure => simp [lexeme, settled] at reads
                  | ok verdict =>
                      cases verdict with
                      | accepted found => simp [lexeme, settled] at reads
                      | shifted later =>
                          simp only [lexeme, settled] at reads
                          rcases induction reads with ⟨terminals, scan, built⟩
                          refine ⟨_, .token lexeme settled scan, ?_⟩
                          simpa [Parser.run, settled] using built

theorem loop_of_scan (honest : language.lexicon.Honest) {fuel : Nat}
    (enough : text.length < fuel) (scan : language.Scan stack position text terminals)
    (built : language.parser.run stack terminals = .ok tree) :
    language.loop fuel ⟨stack, last, position, text⟩ = .ok tree := by
  induction scan generalizing fuel last with
  | nil =>
      cases fuel with
      | zero => omega
      | succ fuel =>
          rw [Parser.run] at built
          split at built
          · rename_i settled
            cases built
            simp [loop, step, settled]
          · cases built
          · cases built
  | @trivia stack position text word terminals reads rest induction =>
      rcases exists_cons_of_read honest reads with ⟨⟨char, others, rfl⟩, shorter⟩
      cases fuel with
      | zero => omega
      | succ fuel =>
          simp only [loop, step, reads]
          exact induction (by simp only at shorter; omega) built
  | @token stack later position text word letter terminals reads shifts rest induction =>
      rcases exists_cons_of_read honest reads with ⟨⟨char, others, rfl⟩, shorter⟩
      cases fuel with
      | zero => omega
      | succ fuel =>
          simp only [Parser.run, shifts] at built
          simp only [loop, step, reads, shifts]
          exact induction (by simp only at shorter; omega) built

/-- A text is accepted with a tree if it falls into terminals from which the machine builds the
tree. -/
theorem read_eq_ok_iff (honest : language.lexicon.Honest) :
    language.read text = .ok tree ↔
      ∃ terminals, language.Scan [] Position.start text terminals ∧
        language.parser.run [] terminals = .ok tree := by
  constructor
  · intro reads
    exact exists_scan_of_loop reads
  · rintro ⟨terminals, scan, built⟩
    exact loop_of_scan honest (Nat.lt_succ_self _) scan built

/-! ## Tokens in their text -/

theorem Scan.slice_eq_text (honest : language.lexicon.Honest) {source : List Char}
    (scan : language.Scan stack position text terminals)
    (isRest : source.drop position.offset = text) :
    ∀ terminal ∈ terminals, terminal.2.span.slice source = terminal.2.text := by
  induction scan with
  | nil => simp
  | trivia reads rest induction =>
      apply induction
      rw [Position.offset_advance, ← List.drop_drop, isRest]
  | @token stack later position text word letter terminals reads shifts rest induction =>
      have others := induction (by rw [Position.offset_advance, ← List.drop_drop, isRest])
      refine List.forall_mem_cons.mpr ⟨?_, others⟩
      rcases ((known_honest honest _).isPrefix reads).1 with ⟨after, rfl⟩
      simp only [Token.span, Span.slice, isRest, Nat.add_sub_cancel_left, List.take_left]

theorem Scan.exists_read (scan : language.Scan stack position text terminals) :
    ∀ terminal ∈ terminals, ∃ number rest,
      (language.known number).read rest = some ⟨some terminal.1, terminal.2.text⟩ := by
  induction scan with
  | nil => simp
  | trivia reads rest induction => exact induction
  | token reads shifts rest induction =>
      exact List.forall_mem_cons.mpr ⟨⟨_, _, reads⟩, induction⟩

end Language

end ShaderReflection.Grammar
