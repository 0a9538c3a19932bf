import ShaderReflection.Proofs.Grammar.Acceptance
import ShaderReflection.Proofs.Grammar.Completeness
import ShaderReflection.Proofs.Grammar.Reading
import ShaderReflection.Proofs.Wgsl.Lexing
import ShaderReflection.Query.Language

/-!
# The terminals of a query

The names of kinds, fields and captures begin alike, and nothing but the state of the machine tells
a name from the name of a capture. No state accepts both (`not_accepts_both`), so each terminal is
read wherever it is accepted. A text in which terminals stand one behind another, with single spaces
between some of them, falls into just these terminals if the machine builds a tree from them
(`scan_of_laid`).
-/

namespace ShaderReflection.Query

open ShaderReflection.Grammar ShaderReflection.Text
open ShaderReflection.Wgsl.Lexeme (isSpace isWordStart isWordPart Stops stops_cons takeWhile_append)

/-! ## The automaton -/

/-- How many rules with a single symbol can stand on top of each other below a nonterminal. -/
def Nonterminal.rank : Nonterminal → Nat
  | .pattern | .fieldPattern | .capture => 0
  | .patterns | .child => 1
  | .query | .children => 2

theorem rules_graded : rules.Graded Nonterminal.rank := by
  refine Rules.graded_of_tests ?bounded (by decide)
  intro letter
  cases letter <;> decide

/-- Names and the names of captures are not both acceptable. -/
def keepsApart (state : State) : Bool :=
  !(state.accepted.contains (some (Alphabet.number Terminal.name)) &&
    state.accepted.contains (some (Alphabet.number Terminal.captureName)))

theorem parser_tested : language.parser.isValid = true ∧
    language.parser.automaton.states.all keepsApart = true := by
  decide +kernel

theorem parser_valid : language.parser.Valid := Parser.valid_of_isValid parser_tested.1

/-- Where a name may come next, the name of a capture may not. -/
theorem not_accepts_both (number : Nat) :
    ¬ (language.parser.accepts number .name = true ∧
      language.parser.accepts number .captureName = true) := by
  intro both
  have passes : keepsApart (language.parser.state number) = true :=
    Parser.state_passes rfl parser_tested.2 number
  rw [keepsApart, Bool.not_eq_true', Bool.and_eq_false_iff] at passes
  rcases passes with noName | noCapture
  · exact Bool.false_ne_true (noName.symm.trans both.1)
  · exact Bool.false_ne_true (noCapture.symm.trans both.2)

/-! ## Names -/

/-- A letter or underscore, and then letters, digits and underscores. -/
def isName : List Char → Bool
  | [] => false
  | char :: rest => isWordStart char && rest.all isWordPart

/-- A letter or underscore, and then letters, digits, underscores, points and hyphens. -/
def isCaptureName : List Char → Bool
  | [] => false
  | char :: rest => isWordStart char && rest.all isCapturePart

theorem isCapturePart_of_isWordPart {char : Char} (isPart : isWordPart char = true) :
    isCapturePart char = true := by
  simp [isCapturePart, isPart]

theorem stops_word {rest : List Char} (stops : Stops isCapturePart rest) :
    Stops isWordPart rest := by
  intro char isNext
  apply Bool.eq_false_iff.mpr
  intro isPart
  have noPart := stops char isNext
  rw [isCapturePart_of_isWordPart isPart] at noPart
  cases noPart

theorem isWordStart_of_isName {word : List Char} (isWord : isName word = true) :
    ∃ char rest, word = char :: rest ∧ isWordStart char = true := by
  cases word with
  | nil => cases isWord
  | cons char rest => exact ⟨char, rest, rfl, ((Bool.and_eq_true _ _).mp isWord).1⟩

/-! ## The lexicon -/

theorem lexicon_honest : lexicon.Honest where
  patterns := by
    intro pattern isPattern text word reads
    simp only [lexicon, List.mem_cons, List.not_mem_nil, or_false] at isPattern
    rcases isPattern with rfl | rfl | rfl | rfl
    case inl =>
      cases text with
      | nil => cases reads
      | cons char text =>
          simp only [captureName, Option.ite_none_right_eq_some, Option.some.injEq] at reads
          rcases reads with ⟨-, rfl⟩
          exact ⟨List.cons_prefix_cons.mpr ⟨rfl, List.takeWhile_prefix _⟩, List.cons_ne_nil _ _⟩
    case inr.inl =>
      cases text with
      | nil => cases reads
      | cons char text =>
          simp only [Wgsl.Lexeme.word, Option.ite_none_right_eq_some, Option.some.injEq] at reads
          rcases reads with ⟨-, rfl⟩
          exact ⟨List.cons_prefix_cons.mpr ⟨rfl, List.takeWhile_prefix _⟩, List.cons_ne_nil _ _⟩
    case inr.inr.inl => exact Wgsl.Lexeme.space_isPrefix reads
    case inr.inr.inr =>
      simp only [comment] at reads
      split at reads
      · cases reads
        exact ⟨List.cons_prefix_cons.mpr ⟨rfl, List.takeWhile_prefix _⟩, List.cons_ne_nil _ _⟩
      · cases reads
  spellings := by simp [lexicon]

section Reading

variable {accepted : Terminal → Bool} {word rest : List Char} {letter : Terminal} {char : Char}

/-- A mark is spelled with one character, with which nothing else begins. -/
theorem mark_cases (isMark : ⟨[char], letter⟩ ∈ lexicon.spellings) :
    (letter = .atSign ∧ char = '@') ∨ (letter = .colon ∧ char = ':') ∨
      (letter = .leftParen ∧ char = '(') ∨ (letter = .rightParen ∧ char = ')') := by
  simp only [lexicon, List.mem_cons, Spelling.mk.injEq, List.cons.injEq, and_true,
    List.not_mem_nil, or_false] at isMark
  simpa only [and_comm] using isMark

/-- No word is spelled like a mark. -/
theorem ne_of_isWordStart (isStart : isWordStart char = true) :
    ∀ spelling ∈ lexicon.spellings, spelling.text ≠ char :: rest := by
  simp only [lexicon, List.forall_mem_cons]
  refine ⟨?_, ?_, ?_, ?_, List.forall_mem_nil _⟩ <;>
  · intro same
    rw [← (List.cons.inj same).1] at isStart
    cases isStart

/-- A word is read by the first known pattern that reads words. -/
theorem read_word (before : List (Grammar.Pattern Terminal))
    {after : List (Grammar.Pattern Terminal)} {read : List Char → Option (List Char)}
    (split : lexicon.patterns = before ++ ⟨some letter, read⟩ :: after)
    (silent : Lexicon.Silent accepted before (char :: rest)) (isAccepted : accepted letter = true)
    (reads : read (char :: rest) = some (char :: word)) (isStart : isWordStart char = true) :
    (lexicon.restrict accepted).read (char :: rest) = some ⟨some letter, char :: word⟩ :=
  Lexicon.read_restrict_of_unspelled before split silent isAccepted reads
    fun spelling isSpelling _ => ne_of_isWordStart isStart spelling isSpelling

/-- A terminal is read where it is accepted, except where names and names of captures both are. -/
def IsRead (letter : Terminal) (word rest : List Char) : Prop :=
  ∀ accepted : Terminal → Bool, accepted letter = true →
    ¬ (accepted .name = true ∧ accepted .captureName = true) →
      (lexicon.restrict accepted).read (word ++ rest) = some ⟨some letter, word⟩

theorem isRead_name (isWord : isName word = true) (stops : Stops isCapturePart rest) :
    IsRead .name word rest := by
  intro accepted isAccepted notBoth
  cases word with
  | nil => cases isWord
  | cons char word =>
      simp only [isName, Bool.and_eq_true, List.all_eq_true] at isWord
      have reads : Wgsl.Lexeme.word (char :: (word ++ rest)) = some (char :: word) := by
        rw [Wgsl.Lexeme.word, if_pos isWord.1, takeWhile_append isWord.2 (stops_word stops)]
      refine read_word [⟨some .captureName, captureName⟩] rfl ?_ isAccepted reads isWord.1
      -- The pattern in front reads names as well, but it is not known here.
      intro pattern isPattern isKnown
      cases List.mem_singleton.mp isPattern
      exact absurd ⟨isAccepted, isKnown⟩ notBoth

theorem isRead_captureName (isWord : isCaptureName word = true)
    (stops : Stops isCapturePart rest) : IsRead .captureName word rest := by
  intro accepted isAccepted notBoth
  cases word with
  | nil => cases isWord
  | cons char word =>
      simp only [isCaptureName, Bool.and_eq_true, List.all_eq_true] at isWord
      have reads : captureName (char :: (word ++ rest)) = some (char :: word) := by
        rw [captureName, if_pos isWord.1, takeWhile_append isWord.2 stops]
      exact read_word [] rfl (List.forall_mem_nil _) isAccepted reads isWord.1

theorem isRead_mark (isMark : ⟨[char], letter⟩ ∈ lexicon.spellings) :
    IsRead letter [char] rest := by
  intro accepted isAccepted notBoth
  have silent : ∀ behind, Lexicon.Silent accepted lexicon.patterns (char :: behind) := by
    intro behind pattern isPattern isKnown
    simp only [lexicon, List.mem_cons, List.not_mem_nil, or_false] at isPattern
    rcases isPattern with rfl | rfl | rfl | rfl <;>
      rcases mark_cases isMark with ⟨-, rfl⟩ | ⟨-, rfl⟩ | ⟨-, rfl⟩ | ⟨-, rfl⟩ <;> rfl
  have distinct : lexicon.spellings.Pairwise fun left right => left.text ≠ right.text := by
    simp [lexicon]
  refine Lexicon.read_restrict_of_spelling isMark isAccepted (silent rest) (silent [])
    (List.prefix_append _ _) distinct ?_
  intro other isOther _ inFront
  have single : other.text = [char] := by
    simp only [lexicon, List.mem_cons, List.not_mem_nil, or_false] at isOther
    rcases isOther with rfl | rfl | rfl | rfl <;>
    · rw [List.singleton_append, List.cons_prefix_cons] at inFront
      rw [inFront.1]
  exact not_not.mpr single

theorem read_space (noSpace : Stops isSpace rest) :
    (lexicon.restrict accepted).read (' ' :: rest) = some ⟨none, [' ']⟩ := by
  have silent : Lexicon.Silent accepted (lexicon.patterns.take 2) (' ' :: rest) := by
    intro pattern isPattern isKnown
    simp only [lexicon, List.take_succ_cons, List.take_zero, List.mem_cons, List.not_mem_nil,
      or_false] at isPattern
    rcases isPattern with rfl | rfl <;> rfl
  have unspelled : ∀ spelling ∈ lexicon.spellings, spelling.text ≠ [' '] := by
    simp [lexicon]
  exact Lexicon.read_restrict_of_unspelled (lexicon.patterns.take 2) rfl silent rfl
    (Wgsl.Lexeme.space_single noSpace) fun spelling isSpelling _ => unspelled spelling isSpelling

end Reading

/-! ## Terminals in a text -/

/-- From a position on, terminals stand one behind another in a text, some behind a space. -/
inductive Laid : Position → List Char → List (Terminal × Token) → Prop
  | nil {position : Position} : Laid position [] []
  | space {position : Position} {text : List Char} {terminals : List (Terminal × Token)}
      (noSpace : Stops isSpace text) (rest : Laid (position.step ' ') text terminals) :
      Laid position (' ' :: text) terminals
  | token {position : Position} {letter : Terminal} {word text : List Char}
      {terminals : List (Terminal × Token)} (isRead : IsRead letter word text)
      (rest : Laid (position.advance word) text terminals) :
      Laid position (word ++ text) ((letter, ⟨position, word⟩) :: terminals)

theorem scan_of_laid {stack : Stack Terminal Nonterminal Token} {position : Position}
    {text : List Char} {terminals : List (Terminal × Token)}
    {tree : Derivation Terminal Nonterminal Token} (laid : Laid position text terminals)
    (built : language.parser.run stack terminals = .ok tree) :
    language.Scan stack position text terminals := by
  induction laid generalizing stack with
  | nil => exact .nil
  | space noSpace rest induction => exact .trivia (read_space noSpace) (induction built)
  | @token position letter word text terminals isRead rest induction =>
      rcases Parser.exists_feed_of_run built with ⟨later, shifts, laterBuilt⟩
      have isAccepted := (Parser.behind_of_feed shifts).1
      refine .token (isRead _ isAccepted (not_accepts_both _)) shifts ?_
      rw [List.drop_left]
      exact induction laterBuilt

/-- A text in which the terminals of a derivation stand is read as this derivation. -/
theorem read_of_laid {text : List Char} {tree : Derivation Terminal Nonterminal Token}
    (follows : tree.Follows rules) (isQuery : tree.symbol = .nonterminal .query)
    (laid : Laid Position.start text tree.leaves) : language.read text = .ok tree := by
  have built : language.parser.run [] tree.leaves = .ok tree :=
    Parser.run_leaves parser_valid rules_graded follows isQuery
  exact (Language.read_eq_ok_iff lexicon_honest).mpr ⟨_, scan_of_laid laid built, built⟩

end ShaderReflection.Query
