import ShaderReflection.Proofs.Wgsl.LineFeed
import ShaderReflection.Proofs.Wgsl.Pauses

/-!
# What has been read can be completed

Wherever reading stands, letters can come next that make a sentence of what has been read
(`Paused.exists_letters`), none of them the text of a body; and a line feed may stand between the
two, which the text of a body takes to itself and everything else is set apart by
(`Paused.exists_lineFeed`).
-/

namespace ShaderReflection.Wgsl

open ShaderReflection.Grammar ShaderReflection.Text Lexeme

/-! ## Samples -/

/-- How many rules are needed one below the other for the shortest sample of a nonterminal. -/
def Nonterminal.height : Nonterminal → Nat
  | .enableDirective | .requiresDirective | .functionDeclaration | .globalConstantDeclaration => 1
  | .attributeUse | .variableDeclaration | .variableQualifier | .typeDeclaration => 1
  | .callExpression | .globalItems | .templateArgument | .primary | .moreNames | .blockParts => 1
  | .globalVariableDeclaration | .typeAliasDeclaration | .variableIdentifierDeclaration => 2
  | .functionReturnType | .attributeRun | .templateList | .postfixed | .moreTemplateArguments => 2
  | .structMember | .parameter | .memberExpression | .attributes | .unary => 3
  | .structDeclaration | .parameterList | .unaryExpression | .expression | .moreMembers => 4
  | .moreParameters => 4
  | .constAssertStatement | .binaryExpression | .indexExpression | .parenExpression => 5
  | .attributeArguments | .moreArguments => 5
  | _ => 0

/-- The symbol is written without the text of a body, and is lower than a bound. -/
def isLower (bound : Nat) : Grammar.Symbol Terminal Nonterminal → Bool
  | .terminal letter => isOutside (Alphabet.number letter)
  | .nonterminal letter => decide (letter.height < bound)

theorem exists_lower_rule (letter : Nonterminal) :
    (rules.list.any fun rule =>
      decide (rule.head = letter) && rule.body.all (isLower letter.height)) = true := by
  cases letter <;> decide +kernel

theorem rules_fruitful : rules.Fruitful isOutside Nonterminal.height := by
  intro letter
  rcases List.any_eq_true.mp (exists_lower_rule letter) with ⟨rule, isRule, passes⟩
  rw [Bool.and_eq_true, decide_eq_true_eq, List.all_eq_true] at passes
  refine ⟨rule, isRule, passes.1, ?_⟩
  intro symbol isPart
  have isLow := passes.2 symbol isPart
  cases symbol with
  | terminal other => exact ⟨isLow, nofun⟩
  | nonterminal other =>
      refine ⟨rfl, ?_⟩
      rintro _ ⟨⟩
      exact of_decide_eq_true isLow

/-- One text of each terminal. -/
def Terminal.sample : Terminal → List Char
  | identifier => ['x']
  | intLiteral => ['0']
  | floatLiteral => ['0', '.']
  | stringLiteral => ['"', '"']
  | bodyText => ['x']
  | binaryOperator => ['+']
  | unaryOperator => ['-']
  | letter =>
      let spelling? := spellings.find? fun spelling => spelling.terminal == letter
      (spelling?.map Spelling.text).getD []

theorem sample_mem_texts (letter : Terminal) : letter.sample ∈ letter.texts := by
  have reads : (lexicon.restrict (· == letter)).read letter.sample =
      some ⟨some letter, letter.sample⟩ := by
    cases letter <;> decide +kernel
  exact mem_texts_of_read reads

theorem star_notMem_sample (letter : Terminal) : '*' ∉ letter.sample := by
  cases letter <;> decide +kernel

variable {front row rest more : List Char} {tokens : List (Terminal × Token)}
  {stack later : Stack Terminal Nonterminal Token}

/-! ## Letters -/

/-- Letters that can come next make a sentence of what has been read. -/
theorem Paused.exists_letters (paused : Paused tokens stack front row rest) :
    ∃ letters : List Terminal, (∀ letter ∈ letters, letter ≠ .bodyText) ∧
      ∀ others : List (Terminal × Token),
        others.map Prod.fst = tokens.map Prod.fst ++ letters →
          ∃ tree, parser.run [] others = .ok tree := by
  have path := paused.shifts.path parser_valid rules_graded parser_grounded .nil
  rcases paused.shifts.follows (fun _ isFrame => absurd isFrame List.not_mem_nil) with
    ⟨follows, leaves⟩
  have completes := path.completes_stack parser_grounded parser_viable rules_fruitful
    ⟨Position.start, []⟩ follows
  rw [leaves, Stack.leaves_nil, List.nil_append] at completes
  rcases completes.exists_letters parser_valid rules_graded with ⟨letters, arePlain, sentences⟩
  refine ⟨letters, ?_, sentences⟩
  rintro _ isLetter rfl
  cases arePlain _ isLetter

/-! ## A line feed -/

/-- Behind the text of a body a brace or more text is put on the stack. -/
theorem isChain_of_shifts (shifts : parser.Shifts stack tokens later) :
    tokens.IsChain fun left right =>
      left.1 = .bodyText → right.1 ∈ [Terminal.bodyText, .leftBrace, .rightBrace] := by
  induction shifts with
  | nil => exact .nil
  | @cons stack between later first others shifts further induction =>
      refine List.isChain_cons.mpr ⟨?_, induction⟩
      intro second isSecond isBody
      cases further with
      | nil => cases isSecond
      | cons next _ =>
          cases isSecond
          have behind := (Parser.behind_of_feed shifts).2
          rw [isBody] at behind
          exact accepts_behind_body behind (Parser.behind_of_feed next).1

/-- The text of a body takes a line feed to itself. -/
theorem Paused.exists_longer {last : Terminal × Token}
    (paused : Paused (tokens ++ [last]) stack front [] rest) (isBody : last.1 = .bodyText)
    (noEnd : ¬ ['*', '/'] <:+: more) (braced : Braced more) :
    ∃ longer : Token, Reads (0 :: parser.trace [] (tokens ++ [last])) Position.start
      (front ++ ['\n']) (tokens ++ [(.bodyText, longer)]) more := by
  rcases paused.exists_last with
    ⟨between, inner, stretch, rfl, further, -, reads, shifts⟩
  rcases last with ⟨letter, start, word⟩
  cases isBody
  rw [List.nil_append] at further reads
  have isFull : word ≠ [] := ((Language.known_honest lexicon_honest _).isPrefix reads).2
  have isText := bodyText_lineFeed (mem_texts_of_read reads)
  have halts : Halts (stretch ++ (word ++ [])) rest := halts_of_read reads nofun
  rw [List.append_nil] at halts
  have before : Reads (0 :: parser.trace [] (tokens ++ [(.bodyText, ⟨start, word⟩)]))
      Position.start inner tokens (stretch ++ (word ++ ['\n']) ++ more) := by
    have isWhole : stretch ++ (word ++ ['\n']) ++ more = stretch ++ word ++ '\n' :: more := by simp
    have isFront := further.reads
    rw [← List.append_assoc] at isFront
    rw [isWhole]
    exact (isFront.before_lineFeed noEnd (isChain_of_shifts further.shifts) fun _ _ _ => halts)
      |>.congr_states (congrArg _ (further.shifts.take_states_append _))
  have single : Reads [Stack.state between, Stack.state stack] (Position.start.advance inner)
      (stretch ++ (word ++ ['\n'] ++ []))
      [(.bodyText, ⟨(Position.start.advance inner).advance stretch, word ++ ['\n']⟩)] more := by
    refine .cons (further.skipped.congr ?_) ?_ .nil
    · rw [List.head?_append_of_ne_nil _ isFull, List.head?_append_of_ne_nil _ (by simp),
        List.head?_append_of_ne_nil _ isFull]
    · exact read_body (parser_coherent _) (accepted_of_read reads) isText braced
  have states : (0 :: parser.trace [] (tokens ++ [(Terminal.bodyText, ⟨start, word⟩)])).drop
      tokens.length = [Stack.state between, Stack.state stack] :=
    further.shifts.drop_states_concat shifts
  rw [List.append_nil] at single
  refine ⟨⟨(Position.start.advance inner).advance stretch, word ++ ['\n']⟩, ?_⟩
  rw [List.append_assoc, List.append_assoc]
  exact before.append (states ▸ single)

/-- With a line feed behind it, what has been read is read alike, except that the text of a body
goes on over the line feed. -/
theorem Paused.exists_lineFeed (paused : Paused tokens stack front row rest)
    (noEnd : ¬ ['*', '/'] <:+: more)
    (braced : ∀ last ∈ tokens.getLast?, last.1 = .bodyText → Braced more) :
    ∃ found whole filler, front ++ (row ++ ['\n']) = whole ++ filler ∧ Filler filler ∧
      found.map Prod.fst = tokens.map Prod.fst ∧
      Reads (0 :: parser.trace [] tokens) Position.start whole found (filler ++ more) := by
  by_cases touches : row = [] ∧ ∃ last ∈ tokens.getLast?, last.1 = .bodyText
  · rcases touches with ⟨rfl, last, isLast, isBody⟩
    rcases List.getLast?_eq_some_iff.mp isLast with ⟨before, rfl⟩
    rcases paused.exists_longer isBody noEnd (braced last isLast isBody) with ⟨longer, reads⟩
    exact ⟨_, front ++ ['\n'], [], by simp, .nil, by simp [isBody], reads⟩
  · refine ⟨tokens, front, row ++ ['\n'], rfl, filler_of_skipped paused.skipped, rfl, ?_⟩
    rw [List.append_assoc, List.singleton_append]
    apply paused.reads.before_lineFeed noEnd (isChain_of_shifts paused.shifts)
    intro last isLast isBody
    have isFull : row ≠ [] := fun isEmpty => touches ⟨isEmpty, last, isLast, isBody⟩
    exact ⟨isFull, fun isSlash => absurd isSlash paused.skipped.ne_slash⟩

end ShaderReflection.Wgsl
