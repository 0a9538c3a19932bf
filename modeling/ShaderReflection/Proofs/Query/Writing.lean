import ShaderReflection.Proofs.Query.Lexing

/-!
# Queries in writing

Patterns can be written in the pattern language, each part behind a single space. What is written is
spelled part by part: `Spelled` says that a text, wherever it stands, is made of terminals from
which the grammar derives a row of symbols, and what pieces this derivation gives. The text of a
pattern spells a pattern, and the only piece is the pattern itself (`spelled_body`); so a query in
writing is read as its patterns, as far as their kinds are allowed (`read_write_eq_check`).
-/

namespace ShaderReflection.Query

open ShaderReflection.Grammar ShaderReflection.Text
open ShaderReflection.Wgsl.Lexeme (isSpace Stops stops_nil stops_cons)

/-! ## Writing -/

namespace Pattern

def fieldMark : Option String → List Char
  | none => []
  | some field => field.toList ++ [':', ' ']

def captureMark : Option String → List Char
  | none => []
  | some name => ' ' :: '@' :: name.toList

mutual

/-- A pattern in writing: its kind and its child patterns in parentheses, with its field in front
and its capture behind them. -/
def write : Pattern → List Char
  | mk kind field capture children =>
      fieldMark field ++ '(' :: (kind.toList ++ (writeRow children ++ ')' :: captureMark capture))

/-- Patterns in writing, each behind a space. -/
def writeRow : List Pattern → List Char
  | [] => []
  | pattern :: rest => ' ' :: (pattern.write ++ writeRow rest)

end

/-- Names are names in a pattern and below, and kinds are such as they should be. -/
inductive WellFormed (isKind : String → Prop) : Pattern → Prop
  | mk {kind : String} {field capture : Option String} {children : List Pattern}
      (kindIs : isKind kind) (fieldIs : ∀ name ∈ field, isName name.toList = true)
      (captureIs : ∀ name ∈ capture, isCaptureName name.toList = true)
      (below : ∀ child ∈ children, WellFormed isKind child) :
      WellFormed isKind (mk kind field capture children)

end Pattern

/-- A query in writing: its patterns with single spaces between them. -/
def write (patterns : List Pattern) : String :=
  String.ofList ([' '].intercalate (patterns.map Pattern.write))

/-! ## Spelling -/

/-- From a position on, a text spells a row of derivations, whatever comes behind it that is no part
of a word. -/
structure SpellsAt (position : Position) (symbols : List (Grammar.Symbol Terminal Nonterminal))
    (text : List Char) (pieces : List Piece)
    (trees : List (Derivation Terminal Nonterminal Token)) : Prop where
  symbols : trees.map Derivation.symbol = symbols
  follow : ∀ tree ∈ trees, tree.Follows rules
  pieces : Piece.ofDerivations trees = pieces
  laid : ∀ {rest terminals}, Stops isCapturePart rest →
    Laid (position.advance text) rest terminals →
      Laid position (text ++ rest) (Derivation.leavesOfAll trees ++ terminals)

/-- A text spells a row of symbols and gives pieces. -/
def Spelled (symbols : List (Grammar.Symbol Terminal Nonterminal)) (text : List Char)
    (pieces : List Piece) : Prop :=
  ∀ position, ∃ trees, SpellsAt position symbols text pieces trees

/-- The text is not empty, and its first character is not in a class. -/
def BeginsOutside (isMember : Char → Bool) (text : List Char) : Prop :=
  ∃ char rest, text = char :: rest ∧ isMember char = false

theorem Piece.ofDerivations_append (left right : List (Derivation Terminal Nonterminal Token)) :
    Piece.ofDerivations (left ++ right) =
      Piece.ofDerivations left ++ Piece.ofDerivations right := by
  induction left with
  | nil => rfl
  | cons tree left induction => simp [Piece.ofDerivations, induction]

theorem Piece.filterMap_pattern (patterns : List Pattern) :
    (patterns.map Piece.pattern).filterMap Piece.pattern? = patterns := by
  simp [List.filterMap_map, Piece.pattern?, Function.comp_def]

section Spelled

variable {symbols moreSymbols : List (Grammar.Symbol Terminal Nonterminal)}
  {text more : List Char} {pieces morePieces own : List Piece} {letter : Terminal}
  {char : Char}

theorem BeginsOutside.stops {isMember : Char → Bool} (begins : BeginsOutside isMember text)
    (rest : List Char) : Stops isMember (text ++ rest) := by
  rcases begins with ⟨char, others, rfl, noMember⟩
  exact stops_cons noMember

theorem beginsOutside_name {word : List Char} (isWord : isName word = true) (rest : List Char) :
    BeginsOutside isSpace (word ++ rest) := by
  rcases isWordStart_of_isName isWord with ⟨char, others, rfl, isStart⟩
  refine ⟨char, others ++ rest, rfl, Bool.eq_false_iff.mpr fun spaced => ?_⟩
  simp only [isSpace, Bool.or_eq_true, beq_iff_eq] at spaced
  rcases spaced with (((rfl | rfl) | rfl) | rfl) | rfl <;> cases isStart

theorem spelled_nil : Spelled [] [] [] :=
  fun _ => ⟨[], rfl, List.forall_mem_nil _, rfl, fun _ laid => laid⟩

theorem Spelled.append (front : Spelled symbols text pieces)
    (back : Spelled moreSymbols more morePieces) (apart : BeginsOutside isCapturePart more) :
    Spelled (symbols ++ moreSymbols) (text ++ more) (pieces ++ morePieces) := by
  intro position
  rcases front position with ⟨trees, spells⟩
  rcases back (position.advance text) with ⟨moreTrees, moreSpells⟩
  refine ⟨trees ++ moreTrees, ?symbols, ?follow, ?pieces, ?laid⟩
  case symbols => rw [List.map_append, spells.symbols, moreSpells.symbols]
  case follow => exact List.forall_mem_append.mpr ⟨spells.follow, moreSpells.follow⟩
  case pieces => rw [Piece.ofDerivations_append, spells.pieces, moreSpells.pieces]
  case laid =>
    intro rest terminals stops laid
    rw [Position.advance_append] at laid
    rw [Derivation.leavesOfAll_append, List.append_assoc, List.append_assoc]
    exact spells.laid (apart.stops rest) (moreSpells.laid stops laid)

/-- A terminal in front. -/
theorem Spelled.token {word : List Char} (later : Spelled symbols text pieces)
    (isRead : ∀ rest, Stops isCapturePart rest → IsRead letter word (text ++ rest))
    (means : ∀ position, Piece.ofDerivation (.leaf letter ⟨position, word⟩) = own) :
    Spelled (.terminal letter :: symbols) (word ++ text) (own ++ pieces) := by
  intro position
  rcases later (position.advance word) with ⟨trees, spells⟩
  refine ⟨.leaf letter ⟨position, word⟩ :: trees, ?symbols, ?follow, ?pieces, ?laid⟩
  case symbols => rw [List.map_cons, spells.symbols, Derivation.symbol]
  case follow => exact List.forall_mem_cons.mpr ⟨.leaf letter _, spells.follow⟩
  case pieces => rw [Piece.ofDerivations, spells.pieces, means]
  case laid =>
    intro rest terminals stops laid
    rw [Position.advance_append] at laid
    rw [List.append_assoc]
    exact .token (isRead rest stops) (spells.laid stops laid)

theorem Spelled.mark (later : Spelled symbols text pieces)
    (isMark : ⟨[char], letter⟩ ∈ lexicon.spellings) :
    Spelled (.terminal letter :: symbols) (char :: text) pieces := by
  have means : ∀ position : Position,
      Piece.ofDerivation (.leaf letter ⟨position, [char]⟩) = [] := by
    intro position
    rcases mark_cases isMark with ⟨rfl, -⟩ | ⟨rfl, -⟩ | ⟨rfl, -⟩ | ⟨rfl, -⟩ <;> rfl
  exact later.token (fun _ _ => isRead_mark isMark) means

theorem Spelled.word {name : String} (later : Spelled symbols text pieces)
    (isWord : letter = .name ∨ letter = .captureName)
    (isRead : ∀ rest, Stops isCapturePart rest → IsRead letter name.toList (text ++ rest)) :
    Spelled (.terminal letter :: symbols) (name.toList ++ text) (.word name :: pieces) := by
  have means : ∀ position : Position,
      Piece.ofDerivation (.leaf letter ⟨position, name.toList⟩) = [.word name] := by
    intro position
    rcases isWord with rfl | rfl <;> rw [Piece.ofDerivation, String.ofList_toList]
  exact later.token isRead means

theorem Spelled.name {name : String} (later : Spelled symbols text pieces)
    (isWord : isName name.toList = true) (apart : BeginsOutside isCapturePart text) :
    Spelled (.terminal .name :: symbols) (name.toList ++ text) (.word name :: pieces) :=
  later.word (.inl rfl) fun rest _ => isRead_name isWord (apart.stops rest)

/-- Nothing comes behind the name of a capture. -/
theorem spelled_captureName {name : String} (isWord : isCaptureName name.toList = true) :
    Spelled [.terminal .captureName] name.toList [.word name] := by
  have spelled : Spelled [.terminal .captureName] (name.toList ++ []) [.word name] :=
    spelled_nil.word (.inr rfl) fun rest stops => isRead_captureName isWord stops
  rwa [List.append_nil] at spelled

/-- A space in front. -/
theorem Spelled.space (later : Spelled symbols text pieces)
    (noSpace : BeginsOutside isSpace text) : Spelled symbols (' ' :: text) pieces := by
  intro position
  rcases later (position.step ' ') with ⟨trees, spells⟩
  refine ⟨trees, spells.symbols, spells.follow, spells.pieces, ?_⟩
  intro rest terminals stops laid
  exact .space (noSpace.stops rest) (spells.laid stops laid)

/-- A rule above its body. -/
theorem Spelled.node {head : Nonterminal} (below : Spelled symbols text pieces)
    (known : ⟨head, symbols⟩ ∈ rules.list) :
    Spelled [.nonterminal head] text (Piece.assemble head pieces) := by
  intro position
  rcases below position with ⟨trees, spells⟩
  refine ⟨[.node ⟨head, symbols⟩ trees], rfl, ?follow, ?pieces, ?laid⟩
  case follow =>
    rw [List.forall_mem_singleton]
    exact .node _ trees known spells.symbols spells.follow
  case pieces =>
    rw [Piece.ofDerivations, Piece.ofDerivation, spells.pieces, Piece.ofDerivations,
      List.append_nil]
  case laid =>
    intro rest terminals stops laid
    rw [Derivation.leavesOfAll, Derivation.leaves, Derivation.leavesOfAll, List.append_nil]
    exact spells.laid stops laid

end Spelled

/-! ## Patterns -/

namespace Pattern

/-- A pattern as it stands, whether or not it is for a field. -/
def bare : Pattern → Pattern
  | mk kind _ capture children => mk kind none capture children

/-- A pattern in writing, without the field in front. -/
def body : Pattern → List Char
  | mk kind _ capture children =>
      '(' :: (kind.toList ++ (writeRow children ++ ')' :: captureMark capture))

theorem write_eq (pattern : Pattern) : pattern.write = fieldMark pattern.field ++ pattern.body := by
  cases pattern
  rw [write, field, body]

theorem write_eq_body {pattern : Pattern} (noField : pattern.field = none) :
    pattern.write = pattern.body := by
  rw [write_eq, noField, fieldMark, List.nil_append]

theorem beginsOutside_body (pattern : Pattern) : BeginsOutside isSpace pattern.body := by
  cases pattern
  exact ⟨'(', _, rfl, rfl⟩

theorem bare_eq {pattern : Pattern} (noField : pattern.field = none) : pattern.bare = pattern := by
  cases pattern
  cases noField
  rfl

theorem forField_bare {pattern : Pattern} {field : String} (isField : pattern.field = some field) :
    pattern.bare.forField field = pattern := by
  cases pattern
  cases isField
  rfl

theorem beginsOutside_row (children : List Pattern) (rest : List Char) :
    BeginsOutside isCapturePart (writeRow children ++ ')' :: rest) := by
  cases children with
  | nil => exact ⟨')', rest, rfl, rfl⟩
  | cons child children => exact ⟨' ', _, rfl, rfl⟩

/-- A row of patterns behind the first ones, one by one. -/
theorem spelled_row {head element : Nonterminal}
    (known : ⟨head, [.nonterminal head, .nonterminal element]⟩ ∈ rules.list)
    (plain : ∀ pieces, Piece.assemble head pieces = pieces) {patterns : List Pattern}
    (each : ∀ pattern ∈ patterns,
      Spelled [.nonterminal element] (' ' :: pattern.write) [.pattern pattern])
    {text : List Char} {pieces : List Piece} (front : Spelled [.nonterminal head] text pieces) :
    Spelled [.nonterminal head] (text ++ writeRow patterns)
      (pieces ++ patterns.map .pattern) := by
  induction patterns generalizing text pieces with
  | nil =>
      rw [writeRow, List.map_nil, List.append_nil, List.append_nil]
      exact front
  | cons pattern patterns induction =>
      rcases List.forall_mem_cons.mp each with ⟨first, others⟩
      have longer := (front.append first ⟨' ', _, rfl, rfl⟩).node known
      rw [plain] at longer
      have whole := induction others longer
      simpa only [writeRow, List.map_cons, List.append_assoc, List.cons_append, List.nil_append]
        using whole

theorem spelled_children {children : List Pattern}
    (each : ∀ child ∈ children,
      Spelled [.nonterminal .child] (' ' :: child.write) [.pattern child]) :
    ∃ row, (row = [] ∨ row = [.nonterminal .children]) ∧
      Spelled row (writeRow children) (children.map .pattern) := by
  cases children with
  | nil => exact ⟨[], .inl rfl, spelled_nil⟩
  | cons first others =>
      rcases List.forall_mem_cons.mp each with ⟨isFirst, areOthers⟩
      have front : Spelled [.nonterminal .children] (' ' :: first.write) [.pattern first] :=
        isFirst.node (by decide)
      have known : (⟨.children, [.nonterminal .children, .nonterminal .child]⟩ :
          Rule Terminal Nonterminal) ∈ rules.list := by
        decide
      have whole := spelled_row known (fun _ => rfl) areOthers front
      exact ⟨[.nonterminal .children], .inr rfl, whole⟩

theorem spelled_captureMark {capture : Option String}
    (captureIs : ∀ name ∈ capture, isCaptureName name.toList = true) :
    ∃ tail, (tail = [] ∨ tail = [.nonterminal .capture]) ∧
      Spelled tail (captureMark capture) (capture.toList.map .capture) := by
  cases capture with
  | none => exact ⟨[], .inl rfl, spelled_nil⟩
  | some name =>
      have marked : Spelled [.terminal .atSign, .terminal .captureName] ('@' :: name.toList)
          [.word name] :=
        (spelled_captureName (captureIs name rfl)).mark (by simp [lexicon])
      have spaced := marked.space ⟨'@', _, rfl, rfl⟩
      exact ⟨[.nonterminal .capture], .inr rfl, spaced.node (by decide)⟩

/-- What a kind, child patterns and a capture make. -/
theorem assemble_pattern (kind : String) (capture : Option String) (children : List Pattern) :
    Piece.assemble .pattern
        (.word kind :: (children.map .pattern ++ capture.toList.map .capture)) =
      [.pattern (mk kind none capture children)] := by
  have noCaptures : (children.map Piece.pattern).filterMap Piece.capture? = [] := by
    simp [List.filterMap_map, Piece.capture?, Function.comp_def]
  simp only [Piece.assemble, List.filterMap_append, noCaptures, Piece.filterMap_pattern]
  cases capture <;> simp [Piece.capture?, Piece.pattern?]

/-- A child pattern is a pattern, or one with the name of a field in front. -/
theorem spelled_child {pattern : Pattern}
    (fieldIs : ∀ name ∈ pattern.field, isName name.toList = true)
    (spelled : Spelled [.nonterminal .pattern] pattern.body [.pattern pattern.bare]) :
    Spelled [.nonterminal .child] (' ' :: pattern.write) [.pattern pattern] := by
  have opens := beginsOutside_body pattern
  cases isField : pattern.field with
  | none =>
      rw [bare_eq isField] at spelled
      rw [write_eq_body isField]
      exact (spelled.space opens).node (by decide)
  | some field =>
      have isWord := fieldIs field isField
      have marked : Spelled [.terminal .colon, .nonterminal .pattern] (':' :: ' ' :: pattern.body)
          [.pattern pattern.bare] :=
        (spelled.space opens).mark (by simp [lexicon])
      have named : Spelled [.nonterminal .fieldPattern]
          (field.toList ++ ':' :: ' ' :: pattern.body) [.pattern (pattern.bare.forField field)] :=
        (marked.name isWord ⟨':', _, rfl, rfl⟩).node (by decide)
      have isWritten : fieldMark (some field) ++ pattern.body =
          field.toList ++ ':' :: ' ' :: pattern.body := by
        rw [fieldMark, List.append_assoc, List.cons_append, List.singleton_append]
      rw [forField_bare isField] at named
      rw [write_eq, isField, isWritten]
      exact (named.space (beginsOutside_name isWord _)).node (by decide)

theorem WellFormed.field {isKind : String → Prop} {pattern : Pattern}
    (wellFormed : pattern.WellFormed isKind) :
    ∀ name ∈ pattern.field, isName name.toList = true := by
  cases wellFormed with
  | mk kindIs fieldIs captureIs below => exact fieldIs

/-- A pattern in writing spells a pattern, and what is read is the pattern itself. -/
theorem spelled_body {isKind : String → Prop}
    (isWord : ∀ {name}, isKind name → isName name.toList = true) {pattern : Pattern}
    (wellFormed : pattern.WellFormed isKind) :
    Spelled [.nonterminal .pattern] pattern.body [.pattern pattern.bare] := by
  induction wellFormed with
  | @mk kind field capture children kindIs fieldIs captureIs below induction =>
      rcases spelled_children fun child isChild =>
        spelled_child (below child isChild).field (induction child isChild) with
        ⟨row, isRow, spelledRow⟩
      rcases spelled_captureMark captureIs with ⟨tail, isTail, spelledTail⟩
      have closed : Spelled (.terminal .rightParen :: tail) (')' :: captureMark capture)
          (capture.toList.map .capture) :=
        spelledTail.mark (by simp [lexicon])
      have inner := spelledRow.append closed ⟨')', _, rfl, rfl⟩
      have named := inner.name (isWord kindIs) (beginsOutside_row children _)
      have isMark : ⟨['('], .leftParen⟩ ∈ lexicon.spellings := by simp [lexicon]
      have known : (⟨.pattern, .terminal .leftParen :: .terminal .name ::
          (row ++ .terminal .rightParen :: tail)⟩ : Rule Terminal Nonterminal) ∈ rules.list := by
        rcases isRow with rfl | rfl <;> rcases isTail with rfl | rfl <;> decide
      have whole := (named.mark isMark).node known
      rw [assemble_pattern] at whole
      exact whole

end Pattern

/-! ## Queries -/

/-- A written pattern for no field. -/
theorem spelled_pattern {isKind : String → Prop}
    (isWord : ∀ {name}, isKind name → isName name.toList = true) {pattern : Pattern}
    (wellFormed : pattern.WellFormed isKind) (noField : pattern.field = none) :
    Spelled [.nonterminal .pattern] pattern.write [.pattern pattern] := by
  have spelled := Pattern.spelled_body isWord wellFormed
  rw [Pattern.bare_eq noField] at spelled
  rw [Pattern.write_eq_body noField]
  exact spelled

theorem intercalate_write (first : Pattern) (others : List Pattern) :
    [' '].intercalate ((first :: others).map Pattern.write) =
      first.write ++ Pattern.writeRow others := by
  induction others generalizing first with
  | nil => simp [List.intercalate, Pattern.writeRow]
  | cons second others induction =>
      have later := induction second
      rw [List.map_cons] at later
      rw [List.map_cons, List.map_cons, List.intercalate_cons_cons, later, Pattern.writeRow]
      simp

/-- A text that spells a query is read, and then the kinds of its patterns are looked at. -/
theorem read_of_spelled {text : List Char} {patterns : List Pattern}
    (spelled : Spelled [.nonterminal .query] text (patterns.map .pattern)) :
    read (String.ofList text) = Pattern.check patterns := by
  rcases spelled Position.start with ⟨trees, spells⟩
  rcases List.map_eq_singleton_iff.mp spells.symbols with ⟨tree, rfl, isQuery⟩
  have follows := spells.follow tree List.mem_cons_self
  have laid := spells.laid (stops_nil _) .nil
  simp only [Derivation.leavesOfAll, List.append_nil] at laid
  have pieces := spells.pieces
  rw [Piece.ofDerivations, Piece.ofDerivations, List.append_nil] at pieces
  rw [read, String.toList_ofList, read_of_laid follows isQuery laid]
  simp only [pieces, Piece.filterMap_pattern]

/-- A query in writing is read as its patterns, and then their kinds are looked at. -/
theorem read_write_eq_check {patterns : List Pattern} (notEmpty : patterns ≠ [])
    {isKind : String → Prop} (isWord : ∀ {name}, isKind name → isName name.toList = true)
    (wellFormed : ∀ pattern ∈ patterns, pattern.WellFormed isKind)
    (noField : ∀ pattern ∈ patterns, pattern.field = none) :
    read (write patterns) = Pattern.check patterns := by
  cases patterns with
  | nil => exact absurd rfl notEmpty
  | cons first others =>
      rcases List.forall_mem_cons.mp wellFormed with ⟨firstFormed, othersFormed⟩
      rcases List.forall_mem_cons.mp noField with ⟨firstBare, othersBare⟩
      have front : Spelled [.nonterminal .patterns] first.write [.pattern first] :=
        (spelled_pattern isWord firstFormed firstBare).node (by decide)
      have each : ∀ pattern ∈ others,
          Spelled [.nonterminal .pattern] (' ' :: pattern.write) [.pattern pattern] := by
        intro pattern isOther
        have noMark := othersBare pattern isOther
        have spelled := spelled_pattern isWord (othersFormed pattern isOther) noMark
        rw [Pattern.write_eq_body noMark] at spelled ⊢
        exact spelled.space (Pattern.beginsOutside_body pattern)
      have known : (⟨.patterns, [.nonterminal .patterns, .nonterminal .pattern]⟩ :
          Rule Terminal Nonterminal) ∈ rules.list := by
        decide
      have row := Pattern.spelled_row known (fun _ => rfl) each front
      have whole : Spelled [.nonterminal .query] (first.write ++ Pattern.writeRow others)
          ((first :: others).map .pattern) :=
        row.node (by decide)
      rw [← intercalate_write] at whole
      exact read_of_spelled whole

end ShaderReflection.Query
