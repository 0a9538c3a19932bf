import ShaderReflection.Proofs.Tree.Completeness
import ShaderReflection.Proofs.Tree.Soundness
import Mathlib.Data.List.Chain

/-!
# Printing and parsing

A phrase is printed as the texts of its tokens with one space between two of them, except that
nothing is put behind the text of a body. What is printed is parsed to the same phrase, with one
exception: an operator `>` directly behind a name or an integer is taken for the end of a list.
-/

namespace ShaderReflection.Tree

open ShaderReflection.Grammar ShaderReflection.Wgsl ShaderReflection.Text

/-! ## The same phrase with other tokens -/

namespace Phrase

variable {κ μ : Type}

mutual

def map (change : κ → μ) : Phrase κ → Phrase μ
  | leaf terminal token => .leaf terminal (change token)
  | node kind children => .node kind (mapAll change children)

def mapAll (change : κ → μ) : List (Phrase κ) → List (Phrase μ)
  | [] => []
  | phrase :: rest => phrase.map change :: mapAll change rest

end

theorem symbol_map (change : κ → μ) (phrase : Phrase κ) :
    (phrase.map change).symbol = phrase.symbol := by
  cases phrase <;> rfl

theorem map_symbol_mapAll (change : κ → μ) (list : List (Phrase κ)) :
    (mapAll change list).map symbol = list.map symbol := by
  induction list with
  | nil => rfl
  | cons phrase list induction =>
      rw [mapAll, List.map_cons, List.map_cons, symbol_map, induction]

mutual

theorem leaves_map (change : κ → μ) : (phrase : Phrase κ) →
    (phrase.map change).leaves = phrase.leaves.map (Prod.map id change)
  | leaf _ _ => rfl
  | node _ children => leavesOfAll_mapAll change children

theorem leavesOfAll_mapAll (change : κ → μ) : (list : List (Phrase κ)) →
    leavesOfAll (mapAll change list) = (leavesOfAll list).map (Prod.map id change)
  | [] => rfl
  | phrase :: rest => by
      rw [mapAll, leavesOfAll, leavesOfAll, List.map_append, leaves_map, leavesOfAll_mapAll]

end

mutual

theorem derives_map (change : κ → μ) : (phrase : Phrase κ) →
    (phrase.map change).derives = phrase.derives
  | leaf _ _ => rfl
  | node kind children => by
      rw [map, derives, derives, map_symbol_mapAll, deriveAll_mapAll change children]

theorem deriveAll_mapAll (change : κ → μ) : (list : List (Phrase κ)) →
    deriveAll (mapAll change list) = deriveAll list
  | [] => rfl
  | phrase :: rest => by
      rw [mapAll, deriveAll, deriveAll, derives_map change phrase, deriveAll_mapAll change rest]

end

mutual

theorem map_congr {change other : κ → μ} : (phrase : Phrase κ) →
    (∀ leaf ∈ phrase.leaves, change leaf.2 = other leaf.2) → phrase.map change = phrase.map other
  | leaf terminal token, same => by
      rw [map, map, same (terminal, token) List.mem_cons_self]
  | node kind children, same => by
      rw [map, map, mapAll_congr children same]

theorem mapAll_congr {change other : κ → μ} : (list : List (Phrase κ)) →
    (∀ leaf ∈ leavesOfAll list, change leaf.2 = other leaf.2) →
      mapAll change list = mapAll other list
  | [], _ => rfl
  | phrase :: rest, same => by
      rw [leavesOfAll, List.forall_mem_append] at same
      rw [mapAll, mapAll, map_congr phrase same.1, mapAll_congr rest same.2]

end

mutual

/-- The tokens of a phrase can be replaced one by one. -/
theorem exists_map_eq (change : κ → μ) : (phrase : Phrase μ) → (tokens : List (Terminal × κ)) →
    tokens.map (Prod.map id change) = phrase.leaves →
    ∃ other : Phrase κ, other.map change = phrase ∧ other.leaves = tokens
  | leaf terminal token, tokens, same => by
      rcases List.map_eq_singleton_iff.mp same with ⟨⟨letter, found⟩, rfl, isToken⟩
      cases isToken
      exact ⟨.leaf letter found, rfl, rfl⟩
  | node kind children, tokens, same => by
      rcases exists_mapAll_eq change children tokens same with ⟨others, isChildren, areTokens⟩
      exact ⟨.node kind others, by rw [map, isChildren], areTokens⟩

theorem exists_mapAll_eq (change : κ → μ) : (list : List (Phrase μ)) →
    (tokens : List (Terminal × κ)) → tokens.map (Prod.map id change) = leavesOfAll list →
    ∃ others : List (Phrase κ), mapAll change others = list ∧ leavesOfAll others = tokens
  | [], tokens, same => ⟨[], rfl, (List.map_eq_nil_iff.mp same).symm⟩
  | phrase :: rest, tokens, same => by
      rw [leavesOfAll] at same
      rcases List.map_eq_append_iff.mp same with ⟨front, back, rfl, isFront, isBack⟩
      rcases exists_map_eq change phrase front isFront with ⟨other, isPhrase, frontTokens⟩
      rcases exists_mapAll_eq change rest back isBack with ⟨others, isRest, backTokens⟩
      exact ⟨other :: others, by rw [mapAll, isPhrase, isRest],
        by rw [leavesOfAll, frontTokens, backTokens]⟩

end

theorem isModule_map_iff {change : κ → μ} {phrase : Phrase κ} :
    (phrase.map change).IsModule ↔ phrase.IsModule := by
  constructor
  · rintro ⟨derives, isTop⟩
    rw [← derives_iff, derives_map, derives_iff] at derives
    exact ⟨derives, symbol_map change phrase ▸ isTop⟩
  · rintro ⟨derives, isTop⟩
    rw [← derives_iff, ← derives_map change, derives_iff] at derives
    exact ⟨derives, (symbol_map change phrase).trans isTop⟩

theorem IsModule.of_map {change : κ → μ} {phrase : Phrase κ}
    (isModule : (phrase.map change).IsModule) : phrase.IsModule :=
  isModule_map_iff.mp isModule

theorem IsModule.map {phrase : Phrase κ} (isModule : phrase.IsModule) (change : κ → μ) :
    (phrase.map change).IsModule :=
  isModule_map_iff.mpr isModule

end Phrase

/-! ## The phrase of a node -/

namespace Node

mutual

/-- What a node shows in a source: the kinds, the terminals and the texts, without positions. -/
def phrase? (source : List Char) : Node → Option (Phrase (List Char))
  | named (.known kind) _ children => (phraseAll? source children).map (.node kind)
  | token (.known terminal) span => some (.leaf terminal (span.slice source))
  | _ => none

def phraseAll? (source : List Char) : List Node → Option (List (Phrase (List Char)))
  | [] => some []
  | node :: rest => (node.phrase? source).bind fun phrase =>
      (phraseAll? source rest).map (phrase :: ·)

end

mutual

theorem phrase?_toNode (source : List Char) : (phrase : Phrase Token) →
    phrase.toNode.phrase? source = some (phrase.map fun token => token.span.slice source)
  | .leaf _ _ => rfl
  | .node kind children => by
      rw [Phrase.toNode, phrase?, phraseAll?_toNodes, Phrase.map, Option.map_some]

theorem phraseAll?_toNodes (source : List Char) : (list : List (Phrase Token)) →
    phraseAll? source (Phrase.toNodes list) =
      some (Phrase.mapAll (fun token => token.span.slice source) list)
  | [] => rfl
  | phrase :: rest => by
      rw [Phrase.toNodes, phraseAll?, phrase?_toNode, phraseAll?_toNodes, Phrase.mapAll,
        Option.bind_some, Option.map_some]

end

end Node

/-! ## Printing -/

/-- What is put behind a token. -/
def gap (letter : Terminal) : List (Terminal × List Char) → List Char
  | [] => []
  | _ :: _ => if letter = .bodyText then [] else [' ']

def render : List (Terminal × List Char) → List Char
  | [] => []
  | (letter, text) :: rest => text ++ (gap letter rest ++ render rest)

/-- The tokens of a printed text, with their places. -/
def place (position : Position) : List (Terminal × List Char) → List (Terminal × Token)
  | [] => []
  | (letter, text) :: rest =>
      (letter, ⟨position, text⟩) :: place ((position.advance text).advance (gap letter rest)) rest

theorem map_text_place (position : Position) (leaves : List (Terminal × List Char)) :
    (place position leaves).map (Prod.map id Token.text) = leaves := by
  induction leaves generalizing position with
  | nil => rfl
  | cons leaf leaves induction =>
      rw [place, List.map_cons, induction]
      rfl

structure Phrase.Printable (phrase : Phrase (List Char)) : Prop where
  isModule : phrase.IsModule
  written : ∀ leaf ∈ phrase.leaves, leaf.2 ∈ leaf.1.texts
  unreserved : ∀ leaf ∈ phrase.leaves, leaf.1 = .identifier →
    ∀ spelling ∈ spellings, spelling.text ≠ leaf.2
  apart : phrase.leaves.IsChain fun left right =>
    ¬ (left.1 = .bodyText ∧ right.1 = .bodyText)

/-- The operator `>` stands directly behind a name or an integer. -/
def Clash (left right : Terminal × List Char) : Prop :=
  (left.1 = .identifier ∨ left.1 = .intLiteral) ∧ right = (.binaryOperator, ['>'])

instance (left right : Terminal × List Char) : Decidable (Clash left right) :=
  inferInstanceAs (Decidable (_ ∧ _))

/-- The leaf that was read last comes before the others. -/
theorem isChain_before {α : Type} {relation : α → α → Prop} {before : Option α} {first : α}
    {rest : List α} : (before.toList ++ first :: rest).IsChain relation ↔
      (∀ last ∈ before, relation last first) ∧
        ((some first).toList ++ rest).IsChain relation := by
  cases before with
  | none => simp
  | some last => simp

/-! ## What is printed is read -/

section Scan

open Lexeme

variable {stack : Stack Terminal Nonterminal Token} {position : Position}
  {leaves : List (Terminal × List Char)} {terminals : List (Terminal × Token)}

theorem parted_gap {letter : Terminal} (isOther : letter ≠ .bodyText) :
    Parted (gap letter leaves ++ render leaves) := by
  cases leaves with
  | nil => exact parted_nil
  | cons leaf leaves =>
      rw [gap, if_neg isOther]
      exact parted_space _

theorem gap_bodyText : gap .bodyText leaves = [] := by
  cases leaves <;> rfl

theorem scan_gap {letter : Terminal} (written : ∀ leaf ∈ leaves, leaf.2 ∈ leaf.1.texts)
    (scan : language.Scan stack (position.advance (gap letter leaves)) (render leaves) terminals) :
    language.Scan stack position (gap letter leaves ++ render leaves) terminals := by
  cases leaves with
  | nil => exact scan
  | cons leaf leaves =>
      rcases leaf with ⟨next, text⟩
      rw [gap] at scan ⊢
      split
      · rename_i isBody
        rw [if_pos isBody] at scan
        exact scan
      · rename_i isOther
        rw [if_neg isOther] at scan
        have noSpace : Stops isSpace (render ((next, text) :: leaves)) :=
          stops_isSpace (written (next, text) List.mem_cons_self)
        exact .trivia (read_space noSpace) scan

/-- Behind the text of a body comes a brace, or nothing. -/
theorem braced_render {tree : Derivation Terminal Nonterminal Token}
    (behind : parser.Behind stack (some .bodyText))
    (written : ∀ leaf ∈ leaves, leaf.2 ∈ leaf.1.texts)
    (noBody : ∀ leaf ∈ leaves.head?, leaf.1 ≠ .bodyText)
    (built : parser.run stack (place position leaves) = .ok tree) : Braced (render leaves) := by
  cases leaves with
  | nil => simp [Braced, render]
  | cons leaf leaves =>
      rcases leaf with ⟨letter, text⟩
      rcases Parser.exists_feed_of_run built with ⟨later, shifts, -⟩
      have isNext := accepts_behind_body behind (Parser.behind_of_feed shifts).1
      have isText := written (letter, text) List.mem_cons_self
      have isBrace : text = ['\x7b'] ∨ text = ['\x7d'] := by
        simp only [List.mem_cons, List.not_mem_nil, or_false] at isNext
        rcases isNext with isBody | rfl | rfl
        · exact absurd isBody (noBody (letter, text) rfl)
        · exact .inl (eq_of_mem_texts_leftBrace isText)
        · exact .inr (eq_of_mem_texts_rightBrace isText)
      rw [render]
      rcases isBrace with rfl | rfl
      · simp [Braced]
      · simp [Braced]

theorem accepts_greater_iff {before : Option (Terminal × List Char)}
    (behind : parser.Behind stack (before.map Prod.fst))
    (isBinary : parser.accepts (Stack.state stack) .binaryOperator = true) :
    parser.accepts (Stack.state stack) .greater = true ↔
      ∃ last ∈ before, Clash last (.binaryOperator, ['>']) := by
  rw [accepts_greater behind isBinary]
  cases before with
  | none => simp
  | some last => simp [Clash]

/-- The machine reads the tokens of a printed text one by one, as long as no operator is taken for
the end of a list. -/
theorem scan_render (before : Option (Terminal × List Char))
    {tree : Derivation Terminal Nonterminal Token}
    (behind : parser.Behind stack (before.map Prod.fst))
    (written : ∀ leaf ∈ leaves, leaf.2 ∈ leaf.1.texts)
    (unreserved : ∀ leaf ∈ leaves, leaf.1 = .identifier →
      ∀ spelling ∈ spellings, spelling.text ≠ leaf.2)
    (apart : leaves.IsChain fun left right => ¬ (left.1 = .bodyText ∧ right.1 = .bodyText))
    (clear : (before.toList ++ leaves).IsChain fun left right => ¬ Clash left right)
    (built : parser.run stack (place position leaves) = .ok tree) :
    language.Scan stack position (render leaves) (place position leaves) := by
  -- The run of the machine says what it puts on its stack, and so what is acceptable at each token.
  induction leaves generalizing stack position before with
  | nil => exact .nil
  | cons leaf leaves induction =>
      rcases leaf with ⟨letter, text⟩
      rcases Parser.exists_feed_of_run built with ⟨later, shifts, laterBuilt⟩
      rcases Parser.behind_of_feed shifts with ⟨isAccepted, laterBehind⟩
      rcases List.forall_mem_cons.mp written with ⟨isText, othersWritten⟩
      rcases List.forall_mem_cons.mp unreserved with ⟨isPlain, othersPlain⟩
      rcases List.isChain_cons.mp apart with ⟨notBoth, othersApart⟩
      rcases isChain_before.mp clear with ⟨noClash, othersClear⟩
      have reads : (lexicon.restrict (parser.accepts (Stack.state stack))).read
          (text ++ (gap letter leaves ++ render leaves)) = some ⟨some letter, text⟩ := by
        apply read_of_mem_texts (parser_coherent _) isAccepted isText parted_gap _ isPlain _
        · rintro rfl
          rw [gap_bodyText, List.nil_append]
          refine braced_render laterBehind othersWritten ?_ laterBuilt
          intro next isNext isBody
          exact notBoth next isNext ⟨rfl, isBody⟩
        · -- An operator `>` is read as such only where it cannot be the end of a list.
          rintro rfl rfl
          apply Bool.eq_false_iff.mpr
          intro isGreater
          rcases (accepts_greater_iff behind isAccepted).mp isGreater with ⟨last, isLast, clash⟩
          exact noClash last isLast clash
      refine .token reads shifts ?_
      rw [render, List.drop_left]
      apply scan_gap othersWritten
      exact induction (some (letter, text)) laterBehind othersWritten othersPlain othersApart
        othersClear laterBuilt

/-- In no text that is read does an operator `>` stand directly behind a name or an integer. -/
theorem noClash_of_scan {text : List Char} (before : Option (Terminal × List Char))
    (behind : parser.Behind stack (before.map Prod.fst))
    (scan : language.Scan stack position text terminals) :
    (before.toList ++ terminals.map (Prod.map id Token.text)).IsChain
      fun left right => ¬ Clash left right := by
  induction scan generalizing before with
  | nil => cases before <;> simp
  | trivia reads rest induction => exact induction before behind
  | @token stack later position text word letter terminals reads shifts rest induction =>
      rcases Parser.behind_of_feed shifts with ⟨isAccepted, laterBehind⟩
      rw [List.map_cons, isChain_before]
      refine ⟨?_, induction (some (letter, word)) laterBehind⟩
      rintro last isLast ⟨isWord, isOperator⟩
      cases isOperator
      have noGreater := not_accepted_of_read reads
      have isGreater := (accepts_greater_iff behind isAccepted).mpr ⟨last, isLast, isWord, rfl⟩
      exact Bool.false_ne_true (noGreater.symm.trans isGreater)

end Scan

/-! ## The round trip -/

/-- In a text that has been read, the nodes of a phrase show the texts of its tokens. -/
theorem phrase?_of_scan {source : List Char} {found : Phrase Token}
    (scan : language.Scan [] Position.start source found.leaves) :
    found.toNode.phrase? source = some (found.map Token.text) := by
  rw [Node.phrase?_toNode, found.map_congr (scan.slice_eq_text Lexeme.lexicon_honest rfl)]

/-- A printed module is parsed to the nodes of its tokens at their places. -/
theorem parse_of_placed {found : Phrase Token} {leaves : List (Terminal × List Char)}
    (isModule : found.IsModule) (isPlaced : found.leaves = place Position.start leaves)
    (written : ∀ leaf ∈ leaves, leaf.2 ∈ leaf.1.texts)
    (unreserved : ∀ leaf ∈ leaves, leaf.1 = .identifier →
      ∀ spelling ∈ spellings, spelling.text ≠ leaf.2)
    (apart : leaves.IsChain fun left right => ¬ (left.1 = .bodyText ∧ right.1 = .bodyText))
    (clear : leaves.IsChain fun left right => ¬ Clash left right) :
    SyntaxTree.parse (render leaves) = .ok ⟨render leaves, found.toNode⟩ ∧
      language.Scan [] Position.start (render leaves) found.leaves := by
  rcases run_leaves_of_isModule isModule with ⟨derivation, built, shown⟩
  rw [isPlaced] at built ⊢
  have scan := scan_render none rfl written unreserved apart clear built
  have reads := (Language.read_eq_ok_iff Lexeme.lexicon_honest).mpr ⟨_, scan, built⟩
  refine ⟨?_, scan⟩
  rw [SyntaxTree.parse, reads, ← ofDerivation_eq shown]

/-- In the tree of an accepted source, no operator `>` stands directly behind a name or an
integer. -/
theorem noClash_of_parse {source : List Char} {tree : SyntaxTree} {phrase : Phrase (List Char)}
    (accepted : SyntaxTree.parse source = .ok tree)
    (isPhrase : tree.root.phrase? tree.source = some phrase) :
    phrase.leaves.IsChain fun left right => ¬ Clash left right := by
  rcases exists_phrase_of_parse accepted with ⟨found, isModule, rfl, scan⟩
  rw [phrase?_of_scan scan] at isPhrase
  cases isPhrase
  rw [Phrase.leaves_map]
  exact noClash_of_scan none rfl scan

/-- A printed phrase is parsed to the same phrase if and only if no operator `>` stands directly
behind a name or an integer. -/
theorem parse_render_iff {phrase : Phrase (List Char)} (printable : phrase.Printable) :
    (∃ tree, SyntaxTree.parse (render phrase.leaves) = .ok tree ∧
        tree.root.phrase? tree.source = some phrase) ↔
      phrase.leaves.IsChain fun left right => ¬ Clash left right := by
  constructor
  · rintro ⟨tree, accepted, isPhrase⟩
    exact noClash_of_parse accepted isPhrase
  · intro clear
    rcases phrase.exists_map_eq Token.text _ (map_text_place Position.start phrase.leaves) with
      ⟨found, isPhrase, isPlaced⟩
    have isModule := printable.isModule
    rw [← isPhrase] at isModule
    rcases parse_of_placed isModule.of_map isPlaced printable.written printable.unreserved
      printable.apart clear with ⟨accepted, scan⟩
    exact ⟨_, accepted, by rw [phrase?_of_scan scan, isPhrase]⟩

/-- The declaration of a constant `x` as the outcome of a comparison: `const x = … > 2 ;`. -/
def comparison (left : Phrase (List Char)) : Phrase (List Char) :=
  .node .translationUnit [.node .globalConstantDeclaration [
    .leaf .constWord "const".toList, .node .identifier [.leaf .identifier ['x']],
    .leaf .equal ['='],
    .node .binaryExpression [left, .leaf .binaryOperator ['>'],
      .node .intLiteral [.leaf .intLiteral ['2']]],
    .leaf .semicolon [';']]]

def one : Phrase (List Char) := .node .intLiteral [.leaf .intLiteral ['1']]

def oneInParens : Phrase (List Char) :=
  .node .parenExpression [.leaf .leftParen ['('], one, .leaf .rightParen [')']]

theorem printable_of_reads {phrase : Phrase (List Char)} (isModule : phrase.IsModule)
    (reads : ∀ leaf ∈ phrase.leaves,
      (Lexeme.lexicon.restrict (· == leaf.1)).read leaf.2 = some ⟨some leaf.1, leaf.2⟩)
    (unreserved : ∀ leaf ∈ phrase.leaves, leaf.1 = .identifier →
      ∀ spelling ∈ spellings, spelling.text ≠ leaf.2)
    (apart : phrase.leaves.IsChain fun left right =>
      ¬ (left.1 = .bodyText ∧ right.1 = .bodyText)) : phrase.Printable :=
  ⟨isModule, fun leaf isLeaf => Lexeme.mem_texts_of_read (reads leaf isLeaf), unreserved, apart⟩

theorem parse_render_oneInParens :
    (comparison oneInParens).Printable ∧
      ∃ tree, SyntaxTree.parse (render (comparison oneInParens).leaves) = .ok tree ∧
        tree.root.phrase? tree.source = some (comparison oneInParens) := by
  have printable : (comparison oneInParens).Printable :=
    printable_of_reads ⟨by decide +kernel, rfl⟩ (by decide +kernel) (by decide +kernel)
      (by decide +kernel)
  exact ⟨printable, (parse_render_iff printable).mpr (by decide +kernel)⟩

def comparedSource : String := "const x = 1 > 2 ;"

/-- Behind an integer, the operator is taken for the end of a list and rejected. -/
theorem parse_render_one_fails :
    (comparison one).Printable ∧
      render (comparison one).leaves = "const x = 1 > 2 ;".toList ∧
      ¬ ∃ tree, SyntaxTree.parse (render (comparison one).leaves) = .ok tree := by
  have printable : (comparison one).Printable :=
    printable_of_reads ⟨by decide +kernel, rfl⟩ (by decide +kernel) (by decide +kernel)
      (by decide +kernel)
  have isRendered : render (comparison one).leaves = comparedSource.toList := by decide +kernel
  refine ⟨printable, isRendered, ?_⟩
  rintro ⟨tree, accepted⟩
  have rejected : (SyntaxTree.parse comparedSource.toList).isOk = false := by decide +kernel
  rw [← isRendered, accepted] at rejected
  cases rejected

end ShaderReflection.Tree
