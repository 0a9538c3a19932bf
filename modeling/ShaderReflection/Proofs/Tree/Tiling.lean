import ShaderReflection.Proofs.Tree.Soundness
import ShaderReflection.Proofs.Wgsl.Trivia

/-!
# Tokens and trivia make up the source

The tokens of a syntax tree stand in the source one behind the other, and what is free between them
is trivia. So nothing of the source is lost. `Tiled` follows the scan of a source from an offset on;
`Tiling` says what comes of it for the whole source.
-/

namespace ShaderReflection.Text.Span

variable {start stop : Nat}

/-- The stretches that spans leave free between two offsets: in front of the first span, between
neighbours, and behind the last one. -/
def gaps (stop : Nat) : (start : Nat) → List Span → List Span
  | start, [] => [⟨start, stop⟩]
  | start, span :: rest => ⟨start, span.start⟩ :: gaps stop span.stop rest

/-- Gaps and spans by turns, beginning and ending with a gap. -/
def alternate : (gaps spans : List Span) → List Span
  | gap :: gaps, span :: spans => gap :: span :: alternate gaps spans
  | gaps, _ => gaps

theorem slice_append_drop (source : List Char) (inOrder : start ≤ stop) :
    slice ⟨start, stop⟩ source ++ source.drop stop = source.drop start := by
  have later : (source.drop start).drop (stop - start) = source.drop stop := by
    rw [List.drop_drop]
    congr 1
    omega
  rw [slice, ← later, List.take_append_drop]

theorem slice_eq_nil (source : List Char) : slice ⟨start, start⟩ source = [] := by
  rw [slice, Nat.sub_self, List.take_zero]

end ShaderReflection.Text.Span

namespace ShaderReflection.Tree

open ShaderReflection.Grammar ShaderReflection.Wgsl ShaderReflection.Text

variable {source : List Char} {start : Nat} {spans : List Span}

/-! ## From an offset on -/

/-- From an offset on, a source falls into spans with trivia between them. -/
inductive Tiled (source : List Char) : (start : Nat) → List Span → Prop
  | nil {start : Nat} (inside : start ≤ source.length)
      (row : Skipped ((⟨start, source.length⟩ : Span).slice source) []) : Tiled source start []
  | cons {start : Nat} {span : Span} {rest : List Span} (inOrder : start ≤ span.start)
      (full : span.start < span.stop) (inside : span.stop ≤ source.length)
      (row : Skipped ((⟨start, span.start⟩ : Span).slice source) (source.drop span.start))
      (further : Tiled source span.stop rest) : Tiled source start (span :: rest)

/-- Trivia in front of a gap belongs to the gap. -/
theorem skipped_slice {word rest behind : List Char} {kind : Trivia} {stop : Nat}
    (isRest : source.drop start = word ++ rest) (isText : word ∈ kind.texts)
    (ends : kind.Ends rest) (inOrder : start + word.length ≤ stop)
    (isBehind : source.drop stop = behind)
    (row : Skipped ((⟨start + word.length, stop⟩ : Span).slice source) behind) :
    Skipped ((⟨start, stop⟩ : Span).slice source) behind := by
  have later : source.drop (start + word.length) = rest := by
    rw [← List.drop_drop, isRest, List.drop_left]
  have remaining := Span.slice_append_drop source inOrder
  rw [isBehind, later] at remaining
  have front : (⟨start, stop⟩ : Span).slice source =
      word ++ (⟨start + word.length, stop⟩ : Span).slice source := by
    apply (List.append_left_inj (source.drop stop)).mp
    rw [Span.slice_append_drop source (by omega), isRest, List.append_assoc, isBehind, remaining]
  rw [front]
  exact .cons kind isText (remaining.symm ▸ ends) row

theorem Tiled.skip {word rest : List Char} {kind : Trivia}
    (isRest : source.drop start = word ++ rest) (isText : word ∈ kind.texts)
    (ends : kind.Ends rest) (tiled : Tiled source (start + word.length) spans) :
    Tiled source start spans := by
  cases tiled with
  | nil inside row =>
      refine .nil (by omega) ?_
      exact skipped_slice isRest isText ends inside List.drop_length row
  | cons inOrder full inside row further =>
      refine .cons (by omega) full inside ?_ further
      exact skipped_slice isRest isText ends inOrder rfl row

/-- A scan lays tokens and trivia one behind the other. -/
theorem tiled_of_scan {stack : Stack Terminal Nonterminal Token} {position : Position}
    {text : List Char} {terminals : List (Terminal × Token)}
    (scan : language.Scan stack position text terminals)
    (isRest : source.drop position.offset = text) (inside : position.offset ≤ source.length) :
    Tiled source position.offset (terminals.map fun terminal => terminal.2.span) := by
  induction scan with
  | @nil stack position =>
      have isEnd := List.drop_eq_nil_iff.mp isRest
      have whole : position.offset = source.length := by omega
      refine .nil inside ?_
      rw [whole, Span.slice_eq_nil]
      exact .nil
  | @trivia stack position text word terminals reads rest induction =>
      rcases Lexeme.exists_trivia_of_read reads with ⟨kind, others, rfl, isText, ends⟩
      have bound := congrArg List.length isRest
      rw [List.length_drop, List.length_append] at bound
      rw [Position.offset_advance] at induction
      apply Tiled.skip isRest isText ends
      apply induction
      · rw [← List.drop_drop, isRest]
      · omega
  | @token stack later position text word letter terminals reads shifts rest induction =>
      rcases (Language.known_honest Lexeme.lexicon_honest _).isPrefix reads with
        ⟨⟨others, rfl⟩, isFull⟩
      have bound := congrArg List.length isRest
      have positive := List.length_pos_iff.mpr isFull
      rw [List.length_drop, List.length_append] at bound
      rw [Position.offset_advance] at induction
      have offsets : position.offset + word.length ≤ source.length := by
        simp only at bound positive
        omega
      refine .cons (Nat.le_refl _) (Nat.lt_add_of_pos_right positive) offsets ?_ ?_
      · change Skipped ((⟨position.offset, position.offset⟩ : Span).slice source) _
        rw [Span.slice_eq_nil]
        exact .nil
      · apply induction _ offsets
        rw [← List.drop_drop, isRest]

theorem Tiled.bounds (tiled : Tiled source start spans) :
    ∀ span ∈ spans, start ≤ span.start ∧ span.start < span.stop ∧ span.stop ≤ source.length := by
  induction tiled with
  | nil => simp
  | cons inOrder full inside row further induction =>
      refine List.forall_mem_cons.mpr ⟨⟨inOrder, full, inside⟩, ?_⟩
      intro span isSpan
      have bounds := induction span isSpan
      exact ⟨by omega, bounds.2⟩

theorem Tiled.pairwise (tiled : Tiled source start spans) :
    spans.Pairwise fun left right => left.stop ≤ right.start := by
  induction tiled with
  | nil => exact .nil
  | cons inOrder full inside row further induction =>
      exact .cons (fun span isSpan => (further.bounds span isSpan).1) induction

theorem Tiled.skipped (tiled : Tiled source start spans) :
    ∀ gap ∈ Span.gaps source.length start spans,
      Skipped (gap.slice source) (source.drop gap.stop) := by
  induction tiled with
  | nil inside row =>
      rw [Span.gaps, List.forall_mem_singleton, List.drop_length]
      exact row
  | cons inOrder full inside row further induction =>
      exact List.forall_mem_cons.mpr ⟨row, induction⟩

theorem Tiled.flatMap_eq (tiled : Tiled source start spans) :
    (Span.alternate (Span.gaps source.length start spans) spans).flatMap (Span.slice · source) =
      source.drop start := by
  induction tiled with
  | nil inside row =>
      have whole := Span.slice_append_drop source inside
      rw [List.drop_length] at whole
      simpa [Span.gaps, Span.alternate] using whole
  | cons inOrder full inside row further induction =>
      rw [Span.gaps, Span.alternate, List.flatMap_cons, List.flatMap_cons, induction,
        Span.slice_append_drop source (Nat.le_of_lt full), Span.slice_append_drop source inOrder]

/-! ## The whole source -/

/-- Spans that, with the trivia between them, make up a source. -/
structure Tiling (source : List Char) (spans : List Span) : Prop where
  full : ∀ span ∈ spans, span.start < span.stop
  inside : ∀ span ∈ spans, span.stop ≤ source.length
  ascending : spans.Pairwise fun left right => left.stop ≤ right.start
  trivia : ∀ gap ∈ Span.gaps source.length 0 spans,
    Skipped (gap.slice source) (source.drop gap.stop)
  whole : (Span.alternate (Span.gaps source.length 0 spans) spans).flatMap (Span.slice · source) =
    source

theorem Tiled.tiling (tiled : Tiled source 0 spans) : Tiling source spans where
  full := fun span isSpan => (tiled.bounds span isSpan).2.1
  inside := fun span isSpan => (tiled.bounds span isSpan).2.2
  ascending := tiled.pairwise
  trivia := tiled.skipped
  whole := tiled.flatMap_eq

/-! ## The tokens of a tree -/

mutual

/-- The leaves of a tree are its tokens in the order of a walk. -/
theorem Node.filter_walk : (node : Node) →
    (node.walk.filter fun other => !other.isNamed) = node.leaves
  | named label span children => by
      rw [walk_named, List.filter_cons_of_neg (by simp [isNamed]), leaves,
        filter_flatMap_walk children]
  | token label span => rfl

theorem Node.filter_flatMap_walk : (nodes : List Node) →
    ((nodes.flatMap walk).filter fun other => !other.isNamed) = leavesOfAll nodes
  | [] => rfl
  | node :: rest => by
      rw [List.flatMap_cons, List.filter_append, filter_walk node, filter_flatMap_walk rest,
        leavesOfAll]

end

/-- The node of a token. -/
def Node.ofLeaf (leaf : Terminal × Token) : Node := .token (.known leaf.1) leaf.2.span

mutual

theorem Phrase.leaves_toNode : (phrase : Phrase Token) →
    phrase.toNode.leaves = phrase.leaves.map Node.ofLeaf
  | leaf terminal lexeme => rfl
  | node kind children => by
      rw [toNode, Node.leaves, leaves, leavesOfAll_toNodes children]

theorem Phrase.leavesOfAll_toNodes : (list : List (Phrase Token)) →
    Node.leavesOfAll (toNodes list) = (leavesOfAll list).map Node.ofLeaf
  | [] => rfl
  | phrase :: rest => by
      rw [toNodes, Node.leavesOfAll, leavesOfAll, List.map_append, leaves_toNode phrase,
        leavesOfAll_toNodes rest]

end

/-- The leaves of a tree are the tokens that were read. -/
theorem leaves_ofDerivation {derivation : Derivation Terminal Nonterminal Token}
    (reads : language.read source = .ok derivation) :
    (Node.ofDerivation derivation).leaves = derivation.leaves.map Node.ofLeaf := by
  rcases exists_phrase_of_read reads with ⟨phrase, -, isNode, sameLeaves, -⟩
  rw [isNode, Phrase.leaves_toNode, sameLeaves]

theorem tiled_of_parse {tree : SyntaxTree} (accepted : SyntaxTree.parse source = .ok tree) :
    Tiled source 0 (tree.root.leaves.map (Node.span source)) := by
  rcases exists_read_of_parse accepted with ⟨derivation, reads, rfl⟩
  rcases exists_phrase_of_read reads with ⟨-, -, -, -, scan⟩
  rw [leaves_ofDerivation reads, List.map_map]
  exact tiled_of_scan scan rfl (Nat.zero_le _)

theorem tiling_of_parse {tree : SyntaxTree} (accepted : SyntaxTree.parse source = .ok tree) :
    Tiling source (tree.root.leaves.map (Node.span source)) :=
  (tiled_of_parse accepted).tiling

/-- No character of an accepted source is lost: the spans of the leaves and the trivia between them
make up the source. The leaves are the tokens that were read, each of which stands in the source at
its span and is written like its terminal. -/
theorem parse_keeps_every_character {tree : SyntaxTree}
    (accepted : SyntaxTree.parse source = .ok tree) :
    (tree.root.walk.filter fun node => !node.isNamed) = tree.root.leaves ∧
      Tiling source (tree.root.leaves.map (Node.span source)) ∧
      ∃ derivation, language.read source = .ok derivation ∧
        tree.root.leaves = derivation.leaves.map Node.ofLeaf ∧
        ∀ leaf ∈ derivation.leaves,
          leaf.2.text = leaf.2.span.slice source ∧ leaf.2.text ∈ leaf.1.texts := by
  have tiling := tiling_of_parse accepted
  rcases exists_read_of_parse accepted with ⟨derivation, reads, rfl⟩
  rcases exists_phrase_of_read reads with ⟨-, -, -, -, scan⟩
  refine ⟨Node.filter_walk _, tiling, derivation, reads, leaves_ofDerivation reads, ?_⟩
  intro leaf isLeaf
  have isText := scan.slice_eq_text Lexeme.lexicon_honest rfl leaf isLeaf
  exact ⟨isText.symm, isText ▸ slice_mem_texts scan leaf isLeaf⟩

/-- A function whose body is split by comments, one of which has a brace in it. -/
def commentedSource : String := "// a\nfn f() \x7b b /* \x7d */ c // d\n \x7d"

theorem parse_keeps_commentedSource :
    ∃ tree, SyntaxTree.parse commentedSource.toList = .ok tree ∧
      Tiling commentedSource.toList
        (tree.root.leaves.map (Node.span commentedSource.toList)) := by
  have checked : (SyntaxTree.parse commentedSource.toList).toOption.any (fun _ => true) = true := by
    decide +kernel
  rcases exists_ok_of_any checked with ⟨tree, accepted, -⟩
  exact ⟨tree, accepted, (parse_keeps_every_character accepted).2.1⟩

end ShaderReflection.Tree
