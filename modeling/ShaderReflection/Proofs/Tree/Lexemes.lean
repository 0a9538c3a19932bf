import ShaderReflection.Proofs.Tree.RoundTrip
import ShaderReflection.Proofs.Tree.Spans
import ShaderReflection.Proofs.Wgsl.Reads

/-!
# The text of a node

The text of a node is that of its leaves one behind the other, with trivia between neighbours and
none in front or behind (`spaced_of_parse`). So nodes that show the same phrase have the same text
but for trivia, wherever they stand, and the same text if they have a single leaf.
-/

namespace ShaderReflection.Text.Span

theorem slice_append_slice (source : List Char) {start middle stop : Nat}
    (inOrder : start ≤ middle) (further : middle ≤ stop) :
    slice ⟨start, middle⟩ source ++ slice ⟨middle, stop⟩ source = slice ⟨start, stop⟩ source := by
  apply (List.append_left_inj (source.drop stop)).mp
  rw [List.append_assoc, slice_append_drop source further, slice_append_drop source inOrder,
    slice_append_drop source (Nat.le_trans inOrder further)]

end ShaderReflection.Text.Span

namespace ShaderReflection.Tree

open ShaderReflection.Grammar ShaderReflection.Wgsl ShaderReflection.Text

/-! ## Lexemes with trivia between them -/

/-- A text that is written with lexemes one behind the other. Trivia may stand between neighbours,
but not in front of the first lexeme and not behind the last one. -/
inductive Spaced : (lexemes : List (Terminal × List Char)) → (text : List Char) → Prop
  | nil : Spaced [] []
  | cons {lexeme : Terminal × List Char} {lexemes : List (Terminal × List Char)}
      {row text : List Char} (isText : lexeme.2 ∈ lexeme.1.texts) (skipped : Skipped row text)
      (closes : lexemes = [] → row = []) (further : Spaced lexemes text) :
      Spaced (lexeme :: lexemes) (lexeme.2 ++ (row ++ text))

namespace Spaced

variable {lexeme : Terminal × List Char} {lexemes : List (Terminal × List Char)}
  {text : List Char}

theorem eq_of_singleton (spaced : Spaced [lexeme] text) : text = lexeme.2 := by
  cases spaced with
  | cons isText skipped closes further =>
      cases further
      rw [closes rfl, List.append_nil, List.append_nil]

theorem infix_of_mem (spaced : Spaced lexemes text) (isLexeme : lexeme ∈ lexemes) :
    lexeme.2 <:+: text := by
  induction spaced with
  | nil => cases isLexeme
  | @cons first lexemes row text _ _ _ _ induction =>
      rcases List.mem_cons.mp isLexeme with rfl | isLater
      · exact (List.prefix_append _ _).isInfix
      · have inRest := (induction isLater).trans (List.suffix_append row text).isInfix
        exact inRest.trans (List.suffix_append first.2 _).isInfix

end Spaced

/-! ## The lexemes of a node -/

variable {source : List Char}

namespace Node

variable {node : Node}

/-- The terminal of a token with its text. -/
def lexeme? (source : List Char) : Node → Option (Terminal × List Char)
  | token (.known terminal) span => some (terminal, span.slice source)
  | _ => none

/-- The leaves of a node as they are written, from left to right. -/
def lexemes (source : List Char) (node : Node) : List (Terminal × List Char) :=
  node.leaves.filterMap (lexeme? source)

mutual

theorem lexemes_of_phrase? : (node : Node) → {phrase : Phrase (List Char)} →
    node.phrase? source = some phrase → node.lexemes source = phrase.leaves
  | named (.known kind) span children, phrase, shows => by
      rcases Option.map_eq_some_iff.mp shows with ⟨parts, areParts, rfl⟩
      exact lexemes_of_phraseAll? children areParts
  | token (.known terminal) span, phrase, shows => by
      cases shows
      rfl

theorem lexemes_of_phraseAll? : (nodes : List Node) → {parts : List (Phrase (List Char))} →
    phraseAll? source nodes = some parts →
    (leavesOfAll nodes).filterMap (lexeme? source) = Phrase.leavesOfAll parts
  | [], parts, shows => by
      cases shows
      rfl
  | node :: rest, parts, shows => by
      rcases Option.bind_eq_some_iff.mp shows with ⟨first, isFirst, others⟩
      rcases Option.map_eq_some_iff.mp others with ⟨behind, areBehind, rfl⟩
      rw [leavesOfAll, List.filterMap_append, Phrase.leavesOfAll,
        ← lexemes_of_phrase? node isFirst, ← lexemes_of_phraseAll? rest areBehind, lexemes]

end

/-- A token with the lexeme that it stands for. -/
structure Writes (source : List Char) (leaf : Node) (lexeme : Terminal × List Char) : Prop where
  lexeme_eq : leaf.lexeme? source = some lexeme
  chars_eq : leaf.chars source = lexeme.2
  isText : lexeme.2 ∈ lexeme.1.texts

theorem Grammatical.exists_writes (grammatical : node.Grammatical source) {leaf : Node}
    (isLeaf : leaf ∈ node.leaves) : ∃ lexeme, leaf.Writes source lexeme := by
  rw [← filter_walk] at isLeaf
  rcases List.mem_filter.mp isLeaf with ⟨inTree, isToken⟩
  cases grammatical.of_mem_walk inTree with
  | named kind children => cases isToken
  | token terminal span isText => exact ⟨(terminal, span.slice source), rfl, rfl, isText⟩

end Node

/-! ## Neighbouring leaves -/

theorem Tiled.exists_behind {start : Nat} {before spans : List Span}
    (tiled : Tiled source start (before ++ spans)) : ∃ later, Tiled source later spans := by
  induction before generalizing start with
  | nil => exact ⟨start, tiled⟩
  | cons span before induction =>
      cases tiled with
      | cons _ _ _ _ further => exact induction further

/-- The lexemes of neighbouring leaves stand in the text from the first leaf to the last. -/
theorem Tiled.spaced {leaves : List Node} {first last : Node} {start : Nat} {behind : List Span}
    (tiled : Tiled source start (leaves.map (Node.span source) ++ behind))
    (written : ∀ leaf ∈ leaves, ∃ lexeme, leaf.Writes source lexeme)
    (isFirst : leaves.head? = some first) (isLast : leaves.getLast? = some last) :
    (first.span source).start < (last.span source).stop ∧
      Spaced (leaves.filterMap (Node.lexeme? source))
        ((⟨(first.span source).start, (last.span source).stop⟩ : Span).slice source) := by
  induction leaves generalizing first start with
  | nil => cases isFirst
  | cons leaf leaves induction =>
      cases isFirst
      rcases List.forall_mem_cons.mp written with ⟨⟨lexeme, writes⟩, others⟩
      rw [List.filterMap_cons_some writes.lexeme_eq]
      cases tiled with
      | cons inOrder full inside row further =>
          cases leaves with
          | nil =>
              cases isLast
              have alone := Spaced.cons writes.isText .nil (fun _ => rfl) .nil
              rw [List.append_nil, List.append_nil, ← writes.chars_eq] at alone
              exact ⟨full, alone⟩
          | cons next leaves =>
              rw [List.getLast?_cons_cons] at isLast
              rcases induction further others rfl isLast with ⟨nonempty, spaced⟩
              cases further with
              | cons nextInOrder _ _ gap _ =>
                  have isSlice : (leaf.span source).slice source = lexeme.2 := writes.chars_eq
                  refine ⟨by omega, ?_⟩
                  rw [← Span.slice_append_slice source (Nat.le_of_lt full) (by omega),
                    ← Span.slice_append_slice source nextInOrder (Nat.le_of_lt nonempty), isSlice]
                  refine .cons writes.isText (gap.congr ?_) ?_ spaced
                  · rw [Span.slice, List.head?_take, if_neg (by simp only; omega)]
                  · intro isEnd
                    rcases others next List.mem_cons_self with ⟨_, nextWrites⟩
                    rw [List.filterMap_cons_some nextWrites.lexeme_eq] at isEnd
                    cases isEnd

/-- The text of a node in a parsed tree is that of its leaves, with trivia between them. -/
theorem spaced_of_parse {tree : SyntaxTree} {node : Node}
    (accepted : SyntaxTree.parse source = .ok tree) (inTree : node ∈ tree.root.walk)
    (isFull : node.leaves ≠ []) : Spaced (node.lexemes source) (node.chars source) := by
  have grammatical := (grammatical_of_parse accepted).2.1
  have nodeGrammatical := grammatical.of_mem_walk inTree
  rcases Node.exists_ends isFull with
    ⟨first, last, left, right, isFirst, isLast, isLeft, isRight, isCover⟩
  have tiled := tiled_of_parse accepted
  rcases grammatical.leaves_infix inTree with ⟨before, behind, isRow⟩
  rw [← isRow, List.map_append, List.map_append, List.append_assoc] at tiled
  rcases tiled.exists_behind with ⟨start, further⟩
  have spaced := (further.spaced (fun leaf => nodeGrammatical.exists_writes) isFirst isLast).2
  rw [Node.span, Node.span, isLeft, isRight, Option.getD_some, Option.getD_some] at spaced
  rw [Node.chars, Node.span, nodeGrammatical.span?_eq, isCover, Option.getD_some]
  exact spaced

end ShaderReflection.Tree
