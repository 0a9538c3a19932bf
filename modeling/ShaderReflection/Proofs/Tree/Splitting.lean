import ShaderReflection.Proofs.Tree.Joining
import ShaderReflection.Proofs.Tree.Respacing

/-!
# Sources around a body

A source with the body of a function in it falls into three parts (`exists_aroundBody`). What is
read in front of the body and behind it does not depend on the body (`AroundBody.unique`), so
sources that differ in a body have the same declarations, but for that body and for the places
behind it.
-/

namespace ShaderReflection.Wgsl

open ShaderReflection.Grammar ShaderReflection.Text Lexeme

/-- A text can be cut behind an opening brace. -/
theorem Reads.cut_brace {states : List Nat} {position : Position} {text rest : List Char}
    {terminals more : List (Terminal × Token)} {opening : Token}
    (reads : Reads states position text (terminals ++ (.leftBrace, opening) :: more) rest) :
    ∃ front behind, text = front ++ '\x7b' :: behind ∧
      opening.span.start = position.offset + front.length ∧
      Reads states position (front ++ ['\x7b']) (terminals ++ [(.leftBrace, opening)]) [] := by
  rw [List.append_cons] at reads
  rcases reads.exists_append with ⟨left, behind, rfl, isLeft, -⟩
  rcases isLeft.exists_append with ⟨front, right, rfl, -, isBrace⟩
  generalize states.drop terminals.length = later at isBrace
  cases isBrace with
  | @cons _ _ _ row word _ _ _ _ skipped brace further =>
      cases further
      cases eq_of_mem_texts_leftBrace (mem_texts_of_read brace)
      refine ⟨front ++ row, behind, by simp, ?_, ?_⟩
      · simp only [Token.span, Position.offset_advance, List.length_append]
        omega
      · rw [← List.append_assoc, List.append_nil] at isLeft
        refine isLeft.cut ?_
        intro isSlash
        rw [List.getLast?_concat] at isSlash
        cases isSlash

/-- What is read of a front in a module is read of the front alone. -/
theorem Reads.scan_front {position : Position} {text : List Char}
    {terminals more : List (Terminal × Token)} {tree : Derivation Terminal Nonterminal Token}
    (reads : Reads (0 :: parser.trace [] (terminals ++ more)) position text terminals [])
    (built : parser.run [] (terminals ++ more) = .ok tree) :
    language.Scan [] position text terminals := by
  have isTrace : (parser.trace [] (terminals ++ more)).take terminals.length =
      parser.trace [] terminals := Parser.take_trace terminals more
  have isLength := congrArg List.length isTrace
  rw [List.length_take, Parser.length_trace built, List.length_append,
    Nat.min_eq_left (Nat.le_add_right _ _)] at isLength
  have sameStates : (0 :: parser.trace [] terminals).take terminals.length =
      (0 :: parser.trace [] (terminals ++ more)).take terminals.length := by
    rw [← isTrace, ← List.take_succ_cons, List.take_take, Nat.min_eq_left (Nat.le_succ _)]
  refine scan_of_covers ⟨text, [], by simp, .nil, ?_⟩ isLength.symm
  exact reads.congr_states (congrArg (List.map language.known) sameStates)

end ShaderReflection.Wgsl

namespace ShaderReflection.Tree

open ShaderReflection.Grammar ShaderReflection.Wgsl ShaderReflection.Text

variable {front inner back : List Char} {before parts after : List (Phrase Token)}
  {opening : Token}

/-- A source with something between braces. -/
def withBraces (front inner back : List Char) : List Char :=
  front ++ '\x7b' :: (inner ++ '\x7d' :: back)

theorem withBraces_eq (front inner back : List Char) :
    withBraces front inner back = (front ++ '\x7b' :: (inner ++ ['\x7d'])) ++ back := by
  simp [withBraces]

theorem length_braces (front inner : List Char) :
    (front ++ '\x7b' :: (inner ++ ['\x7d'])).length = front.length + inner.length + 2 := by
  simp only [List.length_append, List.length_cons, List.length_nil]
  omega

/-- What stands behind the braces is moved along with them. -/
theorem slice_withBraces (span : Span) (front inner back : List Char) :
    (span.shift (front.length + inner.length + 2)).slice (withBraces front inner back) =
      span.slice back := by
  rw [withBraces_eq, ← length_braces, Span.slice_shift]

/-- A module that ends with the body of a function. -/
def Phrase.endingWith (before parts : List (Phrase Token)) (opening : Token)
    (between : List (Phrase Token)) (closing : Token) : Phrase Token :=
  module (before ++ [function parts (body opening between closing)])

theorem Phrase.leaves_endingWith (before parts between : List (Phrase Token))
    (opening closing : Token) :
    (endingWith before parts opening between closing).leaves = leavesOfAll (before ++ parts) ++
      (.leftBrace, opening) :: (leavesOfAll between ++ [(.rightBrace, closing)]) := by
  simp only [endingWith, leaves_module, leavesOfAll_append, leavesOfAll, leaves_function,
    leaves_body, List.append_nil, List.append_assoc]

/-- What is read in front of a body and behind it. -/
structure AroundBody (front back : List Char) (before parts after : List (Phrase Token))
    (opening : Token) : Prop where
  isModule : ∀ closing, (Phrase.endingWith before parts opening [] closing).IsModule
  inFront : language.Scan [] Position.start (front ++ ['\x7b'])
    (Phrase.leavesOfAll (before ++ parts) ++ [(.leftBrace, opening)])
  inside : ∀ leaf ∈ Phrase.leavesOfAll (before ++ parts), leaf.2.span.stop ≤ front.length
  afterIsModule : (Phrase.module after).IsModule
  behind : (Phrase.module after).StandsAt Position.start back

/-- The parts around a body are told by the text around it. -/
theorem AroundBody.unique {before' parts' after' : List (Phrase Token)} {opening' : Token}
    (first : AroundBody front back before parts after opening)
    (second : AroundBody front back before' parts' after' opening') :
    before = before' ∧ parts = parts' ∧ after = after' := by
  have sameFront := scan_unique first.inFront second.inFront
  have sameBack := scan_unique (first.behind.scan first.afterIsModule)
    (second.behind.scan second.afterIsModule)
  cases eq_of_leaves_eq second.afterIsModule first.afterIsModule sameBack
  rcases List.append_inj' sameFront rfl with ⟨sameLeaves, sameOpening⟩
  cases sameOpening
  -- The tokens up to the brace are no module yet, but with an empty body they are.
  have sameModule := eq_of_leaves_eq (second.isModule opening) (first.isModule opening)
    (by rw [Phrase.leaves_endingWith, Phrase.leaves_endingWith, sameLeaves])
  have sameItems := (Phrase.node.inj sameModule).2
  rcases List.append_inj' sameItems rfl with ⟨sameBefore, sameFunction⟩
  have sameParts := (Phrase.node.inj (List.cons.inj sameFunction).1).2
  exact ⟨sameBefore, (List.append_inj' sameParts rfl).1, rfl⟩

section Front

variable {between : List (Phrase Token)} {closing : Token}
  (isModule : (Phrase.endingWith before parts opening between closing).IsModule)

include isModule

/-- The body may be left out. -/
theorem isModule_endingWith_nil (other : Token) :
    (Phrase.endingWith before parts opening [] other).IsModule := by
  rcases Phrase.isModule_append_iff.mp isModule with ⟨isBefore, isFunction⟩
  refine Phrase.isModule_append_iff.mpr ⟨isBefore, ?_⟩
  rw [Phrase.isModule_module_iff, List.forall_mem_singleton] at isFunction ⊢
  exact ⟨isFunction.1, isFunction.2.replace_body rfl (Phrase.derives_body_nil opening other)⟩

/-- What is read up to a body is read without the rest of the source. -/
theorem scan_upToBody
    (reads : Reads (0 :: parser.trace [] (Phrase.endingWith before parts opening between
        closing).leaves) Position.start (front ++ '\x7b' :: inner)
      (Phrase.endingWith before parts opening between closing).leaves back)
    (isStart : front.length = opening.span.start) :
    language.Scan [] Position.start (front ++ ['\x7b'])
      (Phrase.leavesOfAll (before ++ parts) ++ [(.leftBrace, opening)]) := by
  rcases run_leaves_of_isModule isModule with ⟨_, built, -⟩
  rw [Phrase.leaves_endingWith] at reads built
  rcases reads.cut_brace with ⟨found, _, isText, isFound, cut⟩
  have sameLength : front.length = found.length := by
    rw [isStart, isFound]
    exact Nat.zero_add _
  rcases List.append_inj isText sameLength with ⟨rfl, -⟩
  rw [List.append_cons] at cut built
  exact cut.scan_front built

end Front

/-- A source with a body in it falls into what stands in front of the body, the body, and what
stands behind it. -/
theorem exists_aroundBody {tree : SyntaxTree}
    (accepted : SyntaxTree.parse (withBraces front inner back) = .ok tree)
    (isBody : tree.IsBody ⟨front.length, front.length + inner.length + 2⟩) :
    ∃ before parts after opening between closing,
      AroundBody front back before parts after opening ∧
      tree.root.children = before.map Phrase.toNode ++
        (Phrase.function parts (Phrase.body opening between closing)).toNode ::
          (after.map Phrase.toNode).map (Node.shift (front.length + inner.length + 2)) := by
  rcases parse_eq_ok_iff.mp accepted with ⟨phrase, isModule, rfl, stands⟩
  rcases isModule.exists_items with ⟨items, rfl⟩
  rcases (isBody_iff accepted isModule).mp isBody with
    ⟨before, parts, opening, between, closing, rest, rfl, isSpan⟩
  rcases Span.mk.inj isSpan with ⟨isStart, isStop⟩
  have ascending := (leaves_ascend accepted).2
  rw [List.append_cons] at isModule stands ascending
  rcases Phrase.isModule_append_iff.mp isModule with ⟨frontIsModule, restIsModule⟩
  rcases (Phrase.standsAt_append_iff frontIsModule restIsModule).mp stands with
    ⟨text, behind, isText, reads, restStands⟩
  rw [withBraces_eq] at isText
  have isClosing : front.length + inner.length + 2 = text.length := by
    have isEnd := reads.stop_getLast?
    rw [← Phrase.endingWith, Phrase.leaves_endingWith, ← List.cons_append, ← List.append_assoc,
      List.getLast?_concat, Option.map_some, Option.getD_some, ← isStop] at isEnd
    exact isEnd.trans (Nat.zero_add _)
  rcases List.append_inj isText ((length_braces front inner).trans isClosing) with ⟨rfl, rfl⟩
  -- The declarations behind the body are those of the text behind it, moved along with it.
  rcases restStands.exists_of_moved restIsModule with ⟨found, isMoved, foundIsModule, foundStands⟩
  rcases foundIsModule.exists_items with ⟨after, rfl⟩
  rw [Phrase.map_module] at isMoved
  cases (Phrase.node.inj isMoved).2
  refine ⟨before, parts, after, opening, between, closing, ?_, ?_⟩
  · refine ⟨isModule_endingWith_nil frontIsModule, scan_upToBody frontIsModule reads isStart, ?_,
      foundIsModule, foundStands⟩
    intro leaf isLeaf
    rw [Phrase.leaves_module, Phrase.leavesOfAll_append, ← Phrase.leaves_module,
      ← Phrase.endingWith, Phrase.leaves_endingWith] at ascending
    rw [isStart]
    exact (List.pairwise_append.mp (List.pairwise_append.mp ascending).1).2.2 leaf isLeaf _
      List.mem_cons_self
  · have isOffset : (Position.start.advance
        (front ++ '\x7b' :: (inner ++ ['\x7d']))).offset = front.length + inner.length + 2 := by
      rw [Position.offset_advance, length_braces]
      exact Nat.zero_add _
    simp only [Phrase.children_toNode_module, List.map_append, List.map_cons, List.map_map,
      Function.comp_def, Phrase.toNode_moved, isOffset]

end ShaderReflection.Tree
