import ShaderReflection.Proofs.Tree.Covering
import ShaderReflection.Proofs.Tree.Shifting

/-!
# Sources one behind the other

Two accepted sources with a line feed between them make an accepted source. Its declarations are
those of the first source and those of the second, whose nodes stand behind the first source
(`exists_join`).
-/

namespace ShaderReflection.Tree

open ShaderReflection.Grammar ShaderReflection.Wgsl ShaderReflection.Text

/-! ## Moved phrases -/

namespace Phrase

mutual

theorem toNode_moved (place : Position) : (phrase : Phrase Token) →
    (phrase.map (moved place)).toNode = phrase.toNode.shift place.offset
  | leaf terminal token => by
      rw [map, toNode, toNode, Node.shift]
      simp only [Token.span, moved, Position.plus, Span.shift]
      congr 2 <;> omega
  | node kind children => by
      rw [map, toNode, toNode, Node.shift, toNodes_moved place children, Node.cover_shiftAll]

theorem toNodes_moved (place : Position) : (list : List (Phrase Token)) →
    toNodes (mapAll (moved place) list) = Node.shiftAll place.offset (toNodes list)
  | [] => rfl
  | phrase :: rest => by
      rw [mapAll, toNodes, toNodes, Node.shiftAll, toNode_moved place phrase,
        toNodes_moved place rest]

end

end Phrase

/-! ## Joined sources -/

theorem standsAt_join {first second : List Char} {left right : List (Phrase Token)}
    (leftIsModule : (Phrase.module left).IsModule) (rightIsModule : (Phrase.module right).IsModule)
    (leftStands : (Phrase.module left).StandsAt Position.start first)
    (rightStands : (Phrase.module right).StandsAt Position.start second)
    (noMark : ∀ leaf ∈ (Phrase.module left).leaves,
      ¬ ['/', '*'] <+: first.drop leaf.2.start.offset) :
    (Phrase.module (left ++ right.map (Phrase.map (moved
      (Position.start.advance (first ++ ['\n'])))))).StandsAt Position.start
        (first ++ '\n' :: second) := by
  have movedStands := rightStands.moved rightIsModule (Position.start.advance (first ++ ['\n']))
  have movedIsModule := rightIsModule.map (moved (Position.start.advance (first ++ ['\n'])))
  rw [Phrase.map_module] at movedStands movedIsModule
  rcases run_leaves_of_isModule leftIsModule with ⟨_, leftBuilt, -⟩
  rcases leftStands with ⟨front, row, rfl, skipped, reads⟩
  refine (Phrase.standsAt_append_iff leftIsModule movedIsModule).mpr
    ⟨front, row ++ '\n' :: second, by simp, ?_, ?_⟩
  · exact reads.spaced rfl noMark (getLast?_ne_bodyText leftBuilt) (by decide)
  · have whole : row ++ '\n' :: second = (row ++ ['\n']) ++ second := by simp
    rw [whole]
    apply Covers.after_filler (filler_of_skipped skipped)
    rw [← Position.advance_append, ← List.append_assoc]
    exact movedStands

/-- Two accepted sources with a line feed between them are an accepted source. No leaf of the first
may stand where a comment seems to begin, for the second could close it. -/
theorem exists_join {first second : List Char} {left right : SyntaxTree}
    (leftAccepted : SyntaxTree.parse first = .ok left)
    (rightAccepted : SyntaxTree.parse second = .ok right) (noMark : left.NoLeafAtMark) :
    ∃ joined, SyntaxTree.parse (first ++ '\n' :: second) = .ok joined ∧
      joined.root.children =
        left.root.children ++ right.root.children.map (Node.shift (first.length + 1)) := by
  rcases parse_eq_ok_iff.mp leftAccepted with ⟨leftPhrase, leftIsModule, rfl, leftStands⟩
  rcases parse_eq_ok_iff.mp rightAccepted with ⟨rightPhrase, rightIsModule, rfl, rightStands⟩
  rcases leftIsModule.exists_items with ⟨leftItems, rfl⟩
  rcases rightIsModule.exists_items with ⟨rightItems, rfl⟩
  have stands := standsAt_join leftIsModule rightIsModule leftStands rightStands
    (notMark_of_noLeafAtMark noMark)
  have isModule := Phrase.isModule_append_iff.mpr ⟨leftIsModule,
    Phrase.map_module (moved (Position.start.advance (first ++ ['\n']))) rightItems ▸
      rightIsModule.map _⟩
  have isOffset : (Position.start.advance (first ++ ['\n'])).offset = first.length + 1 := by
    rw [Position.offset_advance, List.length_append]
    exact Nat.zero_add _
  refine ⟨_, parse_eq_ok_iff.mpr ⟨_, isModule, rfl, stands⟩, ?_⟩
  simp only [Phrase.children_toNode_module, List.map_append, List.map_map, Function.comp_def,
    Phrase.toNode_moved, isOffset]

end ShaderReflection.Tree
