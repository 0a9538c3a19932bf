import ShaderReflection.Proofs.Tree.Phrase
import ShaderReflection.Proofs.Wgsl.Table

/-!
# The parser finds every phrase

The machine is fed the tokens of a module that derives from the grammar, and gives the module back.
So no other module has the same tokens.
-/

namespace ShaderReflection.Tree

open ShaderReflection.Grammar ShaderReflection.Wgsl

variable {κ : Type} {phrase other : Phrase κ}

theorem run_leaves_of_isModule (isModule : phrase.IsModule) :
    ∃ tree, parser.run [] phrase.leaves = .ok tree ∧ phrases tree = [phrase] := by
  rcases isModule.exists_derivation with ⟨tree, follows, isStart, shown⟩
  have built := Parser.run_leaves parser_valid rules_graded follows isStart
  rw [leaves_of_phrases shown] at built
  exact ⟨tree, built, shown⟩

theorem eq_of_leaves_eq (isModule : phrase.IsModule) (otherIsModule : other.IsModule)
    (sameLeaves : other.leaves = phrase.leaves) : other = phrase := by
  rcases run_leaves_of_isModule isModule with ⟨tree, built, shown⟩
  rcases run_leaves_of_isModule otherIsModule with ⟨otherTree, otherBuilt, otherShown⟩
  rw [sameLeaves, built] at otherBuilt
  cases otherBuilt
  rw [shown] at otherShown
  cases otherShown
  rfl

/-- The machine builds each module from its tokens, and its nodes are those of the module. The
grammar is unambiguous, whatever is kept of the tokens. -/
theorem parser_builds_modules :
    (∀ phrase : Phrase Token, phrase.IsModule →
      ∃ tree, parser.run [] phrase.leaves = .ok tree ∧ phrases tree = [phrase] ∧
        Node.ofDerivation tree = phrase.toNode) ∧
      ∀ (κ : Type) (left right : Phrase κ), left.IsModule → right.IsModule →
        left.leaves = right.leaves → left = right := by
  constructor
  · intro phrase isModule
    rcases run_leaves_of_isModule isModule with ⟨tree, built, shown⟩
    exact ⟨tree, built, shown, ofDerivation_eq shown⟩
  · intro κ left right leftIsModule rightIsModule sameLeaves
    exact eq_of_leaves_eq rightIsModule leftIsModule sameLeaves

/-- A function whose body has a block inside it. -/
def nestedBlocks : Phrase Token :=
  let token (terminal : Terminal) : Phrase Token := .leaf terminal ⟨Text.Position.start, []⟩
  .node .translationUnit [.node .functionDeclaration [
    token .fnWord, .node .identifier [token .identifier], token .leftParen, token .rightParen,
    .node .compoundStatement [
      token .leftBrace,
      .node .compoundStatement [token .leftBrace, token .bodyText, token .rightBrace],
      token .rightBrace]]]

theorem parser_builds_nestedBlocks :
    nestedBlocks.IsModule ∧
      (∃ tree, parser.run [] nestedBlocks.leaves = .ok tree ∧ phrases tree = [nestedBlocks] ∧
        Node.ofDerivation tree = nestedBlocks.toNode) ∧
      ∀ other : Phrase Token, other.IsModule → other.leaves = nestedBlocks.leaves →
        other = nestedBlocks := by
  have isModule : nestedBlocks.IsModule := ⟨by decide +kernel, rfl⟩
  refine ⟨isModule, parser_builds_modules.1 nestedBlocks isModule, ?_⟩
  intro other otherIsModule sameLeaves
  exact parser_builds_modules.2 Token other nestedBlocks otherIsModule isModule sameLeaves

end ShaderReflection.Tree
