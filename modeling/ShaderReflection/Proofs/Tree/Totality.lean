import ShaderReflection.Fault
import ShaderReflection.Proofs.Grammar.Totality
import ShaderReflection.Proofs.Wgsl.Reads
import ShaderReflection.Proofs.Wgsl.Table

/-!
# Every text is parsed or rejected

The parser of the shading language has an answer to every text, and the answer takes a number of
steps and reductions that the length of the text bounds.
-/

namespace ShaderReflection.Tree

open ShaderReflection.Grammar ShaderReflection.Text ShaderReflection.Wgsl

theorem exists_takes_read (text : List Char) :
    ∃ count ≤ text.length + 1, language.Takes count (.start text) (language.read text) :=
  Language.exists_takes_read Lexeme.lexicon_honest text

theorem orderly_of_reaches {text : List Char} {progress : Progress Terminal Nonterminal}
    (reached : language.Reaches text progress) : language.Orderly text progress :=
  Language.orderly_of_reaches Lexeme.lexicon_honest parser_valid rules_graded parser_grounded
    reached

/-- The bound on reductions is never reached, and the only failure is an unexpected lookahead. -/
theorem settle_of_reaches {text : List Char} {progress : Progress Terminal Nonterminal}
    (reached : language.Reaches text progress) (ahead : Option (Terminal × Token)) {fuel : Nat}
    (enough : language.patience text.length ≤ fuel) :
    parser.settle ahead fuel progress.stack = parser.feed progress.stack ahead ∧
      parser.Safe progress.stack ahead (parser.settle ahead fuel progress.stack) := by
  have orderly := orderly_of_reaches reached
  have path : parser.Path progress.stack := orderly.path
  have graded : parser.rules.Graded Nonterminal.rank := rules_graded
  have light := Parser.weight_lt_patience graded progress.stack
  have bound : parser.patience progress.stack ≤ fuel := orderly.patience_le.trans enough
  have lightToo := Nat.lt_of_lt_of_le light bound
  exact ⟨Parser.settle_of_weight_lt parser_valid graded path lightToo light,
    Parser.settle_safe parser_valid graded parser_grounded path ahead lightToo⟩

theorem proper_of_read {text : List Char} {rejection : Rejection Terminal}
    (rejects : language.read text = .error rejection) : rejection.position.Proper := by
  rcases exists_takes_read text with ⟨count, -, takes⟩
  rw [rejects] at takes
  rcases Language.exists_place_of_takes Lexeme.lexicon_honest parser_valid rules_graded
    parser_grounded Language.orderly_start takes with ⟨front, -, isPlace⟩
  rw [isPlace]
  exact Position.proper_start.advance front

/-- Every text is parsed or rejected at a line and a column. Reading it ends after at most one step
more than it has characters, however much fuel there is; whatever is read on the way, the machine
deals with any lookahead in a bounded number of reductions, each of which finds its trees on the
stack and the state to go to. -/
theorem parse_total (source : String) :
    (∃ count ≤ source.length + 1,
      language.Takes count (.start source.toList) (language.read source.toList) ∧
        ∀ fuel, count ≤ fuel →
          language.loop fuel (.start source.toList) = language.read source.toList) ∧
    (∀ progress, language.Reaches source.toList progress → ∀ ahead fuel,
      language.patience source.length ≤ fuel →
        parser.settle ahead fuel progress.stack = parser.feed progress.stack ahead ∧
          parser.Safe progress.stack ahead (parser.settle ahead fuel progress.stack)) ∧
    ((∃ tree, parse source = .ok tree) ∨
      ∃ rejection, parse source = .error (.rejected rejection) ∧
        1 ≤ rejection.position.line ∧ 1 ≤ rejection.position.column) := by
  rw [← String.length_toList]
  refine ⟨?ends, ?safe, ?answers⟩
  case ends =>
    rcases exists_takes_read source.toList with ⟨count, bound, takes⟩
    exact ⟨count, bound, takes, fun fuel enough => takes.loop_eq enough⟩
  case safe =>
    intro progress reached ahead fuel enough
    exact settle_of_reaches reached ahead enough
  case answers =>
    rw [parse, SyntaxTree.parse]
    cases reads : language.read source.toList with
    | ok derivation => exact .inl ⟨_, rfl⟩
    | error rejection =>
        have proper := proper_of_read reads
        exact .inr ⟨rejection, rfl, proper.line, proper.column⟩

end ShaderReflection.Tree
