import ShaderReflection.Grammar.Reader
import ShaderReflection.Wgsl.Lexeme
import ShaderReflection.Wgsl.Rules

/-!
# The shading language

The parser and the lexicon of the shading language put together.
-/

namespace ShaderReflection.Wgsl

open ShaderReflection.Grammar

def parser : Parser Terminal Nonterminal := Parser.ofRules rules

/-- The shading language, ready to read texts. -/
def language : Language Terminal Nonterminal := ⟨parser, Lexeme.lexicon⟩

end ShaderReflection.Wgsl
