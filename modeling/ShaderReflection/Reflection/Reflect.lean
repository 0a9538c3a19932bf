import ShaderReflection.Reflection.Bindings
import ShaderReflection.Reflection.Functions

/-!
# Reflecting a module
-/

namespace ShaderReflection.Reflection

open ShaderReflection.Tree

/-- Reflect a syntax tree. Functions need the structures, and entry points the functions; the first
fault ends the reflection. -/
def ofTree (tree : SyntaxTree) : Attempt Model := do
  let structures ← structuresOf tree
  let functions ← functionsOf tree structures
  let entryPoints ← entryPointsOf tree functions
  let bindings ← bindingsOf tree
  return ⟨structures, functions, entryPoints, bindings⟩

def reflect (source : String) : Attempt Model := do
  ofTree (← parse source)

end ShaderReflection.Reflection
