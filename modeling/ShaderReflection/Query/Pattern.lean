import ShaderReflection.Fault

/-!
# Patterns

A query is a list of patterns over the named nodes of a tree. A pattern asks for a kind, or for any
kind, and has patterns for children, each of which is met by a field or by a later and later child.
-/

namespace ShaderReflection.Query

open ShaderReflection.Tree

/-- A pattern. `field` is the field that it stands for in the pattern around it, and `capture` the
name under which a matching node is kept. -/
inductive Pattern where
  | mk (kind : String) (field capture : Option String) (children : List Pattern)
deriving Repr

namespace Pattern

def kind : Pattern → String
  | mk kind _ _ _ => kind

def field : Pattern → Option String
  | mk _ field _ _ => field

def capture : Pattern → Option String
  | mk _ _ capture _ => capture

def children : Pattern → List Pattern
  | mk _ _ _ children => children

def forField (name : String) : Pattern → Pattern
  | mk kind _ capture children => mk kind (some name) capture children

def wildcard : String := "_"

/-- Kinds that a pattern may ask for. Tokens cannot be asked for. -/
def isAllowedKind (name : String) : Bool :=
  name == wildcard || (Kind.ofName? name).any (· != .anonymous)

mutual

/-- The kinds in a pattern, parents before children. -/
def kinds : Pattern → List String
  | mk kind _ _ children => kind :: kindsOfAll children

def kindsOfAll : List Pattern → List String
  | [] => []
  | pattern :: rest => pattern.kinds ++ kindsOfAll rest

end

/-- Patterns are in order when every kind is allowed; the first one that is not is the fault. -/
def check (patterns : List Pattern) : Attempt (List Pattern) :=
  match (kindsOfAll patterns).find? fun kind => !isAllowedKind kind with
  | some kind => .error (.unknownPatternKind kind)
  | none => .ok patterns

end Pattern

/-- A query for the nodes of a kind, each of which is kept under a name. -/
def ofKind (kind : Kind) (capture : String) : List Pattern :=
  [.mk kind.name none (some capture) []]

end ShaderReflection.Query
