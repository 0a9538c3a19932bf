import ShaderReflection.Grammar.Lexicon
import ShaderReflection.Grammar.Basic

/-!
# Terminals

The terminals of the shading language, their names, and the fixed spellings. The predeclared type
names play one role in the grammar and share the terminal `typeName`; their text tells them apart.
-/

namespace ShaderReflection.Wgsl

open ShaderReflection.Grammar

/-- The terminals: keywords, punctuation, and classes of lexemes. -/
inductive Terminal where
  | semicolon | comma | colon | dot | equal | arrow | atSign
  | leftParen | rightParen | leftBrace | rightBrace | leftBracket | rightBracket
  | less | greater
  | enableWord | requiresWord | structWord | fnWord | varWord | constWord | overrideWord
  | aliasWord | constAssertWord | trueWord | falseWord
  | typeName
  | identifier | intLiteral | floatLiteral | stringLiteral | bodyText
  | binaryOperator | unaryOperator
deriving DecidableEq, Repr

instance : Alphabet Terminal where
  number := Terminal.ctorIdx
  number_injective := by
    intro left right equal
    rw [← Terminal.ofNat_ctorIdx left, equal, Terminal.ofNat_ctorIdx]

namespace Terminal

/-- The name under which a terminal is reported. A type name goes by its own text in capitals. -/
def name (terminal : Terminal) (text : String) : String :=
  match terminal with
  | semicolon => "SEMICOLON"
  | comma => "COMMA"
  | colon => "COLON"
  | dot => "DOT"
  | equal => "EQUAL"
  | arrow => "__ANON_0"
  | atSign => "AT"
  | leftParen => "LPAR"
  | rightParen => "RPAR"
  | leftBrace => "LBRACE"
  | rightBrace => "RBRACE"
  | leftBracket => "LSQB"
  | rightBracket => "RSQB"
  | less => "LESSTHAN"
  | greater => "MORETHAN"
  | enableWord => "ENABLE"
  | requiresWord => "REQUIRES"
  | structWord => "STRUCT"
  | fnWord => "FN"
  | varWord => "VAR"
  | constWord => "CONST"
  | overrideWord => "OVERRIDE"
  | aliasWord => "ALIAS"
  | constAssertWord => "CONST_ASSERT"
  | trueWord => "TRUE"
  | falseWord => "FALSE"
  | typeName => text.map Char.toUpper
  | identifier => "IDENT"
  | intLiteral => "INT_LITERAL"
  | floatLiteral => "FLOAT_LITERAL"
  | stringLiteral => "STRING"
  | bodyText => "BODY_TEXT"
  | binaryOperator => "BINARY_OPERATOR"
  | unaryOperator => "UNARY_OPERATOR"

/-- The classes of lexemes whose members are shown by the name of the class. All other terminals
are shown by their text. -/
def className? : Terminal → Option String
  | identifier => some "IDENT"
  | intLiteral => some "INT_LITERAL"
  | floatLiteral => some "FLOAT_LITERAL"
  | stringLiteral => some "STRING"
  | bodyText => some "BODY_TEXT"
  | _ => none

def ofClassName? (name : String) : Option Terminal :=
  [identifier, intLiteral, floatLiteral, stringLiteral, bodyText].find? fun terminal =>
    terminal.className? == some name

end Terminal

/-! ## Spellings -/

def typeNames : List String := [
  "bool", "f16", "f32", "i32", "u32",
  "vec2", "vec3", "vec4",
  "vec2i", "vec3i", "vec4i", "vec2u", "vec3u", "vec4u",
  "vec2f", "vec3f", "vec4f", "vec2h", "vec3h", "vec4h",
  "mat2x2", "mat2x3", "mat2x4", "mat3x2", "mat3x3", "mat3x4", "mat4x2", "mat4x3", "mat4x4",
  "mat2x2f", "mat2x3f", "mat2x4f", "mat3x2f", "mat3x3f", "mat3x4f", "mat4x2f", "mat4x3f",
  "mat4x4f",
  "mat2x2h", "mat2x3h", "mat2x4h", "mat3x2h", "mat3x3h", "mat3x4h", "mat4x2h", "mat4x3h",
  "mat4x4h",
  "array", "atomic", "ptr",
  "sampler", "sampler_comparison",
  "texture_1d", "texture_2d", "texture_2d_array", "texture_3d",
  "texture_cube", "texture_cube_array", "texture_multisampled_2d", "texture_external",
  "texture_depth_2d", "texture_depth_2d_array", "texture_depth_cube", "texture_depth_cube_array",
  "texture_depth_multisampled_2d",
  "texture_storage_1d", "texture_storage_2d", "texture_storage_2d_array", "texture_storage_3d"]

/-- Keywords and punctuation. A spelling stands before any that it continues, so that the longer
one is found first. -/
def fixedSpellings : List (String × Terminal) := [
  ("const_assert", .constAssertWord), ("const", .constWord), ("override", .overrideWord),
  ("enable", .enableWord), ("requires", .requiresWord), ("struct", .structWord),
  ("alias", .aliasWord), ("fn", .fnWord), ("var", .varWord), ("true", .trueWord),
  ("false", .falseWord),
  ("->", .arrow), (";", .semicolon), (",", .comma), (":", .colon), (".", .dot), ("=", .equal),
  ("@", .atSign), ("(", .leftParen), (")", .rightParen), ("\x7b", .leftBrace),
  ("\x7d", .rightBrace), ("[", .leftBracket), ("]", .rightBracket), ("<", .less),
  (">", .greater)]

def spellings : List (Spelling Terminal) :=
  fixedSpellings.map (fun (text, terminal) => ⟨text.toList, terminal⟩) ++
    typeNames.map fun text => ⟨text.toList, .typeName⟩

end ShaderReflection.Wgsl
