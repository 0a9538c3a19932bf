import ShaderReflection.Text.Hex
import ShaderReflection.Text.Printable

/-!
# Quoted text

A text between quotes in which everything that is not printable is written as an escape, so that
the result is printable, on one line, and tells where the text ends.
-/

namespace ShaderReflection.Text.Quoted

/-- The quote around a text: an apostrophe, unless the text has one and has no double quote. -/
def quoteFor (text : List Char) : Char :=
  if text.contains '\'' && !text.contains '"' then '"' else '\''

def escape (quote char : Char) : List Char :=
  if char = quote ∨ char = '\\' then ['\\', char]
  else if char = '\n' then ['\\', 'n']
  else if char = '\r' then ['\\', 'r']
  else if char = '\t' then ['\\', 't']
  else if isPrintable char then [char]
  else if char.toNat < 0x100 then '\\' :: 'x' :: hexDigits 2 char.toNat
  else if char.toNat < 0x10000 then '\\' :: 'u' :: hexDigits 4 char.toNat
  else '\\' :: 'U' :: hexDigits 8 char.toNat

def encode (text : List Char) : List Char :=
  let quote := quoteFor text
  quote :: text.flatMap (escape quote) ++ [quote]

def ofString (text : String) : String := String.ofList (encode text.toList)

end ShaderReflection.Text.Quoted
