import SheetIntake.Text.Hex
import SheetIntake.Text.Printable

/-!
# Quoted texts

A text inside a message stands in single quotes, or in double quotes when it holds single ones and
no double one. The quote, the backslash and what is not printable are escaped.
-/

namespace SheetIntake.Text

def quoteFor (cs : List Char) : Char :=
  if cs.contains '\'' && !cs.contains '"' then '"' else '\''

def quotedChar (quote c : Char) : List Char :=
  if c = quote ∨ c = '\\' then ['\\', c]
  else if c = '\n' then ['\\', 'n']
  else if c = '\r' then ['\\', 'r']
  else if c = '\t' then ['\\', 't']
  else if isPrintable c then [c]
  else if c.toNat < 0x100 then '\\' :: 'x' :: hexDigits 2 c.toNat
  else if c.toNat < 0x10000 then '\\' :: 'u' :: hexDigits 4 c.toNat
  else '\\' :: 'U' :: hexDigits 8 c.toNat

def quoted (s : String) : String :=
  let cs := s.toList
  let quote := quoteFor cs
  String.ofList (quote :: (cs.flatMap (quotedChar quote) ++ [quote]))

end SheetIntake.Text
