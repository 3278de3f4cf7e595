/-
# ClassWeave.Text.Quoted -- a text in double quotes, as error messages show it

The double quote and the backslash are escaped by a backslash, and so are tab,
newline, carriage return and the null character under their usual letters.
Characters without a visible form are written by their code point in braces.
Everything else, the single quote included, stands for itself.
-/
import ClassWeave.Text.Hex
import ClassWeave.Text.Printable

set_option autoImplicit false

namespace ClassWeave.Text

def escape (c : Char) : List Char :=
  if c = '"' then ['\\', '"']
  else if c = '\\' then ['\\', '\\']
  else if c = '\n' then ['\\', 'n']
  else if c = '\r' then ['\\', 'r']
  else if c = '\t' then ['\\', 't']
  else if c.toNat = 0 then ['\\', '0']
  else if isPrintable c then [c]
  else ['\\', 'u', '\x7b'] ++ (hex c.toNat).toList ++ ['\x7d']

def quoted (s : String) : String :=
  String.ofList ('"' :: (s.toList.flatMap escape ++ ['"']))

end ClassWeave.Text
