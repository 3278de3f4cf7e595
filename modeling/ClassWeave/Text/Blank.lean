/-
# ClassWeave.Text.Blank -- blank characters, and text without them at its ends

The blanks are the characters with the property White_Space, which are more than
those that the core library calls whitespace.
-/

set_option autoImplicit false

namespace ClassWeave.Text

def isBlank (c : Char) : Bool :=
  let n := c.toNat
  (9 ≤ n && n ≤ 13) || n == 0x20 || n == 0x85 || n == 0xA0 || n == 0x1680
    || (0x2000 ≤ n && n ≤ 0x200A) || n == 0x2028 || n == 0x2029 || n == 0x202F
    || n == 0x205F || n == 0x3000

/-- The characters from the first to the last that is not blank. -/
def trim (s : String) : List Char :=
  ((s.toList.dropWhile isBlank).reverse.dropWhile isBlank).reverse

end ClassWeave.Text
