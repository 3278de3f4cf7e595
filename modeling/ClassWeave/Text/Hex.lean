/-
# ClassWeave.Text.Hex -- numbers in base sixteen

Lower case digits, most significant first, without a sign.  `hexPadded` fills up
with zeros to a least width, and never cuts.
-/

set_option autoImplicit false

namespace ClassWeave.Text

def hex (n : Nat) : String := String.ofList (Nat.toDigits 16 n)

def hexPadded (width : Nat) (n : Nat) : String :=
  String.ofList ((Nat.toDigits 16 n).leftpad width '0')

end ClassWeave.Text
