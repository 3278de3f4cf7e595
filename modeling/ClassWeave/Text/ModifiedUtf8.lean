/-
# ClassWeave.Text.ModifiedUtf8 -- the encoding of text constants

Text is cut into 16-bit units: a character of the basic plane is one unit, any
other a surrogate pair.  A unit from 1 to 127 takes one byte, zero and the units
up to 0x7FF take two, the rest three.  Encoded text therefore holds no zero byte
and no byte from 0xF0 up.

Decoding is lenient about length: it takes a zero byte for the unit zero, and
overlong forms for the unit they spell.  It refuses a sequence that is cut off,
a byte that cannot stand where it stands, and units that pair up to no text.
-/

set_option autoImplicit false

namespace ClassWeave.Text

/-- Why bytes are not modified UTF-8. -/
inductive Malformed
  | truncatedPair
  | invalidPair
  | truncatedTriple
  | invalidTriple
  | invalidLead
  | unpairedSurrogate
deriving DecidableEq, Repr

def Malformed.message : Malformed → String
  | truncatedPair => "truncated 2-byte"
  | invalidPair => "invalid 2-byte"
  | truncatedTriple => "truncated 3-byte"
  | invalidTriple => "invalid 3-byte"
  | invalidLead => "invalid leading byte"
  | unpairedSurrogate => "invalid utf16"

namespace ModifiedUtf8

/-- The 16-bit units of a character. -/
def units (c : Char) : List Nat :=
  if c.toNat < 0x10000 then [c.toNat]
  else [0xD800 + (c.toNat - 0x10000) / 0x400, 0xDC00 + (c.toNat - 0x10000) % 0x400]

/-- The bytes of a unit. -/
def unitBytes (u : Nat) : List UInt8 :=
  if 0 < u ∧ u < 0x80 then [UInt8.ofNat u]
  else if u < 0x800 then [UInt8.ofNat (0xC0 + u / 64), UInt8.ofNat (0x80 + u % 64)]
  else [UInt8.ofNat (0xE0 + u / 4096), UInt8.ofNat (0x80 + u / 64 % 64),
    UInt8.ofNat (0x80 + u % 64)]

def encode (s : String) : List UInt8 :=
  s.toList.flatMap fun c => (units c).flatMap unitBytes

/-- A byte that carries six bits of the unit a byte before it began. -/
def continues (b : UInt8) : Bool := 0x80 ≤ b.toNat && b.toNat < 0xC0

/-- The units that bytes spell, after those of `acc`, which holds the last one first. -/
def unitsOfBytes (acc : List Nat) : List UInt8 → Except Malformed (List Nat)
  | [] => .ok acc.reverse
  | b :: rest =>
    if b.toNat < 0x80 then unitsOfBytes (b.toNat :: acc) rest
    else if 0xC0 ≤ b.toNat ∧ b.toNat < 0xE0 then
      match rest with
      | [] => .error .truncatedPair
      | c :: rest =>
        if continues c then
          unitsOfBytes ((b.toNat % 32 * 64 + c.toNat % 64) :: acc) rest
        else .error .invalidPair
    else if 0xE0 ≤ b.toNat ∧ b.toNat < 0xF0 then
      match rest with
      | c :: d :: rest =>
        if continues c && continues d then
          unitsOfBytes ((b.toNat % 16 * 4096 + c.toNat % 64 * 64 + d.toNat % 64) :: acc) rest
        else .error .invalidTriple
      | _ => .error .truncatedTriple
    else .error .invalidLead

/-- The characters that units spell, after those of `acc`, which holds the last one first. -/
def charsOfUnits (acc : List Char) : List Nat → Except Malformed (List Char)
  | [] => .ok acc.reverse
  | u :: rest =>
    if 0xD800 ≤ u ∧ u < 0xDC00 then
      match rest with
      | v :: rest =>
        if 0xDC00 ≤ v ∧ v < 0xE000 then
          charsOfUnits
            (Char.ofNat (0x10000 + (u - 0xD800) * 0x400 + (v - 0xDC00)) :: acc) rest
        else .error .unpairedSurrogate
      | [] => .error .unpairedSurrogate
    else if 0xDC00 ≤ u ∧ u < 0xE000 then .error .unpairedSurrogate
    else charsOfUnits (Char.ofNat u :: acc) rest

def decode (bytes : List UInt8) : Except Malformed String :=
  match unitsOfBytes [] bytes with
  | .error fault => .error fault
  | .ok units =>
    match charsOfUnits [] units with
    | .error fault => .error fault
    | .ok chars => .ok (String.ofList chars)

end ModifiedUtf8

end ClassWeave.Text
