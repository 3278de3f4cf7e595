/-
# ClassWeave.Bytes -- numbers as bytes, and readers of bytes

Numbers are written with the most significant byte first.  A `Reader` takes a value
off the front of a `Cursor`, which remembers how many bytes are gone, or fails.
Readers are put together in a monad; the value a reader returns and the number of
bytes it takes depend on nothing but the bytes it takes.
-/
import ClassWeave.Error

set_option autoImplicit false

namespace ClassWeave

abbrev Bytes := List UInt8

namespace Bytes

def u2 (n : UInt16) : Bytes := [(n >>> 8).toUInt8, n.toUInt8]

def u4 (n : UInt32) : Bytes := u2 (n >>> 16).toUInt16 ++ u2 n.toUInt16

def u8 (n : UInt64) : Bytes := u4 (n >>> 32).toUInt32 ++ u4 n.toUInt32

/-- A number of elements; the format leaves it two bytes. -/
def count (n : Nat) : Bytes := u2 (UInt16.ofNat n)

def i2 (n : Int16) : Bytes := u2 n.toUInt16

def i4 (n : Int32) : Bytes := u4 n.toUInt32

/-- The first `n` bytes of a sequence, behind those of `taken`, which holds the last one first, and
the bytes after them; nothing if there are too few. -/
def splitTaking? : Nat → Bytes → Bytes → Option (Bytes × Bytes)
  | 0, taken, rest => some (taken.reverse, rest)
  | _ + 1, _, [] => none
  | n + 1, taken, b :: rest => splitTaking? n (b :: taken) rest

theorem splitTaking?_eq (n : Nat) (taken rest : Bytes) :
    splitTaking? n taken rest =
      if n ≤ rest.length then some (taken.reverse ++ rest.take n, rest.drop n) else none := by
  induction n generalizing taken rest with
  | zero => simp [splitTaking?]
  | succ n ih => cases rest <;> simp [splitTaking?, ih]

end Bytes

/-- A place in a sequence of bytes. -/
structure Cursor where
  offset : Nat
  rest : Bytes
deriving DecidableEq, Repr

def Cursor.start (bytes : Bytes) : Cursor := ⟨0, bytes⟩

abbrev Reader := StateT Cursor (Except ReadError)

namespace Reader

variable {α : Type}

def fail (cause : ReadError) : Reader α := fun _ => .error cause

/-- A value found without reading, if it was found. -/
def lift (found : Except ReadError α) : Reader α := fun cursor =>
  match found with
  | .ok value => .ok (value, cursor)
  | .error cause => .error cause

def offset : Reader Nat := fun cursor => .ok (cursor.offset, cursor)

def u1 : Reader UInt8 := fun cursor =>
  match cursor.rest with
  | b :: rest => .ok (b, ⟨cursor.offset + 1, rest⟩)
  | [] => .error .unexpectedEnd

def u2 : Reader UInt16 := fun cursor =>
  match cursor.rest with
  | a :: b :: rest => .ok (a.toUInt16 <<< 8 ||| b.toUInt16, ⟨cursor.offset + 2, rest⟩)
  | _ => .error .unexpectedEnd

def u4 : Reader UInt32 := do
  let high ← u2
  let low ← u2
  return high.toUInt32 <<< 16 ||| low.toUInt32

def u8 : Reader UInt64 := do
  let high ← u4
  let low ← u4
  return high.toUInt64 <<< 32 ||| low.toUInt64

def i1 : Reader Int8 := do return (← u1).toInt8

def i2 : Reader Int16 := do return (← u2).toInt16

def i4 : Reader Int32 := do return (← u4).toInt32

/-- The next `n` bytes. -/
def bytes (n : Nat) : Reader Bytes := fun cursor =>
  match Bytes.splitTaking? n [] cursor.rest with
  | some (taken, rest) => .ok (taken, ⟨cursor.offset + n, rest⟩)
  | none => .error .unexpectedEnd

/-- `n` values one after the other, behind those of `found`, which holds the last one first. -/
def times (item : Reader α) : Nat → List α → Reader (List α)
  | 0, found => fun cursor => .ok (found.reverse, cursor)
  | n + 1, found => fun cursor =>
    match item cursor with
    | .ok (value, cursor) => times item n (value :: found) cursor
    | .error cause => .error cause

/-- As many values as the two bytes in front of them say. -/
def table (item : Reader α) : Reader (List α) := do
  let n ← u2
  times item n.toNat []

/-- The value at the start of a sequence, whatever follows. -/
def run (reader : Reader α) (input : Bytes) : Except ReadError α :=
  match reader (Cursor.start input) with
  | .ok (value, _) => .ok value
  | .error cause => .error cause

/-- The value that takes up the whole sequence; `cause` is raised for what is left over. -/
def runAll (reader : Reader α) (cause : ReadError) (input : Bytes) : Except ReadError α :=
  match reader (Cursor.start input) with
  | .ok (value, cursor) => if cursor.rest.isEmpty then .ok value else .error cause
  | .error cause => .error cause

end Reader

end ClassWeave
