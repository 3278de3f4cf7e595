/-
# ClassWeave.ClassFile.Attribute -- named payloads

Classes, fields, methods and code carry attributes: a name from the constant pool
and bytes whose meaning the name decides.  The bytes are kept as they are, so what
nobody rewrites is written back unchanged.  A payload is looked into by a reader
that starts at its first byte and, with few exceptions, may leave some over.
-/
import ClassWeave.Pool.Entry

set_option autoImplicit false

namespace ClassWeave

structure Attribute where
  nameIndex : UInt16
  name : String
  payload : Bytes
deriving DecidableEq, Repr

namespace Attribute

def code : String := "Code"

def stackMapTable : String := "StackMapTable"

def lineNumberTable : String := "LineNumberTable"

def localVariableTable : String := "LocalVariableTable"

def localVariableTypeTable : String := "LocalVariableTypeTable"

def sourceFile : String := "SourceFile"

def read (entries : Entries) : Reader Attribute := do
  let nameIndex ← Reader.u2
  let length ← Reader.u4
  let name ← Reader.lift (entries.utf8 nameIndex)
  let payload ← Reader.bytes length.toNat
  return ⟨nameIndex, name, payload⟩

def readTable (entries : Entries) : Reader (List Attribute) := Reader.table (read entries)

def write (given : Attribute) : Bytes :=
  Bytes.u2 given.nameIndex ++ Bytes.u4 (UInt32.ofNat given.payload.length) ++ given.payload

def writeTable (attributes : List Attribute) : Bytes :=
  Bytes.count attributes.length ++ attributes.flatMap write

end Attribute

end ClassWeave
