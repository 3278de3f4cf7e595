/-
# ClassWeave.ClassFile.Basic -- a class file, taken apart and put together

`ClassFile.read` takes a class file apart down to its attributes, whose payloads it
keeps.  `ClassFile.write` puts one together from the same parts, with another constant
pool and other code for some methods if wanted; everything else goes out as it came
in.  Bytes after the last attribute are not read.
-/
import ClassWeave.Code.Attribute

set_option autoImplicit false

namespace ClassWeave

/-- A field or a method. -/
structure Member where
  access : UInt16
  name : UInt16
  descriptor : UInt16
  attributes : List Attribute
deriving DecidableEq, Repr

structure ClassFile where
  minor : UInt16
  major : UInt16
  entries : Entries
  access : UInt16
  thisClass : UInt16
  superClass : UInt16
  interfaces : List UInt16
  fields : List Member
  methods : List Member
  attributes : List Attribute
deriving DecidableEq, Repr

/-- Access flags, by the bit that stands for each. -/
structure AccessFlag where
  bit : UInt16

namespace AccessFlag

def static : AccessFlag := ⟨0x0008⟩

def bridge : AccessFlag := ⟨0x0040⟩

def native : AccessFlag := ⟨0x0100⟩

def interface : AccessFlag := ⟨0x0200⟩

def abstract : AccessFlag := ⟨0x0400⟩

def synthetic : AccessFlag := ⟨0x1000⟩

def isIn (flag : AccessFlag) (access : UInt16) : Bool := access &&& flag.bit != 0

end AccessFlag

namespace Entry

/-- An entry, behind the tag of its kind. -/
def read : Reader Entry := do
  let tag ← Reader.u1
  if tag = 1 then
    let length ← Reader.u2
    let bytes ← Reader.bytes length.toNat
    match Text.ModifiedUtf8.decode bytes with
    | .ok text => return utf8 text
    | .error fault => Reader.fail (.malformedText fault)
  else if tag = 3 then return int (← Reader.i4)
  else if tag = 4 then return float (← Reader.u4)
  else if tag = 5 then return long (← Reader.u8).toInt64
  else if tag = 6 then return double (← Reader.u8)
  else if tag = 7 then return «class» (← Reader.u2)
  else if tag = 8 then return string (← Reader.u2)
  else if tag = 9 then
    let owner ← Reader.u2
    return field owner (← Reader.u2)
  else if tag = 10 then
    let owner ← Reader.u2
    return method owner (← Reader.u2)
  else if tag = 11 then
    let owner ← Reader.u2
    return interfaceMethod owner (← Reader.u2)
  else if tag = 12 then
    let name ← Reader.u2
    return nameAndType name (← Reader.u2)
  else if tag = 15 then
    let kind ← Reader.u1
    return methodHandle kind (← Reader.u2)
  else if tag = 16 then return methodType (← Reader.u2)
  else if tag = 17 then
    let bootstrap ← Reader.u2
    return dynamic bootstrap (← Reader.u2)
  else if tag = 18 then
    let bootstrap ← Reader.u2
    return invokeDynamic bootstrap (← Reader.u2)
  else if tag = 19 then return module (← Reader.u2)
  else if tag = 20 then return package (← Reader.u2)
  else Reader.fail (.invalidTag tag)

/-- The entry as stored; a text has to fit the two bytes for its length. -/
def write : Entry → Except WriteError Bytes
  | unusable => .ok []
  | utf8 text =>
    let bytes := Text.ModifiedUtf8.encode text
    if 0xFFFF < bytes.length then .error .poolOverflow
    else .ok (1 :: (Bytes.count bytes.length ++ bytes))
  | int value => .ok (3 :: Bytes.i4 value)
  | float bits => .ok (4 :: Bytes.u4 bits)
  | long value => .ok (5 :: Bytes.u8 value.toUInt64)
  | double bits => .ok (6 :: Bytes.u8 bits)
  | «class» name => .ok (7 :: Bytes.u2 name)
  | string text => .ok (8 :: Bytes.u2 text)
  | field owner member => .ok (9 :: (Bytes.u2 owner ++ Bytes.u2 member))
  | method owner member => .ok (10 :: (Bytes.u2 owner ++ Bytes.u2 member))
  | interfaceMethod owner member => .ok (11 :: (Bytes.u2 owner ++ Bytes.u2 member))
  | nameAndType name descriptor => .ok (12 :: (Bytes.u2 name ++ Bytes.u2 descriptor))
  | methodHandle kind reference => .ok (15 :: kind :: Bytes.u2 reference)
  | methodType descriptor => .ok (16 :: Bytes.u2 descriptor)
  | dynamic bootstrap member => .ok (17 :: (Bytes.u2 bootstrap ++ Bytes.u2 member))
  | invokeDynamic bootstrap member =>
    .ok (18 :: (Bytes.u2 bootstrap ++ Bytes.u2 member))
  | module name => .ok (19 :: Bytes.u2 name)
  | package name => .ok (20 :: Bytes.u2 name)

/-- Entries until at least `wanted` indexes are taken up, the entry after each wide one unusable,
behind those of `found`. -/
def readUpTo (wanted : Nat) (found : Entries) : Nat → Reader Entries
  | 0 => return found
  | fuel + 1 =>
    if wanted ≤ found.size then return found
    else do
      let entry ← read
      let found := found.push entry
      readUpTo wanted (if entry.slots = 2 then found.push unusable else found) fuel

end Entry

namespace Entries

/-- A pool, whose size comes first and counts the unusable index zero.  The second index of a wide
constant at the end may lie past that size. -/
def read : Reader Entries := do
  let size ← Reader.u2
  Entry.readUpTo size.toNat #[.unusable] size.toNat

def write (entries : Entries) : Except WriteError Bytes := do
  if 0xFFFF < entries.size then throw .poolOverflow
  let parts ← (entries.toList.drop 1).mapM Entry.write
  return Bytes.count entries.size ++ parts.flatten

end Entries

namespace Member

def read (entries : Entries) : Reader Member := do
  let access ← Reader.u2
  let name ← Reader.u2
  let descriptor ← Reader.u2
  return ⟨access, name, descriptor, ← Attribute.readTable entries⟩

def write (member : Member) : Bytes :=
  Bytes.u2 member.access ++ Bytes.u2 member.name ++ Bytes.u2 member.descriptor
    ++ Attribute.writeTable member.attributes

/-- The method with another payload in its code attributes. -/
def withCode (member : Member) (payload : Bytes) : Member :=
  { member with
    attributes := member.attributes.map fun given =>
      if given.name = Attribute.code then { given with payload := payload } else given }

/-- The code of a method that has some. -/
def code? (member : Member) (entries : Entries) : Except ReadError (Option CodeAttribute) :=
  match member.attributes.find? (·.name == Attribute.code) with
  | some given => (CodeAttribute.read entries given.payload).map some
  | none => .ok none

end Member

namespace ClassFile

def magic : UInt32 := 0xCAFEBABE

def reader : Reader ClassFile := do
  let found ← Reader.u4
  if found ≠ magic then Reader.fail (.invalidMagic found)
  let minor ← Reader.u2
  let major ← Reader.u2
  let entries ← Entries.read
  let access ← Reader.u2
  let thisClass ← Reader.u2
  let superClass ← Reader.u2
  let interfaces ← Reader.table Reader.u2
  let fields ← Reader.table (Member.read entries)
  let methods ← Reader.table (Member.read entries)
  let attributes ← Attribute.readTable entries
  return ⟨minor, major, entries, access, thisClass, superClass, interfaces, fields, methods,
    attributes⟩

def read (bytes : Bytes) : Except ReadError ClassFile := reader.run bytes

/-- The methods, with `payload? i` for the code of number `i` wherever there is one. -/
def methodsWith (file : ClassFile) (payload? : Nat → Option Bytes) : List Member :=
  file.methods.zipIdx.map fun (method, i) =>
    match payload? i with
    | some payload => method.withCode payload
    | none => method

/-- The class file with the entries of `entries`, and with `payload? i` for the code of method
number `i` wherever there is one. -/
def write (file : ClassFile) (entries : Entries) (payload? : Nat → Option Bytes) :
    Except WriteError Bytes := do
  let pool ← entries.write
  let methods := file.methodsWith payload?
  return Bytes.u4 magic ++ Bytes.u2 file.minor ++ Bytes.u2 file.major ++ pool
    ++ Bytes.u2 file.access ++ Bytes.u2 file.thisClass ++ Bytes.u2 file.superClass
    ++ Bytes.count file.interfaces.length ++ file.interfaces.flatMap Bytes.u2
    ++ Bytes.count file.fields.length ++ file.fields.flatMap Member.write
    ++ Bytes.count methods.length ++ methods.flatMap Member.write
    ++ Attribute.writeTable file.attributes

def name (file : ClassFile) : Except ReadError String := file.entries.className file.thisClass

/-- The name of the superclass; index zero stands for none. -/
def superName (file : ClassFile) : Except ReadError (Option String) :=
  if file.superClass = 0 then .ok none
  else (file.entries.className file.superClass).map some

def interfaceNames (file : ClassFile) : Except ReadError (List String) :=
  file.interfaces.mapM file.entries.className

/-- The name of the source file, which the first attribute for it holds the index of. -/
def sourceFile (file : ClassFile) : Except ReadError (Option String) :=
  match file.attributes.find? (·.name == Attribute.sourceFile) with
  | none => .ok none
  | some given => do
    let index ← Reader.u2.run given.payload
    return some (← file.entries.utf8 index)

end ClassFile

end ClassWeave
