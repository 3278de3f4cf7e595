/-
# ClassWeave.Pool.Intern -- a constant pool that grows

A `ConstantPool` is a table of entries with an index from constants to the place
where each is stored.  Interning a constant answers the place it already has, or
appends an entry for it, behind entries for its parts.  Nothing that is in the
table ever moves or changes, and of equal constants the first one counts.

An operation that runs out of room fails, and what it had appended by then stays:
`Interning` keeps the pool beside the failure.
-/
import ClassWeave.Pool.Entry

set_option autoImplicit false

namespace ClassWeave

structure ConstantPool where
  entries : Entries
  places : Std.TreeMap Constant UInt16

namespace ConstantPool

def empty : ConstantPool := ⟨#[.unusable], ∅⟩

/-- One constant of a table noted, unless an equal one was noted before it. -/
def note (entries : Entries) (places : Std.TreeMap Constant UInt16) (index : UInt16) :
    Std.TreeMap Constant UInt16 :=
  match entries.constantAt? index.toNat with
  | some constant => places.insertIfNew constant index
  | none => places

/-- The pool of an existing class.  Entries past the last index of a class file are not seen, their
numbers start again from zero. -/
def ofEntries (entries : Entries) : ConstantPool :=
  if entries.isEmpty then empty
  else
    ⟨entries, (((List.range entries.size).drop 1).map UInt16.ofNat).foldl (note entries) ∅⟩

/-- The pool with one more entry at its end, for a constant that had none. -/
def push (pool : ConstantPool) (constant : Constant) (entry : Entry) : ConstantPool :=
  let entries := pool.entries.push entry
  ⟨if entry.slots = 2 then entries.push .unusable else entries,
    pool.places.insert constant (UInt16.ofNat pool.entries.size)⟩

end ConstantPool

/-- A step that may append to a constant pool, and may fail after that. -/
abbrev Interning := ExceptT WriteError (StateM ConstantPool)

namespace Interning

/-- The place of a new entry at the end of the table. -/
def append (constant : Constant) (entry : Entry) : Interning UInt16 := fun pool =>
  if pool.entries.size + entry.slots ≤ 0xFFFF then
    (.ok (UInt16.ofNat pool.entries.size), pool.push constant entry)
  else (.error .poolOverflow, pool)

/-- The place of a constant, for which `entry` is written if it has none. -/
def place (constant : Constant) (entry : Interning Entry) : Interning UInt16 := do
  match (← get).places[constant]? with
  | some index => return index
  | none => append constant (← entry)

def utf8 (text : String) : Interning UInt16 :=
  place (.utf8 text) (return .utf8 text)

def int (value : Int32) : Interning UInt16 :=
  place (.int value) (return .int value)

def float (bits : UInt32) : Interning UInt16 :=
  place (.float bits) (return .float bits)

def long (value : Int64) : Interning UInt16 :=
  place (.long value) (return .long value)

def double (bits : UInt64) : Interning UInt16 :=
  place (.double bits) (return .double bits)

def className (name : String) : Interning UInt16 :=
  place (.class name) do return .class (← utf8 name)

def string (text : String) : Interning UInt16 :=
  place (.string text) do return .string (← utf8 text)

def nameAndType (name descriptor : String) : Interning UInt16 :=
  place (.nameAndType name descriptor) do
    let name ← utf8 name
    let descriptor ← utf8 descriptor
    return .nameAndType name descriptor

/-- The places of the class and of the name and type of a member. -/
def member (target : MemberRef) : Interning (UInt16 × UInt16) := do
  let owner ← className target.owner
  let nameAndType ← nameAndType target.name target.descriptor
  return (owner, nameAndType)

def field (target : MemberRef) : Interning UInt16 :=
  place (.field target) do
    let (owner, nameAndType) ← member target
    return .field owner nameAndType

def method (target : MemberRef) (isInterface : Bool) : Interning UInt16 :=
  if isInterface then
    place (.interfaceMethod target) do
      let (owner, nameAndType) ← member target
      return .interfaceMethod owner nameAndType
  else
    place (.method target) do
      let (owner, nameAndType) ← member target
      return .method owner nameAndType

def methodType (descriptor : String) : Interning UInt16 :=
  place (.methodType descriptor) do return .methodType (← utf8 descriptor)

def invokeDynamic (bootstrap : UInt16) (name descriptor : String) : Interning UInt16 :=
  place (.invokeDynamic bootstrap name descriptor) do
    return .invokeDynamic bootstrap (← nameAndType name descriptor)

/-- The place of a handle or a dynamic constant, which is there already. -/
def existing (index : UInt16) : Interning UInt16 := fun pool =>
  match pool.entries[index.toNat]? with
  | some (.methodHandle _ _) | some (.dynamic _ _) => (.ok index, pool)
  | _ => (.error (.invalidPoolEntry index), pool)

/-- The place of a constant to load. -/
def loadable : Loadable → Interning UInt16
  | .int value => int value
  | .float bits => float bits
  | .long value => long value
  | .double bits => double bits
  | .string text => string text
  | .class name => className name
  | .methodType descriptor => methodType descriptor
  | .methodHandle index | .dynamic index _ => existing index

end Interning

end ClassWeave
