/-
# ClassWeave.Pool.Entry -- the constant pool as a class file stores it

Entries refer to each other by index.  `Entry.constant?` follows the indexes and
tells which constant an entry stands for; handles, dynamic constants, modules and
packages stand for none that code is written with.

The other functions look up one kind of entry for a reader of code, and refuse
with the index that does not lead to one.
-/
import ClassWeave.Bytes

set_option autoImplicit false

namespace ClassWeave

inductive Entry
  /-- Index zero, and the index after that of a long or double. -/
  | unusable
  | utf8 (text : String)
  | int (value : Int32)
  | float (bits : UInt32)
  | long (value : Int64)
  | double (bits : UInt64)
  | class (name : UInt16)
  | string (text : UInt16)
  | field (owner nameAndType : UInt16)
  | method (owner nameAndType : UInt16)
  | interfaceMethod (owner nameAndType : UInt16)
  | nameAndType (name descriptor : UInt16)
  | methodHandle (kind : UInt8) (reference : UInt16)
  | methodType (descriptor : UInt16)
  | dynamic (bootstrap nameAndType : UInt16)
  | invokeDynamic (bootstrap nameAndType : UInt16)
  | module (name : UInt16)
  | package (name : UInt16)
deriving DecidableEq, Repr

/-- Indexes that the entry takes up. -/
def Entry.slots : Entry → Nat
  | long _ | double _ => 2
  | _ => 1

/-- What a pool entry stands for, told without indexes. -/
inductive Constant
  | utf8 (text : String)
  | int (value : Int32)
  | float (bits : UInt32)
  | long (value : Int64)
  | double (bits : UInt64)
  | class (name : String)
  | string (text : String)
  | nameAndType (name descriptor : String)
  | field (target : MemberRef)
  | method (target : MemberRef)
  | interfaceMethod (target : MemberRef)
  | methodType (descriptor : String)
  | invokeDynamic (bootstrap : UInt16) (name descriptor : String)
deriving DecidableEq

namespace Constant

/-- The tag of the entries that stand for the constant. -/
def tag : Constant → Nat
  | utf8 _ => 1
  | int _ => 3
  | float _ => 4
  | long _ => 5
  | double _ => 6
  | «class» _ => 7
  | string _ => 8
  | field _ => 9
  | method _ => 10
  | interfaceMethod _ => 11
  | nameAndType _ _ => 12
  | methodType _ => 16
  | invokeDynamic _ _ _ => 18

def number : Constant → Nat
  | int value => value.toUInt32.toNat
  | float bits => bits.toNat
  | long value => value.toUInt64.toNat
  | double bits => bits.toNat
  | invokeDynamic bootstrap _ _ => bootstrap.toNat
  | _ => 0

def texts : Constant → List String
  | utf8 text | «class» text | string text | methodType text => [text]
  | nameAndType name descriptor | invokeDynamic _ name descriptor => [name, descriptor]
  | field target | method target | interfaceMethod target =>
    [target.owner, target.name, target.descriptor]
  | _ => []

/-- Tag, number and texts tell constants apart. -/
theorem eq_of_parts : ∀ {a b : Constant},
    a.tag = b.tag → a.number = b.number → a.texts = b.texts → a = b := by
  rintro (_ | ⟨⟨_⟩⟩ | _ | ⟨⟨_⟩⟩ | _ | _ | _ | ⟨_, _⟩ | ⟨_, _, _⟩ | ⟨_, _, _⟩ | ⟨_, _, _⟩ | _ | ⟨_, _, _⟩)
    (_ | ⟨⟨_⟩⟩ | _ | ⟨⟨_⟩⟩ | _ | _ | _ | ⟨_, _⟩ | ⟨_, _, _⟩ | ⟨_, _, _⟩ | ⟨_, _, _⟩ | _ | ⟨_, _, _⟩) <;>
    simp +contextual [tag, number, texts, UInt32.toNat_inj, UInt64.toNat_inj, UInt16.toNat_inj]

instance : Ord Constant :=
  ⟨compareLex (compareOn tag) (compareLex (compareOn number) (compareOn texts))⟩

instance : Std.TransOrd Constant :=
  inferInstanceAs
    (Std.TransCmp (compareLex (compareOn tag) (compareLex (compareOn number) (compareOn texts))))

instance : Std.LawfulEqOrd Constant where
  eq_of_compare {a b} same := by
    have ⟨tags, numbers, texts⟩ : compare a.tag b.tag = .eq ∧ compare a.number b.number = .eq ∧
        compare a.texts b.texts = .eq :=
      (compareLex_eq_eq.1 same).imp_right compareLex_eq_eq.1
    exact eq_of_parts (Std.LawfulEqOrd.eq_of_compare tags)
      (Std.LawfulEqOrd.eq_of_compare numbers) (Std.LawfulEqOrd.eq_of_compare texts)

end Constant

abbrev Entries := Array Entry

namespace Entries

def utf8? (entries : Entries) (index : UInt16) : Option String :=
  match entries[index.toNat]? with
  | some (.utf8 text) => some text
  | _ => none

def className? (entries : Entries) (index : UInt16) : Option String :=
  match entries[index.toNat]? with
  | some (.class name) => entries.utf8? name
  | _ => none

def nameAndType? (entries : Entries) (index : UInt16) : Option (String × String) :=
  match entries[index.toNat]? with
  | some (.nameAndType name descriptor) => do
    let name ← entries.utf8? name
    let descriptor ← entries.utf8? descriptor
    return (name, descriptor)
  | _ => none

def member? (entries : Entries) (owner nameAndType : UInt16) : Option MemberRef := do
  let owner ← entries.className? owner
  let (name, descriptor) ← entries.nameAndType? nameAndType
  return ⟨owner, name, descriptor⟩

/-- The constant that an entry stands for, its indexes read in this table. -/
def constant? (entries : Entries) : Entry → Option Constant
  | .utf8 text => some (.utf8 text)
  | .int value => some (.int value)
  | .float bits => some (.float bits)
  | .long value => some (.long value)
  | .double bits => some (.double bits)
  | .class name => (entries.utf8? name).map .class
  | .string text => (entries.utf8? text).map .string
  | .nameAndType name descriptor => do
    return .nameAndType (← entries.utf8? name) (← entries.utf8? descriptor)
  | .field owner nameAndType => (entries.member? owner nameAndType).map .field
  | .method owner nameAndType => (entries.member? owner nameAndType).map .method
  | .interfaceMethod owner nameAndType =>
    (entries.member? owner nameAndType).map .interfaceMethod
  | .methodType descriptor => (entries.utf8? descriptor).map .methodType
  | .invokeDynamic bootstrap nameAndType =>
    (entries.nameAndType? nameAndType).map fun (name, descriptor) =>
      .invokeDynamic bootstrap name descriptor
  | _ => none

/-- The constant at an index. -/
def constantAt? (entries : Entries) (index : Nat) : Option Constant :=
  (entries[index]?).bind entries.constant?

def utf8 (entries : Entries) (index : UInt16) : Except ReadError String :=
  match entries[index.toNat]? with
  | some (.utf8 text) => .ok text
  | _ => .error (.invalidIndex index)

def className (entries : Entries) (index : UInt16) : Except ReadError String :=
  match entries[index.toNat]? with
  | some (.class name) => entries.utf8 name
  | _ => .error (.invalidIndex index)

def nameAndType (entries : Entries) (index : UInt16) : Except ReadError (String × String) :=
  match entries[index.toNat]? with
  | some (.nameAndType name descriptor) => do
    let name ← entries.utf8 name
    let descriptor ← entries.utf8 descriptor
    return (name, descriptor)
  | _ => .error (.invalidIndex index)

def member (entries : Entries) (owner nameAndType : UInt16) : Except ReadError MemberRef := do
  let owner ← entries.className owner
  let (name, descriptor) ← entries.nameAndType nameAndType
  return ⟨owner, name, descriptor⟩

def field (entries : Entries) (index : UInt16) : Except ReadError MemberRef :=
  match entries[index.toNat]? with
  | some (.field owner nameAndType) => entries.member owner nameAndType
  | _ => .error (.invalidIndex index)

/-- A method, and whether it is looked up in an interface. -/
def method (entries : Entries) (index : UInt16) : Except ReadError (MemberRef × Bool) :=
  match entries[index.toNat]? with
  | some (.method owner nameAndType) => do return (← entries.member owner nameAndType, false)
  | some (.interfaceMethod owner nameAndType) => do
    return (← entries.member owner nameAndType, true)
  | _ => .error (.invalidIndex index)

/-- A dynamic call: its bootstrap method, name and descriptor. -/
def invokeDynamic (entries : Entries) (index : UInt16) :
    Except ReadError (UInt16 × String × String) :=
  match entries[index.toNat]? with
  | some (.invokeDynamic bootstrap nameAndType) => do
    let (name, descriptor) ← entries.nameAndType nameAndType
    return (bootstrap, name, descriptor)
  | _ => .error (.invalidIndex index)

def loadable (entries : Entries) (index : UInt16) : Except ReadError Loadable :=
  match entries[index.toNat]? with
  | some (.int value) => .ok (.int value)
  | some (.float bits) => .ok (.float bits)
  | some (.long value) => .ok (.long value)
  | some (.double bits) => .ok (.double bits)
  | some (.string text) => do return .string (← entries.utf8 text)
  | some (.class name) => do return .class (← entries.utf8 name)
  | some (.methodType descriptor) => do return .methodType (← entries.utf8 descriptor)
  | some (.methodHandle _ _) => .ok (.methodHandle index)
  | some (.dynamic _ nameAndType) => do
    let (_, descriptor) ← entries.nameAndType nameAndType
    return .dynamic index descriptor
  | _ => .error (.invalidIndex index)

end Entries

end ClassWeave
