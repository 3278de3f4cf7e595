/-
# ClassWeave.ClassFile.Builder -- a class made from scratch

A builder takes the parts of a class one by one, interning as it goes, and remembers
the first thing that could not be written; `toBytes` raises it.  A part that fails is
left out, whatever it had interned by then.  Frames are not worked out: a method that
needs some brings them among its events.
-/
import ClassWeave.ClassFile.Basic
import ClassWeave.MethodBody

set_option autoImplicit false

namespace ClassWeave

structure ClassBuilder where
  pool : ConstantPool
  file : ClassFile
  fault : Option WriteError

namespace ClassBuilder

/-- The first class file version whose verifier wants stack maps. -/
def framedVersion : UInt16 := 50

def empty : ClassBuilder :=
  ⟨ConstantPool.empty, ⟨0, framedVersion, #[], 0, 0, 0, [], [], [], []⟩, none⟩

/-- The builder after an interning step, and what it found. -/
def run {α : Type} (builder : ClassBuilder) (step : Interning α) : Option α × ClassBuilder :=
  match step builder.pool with
  | (.ok value, pool) => (some value, { builder with pool := pool })
  | (.error cause, pool) =>
    (none, { builder with pool := pool, fault := some (builder.fault.getD cause) })

def addInterface (builder : ClassBuilder) (name : String) : ClassBuilder :=
  match builder.run (Interning.className name) with
  | (some index, builder) =>
    { builder with file := { builder.file with interfaces := builder.file.interfaces ++ [index] } }
  | (none, builder) => builder

def header (builder : ClassBuilder) (major minor access : UInt16) (name : String)
    (superName : Option String) (interfaces : List String) : ClassBuilder :=
  let (thisClass, builder) := builder.run (Interning.className name)
  let file := { builder.file with
    major := major, minor := minor, access := access, thisClass := thisClass.getD 0 }
  let builder := { builder with file := file }
  let builder := match superName with
    | none => builder
    | some superName =>
      let (superClass, builder) := builder.run (Interning.className superName)
      { builder with file := { builder.file with superClass := superClass.getD 0 } }
  interfaces.foldl addInterface builder

def source (builder : ClassBuilder) (name : String) : ClassBuilder :=
  let step : Interning (UInt16 × UInt16) := do
    let nameIndex ← Interning.utf8 Attribute.sourceFile
    return (nameIndex, ← Interning.utf8 name)
  match builder.run step with
  | (some (nameIndex, index), builder) =>
    let given : Attribute := ⟨nameIndex, Attribute.sourceFile, Bytes.u2 index⟩
    { builder with
      file := { builder.file with attributes := builder.file.attributes ++ [given] } }
  | (none, builder) => builder

def field (builder : ClassBuilder) (access : UInt16) (name descriptor : String) :
    ClassBuilder :=
  let step : Interning Member := do
    let name ← Interning.utf8 name
    return ⟨access, name, ← Interning.utf8 descriptor, []⟩
  match builder.run step with
  | (some member, builder) =>
    { builder with file := { builder.file with fields := builder.file.fields ++ [member] } }
  | (none, builder) => builder

/-- A body as it grows; only a method that tells its sizes has code. -/
def addEvent : Bool × MethodBody → MethodEvent → Bool × MethodBody
  | (_, body), .sizes maxStack maxLocals =>
    (true, { body with maxStack := maxStack, maxLocals := maxLocals })
  | (hasCode, body), event => (hasCode, body.add event)

def method (builder : ClassBuilder) (access : UInt16) (name descriptor : String)
    (events : List MethodEvent) : ClassBuilder :=
  let (hasCode, body) := events.foldl addEvent (false, MethodBody.empty)
  let step : Interning Member := do
    let name ← Interning.utf8 name
    let descriptor ← Interning.utf8 descriptor
    if hasCode then
      let payload ← body.encode (framedVersion ≤ builder.file.major)
      let nameIndex ← Interning.utf8 Attribute.code
      return ⟨access, name, descriptor, [⟨nameIndex, Attribute.code, payload⟩]⟩
    else return ⟨access, name, descriptor, []⟩
  match builder.run step with
  | (some member, builder) =>
    { builder with file := { builder.file with methods := builder.file.methods ++ [member] } }
  | (none, builder) => builder

def toBytes (builder : ClassBuilder) : Except WriteError Bytes :=
  match builder.fault with
  | some cause => .error cause
  | none => builder.file.write builder.pool.entries fun _ => none

end ClassBuilder

end ClassWeave
