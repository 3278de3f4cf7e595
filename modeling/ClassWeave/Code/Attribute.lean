/-
# ClassWeave.Code.Attribute -- the payload that holds a method's code

A payload gives the two sizes of a method, its code array, its exception table and
attributes of its own: lines, variables, stack map.  `CodeAttribute.read` takes it
apart, and takes nothing but a whole payload; `encode` puts one together from
assembled code, leaving out tables without entries.

Handlers whose range is empty are dropped (`resolveHandlers`), and so are lines at
the end of the code and variables whose range ends before it starts.
-/
import ClassWeave.Code.StackMap

set_option autoImplicit false

namespace ClassWeave

/-- A row of an exception table: a range of offsets, a handler, and the pool index of a class or
zero for every exception. -/
structure HandlerEntry where
  start : UInt16
  stop : UInt16
  handler : UInt16
  catchType : UInt16
deriving DecidableEq, Repr

structure LineEntry where
  start : UInt16
  number : UInt16
deriving DecidableEq, Repr

/-- A row of a variable table; its type is a descriptor or, in the table of types, a signature. -/
structure VariableEntry where
  start : UInt16
  length : UInt16
  name : UInt16
  type : UInt16
  slot : UInt16
deriving DecidableEq, Repr

structure CodeAttribute where
  maxStack : UInt16
  maxLocals : UInt16
  code : Bytes
  handlers : List HandlerEntry
  attributes : List Attribute
deriving DecidableEq, Repr

namespace HandlerEntry

def read : Reader HandlerEntry := do
  let start ← Reader.u2
  let stop ← Reader.u2
  let handler ← Reader.u2
  return ⟨start, stop, handler, ← Reader.u2⟩

def write (entry : HandlerEntry) : Bytes :=
  Bytes.u2 entry.start ++ Bytes.u2 entry.stop ++ Bytes.u2 entry.handler
    ++ Bytes.u2 entry.catchType

end HandlerEntry

namespace LineEntry

def read : Reader LineEntry := do
  let start ← Reader.u2
  return ⟨start, ← Reader.u2⟩

def write (entry : LineEntry) : Bytes := Bytes.u2 entry.start ++ Bytes.u2 entry.number

end LineEntry

namespace VariableEntry

def read : Reader VariableEntry := do
  let start ← Reader.u2
  let length ← Reader.u2
  let name ← Reader.u2
  let type ← Reader.u2
  return ⟨start, length, name, type, ← Reader.u2⟩

def write (entry : VariableEntry) : Bytes :=
  Bytes.u2 entry.start ++ Bytes.u2 entry.length ++ Bytes.u2 entry.name ++ Bytes.u2 entry.type
    ++ Bytes.u2 entry.slot

end VariableEntry

namespace CodeAttribute

def reader (entries : Entries) : Reader CodeAttribute := do
  let maxStack ← Reader.u2
  let maxLocals ← Reader.u2
  let length ← Reader.u4
  let code ← Reader.bytes length.toNat
  let handlers ← Reader.table HandlerEntry.read
  let attributes ← Attribute.readTable entries
  return ⟨maxStack, maxLocals, code, handlers, attributes⟩

def read (entries : Entries) (payload : Bytes) : Except ReadError CodeAttribute :=
  (reader entries).runAll (.invalidAttribute Attribute.code) payload

/-- The rows of all attributes of a name, in order. -/
def rows {α : Type} (code : CodeAttribute) (name : String) (row : Reader α) :
    Except ReadError (List α) := do
  let tables ← (code.attributes.filter (·.name == name)).mapM fun table =>
    (Reader.table row).run table.payload
  return tables.flatten

def lines (code : CodeAttribute) : Except ReadError (List LineEntry) :=
  code.rows Attribute.lineNumberTable LineEntry.read

def variableRows (code : CodeAttribute) : Except ReadError (List VariableEntry) :=
  code.rows Attribute.localVariableTable VariableEntry.read

def variableTypes (code : CodeAttribute) : Except ReadError (List VariableEntry) :=
  code.rows Attribute.localVariableTypeTable VariableEntry.read

/-- The entries of the first stack map, if there is one. -/
def stackMap (code : CodeAttribute) : Except ReadError (List StackMapEntry) :=
  match code.attributes.find? (·.name == Attribute.stackMapTable) with
  | some table => StackMapEntry.readTable.run table.payload
  | none => .ok []

def writeTables (tables : List (UInt16 × Bytes)) : Bytes :=
  Bytes.count tables.length ++ tables.flatMap fun (name, payload) =>
    Bytes.u2 name ++ Bytes.u4 (UInt32.ofNat payload.length) ++ payload

end CodeAttribute

/-- A table with its name interned, unless it is empty. -/
def namedTable (name : String) (rows : List Bytes) : Interning (List (UInt16 × Bytes)) := do
  if rows.isEmpty then return []
  return [(← Interning.utf8 name, Bytes.count rows.length ++ rows.flatten)]

namespace AssembledCode

/-- The offset of a label, in a step that may intern. -/
def find (assembled : AssembledCode) (label : Label) : Interning Nat :=
  ExceptT.mk (pure (assembled.offsetOf label))

/-- The rows of exception blocks, in their order. -/
def resolveHandlers (assembled : AssembledCode) (blocks : List TryBlock) :
    Interning (List HandlerEntry) := do
  let rows ← blocks.mapM fun block => do
    let start ← assembled.find block.start
    let stop ← assembled.find block.stop
    if stop ≤ start then return none
    let catchType ← match block.catchType with
      | some name => Interning.className name
      | none => pure 0
    let handler ← assembled.find block.handler
    return some ⟨UInt16.ofNat start, UInt16.ofNat stop, UInt16.ofNat handler, catchType⟩
  return rows.filterMap id

def lineRows (assembled : AssembledCode) : Interning (List LineEntry) := do
  let length := assembled.code.length
  let rows ← assembled.lines.mapM fun (start, number) => do
    return (← assembled.find start, number)
  return rows.filterMap fun (start, number) =>
    if start < length then some ⟨UInt16.ofNat start, number⟩ else none

/-- The row of a variable, and that of its signature. -/
def variableRow (assembled : AssembledCode) (declared : Variable) :
    Interning (Option (VariableEntry × Option VariableEntry)) := do
  let start ← assembled.find declared.start
  let stop ← assembled.find declared.stop
  if stop < start then return none
  let name ← Interning.utf8 declared.name
  let descriptor ← Interning.utf8 declared.descriptor
  let row : VariableEntry :=
    ⟨UInt16.ofNat start, UInt16.ofNat (stop - start), name, descriptor, declared.slot⟩
  match declared.signature with
  | none => return some (row, none)
  | some signature => return some (row, some { row with type := ← Interning.utf8 signature })

/-- The stack map, unless it is not wanted or has no frame. -/
def stackMapTable (assembled : AssembledCode) (frames : Option (List PinnedFrame)) :
    Interning (List (UInt16 × Bytes)) := do
  match frames with
  | none => return []
  | some frames =>
    match ← StackMap.encode assembled frames with
    | none => return []
    | some payload => return [(← Interning.utf8 Attribute.stackMapTable, payload)]

/-- The payload for assembled code.  Without `frames` there is no stack map. -/
def encode (assembled : AssembledCode) (maxStack maxLocals : UInt16)
    (handlers : List HandlerEntry) (frames : Option (List PinnedFrame))
    (declared : List Variable) : Interning Bytes := do
  let stackMap ← stackMapTable assembled frames
  let lines ← lineRows assembled
  let lines ← namedTable Attribute.lineNumberTable (lines.map LineEntry.write)
  let rows := (← declared.mapM (variableRow assembled)).filterMap id
  let plain ← namedTable Attribute.localVariableTable
    (rows.map fun (row, _) => row.write)
  let typed ← namedTable Attribute.localVariableTypeTable
    (rows.filterMap fun (_, row) => row.map VariableEntry.write)
  return Bytes.u2 maxStack ++ Bytes.u2 maxLocals
    ++ Bytes.u4 (UInt32.ofNat assembled.code.length) ++ assembled.code
    ++ Bytes.count handlers.length ++ handlers.flatMap HandlerEntry.write
    ++ CodeAttribute.writeTables (stackMap ++ lines ++ plain ++ typed)

end AssembledCode

end ClassWeave
