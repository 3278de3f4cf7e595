/-
# ClassWeave.ClassFile.Telling -- a class told as events

A class file is told in order: what it is, its source, its fields, then each method
that is asked for, with the events of its body.  Telling stops at the first thing
that cannot be read, so a `Telling` is a list of events and maybe the fault that
ended it; everything before the fault has been told.

`Member.tell` tells a body: its sizes, its exception ranges, for each instruction the
label of its offset, the lines and the frame there and the instruction itself, then
the label of the end, the variables and the sizes.  Lines and frames that stand at no
instruction are passed over, and so are variables that outlast the code.
-/
import ClassWeave.ClassFile.Basic
import ClassWeave.Code.Decode
import ClassWeave.Frame.Basic

set_option autoImplicit false

namespace ClassWeave

structure Telling (α : Type) where
  events : List α
  fault : Option ReadError

namespace Telling

variable {α β γ : Type}

def ofList (events : List α) : Telling α := ⟨events, none⟩

def nothing : Telling α := ofList []

/-- The second part follows the first, if the first was told to its end. -/
def followedBy (first : Telling α) (second : Unit → Telling α) : Telling α :=
  match first.fault with
  | some cause => ⟨first.events, some cause⟩
  | none => let rest := second (); ⟨first.events ++ rest.events, rest.fault⟩

/-- Told with something that had to be read first. -/
def having (found : Except ReadError β) (tell : β → Telling α) : Telling α :=
  match found with
  | .ok value => tell value
  | .error cause => ⟨[], some cause⟩

/-- One part after the other, for each of a list. -/
def each (items : List β) (tell : β → Telling α) : Telling α :=
  match items with
  | [] => nothing
  | item :: rest => (tell item).followedBy fun _ => each rest tell

def map (f : α → γ) (telling : Telling α) : Telling γ :=
  ⟨telling.events.map f, telling.fault⟩

end Telling

/-- Where a variable is kept, and in which range of the code. -/
structure Extent where
  start : UInt16
  length : UInt16
  slot : UInt16
deriving DecidableEq, Repr

namespace Extent

def ofEntry (row : VariableEntry) : Extent := ⟨row.start, row.length, row.slot⟩

instance : Ord Extent :=
  ⟨compareLex (compareOn start) (compareLex (compareOn length) (compareOn slot))⟩

instance : Std.TransOrd Extent :=
  inferInstanceAs
    (Std.TransCmp (compareLex (compareOn start) (compareLex (compareOn length) (compareOn slot))))

end Extent

namespace CodeAttribute

/-- The range and handler of an exception entry, none of which may lie past the end of the code. -/
def tellHandler (entries : Entries) (length : Nat) (entry : HandlerEntry) :
    Telling MethodEvent :=
  match [entry.start, entry.stop, entry.handler].find? fun offset => length < offset.toNat with
  | some offset => ⟨[], some (.invalidBranchTarget entry.start.toNat offset.toNat)⟩
  | none =>
    let catchType :=
      if entry.catchType = 0 then .ok none else (entries.className entry.catchType).map some
    Telling.having catchType fun catchType =>
      Telling.ofList [.tryBlock
        ⟨⟨entry.start.toNat⟩, ⟨entry.stop.toNat⟩, ⟨entry.handler.toNat⟩, catchType⟩]

/-- The line numbers at each offset, in the order of their entries. -/
def linesByOffset (lines : List LineEntry) : Std.TreeMap Nat (List UInt16) :=
  lines.foldr
    (fun entry found => found.alter entry.start.toNat fun numbers =>
      some (entry.number :: numbers.getD []))
    ∅

/-- The frame at each offset that has one. -/
def framesByOffset (frames : List PinnedFrame) : Std.TreeMap Nat PinnedFrame :=
  frames.foldl (fun found frame => found.insert frame.label.id frame) ∅

/-- The whole frames of the stack map, which build on the frame on entry to the method. -/
def frames (code : CodeAttribute) (entries : Entries)
    (className methodName descriptor : String) (isStatic : Bool) :
    Except ReadError (List PinnedFrame) := do
  let table ← code.stackMap
  if table.isEmpty then return []
  match Frame.initial className methodName descriptor isStatic with
  | .ok initial => StackMapEntry.expand entries (compactLocals initial.locals) table
  | .error _ => throw (.invalidDescriptor descriptor)

def tellInstruction (lines : Std.TreeMap Nat (List UInt16))
    (frames : Std.TreeMap Nat PinnedFrame) (offset : Nat) (instruction : Instruction) :
    List MethodEvent :=
  .label ⟨offset⟩ :: ((lines[offset]?).getD []).map (fun number => .line number ⟨offset⟩)
    ++ (match frames[offset]? with
      | some frame => [.frame frame.locals frame.stack]
      | none => [])
    ++ [.ofInstruction instruction]

/-- The signatures of variables, by range and slot. -/
def signatures (entries : Entries) (rows : List VariableEntry) :
    Except ReadError (Std.TreeMap Extent String) := do
  let found ← rows.mapM fun row => do
    return (Extent.ofEntry row, ← entries.utf8 row.type)
  return found.foldl (fun found (key, signature) => found.insert key signature) ∅

def tellVariable (entries : Entries) (length : Nat)
    (signatures : Std.TreeMap Extent String) (row : VariableEntry) :
    Telling MethodEvent :=
  let stop := row.start.toNat + row.length.toNat
  if length < stop then Telling.nothing
  else
    Telling.having (entries.utf8 row.name) fun name =>
    Telling.having (entries.utf8 row.type) fun descriptor =>
    Telling.ofList [.variable ⟨name, descriptor, signatures[Extent.ofEntry row]?,
      ⟨row.start.toNat⟩, ⟨stop⟩, row.slot⟩]

/-- The events of a body, of a method of `className`. -/
def tell (code : CodeAttribute) (entries : Entries)
    (className methodName descriptor : String) (isStatic : Bool) : Telling MethodEvent :=
  let length := code.code.length
  (Telling.ofList [.sizes code.maxStack code.maxLocals]).followedBy fun _ =>
  Telling.having (decode entries code.code) fun instructions =>
  (Telling.each code.handlers (tellHandler entries length)).followedBy fun _ =>
  Telling.having code.lines fun lines =>
  Telling.having (code.frames entries className methodName descriptor isStatic) fun frames =>
  let lines := linesByOffset lines
  let frames := framesByOffset frames
  (Telling.ofList
    (instructions.flatMap (fun (offset, instruction) =>
      tellInstruction lines frames offset instruction) ++ [.label ⟨length⟩])).followedBy fun _ =>
  Telling.having (do signatures entries (← code.variableTypes)) fun signatures =>
  Telling.having code.variableRows fun rows =>
  (Telling.each rows (tellVariable entries length signatures)).followedBy fun _ =>
  Telling.ofList [.maxs code.maxStack code.maxLocals]

end CodeAttribute

inductive ClassEvent
  | header (major minor access : UInt16) (name : String) (superName : Option String)
      (interfaces : List String)
  | source (file : String)
  | field (access : UInt16) (name descriptor : String)
  | method (access : UInt16) (name descriptor : String)
  /-- An event of the method told last. -/
  | inMethod (event : MethodEvent)
  | finish
deriving DecidableEq

/-- The events of a method, of the class `className`: those of its body, if it has code, and the
end. -/
def Member.tell (method : Member) (entries : Entries) (className name descriptor : String) :
    Telling MethodEvent :=
  Telling.having (method.code? entries) fun code =>
  let body := match code with
    | some code =>
      code.tell entries className name descriptor (AccessFlag.static.isIn method.access)
    | none => Telling.nothing
  body.followedBy fun _ => Telling.ofList [.finish]

namespace ClassFile

/-- The header of a class told: its name, its superclass, its interfaces. -/
def header (file : ClassFile) :
    Except ReadError (String × Option String × List String) := do
  let name ← file.name
  let superName ← file.superName
  let interfaces ← file.interfaceNames
  return (name, superName, interfaces)

def tellFields (file : ClassFile) : Telling ClassEvent :=
  Telling.each file.fields fun field =>
  Telling.having (file.entries.utf8 field.name) fun name =>
  Telling.having (file.entries.utf8 field.descriptor) fun descriptor =>
  Telling.ofList [.field field.access name descriptor]

/-- All but the methods: the header, the source and the fields. -/
def tellPreface (file : ClassFile) : Telling ClassEvent :=
  Telling.having file.header fun (name, superName, interfaces) =>
  (Telling.ofList [.header file.major file.minor file.access name superName
    interfaces]).followedBy fun _ =>
  Telling.having file.sourceFile fun source =>
  (Telling.ofList (source.toList.map .source)).followedBy fun _ =>
  file.tellFields

/-- The method itself, and its body if `wants` asks for it. -/
def tellMethod (file : ClassFile) (className : String)
    (wants : UInt16 → String → String → Bool) (method : Member) : Telling ClassEvent :=
  Telling.having (file.entries.utf8 method.name) fun name =>
  Telling.having (file.entries.utf8 method.descriptor) fun descriptor =>
  (Telling.ofList [.method method.access name descriptor]).followedBy fun _ =>
  if wants method.access name descriptor then
    (method.tell file.entries className name descriptor).map .inMethod
  else Telling.nothing

/-- The events of a class, with the bodies of the methods that `wants` asks for. -/
def tell (file : ClassFile) (wants : UInt16 → String → String → Bool) : Telling ClassEvent :=
  file.tellPreface.followedBy fun _ =>
  Telling.having file.name fun name =>
  (Telling.each file.methods (file.tellMethod name wants)).followedBy fun _ =>
  Telling.ofList [.finish]

end ClassFile

end ClassWeave
