/-
# ClassWeave.Rewrite.Ledger -- what has been promised to injected code

While a method is open, injected code may take local slots, register exception
handlers and ask for frames at labels.  The ledger hands out every slot once, above
all slots of the method it started with; it keeps handlers in the order they were
registered; and it holds one frame request per label, the first one.  Asking for the
same frame again is no change, asking for another is a conflict.

A method that starts to close is open no more, and an operation that is refused
changes nothing.
-/
import ClassWeave.Descriptor
import ClassWeave.Event
import ClassWeave.Error

set_option autoImplicit false

namespace ClassWeave

structure Ledger where
  phase : Phase
  nextLocal : UInt16
  handlers : Array TryBlock
  requests : Std.TreeMap Label FrameRequest

namespace Ledger

/-- The ledger of a method whose own locals end at `maxLocals`. -/
def new (maxLocals : UInt16) : Ledger := ⟨.open, maxLocals, #[], ∅⟩

def reserve (ledger : Ledger) (maxLocals : UInt16) : Ledger :=
  { ledger with nextLocal := max ledger.nextLocal maxLocals }

def ensureOpen (ledger : Ledger) : Except InstrumentError Unit :=
  if ledger.phase = .open then .ok () else .error (.methodClosed ledger.phase)

/-- A free slot for a value, and the ledger without it. -/
def allocate (ledger : Ledger) (type : ValueType) : Except InstrumentError (UInt16 × Ledger) := do
  ledger.ensureOpen
  if type = .void then throw (.invalidType .voidSlot)
  let next := ledger.nextLocal.toNat + type.size
  if 0xFFFF < next then throw .tooManyLocals
  return (ledger.nextLocal, { ledger with nextLocal := UInt16.ofNat next })

def addHandler (ledger : Ledger) (block : TryBlock) : Except InstrumentError Ledger := do
  ledger.ensureOpen
  return { ledger with handlers := ledger.handlers.push block }

/-- The ledger with a frame request, and whether the request is new. -/
def request (ledger : Ledger) (label : Label) (wanted : FrameRequest) :
    Except InstrumentError (Bool × Ledger) := do
  ledger.ensureOpen
  match ledger.requests[label]? with
  | none => return (true, { ledger with requests := ledger.requests.insert label wanted })
  | some existing =>
    if existing = wanted then return (false, ledger)
    else throw (.frameConflict label existing wanted)

def beginClose (ledger : Ledger) : Except InstrumentError Ledger := do
  ledger.ensureOpen
  return { ledger with phase := .closing }

def finishClose (ledger : Ledger) : Ledger := { ledger with phase := .closed }

end Ledger

end ClassWeave
