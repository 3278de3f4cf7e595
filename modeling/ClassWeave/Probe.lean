/-
# ClassWeave.Probe -- code to be injected, and where

Probe code is a program over the requests that injected code may make: fresh labels,
slots, handlers, frames, and events of its own.  `Injection` lists the requests, each
with what to do next; an `Injection` gets the answer to a request, failures included,
and ends well or with a fault.  Probe code is an injection for every `Site`.

The common form of probe code is a snippet: it is replayed with each of its labels
renamed to a fresh one, and wherever one of its own jumps leads, the frame is asked to
keep the stack that arrives (`Snippet.injection`).
-/
import ClassWeave.Location
import ClassWeave.Rewrite.Method

set_option autoImplicit false

namespace ClassWeave

inductive Injection
  | done
  | fail (cause : InstrumentError)
  | newLabel (next : Label → Injection)
  | allocate (type : ValueType) (next : Except InstrumentError UInt16 → Injection)
  | storeNew (type : ValueType) (next : Except InstrumentError UInt16 → Injection)
  | handler (block : TryBlock) (next : Except InstrumentError Unit → Injection)
  | frame (label : Label) (wanted : FrameRequest) (next : Except InstrumentError Unit → Injection)
  | report (cause : InstrumentError) (next : Injection)
  | emit (event : MethodEvent) (next : Injection)

namespace Injection

/-- The end of an injection whose requests are answered by a method being rewritten. -/
def run : Injection → MethodRewrite → Except InstrumentError Unit × MethodRewrite
  | done, rewrite => (.ok (), rewrite)
  | fail cause, rewrite => (.error cause, rewrite)
  | newLabel next, rewrite =>
    let (label, rewrite) := rewrite.freshLabel
    (next label).run rewrite
  | allocate type next, rewrite =>
    let (slot, rewrite) := rewrite.allocate type
    (next slot).run rewrite
  | storeNew type next, rewrite =>
    let (slot, rewrite) := rewrite.storeNew type
    (next slot).run rewrite
  | handler block next, rewrite =>
    let (added, rewrite) := rewrite.addHandler block
    (next added).run rewrite
  | frame label wanted next, rewrite =>
    let (answer, rewrite) := rewrite.askFrame label wanted
    (next answer).run rewrite
  | report cause next, rewrite => next.run (rewrite.fail cause)
  | emit event next, rewrite => next.run (rewrite.inject event)

/-- What to do after a request that must not fail. -/
def orFail {α : Type} (next : α → Injection) : Except InstrumentError α → Injection
  | .ok value => next value
  | .error cause => fail cause

end Injection

/-- A place where probe code is injected. -/
structure Site where
  className : String
  location : Location
  method : MethodContext
  /-- The slot of the returned value, or of the exception thrown or caught, if one was kept. -/
  valueSlot : Option UInt16

abbrev ProbeCode := Site → Injection

namespace Snippet

/-- The labels a node places or refers to. -/
def nodeLabels : Node → List Label
  | .label label => [label]
  | .line _ start => [start]
  | .insn instruction => instruction.targets

/-- The labels of a snippet, each once, in the order of their first mention. -/
def labels (code : Snippet) : List Label := (code.flatMap nodeLabels).eraseDups

def rename (renamed : List (Label × Label)) (label : Label) : Label :=
  (renamed.lookup label).getD label

/-- A fresh label for each of a list, then the rest. -/
def withFresh (renamed : List (Label × Label)) (next : List (Label × Label) → Injection) :
    List Label → Injection
  | [] => next renamed
  | label :: rest => .newLabel fun fresh => withFresh (renamed ++ [(label, fresh)]) next rest

/-- The nodes with their labels renamed, the stack kept at those that `targets` holds. -/
def replay (targets : List Label) (renamed : List (Label × Label)) : Snippet → Injection
  | [] => .done
  | .label label :: rest =>
    let fresh := rename renamed label
    .emit (.label fresh)
      (if targets.contains label then
        .frame fresh .same (.orFail fun _ => replay targets renamed rest)
      else replay targets renamed rest)
  | .line number start :: rest =>
    .emit (.line number (rename renamed start)) (replay targets renamed rest)
  | .insn instruction :: rest =>
    .emit (.ofInstruction (instruction.relabel (rename renamed)))
      (replay targets renamed rest)

def injection (code : Snippet) : Injection :=
  withFresh [] (fun renamed => replay code.jumpTargets renamed code) code.labels

/-- A snippet as probe code, the same at every site. -/
def probeCode (code : Snippet) : ProbeCode := fun _ => code.injection

/-- Code that prints a text. -/
def print (message : String) : Snippet :=
  [.insn (.access Opcode.getstatic "java/lang/System" "out" "Ljava/io/PrintStream;"),
    .insn (.load (.string message)),
    .insn (.call Opcode.invokevirtual "java/io/PrintStream" "println" "(Ljava/lang/String;)V")]

end Snippet

structure Probe where
  /-- The name of a class, or of a supertype behind a plus sign. -/
  className : String
  /-- The name of a method; no name means every method. -/
  method : String
  /-- The descriptor of the method, if it has to have a certain one. -/
  methodType : Option String
  location : Location
  code : ProbeCode

namespace Probe

def appliesTo (probe : Probe) (name descriptor : String) : Bool :=
  Location.allowsName probe.method name && probe.methodType.all (· == descriptor)

end Probe

end ClassWeave
