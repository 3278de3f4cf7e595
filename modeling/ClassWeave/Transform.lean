/-
# ClassWeave.Transform -- a class file rewritten for a set of probes

A probe reaches a class by its name, or by the name of one of its supertypes behind a
plus sign; a pattern between slashes reaches no class.  Every method that some probe
of the class applies to, and that has code the options do not keep from being touched,
is told through the layers of its probes into a rewrite of its own.

If a method fails the class is left as it was, and so it is if nothing was injected
anywhere.  Otherwise the class file is written with the new code, its constant pool
grown at the end, and everything else as it was.
-/
import ClassWeave.ClassFile.Telling
import ClassWeave.Loader.Hierarchy
import ClassWeave.Rewrite.Layer

set_option autoImplicit false

namespace ClassWeave

namespace Probe

/-- A pattern in the form of a regular expression, which is not supported. -/
def isExpression (pattern : String) : Bool :=
  pattern.length > 1 && pattern.toList.head? == some '/' && pattern.toList.getLast? == some '/'

/-- Whether the probe is after the subtypes of a class. -/
def wantsSubtypes (probe : Probe) : Bool := probe.className.toList.head? == some '+'

/-- Whether the probe reaches a class; `info` is known when some probe wants subtypes. -/
def reaches (probe : Probe) (sources : Sources) (className : String) (info : Option ClassInfo) :
    Resolving Bool := do
  if probe.className.isEmpty || isExpression probe.className then return false
  match probe.className.toList, info with
  | '+' :: supertype, some info => sources.isSubtype info (String.ofList supertype)
  | _, _ => return ClassName.ofString probe.className == ClassName.ofString className

end Probe

/-- The probes that reach a class, in their order. -/
def matchingProbes (probes : List Probe) (sources : Sources) (file : ClassFile)
    (className : String) : Resolving (Except ReadError (List Probe)) := do
  let info := if probes.any Probe.wantsSubtypes then
      (ClassInfo.ofClassFile file sources.key?).map some
    else .ok none
  match info with
  | .error cause => return .error cause
  | .ok info =>
    let reached ← probes.filterM fun probe => probe.reaches sources className info
    return .ok reached

/-- Whether a method has code that may be touched. -/
def touchable (options : Options) (access : UInt16) (name : String) : Bool :=
  !(AccessFlag.abstract.isIn access || AccessFlag.native.isIn access)
    && !options.skips access name

/-- One method rewritten for the probes that apply to it, as far as it can be told. -/
def weaveMethod (probes : List Probe) (entries : Entries) (className : String) (member : Member)
    (method : MethodContext) (target : RewriteTarget) : RewriteTarget × Option ReadError :=
  let layers := probes.map fun probe => Layer.start probe method
  let telling := member.tell entries className method.name method.descriptor
  let (_, rewrite) := Layer.runAll layers telling.events (MethodRewrite.start target method)
  (rewrite.target, telling.fault)

/-- The methods of a class one after the other, until one cannot be read.  After a failure the
others are not told any more. -/
def weaveMethods (probes : List Probe) (entries : Entries) (className : String)
    (options : Options) : List (Member × Nat) → RewriteTarget → RewriteTarget × Option ReadError
  | [], target => (target, none)
  | (member, index) :: rest, target =>
    let named : Except ReadError (String × String) := do
      let name ← entries.utf8 member.name
      return (name, ← entries.utf8 member.descriptor)
    match named with
    | .error cause => (target, some cause)
    | .ok (name, descriptor) =>
      let applying := probes.filter fun probe => probe.appliesTo name descriptor
      if !touchable options member.access name || target.failure.isSome || applying.isEmpty then
        weaveMethods probes entries className options rest target
      else
        match weaveMethod applying entries className member
            ⟨index, member.access, name, descriptor⟩ target with
        | (target, some cause) => (target, some cause)
        | (target, none) => weaveMethods probes entries className options rest target

/-- The outcome of a class whose methods have all been seen to. -/
def RewriteTarget.result (target : RewriteTarget) (file : ClassFile) (className : String) :
    Except WeaveError (Option Bytes) :=
  match target.failure with
  | some (method, cause) => .error (.instrument className method cause)
  | none =>
    if target.rewritten.isEmpty then .ok none
    else
      match file.write target.pool.entries target.payload? with
      | .ok bytes => .ok (some bytes)
      | .error cause => .error (.write cause)

/-- A class file that some probes reach, rewritten, and the questions that were asked for it. -/
def weave (probes : List Probe) (options : Options) (hierarchy : Hierarchy) (file : ClassFile)
    (className : String) : Except WeaveError (Option Bytes) × List (String × String) :=
  match file.tellPreface.fault with
  | some cause => (.error (.read cause), [])
  | none =>
    let target := RewriteTarget.start className file.major (ConstantPool.ofEntries file.entries)
      hierarchy options
    let (target, fault) :=
      weaveMethods probes file.entries className options file.methods.zipIdx target
    let outcome := match fault with
      | some cause => .error (.read cause)
      | none => target.result file className
    (outcome, target.asked.reverse)

/-- Probes and options for any number of classes. -/
structure Transformer where
  probes : List Probe
  options : Options

namespace Transformer

/-- The bytes of a rewritten class, or nothing if no probe changes it. -/
def transform? (transformer : Transformer) (sources : Sources) (bytes : Bytes) :
    Resolving (Except WeaveError (Option Bytes)) := do
  match ClassFile.read bytes with
  | .error cause => return .error (.read cause)
  | .ok file =>
    match file.name with
    | .error cause => return .error (.read cause)
    | .ok className =>
      match ← matchingProbes transformer.probes sources file className with
      | .error cause => return .error (.read cause)
      | .ok [] => return .ok none
      | .ok probes =>
        -- The hierarchy answers from the cache as it stands; what it was asked is entered after.
        let cache ← get
        let (outcome, questions) :=
          weave probes transformer.options (sources.hierarchy cache) file className
        set (sources.settleQuestions questions cache)
        return outcome

/-- The bytes of a class after rewriting; a class that fails keeps its bytes. -/
def transform (transformer : Transformer) (sources : Sources) (bytes : Bytes) :
    Resolving Bytes := do
  match ← transformer.transform? sources bytes with
  | .ok (some rewritten) => return rewritten
  | _ => return bytes

end Transformer

end ClassWeave
