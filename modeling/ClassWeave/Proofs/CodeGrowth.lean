/-
# ClassWeave.Proofs.CodeGrowth -- writing code only adds to the pool

Every step that puts a code payload together interns and does nothing else to the pool;
so a sound pool grows, whether the payload comes about or not.
-/
import ClassWeave.Proofs.PoolGrowth
import ClassWeave.Rewrite.Method

set_option autoImplicit false

namespace ClassWeave

open Interning

theorem Instruction.pieces_grows (offset : Nat) (insn : Instruction) :
    Grows (insn.pieces offset) := by
  cases insn with
  | simple | int | var | jump | iinc | tableSwitch | lookupSwitch => exact .pure _
  | type op name => exact (className_grows name).map _
  | field op target => exact (Leads.grows fun _ sound => field_leads sound target).map _
  | method op target isInterface =>
    exact (Leads.grows fun _ sound => method_leads sound target isInterface).bind fun place =>
      (Grows.lift _).map _
  | invokeDynamic bootstrap name descriptor =>
    exact (Leads.grows fun _ sound => invokeDynamic_leads sound bootstrap name descriptor).map _
  | ldc op constant => exact (loadable_grows constant).map _
  | multiNewArray name dimensions => exact (className_grows name).map _

theorem Layout.add_grows (layout : Layout) (node : Node) : Grows (layout.add node) := by
  cases node with
  | label | line => exact .pure _
  | insn instruction => exact (instruction.pieces_grows layout.size).map _

theorem assemble_grows (nodes : List Node) : Grows (assemble nodes) :=
  (Grows.foldlM Layout.add_grows nodes Layout.empty).bind fun _ =>
    Grows.ite ((Grows.fail _).bind fun _ => (Grows.lift _).map _) ((Grows.lift _).map _)

theorem FrameType.encode_grows (assembled : AssembledCode) (type : FrameType) :
    Grows (type.encode assembled) := by
  cases type with
  | object name => exact (className_grows name).map fun place => 7 :: Bytes.u2 place
  | uninitialized site =>
    exact (Grows.lift _).map fun offset => 8 :: Bytes.u2 (UInt16.ofNat offset)
  | _ => exact .pure _

namespace StackMap

theorem encodeTypes_grows (assembled : AssembledCode) (types : List FrameType) :
    Grows (encodeTypes assembled types) :=
  (Grows.mapM (FrameType.encode_grows assembled) types).map _

theorem encodeFrame_grows (assembled : AssembledCode) (delta : Nat) (frame : PinnedFrame) :
    Grows (encodeFrame assembled delta frame) :=
  (encodeTypes_grows assembled frame.locals).bind fun _ =>
    (encodeTypes_grows assembled frame.stack).map _

theorem encodeFrom_grows (assembled : AssembledCode) : ∀ (frames : List (Nat × PinnedFrame))
    (next : Nat) (found : List Bytes), Grows (encodeFrom assembled next found frames)
  | [], _, found => .pure found.reverse.flatten
  | (offset, frame) :: rest, next, found =>
    (encodeFrame_grows assembled (offset - next) frame).bind fun bytes =>
      encodeFrom_grows assembled rest (offset + 1) (bytes :: found)

theorem encode_grows (assembled : AssembledCode) (frames : List PinnedFrame) :
    Grows (encode assembled frames) :=
  (Grows.lift _).bind fun _ =>
    Grows.ite (.pure none) ((encodeFrom_grows assembled _ 0 []).map _)

end StackMap

theorem namedTable_grows (name : String) (rows : List Bytes) : Grows (namedTable name rows) :=
  Grows.ite (.pure []) ((utf8_grows name).map _)

namespace AssembledCode

variable (assembled : AssembledCode)

theorem find_grows (label : Label) : Grows (assembled.find label) := .lift _

theorem resolveHandlers_grows (blocks : List TryBlock) :
    Grows (assembled.resolveHandlers blocks) := by
  refine (Grows.mapM (fun block => ?_) blocks).map _
  refine (assembled.find_grows _).bind fun start => (assembled.find_grows _).bind fun stop => ?_
  refine Grows.ite (.pure none) ?_
  split
  · exact (className_grows _).bind fun catchType => (assembled.find_grows _).map _
  · exact (Grows.pure _).bind fun catchType => (assembled.find_grows _).map _

theorem lineRows_grows : Grows assembled.lineRows :=
  (Grows.mapM (fun _ => (assembled.find_grows _).map _) _).map _

theorem variableRow_grows (declared : Variable) : Grows (assembled.variableRow declared) := by
  refine (assembled.find_grows _).bind fun start => (assembled.find_grows _).bind fun stop => ?_
  refine Grows.ite (.pure none) ((utf8_grows _).bind fun name => (utf8_grows _).bind fun type => ?_)
  split
  · exact .pure _
  · exact (utf8_grows _).map _

theorem stackMapTable_grows (frames : Option (List PinnedFrame)) :
    Grows (assembled.stackMapTable frames) := by
  cases frames with
  | none => exact .pure []
  | some frames =>
    refine (StackMap.encode_grows assembled frames).bind fun encoded => ?_
    cases encoded with
    | none => exact .pure []
    | some payload => exact (utf8_grows _).map _

theorem encode_grows (maxStack maxLocals : UInt16) (handlers : List HandlerEntry)
    (frames : Option (List PinnedFrame)) (declared : List Variable) :
    Grows (assembled.encode maxStack maxLocals handlers frames declared) :=
  (assembled.stackMapTable_grows frames).bind fun _ => assembled.lineRows_grows.bind fun _ =>
    (namedTable_grows _ _).bind fun _ =>
      (Grows.mapM assembled.variableRow_grows declared).bind fun _ =>
        (namedTable_grows _ _).bind fun _ => (namedTable_grows _ _).map _

end AssembledCode

theorem MethodRewrite.serialize_grows (rewrite : MethodRewrite) : Grows rewrite.serialize :=
  (assemble_grows _).bind fun assembled =>
    (assembled.resolveHandlers_grows _).bind fun _ =>
      (assembled.resolveHandlers_grows _).bind fun _ => assembled.encode_grows _ _ _ _ _

end ClassWeave
