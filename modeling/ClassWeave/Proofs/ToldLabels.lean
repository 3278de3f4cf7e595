/-
# ClassWeave.Proofs.ToldLabels -- the labels that a method is told with

Every label that a method is told with stands for an offset of its code, which two bytes
can say: where its ranges, lines and variables begin and end, where its jumps lead, and
where the objects in its frames were created (`MethodEvent.Names`).  Offsets that count
from others stay inside the code, so none of these labels can be taken for one that is
handed out (`Member.tell_names`).
-/
import ClassWeave.Proofs.Decoding
import ClassWeave.Proofs.UnderConstruction

set_option autoImplicit false

namespace ClassWeave

/-- The event says something about the label. -/
def MethodEvent.Names (label : Label) : MethodEvent → Prop
  | .label place => label = place
  | .line _ start => label = start
  | .tryBlock block => label = block.start ∨ label = block.stop ∨ label = block.handler
  | .variable declared => label = declared.start ∨ label = declared.stop
  | .insn own => label ∈ own.targets
  | .frame locals stack => .uninitialized label ∈ locals ∨ .uninitialized label ∈ stack
  | .sizes .. | .maxs .. | .finish => False

/-- Whether the label can stand for an offset. -/
def Label.IsOld (label : Label) : Prop := label.isFresh = false

theorem Label.isOld_iff {label : Label} : label.IsOld ↔ label.id ≤ 0xFFFF := by
  rw [IsOld, isFresh, decide_eq_false_iff_not, firstFresh]
  omega

theorem Label.isOld_of_le {offset : Nat} (bound : offset ≤ 0xFFFF) : IsOld ⟨offset⟩ :=
  isOld_iff.2 bound

theorem Label.isOld_offset (offset : UInt16) : IsOld ⟨offset.toNat⟩ :=
  isOld_of_le (Nat.le_of_lt_succ offset.toNat_lt)

/-- All labels that the event names can stand for offsets. -/
def MethodEvent.NamesOld (event : MethodEvent) : Prop := ∀ label, event.Names label → label.IsOld

/-! ## Frames -/

theorem SlotEntry.resolve_old {entries : Entries} {slots : List SlotEntry}
    {types : List FrameType} (resolved : slots.mapM (resolve entries) = .ok types) :
    SitesIn Label.IsOld types := by
  intro site among
  obtain ⟨slot, _, told⟩ := Outcome.exists_of_forall₂ (Outcome.mapM_eq_ok.1 resolved) _ among
  cases slot with
  | uninitialized offset =>
    cases told
    exact Label.isOld_offset offset
  | object index =>
    obtain ⟨_, _, told⟩ := Outcome.bind_eq_ok.1 told
    cases told
  | _ => cases told

namespace StackMapEntry

variable {entries : Entries} {locals : List FrameType}

theorem apply_old {entry : StackMapEntry} {frame : List FrameType × List FrameType}
    (before : SitesIn Label.IsOld locals) (applied : entry.apply entries locals = .ok frame) :
    Frame.SitesIn Label.IsOld ⟨frame.1, frame.2⟩ := by
  cases entry with
  | same | sameExtended =>
    cases applied
    exact ⟨before, nofun⟩
  | sameOne _ type | sameOneExtended _ type =>
    obtain ⟨found, resolved, applied⟩ := Outcome.bind_eq_ok.1 applied
    cases applied
    have one : [type].mapM (SlotEntry.resolve entries) = .ok [found] := by
      simp [resolved, bind, Except.bind, pure, Except.pure]
    exact ⟨before, SlotEntry.resolve_old one⟩
  | chop =>
    cases applied
    exact ⟨before.of_subset (List.take_subset _ _), nofun⟩
  | append =>
    obtain ⟨more, resolved, applied⟩ := Outcome.bind_eq_ok.1 applied
    cases applied
    exact ⟨before.append (SlotEntry.resolve_old resolved), nofun⟩
  | full =>
    obtain ⟨found, resolved, applied⟩ := Outcome.bind_eq_ok.1 applied
    obtain ⟨stack, resolved', applied⟩ := Outcome.bind_eq_ok.1 applied
    cases applied
    exact ⟨SlotEntry.resolve_old resolved, SlotEntry.resolve_old resolved'⟩

theorem expandFrom_old : ∀ {table : List StackMapEntry} {next : Nat} {locals : List FrameType}
    {found frames : List PinnedFrame}, expandFrom entries next locals found table = .ok frames →
    SitesIn Label.IsOld locals → (∀ frame ∈ found, frame.SitesIn Label.IsOld) →
    ∀ frame ∈ frames, frame.SitesIn Label.IsOld
  | [], _, _, _, _, expanded, _, already => by
    cases expanded
    exact fun frame among => already frame (List.mem_reverse.1 among)
  | _ :: _, _, _, _, _, expanded, before, already => by
    obtain ⟨frame, applied, rest⟩ := Outcome.bind_eq_ok.1 expanded
    have own := apply_old before applied
    exact expandFrom_old rest own.locals (List.forall_mem_cons.2 ⟨own, already⟩)

end StackMapEntry

namespace CodeAttribute

variable {code : CodeAttribute} {entries : Entries} {className methodName descriptor : String}
  {isStatic : Bool}

/-- The frames of a method name offsets of two bytes. -/
theorem frames_old {frames : List PinnedFrame}
    (known : code.frames entries className methodName descriptor isStatic = .ok frames) :
    ∀ frame ∈ frames, frame.SitesIn Label.IsOld := by
  obtain ⟨table, _, known⟩ := Outcome.bind_eq_ok.1 known
  split at known
  · cases known
    exact List.forall_mem_nil _
  · split at known
    · rename_i initial made
      have entry : initial.SitesIn Label.IsOld := Frame.initial_sites made
      exact StackMapEntry.expandFrom_old known (entry.locals.of_subset (compactLocals_subset _))
        (List.forall_mem_nil _)
    · cases known

/-! ## Events -/

theorem tellHandler_old (length : Nat) (row : HandlerEntry) :
    (tellHandler entries length row).All MethodEvent.NamesOld := by
  unfold tellHandler
  split
  · exact List.forall_mem_nil _
  · refine .having fun catchType _ => List.forall_mem_singleton.2 ?_
    rintro label (rfl | rfl | rfl) <;> exact Label.isOld_offset _

theorem tellVariable_old (small : code.code.length ≤ 0xFFFF)
    (signatures : Std.TreeMap Extent String) (row : VariableEntry) :
    (tellVariable entries code.code.length signatures row).All MethodEvent.NamesOld := by
  unfold tellVariable
  simp only
  split
  · exact List.forall_mem_nil _
  · refine .having fun name _ => .having fun type _ => List.forall_mem_singleton.2 ?_
    rintro label (rfl | rfl) <;> exact Label.isOld_of_le (by omega)

theorem tellInstruction_old {lines : Std.TreeMap Nat (List UInt16)} {frames : List PinnedFrame}
    (sites : ∀ frame ∈ frames, frame.SitesIn Label.IsOld) {length offset : Nat}
    (small : length ≤ 0xFFFF) {insn : Instruction} (inside : offset < length)
    (targets : ∀ target ∈ insn.targets, target.id < length) :
    ∀ event ∈ tellInstruction lines (framesByOffset frames) offset insn, event.NamesOld := by
  have here : Label.IsOld ⟨offset⟩ := Label.isOld_of_le (by omega)
  intro event among
  rw [tellInstruction, List.cons_append, List.cons_append, List.mem_cons, List.mem_append,
    List.mem_append, List.mem_singleton] at among
  rcases among with rfl | (line | frame) | rfl
  · rintro _ rfl
    exact here
  · obtain ⟨number, _, rfl⟩ := List.mem_map.1 line
    rintro _ rfl
    exact here
  · split at frame
    · rename_i found known
      cases List.mem_singleton.1 frame
      have own := sites found (mem_framesByOffset known).1
      exact fun label named => named.elim (own.locals label) (own.stack label)
    · cases frame
  · intro label named
    have leads : label ∈ insn.normal.targets := named
    rw [Instruction.targets_normal] at leads
    have bound := targets label leads
    exact Label.isOld_iff.2 (by omega)

/-- A body of no more than 65535 bytes is told with offsets of two bytes. -/
theorem tell_old (small : code.code.length ≤ 0xFFFF) :
    (code.tell entries className methodName descriptor isStatic).All MethodEvent.NamesOld := by
  have sizes (maxStack maxLocals : UInt16) : MethodEvent.NamesOld (.sizes maxStack maxLocals) :=
    fun _ => False.elim
  have maxs (maxStack maxLocals : UInt16) : MethodEvent.NamesOld (.maxs maxStack maxLocals) :=
    fun _ => False.elim
  unfold tell
  refine .followedBy (List.forall_mem_singleton.2 (sizes _ _)) (.having fun items decoded => ?_)
  have rising := decode_spec decoded
  refine .followedBy (.each (tellHandler_old _) _) (.having fun lines _ => ?_)
  refine .having fun frames known => .followedBy ?_ (.having fun signatures _ => ?_)
  · intro event among
    rcases List.mem_append.1 among with own | last
    · obtain ⟨item, here, own⟩ := List.mem_flatMap.1 own
      exact tellInstruction_old (frames_old known) small (rising.inside item here)
        (rising.decoded item here).inside event own
    · cases List.mem_singleton.1 last
      rintro _ rfl
      exact Label.isOld_of_le small
  · refine .having fun rows _ => .followedBy (.each (tellVariable_old small signatures) _) ?_
    exact List.forall_mem_singleton.2 (maxs _ _)

end CodeAttribute

/-- **A method is told with labels that stand for offsets**, if its code is no longer than a class
file allows. -/
theorem Member.tell_names {member : Member} {entries : Entries}
    (small : ∀ code, member.code? entries = .ok (some code) → code.code.length ≤ 0xFFFF)
    (className name descriptor : String) :
    (member.tell entries className name descriptor).All MethodEvent.NamesOld := by
  unfold tell
  refine .having fun found known => .followedBy ?_ (List.forall_mem_singleton.2 fun _ => False.elim)
  cases found with
  | none => exact List.forall_mem_nil _
  | some code => exact CodeAttribute.tell_old (small code known)

end ClassWeave
