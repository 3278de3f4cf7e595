/-
# ClassWeave.Proofs.CollectedLabels -- where the labels of a collected body stand

A body is told labels and makes up others, for frames at a place that has none.  The number
of such a label is the length of the code by then, so it is made up once; but whoever tells
the body may use the same number for a label of his own.  A place is counted in
instructions: `MethodEvent.place before` of them are told before what comes next.

The nodes of a body are those of its events one after the other (`MethodBody.code_snoc`),
and so the labels in its code are those that were told (`MethodBody.Tells`) and those that
were made up (`MethodBody.Makes`), each at its place (`MethodBody.places_iff`).  In assembled
code a label stands where it was placed last.  All stand where they were told, and all
frames too, exactly when no label that is told at one place is made up at another
(`MethodBody.labels_stand`).
-/
import ClassWeave.Proofs.PinnedFrames

set_option autoImplicit false

namespace ClassWeave

/-- Where a label is placed for the last time. -/
theorem Snippet.split_at_last {code : Snippet} {label : Label} (among : .label label ∈ code) :
    ∃ early late, code = early ++ .label label :: late ∧ .label label ∉ late := by
  obtain ⟨late, early, split, apart⟩ := List.eq_append_cons_of_mem (List.mem_reverse.2 among)
  refine ⟨early.reverse, late.reverse, ?_, fun again => apart (List.mem_reverse.1 again)⟩
  rw [← List.reverse_reverse code, split, List.reverse_append, List.reverse_cons, List.append_assoc]
  rfl

/-! ## Places -/

namespace MethodEvent

def instruction? : MethodEvent → Option Instruction
  | insn instruction => some instruction
  | _ => none

def frame? : MethodEvent → Option (List FrameType × List FrameType)
  | frame locals stack => some (locals, stack)
  | _ => none

/-- The place that events lead to: the number of the instruction that is told next, if one is. -/
def place (events : List MethodEvent) : Nat := (events.filterMap instruction?).length

end MethodEvent

namespace MethodBody

open MethodEvent (place)

/-- The label that is made up for an event: for a frame where no label stands. -/
def made? (body : MethodBody) : MethodEvent → Option Label
  | .frame _ _ => if body.here = none then some ⟨Label.firstFresh + body.nodes.size⟩ else none
  | _ => none

/-- The label is told at a place. -/
def Tells (events : List MethodEvent) (label : Label) (here : Nat) : Prop :=
  ∃ before later, events = before ++ .label label :: later ∧ place before = here

/-- The label is made up at a place. -/
def Makes (events : List MethodEvent) (label : Label) (here : Nat) : Prop :=
  ∃ before event later, events = before ++ event :: later ∧
    (ofEvents before).made? event = some label ∧ place before = here

def Places (events : List MethodEvent) (label : Label) (here : Nat) : Prop :=
  Tells events label here ∨ Makes events label here

/-! ## The nodes of a body, event by event -/

/-- The nodes that an event adds to a body. -/
def added (body : MethodBody) : MethodEvent → List Node
  | .label label => [.label label]
  | .line number start => [.line number start]
  | .insn instruction => [.insn instruction]
  | .frame locals stack => (body.made? (.frame locals stack)).toList.map .label
  | .sizes .. | .tryBlock _ | .variable _ | .maxs .. | .finish => []

variable {events before later early late : List MethodEvent} {event : MethodEvent} {label : Label}
  {here : Nat}

theorem code_add (body : MethodBody) (event : MethodEvent) :
    (body.add event).code = body.code ++ body.added event := by
  cases event with
  | frame locals stack =>
    cases found : body.here with
    | some label => simp [add, addFrame, added, made?, found, code]
    | none => simp [add, addFrame, added, made?, found, code, placeLabel]
  | label | line | insn => simp [add, added, code, placeLabel]
  | sizes | tryBlock | «variable» | maxs | finish => exact (List.append_nil _).symm

theorem ofEvents_snoc (events : List MethodEvent) (event : MethodEvent) :
    ofEvents (events ++ [event]) = (ofEvents events).add event := by
  rw [ofEvents, ofEvents, List.foldl_append]
  rfl

theorem code_snoc (events : List MethodEvent) (event : MethodEvent) :
    (ofEvents (events ++ [event])).code =
      (ofEvents events).code ++ (ofEvents events).added event := by
  rw [ofEvents_snoc, code_add]

theorem code_begins (before later : List MethodEvent) :
    (ofEvents before).code <+: (ofEvents (before ++ later)).code := by
  induction later using List.reverseRecOn with
  | nil => simp
  | append_singleton later event ih =>
    rw [← List.append_assoc, code_snoc]
    exact ih.trans (List.prefix_append _ _)

theorem instructions_added (body : MethodBody) (event : MethodEvent) :
    Snippet.instructions (body.added event) = event.instruction?.toList := by
  cases event with
  | frame locals stack =>
    rw [added]
    cases body.made? (.frame locals stack) <;> rfl
  | _ => rfl

/-- The instructions of a body are those that were told. -/
theorem instructions_ofEvents (events : List MethodEvent) :
    Snippet.instructions (ofEvents events).code = events.filterMap MethodEvent.instruction? := by
  induction events using List.reverseRecOn with
  | nil => rfl
  | append_singleton events event ih =>
    rw [code_snoc, Snippet.instructions, List.filterMap_append, ← Snippet.instructions,
      ← Snippet.instructions, ih, instructions_added, List.filterMap_append]
    cases event <;> rfl

theorem length_instructions (events : List MethodEvent) :
    (Snippet.instructions (ofEvents events).code).length = place events := by
  rw [instructions_ofEvents, place]

/-- An event that places a label adds that and nothing else. -/
theorem added_eq_label {body : MethodBody} :
    body.added event = [.label label] ↔ event = .label label ∨ body.made? event = some label := by
  cases event with
  | frame locals stack => simp [added]
  | label => simp [added, made?]
  | _ => simp [added, made?]

theorem length_added_le (body : MethodBody) (event : MethodEvent) :
    (body.added event).length ≤ 1 := by
  cases event with
  | frame locals stack => cases found : body.made? (.frame locals stack) <;> simp [added, found]
  | _ => simp [added]

/-- What is found where at most one element was added is that one or stood there before. -/
theorem split_added {α : Type} {before added front back : List α} {item : α}
    (same : before ++ added = front ++ item :: back) (few : added.length ≤ 1) :
    (before = front ∧ added = [item]) ∨ ∃ more, before = front ++ item :: more := by
  rcases List.append_eq_append_iff.1 same with ⟨more, rfl, own⟩ | ⟨_ | ⟨first, more⟩, rfl, own⟩
  · rw [own, List.length_append, List.length_cons] at few
    obtain rfl : more = [] := List.length_eq_zero_iff.1 (by omega)
    obtain rfl : back = [] := List.length_eq_zero_iff.1 (by omega)
    exact .inl ⟨(List.append_nil _).symm, own⟩
  · rw [List.nil_append] at own
    rw [← own, List.length_cons] at few
    obtain rfl : back = [] := List.length_eq_zero_iff.1 (by omega)
    exact .inl ⟨List.append_nil _, own.symm⟩
  · cases own
    exact .inr ⟨more, rfl⟩

/-- Every node was added by an event, to what stands before the node. -/
theorem event_of_node {front back : List Node} {node : Node}
    (split : (ofEvents events).code = front ++ node :: back) :
    ∃ before event later, events = before ++ event :: later ∧ (ofEvents before).code = front ∧
      (ofEvents before).added event = [node] := by
  induction events using List.reverseRecOn generalizing back with
  | nil => simp [ofEvents, empty, code] at split
  | append_singleton events event ih =>
    rw [code_snoc] at split
    rcases split_added split ((ofEvents events).length_added_le event) with
      ⟨same, own⟩ | ⟨more, earlier⟩
    · exact ⟨events, event, [], rfl, same, own⟩
    · obtain ⟨before, one, later, rfl, same, own⟩ := ih earlier
      exact ⟨before, one, later ++ [event], by simp, same, own⟩

/-- The labels in the code of a body are those that were told or made up, each at its place. -/
theorem places_iff : Places events label here ↔ ∃ front back,
    (ofEvents events).code = front ++ .label label :: back ∧
      (Snippet.instructions front).length = here := by
  constructor
  · intro places
    obtain ⟨before, event, later, rfl, single, rfl⟩ : ∃ before event later,
        events = before ++ event :: later ∧ (ofEvents before).added event = [.label label] ∧
          place before = here := by
      rcases places with ⟨before, later, rfl, rfl⟩ | ⟨before, event, later, rfl, made, rfl⟩
      · exact ⟨before, .label label, later, rfl, rfl, rfl⟩
      · exact ⟨before, event, later, rfl, added_eq_label.2 (.inr made), rfl⟩
    obtain ⟨back, whole⟩ := code_begins (before ++ [event]) later
    rw [code_snoc, single, List.append_assoc, List.append_assoc] at whole
    exact ⟨_, back, whole.symm, length_instructions before⟩
  · rintro ⟨front, back, split, rfl⟩
    obtain ⟨before, event, later, rfl, rfl, single⟩ := event_of_node split
    rw [length_instructions]
    rcases added_eq_label.1 single with rfl | made
    · exact .inl ⟨before, later, rfl, rfl⟩
    · exact .inr ⟨before, event, later, rfl, made, rfl⟩

/-- More events leave the labels at their places. -/
theorem Places.more (places : Places before label here) (later : List MethodEvent) :
    Places (before ++ later) label here := by
  obtain ⟨front, back, split, same⟩ := places_iff.1 places
  obtain ⟨more, whole⟩ := code_begins before later
  refine places_iff.2 ⟨front, back ++ more, ?_, same⟩
  rw [← whole, split, List.append_assoc]
  rfl

/-- Where a list is split twice, the splits are one, or one of them lies behind the other. -/
theorem split_twice {α : Type} {before later before' later' : List α} {item item' : α}
    (same : before ++ item :: later = before' ++ item' :: later') :
    before = before' ∨ (∃ more, before' = before ++ item :: more) ∨
      ∃ more, before = before' ++ item' :: more := by
  rcases List.append_eq_append_iff.1 same with ⟨_ | ⟨first, more⟩, rfl, own⟩ |
    ⟨_ | ⟨first, more⟩, rfl, own⟩
  · exact .inl (List.append_nil _).symm
  · cases own
    exact .inr (.inl ⟨more, rfl⟩)
  · exact .inl (List.append_nil _)
  · cases own
    exact .inr (.inr ⟨more, rfl⟩)

/-- A label that is told once is told at one place. -/
theorem Tells.unique (once : (events.filterMap MethodEvent.label?).Nodup) {other : Nat}
    (tells : Tells events label here) (again : Tells events label other) : here = other := by
  have apart {front middle back : List MethodEvent}
      (twice : ((front ++ .label label :: middle ++ .label label :: back).filterMap
        MethodEvent.label?).Nodup) : False := by
    rw [List.filterMap_append] at twice
    have early : label ∈ (front ++ .label label :: middle).filterMap MethodEvent.label? :=
      List.mem_filterMap.2 ⟨.label label, by simp, rfl⟩
    have late : label ∈ (MethodEvent.label label :: back).filterMap MethodEvent.label? :=
      List.mem_filterMap.2 ⟨.label label, List.mem_cons_self, rfl⟩
    exact List.disjoint_of_nodup_append twice early late
  obtain ⟨before, later, rfl, rfl⟩ := tells
  obtain ⟨before', later', same, rfl⟩ := again
  rcases split_twice same with rfl | ⟨more, rfl⟩ | ⟨more, rfl⟩
  · rfl
  · exact (apart (same ▸ once)).elim
  · exact (apart once).elim

theorem made?_eq_some {body : MethodBody} (made : body.made? event = some label) :
    body.here = none ∧ label = ⟨Label.firstFresh + body.nodes.size⟩ ∧
      ∃ locals stack, event = .frame locals stack := by
  cases event with
  | frame locals stack =>
    rw [made?] at made
    split at made
    · rename_i nowhere
      cases made
      exact ⟨nowhere, rfl, locals, stack, rfl⟩
    · cases made
  | _ => cases made

/-- The code is longer when the next label is made up. -/
theorem size_lt_of_made (made : (ofEvents before).made? event = some label)
    (more : List MethodEvent) :
    (ofEvents before).nodes.size < (ofEvents (before ++ event :: more)).nodes.size := by
  have grown := (code_begins (before ++ [event]) more).length_le
  rw [code_snoc, added_eq_label.2 (.inr made), List.length_append, List.append_assoc] at grown
  exact grown

/-- No label is made up twice. -/
theorem Makes.unique {other : Nat} (makes : Makes events label here)
    (again : Makes events label other) : here = other := by
  obtain ⟨before, event, later, rfl, made, rfl⟩ := makes
  obtain ⟨before', event', later', same, made', rfl⟩ := again
  obtain ⟨-, rfl, -⟩ := made?_eq_some made
  obtain ⟨-, number, -⟩ := made?_eq_some made'
  have sizes : (ofEvents before).nodes.size = (ofEvents before').nodes.size :=
    Nat.add_left_cancel (congrArg Label.id number)
  rcases split_twice same with rfl | ⟨more, rfl⟩ | ⟨more, rfl⟩
  · rfl
  · exact absurd sizes (Nat.ne_of_lt (size_lt_of_made made more))
  · exact absurd sizes.symm (Nat.ne_of_lt (size_lt_of_made made' more))

/-! ## The frames of a body -/

/-- The label that a body stands at is the last one at the end of its code. -/
theorem here_eq (events : List MethodEvent) :
    (ofEvents events).here = (ofEvents events).code.ending.head? := by
  induction events using List.reverseRecOn with
  | nil => rfl
  | append_singleton events event ih =>
    rw [code_snoc, ofEvents_snoc]
    cases event with
    | label label => rw [added, Snippet.ending_label]; rfl
    | line number start => rw [added, Snippet.ending_line, ← ih]; rfl
    | insn instruction => rw [added, Snippet.ending_insn]; rfl
    | frame locals stack =>
      cases found : (ofEvents events).here with
      | some label =>
        simp only [add, addFrame, added, made?, found, reduceCtorEq, if_false, Option.toList_none,
          List.map_nil, List.append_nil]
        rw [← ih, found]
      | none =>
        simp only [add, addFrame, added, made?, found, if_true, Option.toList_some, List.map_cons,
          List.map_nil, Snippet.ending_label]
        rfl
    | sizes | tryBlock | «variable» | maxs | finish =>
      rw [added, List.append_nil, ← ih]
      rfl

/-- The label that a frame is pinned to if it is told now. -/
def frameLabel (body : MethodBody) : Label :=
  body.here.getD ⟨Label.firstFresh + body.nodes.size⟩

theorem frames_add (body : MethodBody) (event : MethodEvent) :
    (body.add event).frames.toList = body.frames.toList ++ event.frame?.toList.map fun frame =>
      ⟨body.frameLabel, frame.1, frame.2⟩ := by
  cases event with
  | frame locals stack =>
    cases found : body.here <;>
      simp [add, addFrame, placeLabel, frameLabel, MethodEvent.frame?, found]
  | _ => exact (List.append_nil _).symm

theorem frames_begin (before later : List MethodEvent) :
    (ofEvents before).frames.toList <+: (ofEvents (before ++ later)).frames.toList := by
  induction later using List.reverseRecOn with
  | nil => simp
  | append_singleton later event ih =>
    rw [← List.append_assoc, ofEvents_snoc, frames_add]
    exact ih.trans (List.prefix_append _ _)

/-- The frames of a body are those that were told. -/
theorem frames_ofEvents (events : List MethodEvent) :
    (ofEvents events).frames.toList.map (fun frame => (frame.locals, frame.stack)) =
      events.filterMap MethodEvent.frame? := by
  induction events using List.reverseRecOn with
  | nil => rfl
  | append_singleton events event ih =>
    rw [ofEvents_snoc, frames_add, List.map_append, ih, List.filterMap_append]
    cases event <;> rfl

theorem frame_told {locals stack : List FrameType}
    (split : events = before ++ .frame locals stack :: later) :
    ∃ rest, (ofEvents events).frames.toList =
      (ofEvents before).frames.toList ++ ⟨(ofEvents before).frameLabel, locals, stack⟩ :: rest := by
  obtain ⟨rest, whole⟩ := frames_begin (before ++ [.frame locals stack]) later
  rw [ofEvents_snoc, frames_add, List.append_assoc, List.append_assoc] at whole
  exact ⟨rest, split ▸ whole.symm⟩

/-- A frame is pinned to a label that has its place there, whether told or made up. -/
theorem places_frameLabel {locals stack : List FrameType}
    (split : events = before ++ .frame locals stack :: later) :
    Places events (ofEvents before).frameLabel (place before) := by
  subst split
  cases found : (ofEvents before).here with
  | none =>
    refine .inr ⟨before, .frame locals stack, later, rfl, ?_, rfl⟩
    rw [made?, if_pos found, frameLabel, found]
    rfl
  | some label =>
    have last : (ofEvents before).code.ending.head? = some label :=
      (here_eq before).symm.trans found
    obtain ⟨front, back, whole, same⟩ := Snippet.split_of_ending (List.mem_of_head? last)
    have count : (Snippet.instructions front).length = place before :=
      (congrArg List.length same).trans (length_instructions before)
    have placed : Places before label (place before) := places_iff.2 ⟨front, back, whole, count⟩
    rw [frameLabel, found]
    exact placed.more _

end MethodBody

/-! ## In assembled code -/

/-- The label has the offset of a place. -/
def AssembledCode.Stands (assembled : AssembledCode) (offsets : List Nat) (label : Label)
    (here : Nat) : Prop :=
  ∃ offset, assembled.offsetOf label = .ok offset ∧ offsets[here]? = some offset

/-- Rising offsets have one place each. -/
theorem AssembledCode.Stands.unique {assembled : AssembledCode} {offsets : List Nat} {label : Label}
    {here other : Nat} (rising : offsets.Pairwise (· < ·))
    (stands : assembled.Stands offsets label here) (again : assembled.Stands offsets label other) :
    here = other := by
  obtain ⟨offset, known, at_⟩ := stands
  obtain ⟨offset', known', at_'⟩ := again
  rw [known] at known'
  cases known'
  obtain ⟨within, _⟩ := List.getElem?_eq_some_iff.1 at_
  exact (List.getElem?_inj within (rising.imp Nat.ne_of_lt)).1 (at_.trans at_'.symm)

namespace MethodBody

open MethodEvent (place)

/-- The frame that is told behind `before` was collected as `frame`. -/
def CollectedAs (events before : List MethodEvent) (frame : PinnedFrame) : Prop :=
  ∃ rest, (ofEvents events).frames.toList = (ofEvents before).frames.toList ++ frame :: rest

/-- Labels and frames stand where they were told. -/
structure AsTold (events : List MethodEvent) (assembled : AssembledCode) (offsets : List Nat) :
    Prop where
  labels : ∀ before label later, events = before ++ .label label :: later →
    assembled.Stands offsets label (place before)
  frames : ∀ before locals stack later, events = before ++ .frame locals stack :: later →
    ∃ label, CollectedAs events before ⟨label, locals, stack⟩ ∧
      assembled.Stands offsets label (place before)

/-- No label that is told at one place is made up at another. -/
def Undisputed (events : List MethodEvent) : Prop :=
  ∀ label told made, Tells events label told → Makes events label made → told = made

/-- Where the labels of a collected body stand, with the offsets of all places. -/
structure LabelsStand (events : List MethodEvent) (assembled : AssembledCode) (offsets : List Nat) :
    Prop where
  /-- There is an offset for each instruction that was told, and one for the end. -/
  measured : offsets.length = place events + 1
  known : ∀ label, (∃ offset, assembled.offsetOf label = .ok offset) ↔
    ∃ here, Places events label here
  /-- The last place of a label counts. -/
  last : ∀ label here, Places events label here →
    (∀ other, Places events label other → other ≤ here) → assembled.Stands offsets label here
  /-- The frames are those that were told, each pinned to a label that was placed where it was. -/
  frames : (ofEvents events).frames.toList.map (fun frame => (frame.locals, frame.stack)) =
    events.filterMap MethodEvent.frame?
  pinned : ∀ before locals stack later, events = before ++ .frame locals stack :: later →
    ∃ label, CollectedAs events before ⟨label, locals, stack⟩ ∧ Places events label (place before)
  asTold : AsTold events assembled offsets ↔ Undisputed events

variable {events : List MethodEvent} {label : Label} {here : Nat} {first entries : Entries}
  {layout : Layout} {assembled : AssembledCode}

theorem known_iff (assembles : layout.Assembles first entries (ofEvents events).code assembled) :
    (∃ offset, assembled.offsetOf label = .ok offset) ↔ ∃ here, Places events label here := by
  constructor
  · rintro ⟨offset, known⟩
    have placed : (layout.labels[label]?).isSome := by
      rw [assembles.offsetOf_eq_ok.1 known]
      rfl
    rcases assembles.lays.label_placed placed with among | none_
    · obtain ⟨front, back, split⟩ := List.append_of_mem among
      exact ⟨_, places_iff.2 ⟨front, back, split, rfl⟩⟩
    · simp [Layout.empty] at none_
  · rintro ⟨here, places⟩
    obtain ⟨front, back, split, -⟩ := places_iff.1 places
    have among : .label label ∈ (ofEvents events).code := by simp [split]
    obtain ⟨offset, known, -⟩ := assembles.lays.label_ge among
    exact ⟨offset, assembles.offsetOf_eq_ok.2 known⟩

/-- A label has the offset of its last place. -/
theorem stands_last (assembles : layout.Assembles first entries (ofEvents events).code assembled)
    (places : Places events label here)
    (last : ∀ other, Places events label other → other ≤ here) :
    assembled.Stands (layout.offsets ++ [assembled.code.length]) label here := by
  obtain ⟨front, back, split, rfl⟩ := places_iff.1 places
  by_cases again : .label label ∈ back
  · obtain ⟨middle, late, rfl, apart⟩ := Snippet.split_at_last again
    have whole : (ofEvents events).code =
        (front ++ .label label :: middle) ++ .label label :: late := by
      rw [split, List.append_assoc, List.cons_append]
    have count : (Snippet.instructions (front ++ .label label :: middle)).length =
        (Snippet.instructions front).length + (Snippet.instructions middle).length := by
      rw [Snippet.instructions, List.filterMap_append, List.filterMap_cons_none rfl,
        List.length_append]
      rfl
    -- No instruction comes before it is placed for the last time.
    have bound := last _ (places_iff.2 ⟨_, _, whole, rfl⟩)
    obtain ⟨offset, known, at_⟩ := (whole ▸ assembles).offset_of_label apart
    refine ⟨offset, known, ?_⟩
    rwa [Nat.le_antisymm bound (count ▸ Nat.le_add_right _ _)] at at_
  · exact (split ▸ assembles).offset_of_label again

/-- Without a dispute a label has one place. -/
theorem Undisputed.unique (undisputed : Undisputed events)
    (once : (events.filterMap MethodEvent.label?).Nodup) {other : Nat}
    (places : Places events label here) (again : Places events label other) : here = other := by
  rcases places with tells | makes <;> rcases again with tells' | makes'
  · exact tells.unique once tells'
  · exact undisputed label _ _ tells makes'
  · exact (undisputed label _ _ tells' makes).symm
  · exact makes.unique makes'

theorem asTold_iff (assembles : layout.Assembles first entries (ofEvents events).code assembled)
    (once : (events.filterMap MethodEvent.label?).Nodup) :
    AsTold events assembled (layout.offsets ++ [assembled.code.length]) ↔ Undisputed events := by
  constructor
  · rintro asTold label told made ⟨before, later, split, rfl⟩
      ⟨before', event, later', split', own, rfl⟩
    obtain ⟨nowhere, number, locals, stack, rfl⟩ := made?_eq_some own
    have handed : label = (ofEvents before').frameLabel := by
      rw [number, frameLabel, nowhere]
      rfl
    obtain ⟨other, ⟨rest, collected⟩, stands⟩ := asTold.frames before' locals stack later' split'
    obtain ⟨rest', collected'⟩ := frame_told split'
    obtain ⟨same, -⟩ := List.cons.inj (List.append_cancel_left (collected'.symm.trans collected))
    cases same
    exact (asTold.labels before label later split).unique assembles.rising (handed ▸ stands)
  · intro undisputed
    have stands {label : Label} {here : Nat} (places : Places events label here) :
        assembled.Stands (layout.offsets ++ [assembled.code.length]) label here :=
      stands_last assembles places fun other again =>
        Nat.le_of_eq (undisputed.unique once again places)
    refine ⟨fun before label later split => stands (.inl ⟨before, later, split, rfl⟩),
      fun before locals stack later split => ?_⟩
    exact ⟨_, frame_told split, stands (places_frameLabel split)⟩

/-- **Labels of a collected body stand where they are placed last**, and everything stands where it
was told exactly when no label that is told at one place is made up for a frame at another. -/
theorem labels_stand {table : Entries} {pool after : ConstantPool}
    (grown : (ConstantPool.ofEntries table).Grown pool)
    (once : (events.filterMap MethodEvent.label?).Nodup)
    (done : assemble (ofEvents events).code pool = (.ok assembled, after)) :
    ∃ layout, (ofEvents events).code.foldlM Layout.add Layout.empty pool = (.ok layout, after) ∧
      LabelsStand events assembled (layout.offsets ++ [assembled.code.length]) := by
  have sound := grown.sound (ConstantPool.ofEntries_sound table)
  obtain ⟨layout, laid, assembles⟩ := assemble_eq_ok sound done
  refine ⟨layout, laid, ?_, fun label => known_iff assembles,
    fun label here => stands_last assembles, frames_ofEvents events,
    fun before locals stack later split => ⟨_, frame_told split, places_frameLabel split⟩,
    asTold_iff assembles once⟩
  rw [List.length_append, Layout.offsets, List.length_map, ← assembles.spells.length_eq,
    length_instructions]
  rfl

/-- A loop with a frame at its label and another one inside, told with a label of the given
number. -/
def Sample.loopAt (number : Nat) : List MethodEvent :=
  [.sizes 0 0, .label ⟨number⟩, .frame [] [], .insn (.simple Opcode.nop), .frame [] [],
    .insn (.simple Opcode.nop), .insn (.jump Opcode.goto ⟨number⟩), .maxs 0 0, .finish]

/-- A label is made up for the second frame. -/
theorem labels_stand_loop :
    ((Sample.loopAt 66000).filterMap MethodEvent.label?).Nodup ∧
    (ofEvents (Sample.loopAt 66000)).frames.toList.map PinnedFrame.label =
      [⟨66000⟩, ⟨Label.firstFresh + 2⟩] ∧
    ∃ assembled after layout,
      assemble (ofEvents (Sample.loopAt 66000)).code (ConstantPool.ofEntries #[]) =
        (.ok assembled, after) ∧
      (ofEvents (Sample.loopAt 66000)).code.foldlM Layout.add Layout.empty
        (ConstantPool.ofEntries #[]) = (.ok layout, after) ∧
      LabelsStand (Sample.loopAt 66000) assembled (layout.offsets ++ [assembled.code.length]) := by
  have once : ((Sample.loopAt 66000).filterMap MethodEvent.label?).Nodup := by decide +kernel
  have runs : (assemble (ofEvents (Sample.loopAt 66000)).code
      (ConstantPool.ofEntries #[])).1.toOption.isSome = true := by decide +kernel
  rcases done : assemble (ofEvents (Sample.loopAt 66000)).code (ConstantPool.ofEntries #[]) with
    ⟨_ | assembled, after⟩
  · rw [done] at runs
    cases runs
  · obtain ⟨layout, laid, stand⟩ := labels_stand .refl once done
    exact ⟨once, by decide +kernel, assembled, after, layout, rfl, laid, stand⟩

/-- The label that is made up for the second frame takes the loop's label along: the jump to the
first instruction goes to the second. -/
theorem told_label_displaced :
    ((Sample.loopAt (Label.firstFresh + 2)).filterMap MethodEvent.label?).Nodup ∧
    ∃ assembled after layout,
      assemble (ofEvents (Sample.loopAt (Label.firstFresh + 2))).code (ConstantPool.ofEntries #[]) =
        (.ok assembled, after) ∧
      (ofEvents (Sample.loopAt (Label.firstFresh + 2))).code.foldlM Layout.add Layout.empty
        (ConstantPool.ofEntries #[]) = (.ok layout, after) ∧
      assembled.code = [Opcode.nop, Opcode.nop, Opcode.goto, 0xFF, 0xFF] ∧
      ¬ AsTold (Sample.loopAt (Label.firstFresh + 2)) assembled
        (layout.offsets ++ [assembled.code.length]) := by
  have runs : ((assemble (ofEvents (Sample.loopAt (Label.firstFresh + 2))).code
      (ConstantPool.ofEntries #[])).1.toOption.any fun assembled =>
        decide (assembled.code = [Opcode.nop, Opcode.nop, Opcode.goto, 0xFF, 0xFF] ∧
          assembled.offsetOf ⟨Label.firstFresh + 2⟩ = .ok 1)) = true := by decide +kernel
  have starts : ((ofEvents (Sample.loopAt (Label.firstFresh + 2))).code.foldlM Layout.add
      Layout.empty (ConstantPool.ofEntries #[])).1.toOption.map Layout.offsets =
        some [0, 1, 2] := by
    decide +kernel
  rcases done : assemble (ofEvents (Sample.loopAt (Label.firstFresh + 2))).code
    (ConstantPool.ofEntries #[]) with ⟨_ | assembled, after⟩
  · rw [done] at runs
    cases runs
  · rw [done] at runs
    obtain ⟨code, moved⟩ := of_decide_eq_true runs
    obtain ⟨layout, laid, _⟩ := assemble_eq_ok (ConstantPool.ofEntries_sound #[]) done
    rw [laid] at starts
    have offsets : layout.offsets = [0, 1, 2] := Option.some.inj starts
    refine ⟨by decide +kernel, assembled, after, layout, rfl, laid, code, fun asTold => ?_⟩
    obtain ⟨offset, known, at_⟩ := asTold.labels [.sizes 0 0] _ _ rfl
    rw [moved] at known
    cases known
    rw [offsets] at at_
    cases at_

end MethodBody

end ClassWeave
