/-
# ClassWeave.Proofs.MethodTelling -- what a method that can be read is told as

A telling that comes to its end is one part behind the other, each told to its end
(`Telling.Told`).  For a method with code this gives the shape of its events
(`Member.tell_told`): what comes before the instructions, the instructions each behind its
label, the label of the end, what comes after, and the end itself.  A telling that breaks
off has not told the end.
-/
import ClassWeave.Proofs.HandlerTable
import ClassWeave.Proofs.RewriteTrace

set_option autoImplicit false

namespace ClassWeave

namespace Telling

variable {α β : Type}

/-- The events of a telling without a fault. -/
def Told (telling : Telling α) (events : List α) : Prop := telling = ⟨events, none⟩

theorem told_iff {telling : Telling α} {events : List α} :
    telling.Told events ↔ telling.events = events ∧ telling.fault = none :=
  Telling.mk.injEq telling.events telling.fault events none ▸ Iff.rfl

theorem told_ofList {given events : List α} : (ofList given).Told events ↔ events = given := by
  constructor
  · intro told
    cases told
    rfl
  · rintro rfl
    rfl

theorem told_followedBy {first : Telling α} {second : Unit → Telling α} {events : List α} :
    (first.followedBy second).Told events ↔
      ∃ early late, first.Told early ∧ (second ()).Told late ∧ events = early ++ late := by
  obtain ⟨early, fault⟩ := first
  cases fault with
  | none =>
    constructor
    · intro told
      rcases rest : second () with ⟨late, fault⟩
      simp only [Told, followedBy, rest] at told
      cases told
      exact ⟨early, late, rfl, rfl, rfl⟩
    · rintro ⟨_, late, same, rest, rfl⟩
      cases same
      simp only [Told, followedBy] at rest ⊢
      rw [rest]
  | some cause =>
    constructor
    · intro told
      cases told
    · rintro ⟨_, _, same, _⟩
      cases same

theorem told_having {found : Except ReadError β} {tell : β → Telling α} {events : List α} :
    (having found tell).Told events ↔ ∃ value, found = .ok value ∧ (tell value).Told events := by
  cases found with
  | ok value =>
    constructor
    · intro told
      exact ⟨value, rfl, told⟩
    · rintro ⟨_, same, told⟩
      cases same
      exact told
  | error cause =>
    constructor
    · intro told
      cases told
    · rintro ⟨_, same, _⟩
      cases same

theorem told_each {tell : β → Telling α} : ∀ {items : List β} {events : List α},
    (each items tell).Told events →
      ∃ parts, List.Forall₂ (fun item part => (tell item).Told part) items parts ∧
        events = parts.flatten
  | [], _, told => by
    cases told
    exact ⟨[], .nil, rfl⟩
  | item :: items, events, told => by
    obtain ⟨early, late, first, rest, rfl⟩ := told_followedBy.1 told
    obtain ⟨parts, each, rfl⟩ := told_each rest
    exact ⟨early :: parts, .cons first each, rfl⟩

/-- All that is told is good, whether it comes to its end or not. -/
def All (good : α → Prop) (telling : Telling α) : Prop := ∀ event ∈ telling.events, good event

variable {good : α → Prop}

theorem All.followedBy {first : Telling α} {second : Unit → Telling α} (early : first.All good)
    (late : (second ()).All good) : (first.followedBy second).All good := by
  obtain ⟨events, fault⟩ := first
  cases fault with
  | none =>
    intro event among
    exact (List.mem_append.1 among).elim (early event) (late event)
  | some cause => exact early

theorem All.having {found : Except ReadError β} {tell : β → Telling α}
    (all : ∀ value, found = .ok value → (tell value).All good) : (having found tell).All good := by
  cases found with
  | ok value => exact all value rfl
  | error cause => exact List.forall_mem_nil _

theorem All.each {tell : β → Telling α} (all : ∀ item, (tell item).All good) :
    ∀ items : List β, (each items tell).All good
  | [] => List.forall_mem_nil _
  | item :: items => (all item).followedBy (All.each all items)

end Telling

open Telling

/-! ## Bodies -/

namespace CodeAttribute

variable {entries : Entries} {length : Nat}

/-- A row of the exception table and the block that is told for it. -/
structure TellsBlock (entries : Entries) (length : Nat) (row : HandlerEntry) (block : TryBlock) :
    Prop where
  start : block.start = ⟨row.start.toNat⟩
  stop : block.stop = ⟨row.stop.toNat⟩
  handler : block.handler = ⟨row.handler.toNat⟩
  caught : row.caught? entries = .ok block.catchType
  inside : row.stop.toNat ≤ length
  begins : row.start.toNat ≤ length

theorem tellHandler_told {row : HandlerEntry} {events : List MethodEvent}
    (told : (tellHandler entries length row).Told events) :
    ∃ block, TellsBlock entries length row block ∧ events = [.tryBlock block] := by
  unfold tellHandler at told
  split at told
  · cases told
  · rename_i within
    obtain ⟨catchType, caught, told⟩ := told_having.1 told
    rw [List.find?_eq_none] at within
    have start := within row.start (by simp)
    have stop := within row.stop (by simp)
    refine ⟨⟨⟨row.start.toNat⟩, ⟨row.stop.toNat⟩, ⟨row.handler.toNat⟩, catchType⟩,
      ⟨rfl, rfl, rfl, caught, ?_, ?_⟩, told_ofList.1 told⟩
    · simpa using stop
    · simpa using start

/-- One block for each row. -/
theorem tellHandlers_told {rows : List HandlerEntry} {parts : List (List MethodEvent)}
    (each : List.Forall₂ (fun row part => (tellHandler entries length row).Told part) rows parts) :
    ∃ blocks, List.Forall₂ (TellsBlock entries length) rows blocks ∧
      parts.flatten = blocks.map .tryBlock := by
  induction each with
  | nil => exact ⟨[], .nil, rfl⟩
  | cons one _ ih =>
    obtain ⟨block, tells, rfl⟩ := tellHandler_told one
    obtain ⟨blocks, others, same⟩ := ih
    refine ⟨block :: blocks, .cons tells others, ?_⟩
    rw [List.flatten_cons, same]
    rfl

theorem tellVariable_told {signatures : Std.TreeMap Extent String} {row : VariableEntry}
    {events : List MethodEvent} (told : (tellVariable entries length signatures row).Told events) :
    ∃ declared : List Variable, events = declared.map .variable := by
  unfold tellVariable at told
  simp only at told
  split at told
  · exact ⟨[], told_ofList.1 told⟩
  · obtain ⟨name, _, told⟩ := told_having.1 told
    obtain ⟨descriptor, _, told⟩ := told_having.1 told
    exact ⟨[_], told_ofList.1 told⟩

/-- Variables are told one after the other. -/
theorem tellVariables_told {signatures : Std.TreeMap Extent String} {rows : List VariableEntry}
    {parts : List (List MethodEvent)} (each : List.Forall₂ (fun row part =>
      (tellVariable entries length signatures row).Told part) rows parts) :
    ∃ declared : List Variable, parts.flatten = declared.map .variable := by
  induction each with
  | nil => exact ⟨[], rfl⟩
  | cons one _ ih =>
    obtain ⟨first, rfl⟩ := tellVariable_told one
    obtain ⟨rest, same⟩ := ih
    exact ⟨first ++ rest, by rw [List.flatten_cons, same, List.map_append]⟩

/-- The lines at an offset keep their order. -/
theorem getElem?_linesByOffset (rows : List LineEntry) (offset : Nat) :
    ((linesByOffset rows)[offset]?).getD [] =
      (rows.filter fun row => row.start.toNat == offset).map LineEntry.number := by
  induction rows with
  | nil => rfl
  | cons row rows ih =>
    show (((linesByOffset rows).alter row.start.toNat fun numbers =>
      some (row.number :: numbers.getD []))[offset]?).getD [] = _
    rw [Std.TreeMap.getElem?_alter]
    by_cases same : row.start.toNat = offset
    · subst same
      rw [if_pos (Std.compare_eq_iff_eq.2 rfl), List.filter_cons_of_pos (by simp), List.map_cons, ← ih]
      rfl
    · rw [if_neg (by rwa [Std.compare_eq_iff_eq]), List.filter_cons_of_neg (by simpa using same), ih]

/-- Of the frames at an offset the last one is there. -/
theorem getElem?_framesByOffset (frames : List PinnedFrame) (offset : Nat) :
    (framesByOffset frames)[offset]? =
      (frames.filter fun frame => frame.label.id == offset).getLast? := by
  -- Generalized over the frames inserted before: what comes later takes their place.
  have inserted : ∀ (more : List PinnedFrame) (known : Std.TreeMap Nat PinnedFrame),
      (more.foldl (fun found frame => found.insert frame.label.id frame) known)[offset]? =
        ((more.filter fun frame => frame.label.id == offset).getLast?).or known[offset]? := by
    intro more
    induction more with
    | nil => exact fun _ => rfl
    | cons first rest ih =>
      intro known
      rw [List.foldl_cons, ih, Std.TreeMap.getElem?_insert]
      by_cases same : first.label.id = offset
      · rw [if_pos (Std.compare_eq_iff_eq.2 same), List.filter_cons_of_pos (by simpa using same),
          List.getLast?_cons]
        cases (rest.filter fun frame => frame.label.id == offset).getLast? <;> rfl
      · rw [if_neg (by rwa [Std.compare_eq_iff_eq]), List.filter_cons_of_neg (by simpa using same)]
  rw [framesByOffset, inserted]
  simp

/-- What a body is told from, and its events in their order. -/
structure TellsBody (code : CodeAttribute) (entries : Entries)
    (className methodName descriptor : String) (isStatic : Bool) (events : List MethodEvent) where
  items : List (Nat × Instruction)
  blocks : List TryBlock
  lines : List LineEntry
  frames : List PinnedFrame
  declared : List Variable
  decoded : decode entries code.code = .ok items
  handlers : List.Forall₂ (TellsBlock entries code.code.length) code.handlers blocks
  lines_eq : code.lines = .ok lines
  frames_eq : code.frames entries className methodName descriptor isStatic = .ok frames
  whole : events = (MethodEvent.sizes code.maxStack code.maxLocals ::
      blocks.map MethodEvent.tryBlock) ++
    (items.flatMap (fun (offset, insn) =>
      tellInstruction (linesByOffset lines) (framesByOffset frames) offset insn) ++
      MethodEvent.label ⟨code.code.length⟩ :: (declared.map MethodEvent.variable ++
        [MethodEvent.maxs code.maxStack code.maxLocals]))

variable {code : CodeAttribute} {className methodName descriptor : String} {isStatic : Bool}
  {events : List MethodEvent}

theorem tellsBody_of_told
    (told : (code.tell entries className methodName descriptor isStatic).Told events) :
    Nonempty (code.TellsBody entries className methodName descriptor isStatic events) := by
  unfold tell at told
  -- The telling is taken apart in the order in which it was put together.
  obtain ⟨sizes, _, one, onwards, rfl⟩ := told_followedBy.1 told
  obtain ⟨items, decoded, onwards⟩ := told_having.1 onwards
  obtain ⟨ranges, _, handlers, onwards', rfl⟩ := told_followedBy.1 onwards
  obtain ⟨lines, lines_eq, onwards'⟩ := told_having.1 onwards'
  obtain ⟨frames, frames_eq, onwards'⟩ := told_having.1 onwards'
  obtain ⟨body, _, instructions, onwards'', rfl⟩ := told_followedBy.1 onwards'
  obtain ⟨signatures, _, onwards''⟩ := told_having.1 onwards''
  obtain ⟨rows, _, onwards''⟩ := told_having.1 onwards''
  obtain ⟨scopes, _, variables_, last, rfl⟩ := told_followedBy.1 onwards''
  obtain rfl := told_ofList.1 one
  obtain rfl := told_ofList.1 instructions
  obtain rfl := told_ofList.1 last
  obtain ⟨parts, each, rfl⟩ := told_each handlers
  obtain ⟨_, each', rfl⟩ := told_each variables_
  obtain ⟨blocks, tells, same⟩ := tellHandlers_told each
  obtain ⟨declared, same'⟩ := tellVariables_told each'
  exact ⟨⟨items, blocks, lines, frames, declared, decoded, tells, lines_eq, frames_eq, by
    simp [same, same']⟩⟩

/-- The events of a body, in their order. -/
theorem tell_told
    (told : (code.tell entries className methodName descriptor isStatic).Told events) :
    ∃ items blocks lines frames rest, decode entries code.code = .ok items ∧
      List.Forall₂ (TellsBlock entries code.code.length) code.handlers blocks ∧
      events = (.sizes code.maxStack code.maxLocals :: blocks.map .tryBlock) ++
        (items.flatMap (fun (offset, insn) =>
          tellInstruction lines (framesByOffset frames) offset insn) ++
          .label ⟨code.code.length⟩ :: rest) ∧
      code.frames entries className methodName descriptor isStatic = .ok frames ∧
      ∀ event ∈ rest, event.Silent := by
  obtain ⟨body⟩ := tellsBody_of_told told
  refine ⟨body.items, body.blocks, linesByOffset body.lines, body.frames, _, body.decoded,
    body.handlers, body.whole, body.frames_eq, fun event among => ?_⟩
  rcases List.mem_append.1 among with declared | last
  · obtain ⟨_, _, rfl⟩ := List.mem_map.1 declared
    trivial
  · obtain rfl := List.mem_singleton.1 last
    trivial

/-- The end of a method is not part of its body. -/
theorem tell_goesOn (code : CodeAttribute) (entries : Entries)
    (className methodName descriptor : String) (isStatic : Bool) :
    (code.tell entries className methodName descriptor isStatic).All (· ≠ .finish) := by
  have handler (row : HandlerEntry) :
      (tellHandler entries code.code.length row).All (· ≠ .finish) := by
    unfold tellHandler
    split
    · exact List.forall_mem_nil _
    · exact .having fun _ _ => by simp [All, ofList]
  have variable_ (signatures : Std.TreeMap Extent String) (row : VariableEntry) :
      (tellVariable entries code.code.length signatures row).All (· ≠ .finish) := by
    unfold tellVariable
    simp only
    split
    · exact List.forall_mem_nil _
    · exact .having fun _ _ => .having fun _ _ => by simp [All, ofList]
  have instructions (items : List (Nat × Instruction)) (lines : Std.TreeMap Nat (List UInt16))
      (frames : Std.TreeMap Nat PinnedFrame) :
      (ofList (items.flatMap (fun (offset, insn) => tellInstruction lines frames offset insn) ++
        [.label ⟨code.code.length⟩])).All (· ≠ .finish) := by
    intro event among
    rcases List.mem_append.1 among with own | last
    · obtain ⟨⟨offset, insn⟩, _, own⟩ := List.mem_flatMap.1 own
      simp only [tellInstruction_eq, List.mem_cons, List.mem_append, List.not_mem_nil,
        or_false] at own
      rcases own with rfl | aside | rfl
      · simp
      · exact (aside_of_mem aside).writes_between.1
      · simp
    · obtain rfl := List.mem_singleton.1 last
      simp
  unfold tell
  refine .followedBy (by simp [All, ofList]) (.having fun items _ => ?_)
  refine .followedBy (.each handler _) (.having fun lines _ => .having fun frames _ => ?_)
  refine .followedBy (instructions _ _ _) (.having fun signatures _ => .having fun rows _ => ?_)
  exact .followedBy (.each (variable_ _) _) (by simp [All, ofList])

end CodeAttribute

/-! ## Methods -/

namespace Member

variable {member : Member} {entries : Entries} {className name descriptor : String}

/-- A method is told by the events of its body, if it has one, and the end. -/
theorem tell_told {events : List MethodEvent}
    (told : (member.tell entries className name descriptor).Told events) :
    ∃ body, events = body ++ [.finish] ∧
      (member.code? entries = .ok none ∧ body = [] ∨
        ∃ code, member.code? entries = .ok (some code) ∧
          (code.tell entries className name descriptor
            (AccessFlag.static.isIn member.access)).Told body) := by
  obtain ⟨found, known, told⟩ := told_having.1 told
  obtain ⟨body, _, first, last, rfl⟩ := told_followedBy.1 told
  obtain rfl := told_ofList.1 last
  refine ⟨body, rfl, ?_⟩
  cases found with
  | none => exact .inl ⟨known, told_ofList.1 first⟩
  | some code => exact .inr ⟨code, known, first⟩

theorem tell_of_code {code : CodeAttribute} {body : List MethodEvent}
    (known : member.code? entries = .ok (some code))
    (told : (code.tell entries className name descriptor
      (AccessFlag.static.isIn member.access)).Told body) :
    (member.tell entries className name descriptor).Told (body ++ [.finish]) :=
  told_having.2 ⟨some code, known, told_followedBy.2 ⟨body, [.finish], told, rfl, rfl⟩⟩

/-- A method is told to its end, or the end is not told. -/
theorem tell_ends (member : Member) (entries : Entries) (className name descriptor : String) :
    (∃ events, (member.tell entries className name descriptor).Told events) ∨
      ∀ event ∈ (member.tell entries className name descriptor).events, event ≠ .finish := by
  unfold tell
  cases member.code? entries with
  | error cause => exact .inr (List.forall_mem_nil _)
  | ok found =>
    cases found with
    | none => exact .inl ⟨[.finish], rfl⟩
    | some code =>
      have body := code.tell_goesOn entries className name descriptor
        (AccessFlag.static.isIn member.access)
      rcases told : code.tell entries className name descriptor
        (AccessFlag.static.isIn member.access) with ⟨events, fault⟩
      rw [told] at body
      simp only [having, told]
      cases fault with
      | none => exact .inl ⟨events ++ [.finish], told_followedBy.2 ⟨events, _, rfl, rfl, rfl⟩⟩
      | some cause => exact .inr body

end Member

end ClassWeave
