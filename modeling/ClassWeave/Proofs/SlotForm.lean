/-
# ClassWeave.Proofs.SlotForm -- the two forms of locals keep step

Locals are in slot form if every long and double is followed by an empty slot, where it is not
the last.  A method is entered with locals in slot form, as many as its arguments take slots,
and storing, merging and running instructions leave them in that form
(`Frame.slotForm_kept`).  An instruction needs a stack without empty slots for that: a
constructor may turn every copy of what it has taken into an object.  No instruction puts an
empty slot there, so straight code that is entered so stays so to its end (`Frame.Slotted.run`).

A store reaches one slot, the one above for a wide value, and the one below if that was the
lower half of a wide value (`Frame.load_store`).  From slot form to compact form and back
nothing is lost but empty slots at the end.
-/
import ClassWeave.Proofs.DescriptorGrammar
import ClassWeave.Proofs.FrameForms
import ClassWeave.Proofs.FrameSteps
import Mathlib.Data.List.Chain

set_option autoImplicit false

namespace ClassWeave

/-- Every wide value is followed by an empty slot, or stands last. -/
def SlotForm (locals : List FrameType) : Prop :=
  locals.IsChain fun type next => type.isWide = true → next = .top

instance (locals : List FrameType) : Decidable (SlotForm locals) :=
  inferInstanceAs (Decidable (List.IsChain _ locals))

theorem slotForm_iff {locals : List FrameType} : SlotForm locals ↔
    ∀ i, (slotAt locals i).isWide = true → slotAt locals (i + 1) = .top := by
  rw [SlotForm, List.isChain_iff_getElem]
  constructor
  · intro chain i wide
    by_cases last : i + 1 < locals.length
    · have below : i < locals.length := by omega
      rw [slotAt, List.getElem?_eq_getElem below] at wide
      rw [slotAt, List.getElem?_eq_getElem last]
      exact chain i last wide
    · rw [slotAt, List.getElem?_eq_none (Nat.not_lt.1 last)]
      rfl
  · intro each i last wide
    have below : i < locals.length := by omega
    have next := each i
    rw [slotAt, slotAt, List.getElem?_eq_getElem below, List.getElem?_eq_getElem last] at next
    exact next wide

theorem SlotForm.spread {locals : List FrameType} (form : SlotForm locals) (size : Nat) :
    Spread size locals := fun i _ wide => slotForm_iff.1 form i wide

theorem slotForm_expandLocals (locals : List FrameType) : SlotForm (expandLocals locals) :=
  slotForm_iff.2 fun i wide => spread_expandLocals (i + 2) locals i (by omega) wide

/-! ## Compact form and back -/

/-- Locals in slot form come back from compact form, but for empty slots at the end. -/
theorem SlotForm.expand_compact {locals : List FrameType} (form : SlotForm locals) :
    trimTop (expandLocals (compactLocals locals)) = trimTop locals :=
  trimTop_congr fun i => slotAt_expand_compactLocals (form.spread (i + 1)) (Nat.lt_succ_self i)

theorem compactEntries_expandLocals : ∀ locals : List FrameType,
    compactEntries (expandLocals locals) = locals
  | [] => rfl
  | type :: rest => by
    have others := compactEntries_expandLocals rest
    rw [expandLocals_cons]
    by_cases wide : type.isWide = true
    · rw [if_pos wide, List.cons_append, List.singleton_append, compactEntries, if_pos wide, others]
    · rw [if_neg wide, List.singleton_append, compactEntries.eq_def]
      simp only [if_neg wide, others]

theorem trimTop_of_getLast?_ne {types : List FrameType} (filled : types.getLast? ≠ some .top) :
    trimTop types = types := by
  rw [List.getLast?_eq_head?_reverse] at filled
  unfold trimTop
  cases known : types.reverse with
  | nil => exact (List.reverse_eq_nil_iff.1 known).symm
  | cons last rest =>
    rw [known, List.head?_cons] at filled
    have kept : ¬ (last == FrameType.top) = true := fun same =>
      filled (congrArg some (eq_of_beq same))
    rw [List.dropWhile_cons, if_neg kept, ← known, List.reverse_reverse]

/-- Compact locals come back from slot form. -/
theorem compact_expandLocals {locals : List FrameType} (filled : locals.getLast? ≠ some .top) :
    compactLocals (expandLocals locals) = locals := by
  rw [compactLocals, compactEntries_expandLocals, trimTop_of_getLast?_ne filled]

/-! ## Stores -/

theorem slotAt_set {locals : List FrameType} {i : Nat} (within : i < locals.length)
    (type : FrameType) (j : Nat) :
    slotAt (locals.set i type) j = if j = i then type else slotAt locals j := by
  unfold slotAt
  rw [List.getElem?_set]
  by_cases same : i = j
  · subst same
    simp [within]
  · rw [if_neg same, if_neg (Ne.symm same)]

namespace Frame

theorem slotAt_padded (locals : List FrameType) (size j : Nat) :
    slotAt (padded locals size) j = slotAt locals j := by
  unfold padded
  simp only
  split
  · rfl
  · exact slotAt_append_top (fun _ among => List.eq_of_mem_replicate among) j

theorem le_length_padded (locals : List FrameType) (size : Nat) :
    size ≤ (padded locals size).length := by
  unfold padded
  simp only
  split
  · omega
  · rw [List.length_append, List.length_replicate]
    omega

theorem length_released (locals : List FrameType) (slot : Nat) :
    (released locals slot).length = locals.length := by
  unfold released
  split
  · rfl
  · split
    · exact List.length_set
    · rfl

theorem slotAt_released {locals : List FrameType} {slot : Nat} (within : slot ≤ locals.length)
    (j : Nat) : slotAt (released locals slot) j =
      if j + 1 = slot ∧ (slotAt locals j).isWide = true then .top else slotAt locals j := by
  cases slot with
  | zero => exact (if_neg fun both => absurd both.1 (Nat.succ_ne_zero j)).symm
  | succ below =>
    show slotAt (if (slotAt locals below).isWide = true then _ else _) j = _
    by_cases wide : (slotAt locals below).isWide = true
    · rw [if_pos wide, slotAt_set within]
      by_cases here : j = below
      · rw [if_pos here, if_pos ⟨congrArg (· + 1) here, here ▸ wide⟩]
      · rw [if_neg here, if_neg fun both => here (Nat.succ.inj both.1)]
    · rw [if_neg wide, if_neg]
      rintro ⟨here, own⟩
      exact wide (Nat.succ.inj here ▸ own)

theorem slotAt_set_value {locals : List FrameType} {slot : Nat} {type : FrameType}
    (room : slot + type.slots ≤ locals.length) (j : Nat) :
    slotAt (if type.isWide then (locals.set slot type).set (slot + 1) .top
      else locals.set slot type) j =
      if j = slot then type else if j = slot + 1 ∧ type.isWide = true then .top
      else slotAt locals j := by
  by_cases wide : type.isWide = true
  · rw [FrameType.slots, if_pos wide] at room
    rw [if_pos wide, slotAt_set (by rw [List.length_set]; omega), slotAt_set (by omega)]
    by_cases here : j = slot
    · rw [if_pos here, if_neg (by omega), if_pos here]
    · simp only [if_neg here, wide, and_true]
  · rw [FrameType.slots, if_neg wide] at room
    simp only [wide, Bool.false_eq_true, and_false, if_false]
    exact slotAt_set (by omega) type j

/-- A store reaches its slot, the one above if the value is wide, and the one below if that held the
lower half of a wide value. -/
theorem load_store (frame : Frame) (slot : Nat) (type : FrameType) (j : Nat) :
    (frame.store slot type).load j =
      if j = slot then type
      else if j = slot + 1 ∧ type.isWide = true then .top
      else if j + 1 = slot ∧ (frame.load j).isWide = true then .top
      else frame.load j := by
  have room := le_length_padded frame.locals (slot + type.slots)
  rw [← length_released _ slot] at room
  refine (slotAt_set_value room j).trans ?_
  rw [slotAt_released, slotAt_padded]
  · rfl
  · rw [length_released] at room
    omega

/-! ## Steps -/

theorem store_slotForm {frame : Frame} (form : SlotForm frame.locals) (slot : Nat)
    (type : FrameType) : SlotForm (frame.store slot type).locals := by
  refine slotForm_iff.2 fun j wide => ?_
  have stored := load_store frame slot type
  replace wide : ((frame.store slot type).load j).isWide = true := wide
  show (frame.store slot type).load (j + 1) = .top
  rw [stored] at wide ⊢
  by_cases own : j = slot
  · subst own
    rw [if_pos rfl] at wide
    rw [if_neg (Nat.succ_ne_self j), if_pos ⟨rfl, wide⟩]
  · rw [if_neg own] at wide
    split at wide
    · cases wide
    · split at wide
      · cases wide
      · -- The store left this slot alone, so it is not the one below.
        rename_i apart
        rw [if_neg fun below => apart ⟨below, wide⟩]
        split
        · rfl
        · split
          · rfl
          · exact slotForm_iff.1 form j wide

theorem isWide_of_merge {hierarchy : Hierarchy} {a b : FrameType}
    (wide : (FrameType.merge hierarchy a b).isWide = true) : a.isWide = true := by
  unfold FrameType.merge at wide
  split at wide
  · exact wide
  · split at wide
    · cases wide
    · cases wide
    · split at wide <;> cases wide
    · cases wide

/-- What the other way brings does not matter. -/
theorem merge_slotForm {frame : Frame} (form : SlotForm frame.locals) (hierarchy : Hierarchy)
    (other : Frame) : SlotForm (merge hierarchy frame other).locals := by
  refine slotForm_iff.2 fun j wide => ?_
  replace wide := (congrArg FrameType.isWide
    (slotAt_mergeLocals_eq hierarchy frame.locals other.locals j)).symm.trans wide
  refine (slotAt_mergeLocals_eq hierarchy frame.locals other.locals (j + 1)).trans ?_
  rw [slotForm_iff.1 form j (isWide_of_merge wide), FrameType.merge_top_left]

theorem construct_slotForm {frame : Frame} (form : SlotForm frame.locals) {receiver : FrameType}
    (filled : receiver ≠ .top) (owner : String) :
    SlotForm (frame.construct receiver owner).locals := by
  have built (j : Nat) : slotAt (frame.construct receiver owner).locals j =
      if slotAt frame.locals j = receiver then .object owner else slotAt frame.locals j := by
    unfold slotAt construct
    simp only [List.getElem?_map]
    cases frame.locals[j]? with
    | none => exact (if_neg filled.symm).symm
    | some type => rfl
  refine slotForm_iff.2 fun j wide => ?_
  rw [built] at wide ⊢
  split at wide
  · cases wide
  · rw [slotForm_iff.1 form j wide, if_neg filled.symm]

theorem execute_slotForm {frame after : Frame} {insn : Instruction} {position : Label}
    {className : String} (form : SlotForm frame.locals) (filled : .top ∉ frame.stack)
    (ran : frame.execute insn position className = .ok after) : SlotForm after.locals :=
  execute_locals SlotForm form (fun slot type _ => store_slotForm form slot type)
    (fun _ among => construct_slotForm form fun empty => filled (empty ▸ among)) ran

/-- No instruction puts an empty slot on the stack. -/
theorem execute_filled {frame after : Frame} {insn : Instruction} {position : Label}
    {className : String} (filled : .top ∉ frame.stack)
    (ran : frame.execute insn position className = .ok after) : .top ∉ after.stack := by
  intro among
  refine execute_stack (· ≠ .top) ?_ ?_ (fun _ known => known) (fun _ _ => nofun) ran _ among rfl
  · rintro type value rfl
    cases value
  · rintro type held rfl
    exact filled held

/-! ## The frame on entry -/

theorem receiver_filled (className methodName : String) (isStatic : Bool) :
    ∀ type ∈ receiver className methodName isStatic, type.isWide = false ∧ type ≠ .top := by
  unfold receiver
  split
  · exact List.forall_mem_nil _
  · split <;> exact List.forall_mem_singleton.2 ⟨rfl, nofun⟩

end Frame

theorem expandLocals_of_narrow : ∀ {types : List FrameType},
    (∀ type ∈ types, type.isWide = false) → expandLocals types = types
  | [], _ => rfl
  | type :: rest, narrow => by
    obtain ⟨own, others⟩ := List.forall_mem_cons.1 narrow
    rw [expandLocals_cons, own, expandLocals_of_narrow others]
    rfl

theorem length_expandLocals : ∀ locals : List FrameType,
    (expandLocals locals).length = FrameType.slotsOf locals
  | [] => rfl
  | type :: rest => by
    rw [expandLocals_cons, List.length_append, length_expandLocals rest]
    show _ = type.slots + FrameType.slotsOf rest
    unfold FrameType.slots
    split <;> rfl

/-- A method has no parameter without a type for its slot. -/
theorem MethodType.params_ne_void {descriptor : String} {type : MethodType}
    (told : parse? descriptor = some type) : ∀ param ∈ type.params, param ≠ .void :=
  fun param among => ((parse?_eq_some.1 told).1.params param among).ne_void

theorem FrameType.ofValue_of_ne_void {value : ValueType} (some_ : value ≠ .void) :
    ∃ type, ofValue value = .ok type := by
  cases value with
  | void => exact absurd rfl some_
  | _ => exact ⟨_, rfl⟩

theorem FrameType.slots_of_ofValue {value : ValueType} {type : FrameType}
    (made : ofValue value = .ok type) : type.slots = value.size := by
  cases value <;> cases made <;> rfl

theorem MethodType.slotsOf_params {type : MethodType} {params : List FrameType}
    (each : type.params.mapM FrameType.ofValue = .ok params) (isStatic : Bool) :
    FrameType.slotsOf params + (if isStatic then 0 else 1) = type.argumentSlots isStatic := by
  unfold argumentSlots
  generalize type.params = values at each ⊢
  replace each := Outcome.mapM_eq_ok.1 each
  induction each with
  | nil => exact Nat.zero_add _
  | @cons value param values params made _ ih =>
    rw [List.foldr_cons, ← ih, ← FrameType.slots_of_ofValue made, ← Nat.add_assoc]
    rfl

namespace Frame

/-- The frame on entry to a method of the type: the receiver, if there is one, and the parameters in
as many slots as the arguments of a call take, and an empty stack. -/
structure Entry (className methodName : String) (isStatic : Bool) (type : MethodType)
    (frame : Frame) : Prop where
  form : SlotForm frame.locals
  slots : frame.locals.length = type.argumentSlots isStatic
  compact : ∃ params, type.params.mapM FrameType.ofValue = .ok params ∧
    compactLocals frame.locals = receiver className methodName isStatic ++ params
  stack : frame.stack = []

theorem length_receiver (className methodName : String) (isStatic : Bool) :
    (receiver className methodName isStatic).length = if isStatic then 0 else 1 := by
  unfold receiver
  split
  · rfl
  · split <;> rfl

theorem expand_receiver (className methodName : String) (isStatic : Bool)
    (params : List FrameType) :
    expandLocals (receiver className methodName isStatic ++ params) =
      receiver className methodName isStatic ++ expandLocals params := by
  have narrow := expandLocals_of_narrow fun type among =>
    (receiver_filled className methodName isStatic type among).1
  rw [expandLocals, List.flatMap_append]
  exact congrArg (· ++ expandLocals params) narrow

/-- The locals on entry are the receiver and the parameters, spread over their slots. -/
theorem initial_eq_ok {className methodName descriptor : String} {isStatic : Bool} {frame : Frame} :
    initial className methodName descriptor isStatic = .ok frame ↔
      ∃ type params, MethodType.parse? descriptor = some type ∧
        type.params.mapM FrameType.ofValue = .ok params ∧
        frame = ⟨expandLocals (receiver className methodName isStatic ++ params), []⟩ := by
  have parsed {type : MethodType} : MethodType.parse descriptor = .ok type ↔
      MethodType.parse? descriptor = some type := by
    unfold MethodType.parse
    cases MethodType.parse? descriptor <;> simp
  rw [initial, Outcome.bind_eq_ok]
  constructor
  · rintro ⟨type, told, rest⟩
    obtain ⟨params, each, same⟩ := Outcome.bind_eq_ok.1 rest
    cases same
    exact ⟨type, params, parsed.1 told, each, by rw [expand_receiver]; rfl⟩
  · rintro ⟨type, params, told, each, rfl⟩
    exact ⟨type, parsed.2 told, Outcome.bind_eq_ok.2 ⟨params, each, by rw [expand_receiver]; rfl⟩⟩

/-- A method is entered if its descriptor can be read, and then only. -/
theorem initial_total (className methodName descriptor : String) (isStatic : Bool) :
    (∃ frame, initial className methodName descriptor isStatic = .ok frame) ↔
      ∃ type, MethodType.parse? descriptor = some type := by
  constructor
  · rintro ⟨frame, entered⟩
    obtain ⟨type, _, told, _⟩ := initial_eq_ok.1 entered
    exact ⟨type, told⟩
  · rintro ⟨type, told⟩
    obtain ⟨params, each⟩ := Outcome.mapM_total fun param among =>
      FrameType.ofValue_of_ne_void (MethodType.params_ne_void told param among)
    exact ⟨_, initial_eq_ok.2 ⟨type, params, told, each, rfl⟩⟩

theorem initial_entry {className methodName descriptor : String} {isStatic : Bool} {frame : Frame}
    {type : MethodType} (told : MethodType.parse? descriptor = some type)
    (entered : initial className methodName descriptor isStatic = .ok frame) :
    frame.Entry className methodName isStatic type := by
  obtain ⟨_, params, told', each, rfl⟩ := initial_eq_ok.1 entered
  obtain rfl := Option.some.inj (told'.symm.trans told)
  refine ⟨slotForm_expandLocals _, ?_, ⟨params, each, compact_expandLocals fun last => ?_⟩, rfl⟩
  · rw [expand_receiver, List.length_append, length_receiver, length_expandLocals, Nat.add_comm]
    exact MethodType.slotsOf_params each isStatic
  · rcases List.mem_append.1 (List.mem_of_getLast? last) with among | among
    · exact (receiver_filled className methodName isStatic _ among).2 rfl
    · obtain ⟨value, _, made⟩ := Outcome.exists_of_forall₂ (Outcome.mapM_eq_ok.1 each) _ among
      cases FrameType.isValue_of_ofValue made

/-! ## All of it -/

/-- Locals in slot form, and no empty slot on the stack. -/
structure Slotted (frame : Frame) : Prop where
  locals : SlotForm frame.locals
  stack : .top ∉ frame.stack

theorem Slotted.execute {frame after : Frame} {insn : Instruction} {position : Label}
    {className : String} (slotted : frame.Slotted)
    (ran : frame.execute insn position className = .ok after) : after.Slotted :=
  ⟨execute_slotForm slotted.locals slotted.stack ran, execute_filled slotted.stack ran⟩

theorem Slotted.afterFailure {frame : Frame} (slotted : frame.Slotted) (insn : Instruction)
    (position : Label) : (frame.afterFailure insn position).Slotted := by
  refine ⟨?_, fun among => slotted.stack (stack_afterFailure_subset frame insn position among)⟩
  rw [locals_afterFailure]
  exact slotted.locals

theorem Entry.slotted {className methodName : String} {isStatic : Bool} {type : MethodType}
    {frame : Frame} (entry : frame.Entry className methodName isStatic type) : frame.Slotted := by
  refine ⟨entry.form, ?_⟩
  rw [entry.stack]
  exact List.not_mem_nil

/-- Straight code that runs to its end finds such a frame and leaves one. -/
theorem Slotted.run {className : String} (code : List (Label × Instruction)) :
    ∀ {frame after : Frame}, frame.Slotted →
      code.foldlM (fun frame (position, insn) => frame.execute insn position className) frame =
        .ok after → after.Slotted := by
  induction code with
  | nil =>
    intro frame after slotted ran
    cases ran
    exact slotted
  | cons step code ih =>
    intro frame after slotted ran
    rw [List.foldlM_cons] at ran
    obtain ⟨middle, first, rest⟩ := Outcome.bind_eq_ok.1 ran
    exact ih (slotted.execute first) rest

/-- **Locals begin in slot form and stay in it**, through every store, merge and instruction, failing
ones included, and conversions between the two forms keep them.  A store changes no slot but those
that its value and the value it cuts in two take. -/
theorem slotForm_kept :
    (∀ className methodName descriptor isStatic,
      ((∃ frame, initial className methodName descriptor isStatic = .ok frame) ↔
        ∃ type, MethodType.parse? descriptor = some type) ∧
      ∀ frame type, MethodType.parse? descriptor = some type →
        initial className methodName descriptor isStatic = .ok frame →
        frame.Entry className methodName isStatic type) ∧
    (∀ (frame : Frame) slot type, SlotForm frame.locals → SlotForm (frame.store slot type).locals) ∧
    (∀ hierarchy (frame other : Frame), SlotForm frame.locals →
      SlotForm (merge hierarchy frame other).locals) ∧
    (∀ (frame : Frame) insn position className, frame.Slotted →
      (∀ after, frame.execute insn position className = .ok after → after.Slotted) ∧
      (frame.afterFailure insn position).Slotted) ∧
    (∀ (frame : Frame) slot type j, (frame.store slot type).load j =
      if j = slot then type
      else if j = slot + 1 ∧ type.isWide = true then .top
      else if j + 1 = slot ∧ (frame.load j).isWide = true then .top
      else frame.load j) ∧
    (∀ locals, SlotForm locals →
      trimTop (expandLocals (compactLocals locals)) = trimTop locals) ∧
    ∀ locals, locals.getLast? ≠ some .top → compactLocals (expandLocals locals) = locals :=
  ⟨fun className methodName descriptor isStatic =>
      ⟨initial_total className methodName descriptor isStatic, fun _ _ => initial_entry⟩,
    fun _ slot type form => store_slotForm form slot type,
    fun hierarchy _ other form => merge_slotForm form hierarchy other,
    fun _ insn position _ slotted =>
      ⟨fun _ => slotted.execute, slotted.afterFailure insn position⟩,
    load_store, fun _ => SlotForm.expand_compact, fun _ => compact_expandLocals⟩

/-- Two wide values side by side, and a wide value on the stack. -/
def Sample.wide : Frame := ⟨[.long, .top, .double, .top, .null], [.double, .int]⟩

/-- The store takes the upper half of the first value and the lower half of the second. -/
theorem slotForm_kept_wide :
    (∃ frame, initial "A" "m" "(IJ)V" false = .ok frame ∧
      frame.Entry "A" "m" false ⟨[.int, .long], .void⟩) ∧
    SlotForm Sample.wide.locals ∧ SlotForm (Sample.wide.store 1 .double).locals ∧
    SlotForm (merge Hierarchy.flat Sample.wide ⟨[.int, .top, .double], []⟩).locals ∧
    Sample.wide.Slotted ∧
    Sample.wide.execute (.var Opcode.dstore 1) ⟨0⟩ "A" =
      .ok ⟨[.top, .double, .top, .top, .null], [.int]⟩ ∧
    (⟨[.top, .double, .top, .top, .null], [.int]⟩ : Frame).Slotted ∧
    trimTop (expandLocals (compactLocals Sample.wide.locals)) = trimTop Sample.wide.locals ∧
    [FrameType.long, .int].getLast? ≠ some .top ∧
    compactLocals (expandLocals [.long, .int]) = [.long, .int] := by
  obtain ⟨enters, stores, merges, executes, -, expands, compacts⟩ := slotForm_kept
  have told : MethodType.parse? "(IJ)V" = some ⟨[.int, .long], .void⟩ := by decide +kernel
  obtain ⟨total, entry⟩ := enters "A" "m" "(IJ)V" false
  obtain ⟨frame, entered⟩ := total.2 ⟨_, told⟩
  have form : SlotForm Sample.wide.locals := by decide
  have slotted : Sample.wide.Slotted := ⟨form, by decide⟩
  have ran : Sample.wide.execute (.var Opcode.dstore 1) ⟨0⟩ "A" =
      .ok ⟨[.top, .double, .top, .top, .null], [.int]⟩ := by decide +kernel
  have last : [FrameType.long, .int].getLast? ≠ some .top := by decide
  exact ⟨⟨frame, entered, entry frame _ told entered⟩, form, stores _ 1 .double form,
    merges _ _ _ form, slotted, ran, (executes _ _ _ _ slotted).1 _ ran, expands _ form, last,
    compacts _ last⟩

end Frame

end ClassWeave
