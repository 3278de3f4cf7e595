/-
# ClassWeave.Proofs.Refinement -- rewritten code refines the code it was

Everything about one rewritten method is put together here (`Rewoven`): which actions
made its new code, which nodes of that code are its own, where its instructions have
landed, and which rows of the exception table are its own.  Its instructions are there in
their order, each once and with the operands it had; branches go to the labels of the
instructions they went to; its exception blocks cover the instructions they covered.

`weaveMethods_refines` says so for every method of every class that is rewritten with
harmless injected code.  Ending the method is not harmless, since a method that was ended
takes no more instructions: of the probe `Sample.endAtEntry` comes a method without any.
-/
import ClassWeave.Proofs.CodePayload
import ClassWeave.Proofs.Landing
import ClassWeave.Proofs.MethodPayloads

set_option autoImplicit false

namespace ClassWeave

/-! ## Rows of the method -/

/-- A row of the exception table as it was and as it is: with its range and handler at the labels
they were at, the class it caught, and the instructions it covered. -/
structure HandlerEntry.Moves (old entries : Entries) (assembled : AssembledCode)
    (landed : List Landed) (before after : HandlerEntry) : Prop where
  start : assembled.offsetOf ⟨before.start.toNat⟩ = .ok after.start.toNat
  stop : assembled.offsetOf ⟨before.stop.toNat⟩ = .ok after.stop.toNat
  handler : assembled.offsetOf ⟨before.handler.toNat⟩ = .ok after.handler.toNat
  caught : after.caught? entries = before.caught? old
  covers : ∀ l ∈ landed, after.Covers l.place ↔ before.Covers l.offset

section Rows

variable {old final : Entries} {items : List (Nat × Instruction)} {length stop : Nat}
  {marked : List (Mark × Node)} {layout : Layout} {assembled : AssembledCode}
  {landed : List Landed}

/-- The row of a block is what has become of the row that the block was told for. -/
theorem LandsIn.moves (lands : LandsIn final items length marked layout assembled landed stop)
    {pool : ConstantPool} (same : pool.entries = final) (slotted : final.Slotted)
    {row moved : HandlerEntry} {block : TryBlock}
    (tells : CodeAttribute.TellsBlock old length row block)
    (stands : moved.StandsFor assembled pool block) :
    row.Moves old final assembled landed moved := by
  subst same
  have opens := tells.start ▸ stands.start
  have closes := tells.stop ▸ stands.stop
  refine ⟨opens, closes, tells.handler ▸ stands.handler, ?_, ?_⟩
  · rw [tells.caught]
    exact stands.catches.caught? slotted
  · intro l among
    have begun := lands.start_le_place_iff among tells.begins opens
    have ended := lands.start_le_place_iff among tells.inside closes
    rw [HandlerEntry.Covers, HandlerEntry.Covers]
    exact and_congr begun (by rw [← Nat.not_le, ← Nat.not_le, ended])

/-- The rows that covered something are there, in the order they had, and no others. -/
theorem LandsIn.moved_rows (lands : LandsIn final items length marked layout assembled landed stop)
    {pool : ConstantPool} (same : pool.entries = final) (slotted : final.Slotted)
    {rows : List HandlerEntry} {blocks : List TryBlock} {found : List (Option HandlerEntry)}
    (tells : List.Forall₂ (CodeAttribute.TellsBlock old length) rows blocks)
    (become : List.Forall₂ (fun block row? => TryBlock.Becomes assembled block pool row?)
      blocks found) :
    List.Forall₂ (HandlerEntry.Moves old final assembled landed)
      (rows.filter fun row => row.start < row.stop) (found.filterMap id) := by
  induction tells generalizing found with
  | nil =>
    cases become
    exact .nil
  | @cons row block rows blocks one _ ih =>
    cases become with
    | @cons _ _ _ found becomes become =>
      have others := ih become
      -- A block has a row just if the row it was told from covers something: moving keeps order.
      cases becomes with
      | @nothing first last opens closes empty =>
        have filled : ¬ row.start < row.stop := by
          intro filled
          have some_ := lands.range_lt filled one.inside (one.start ▸ opens) (one.stop ▸ closes)
          omega
        rw [List.filter_cons_of_neg (by simpa using filled)]
        exact others
      | @row moved stands =>
        have filled : row.start < row.stop := by
          by_contra empty
          have less := lands.range_le (Nat.not_lt.1 empty) one.begins (one.start ▸ stands.start)
            (one.stop ▸ stands.stop)
          have some_ := stands.filled
          omega
        rw [List.filter_cons_of_pos (by simpa using filled)]
        exact .cons (lands.moves same slotted one stands) others

end Rows

theorem Weaves.own_events {allowed : EventRule} {events : List MethodEvent}
    {before after : MethodRewrite} {actions : List Action}
    (run : Weaves allowed events before actions after) :
    actions.filterMap Action.own? = events := by
  induction run with
  | done => rfl
  | @event event _ _ _ _ _ early late _ _ _ _ ih =>
    rw [List.filterMap_append, List.filterMap_append, Action.own?_requests early, ih]
    show event :: (late.map Action.request).filterMap Action.own? ++ _ = _
    rw [Action.own?_requests late]
    rfl

/-! ## Whole methods -/

/-- A rewritten method next to what it was.  Its events went through the layers, and `marked` is the
code that came of them, each node with its origin; that code was assembled.  The last table of
constants is `final`. -/
structure Rewoven (old : Entries) (code : CodeAttribute) (layers : List Layer)
    (told : List MethodEvent) (start : MethodRewrite) (final : Entries) (payload : Bytes) where
  items : List (Nat × Instruction)
  actions : List Action
  marked : List (Mark × Node)
  layout : Layout
  assembled : AssembledCode
  landed : List Landed
  stop : Nat
  rows : List HandlerEntry
  table : List HandlerEntry
  decoded : decode old code.code = .ok items
  events : actions.filterMap Action.own? = told
  run : actions.foldl MethodRewrite.act start = (Layer.runAll layers told start).2
  trace : start.trace actions = marked
  assembles : ∃ middle,
    (marked.map Prod.snd).foldlM Layout.add Layout.empty start.target.pool = (.ok layout, middle) ∧
    assemble (marked.map Prod.snd) start.target.pool = (.ok assembled, middle)
  instructions : marked.filterMap ownInstruction? = items.map fun item => item.2.normal
  lands : LandsIn final items code.code.length marked layout assembled landed stop
  moves : List.Forall₂ (HandlerEntry.Moves old final assembled landed)
    (code.handlers.filter fun row => row.start < row.stop) rows
  kept : rows.Sublist table
  written : ∃ maxStack maxLocals tables, payload = Bytes.u2 maxStack ++ Bytes.u2 maxLocals
    ++ Bytes.u4 (UInt32.ofNat assembled.code.length) ++ assembled.code
    ++ Bytes.count table.length ++ table.flatMap HandlerEntry.write
    ++ CodeAttribute.writeTables tables
  /-- The rows that can be read from the payload: all of them, if two bytes can count them. -/
  emitted : CodeAttribute.handlersIn payload = .ok (table.take (table.length % 0x10000))

variable {probes : List Probe} {entries : Entries} {className : String}

/-- The events of a method leave its instructions in the new code, among harmless code of probes. -/
theorem Layer.runAll_woven {code : CodeAttribute} {layers : List Layer} {told : List MethodEvent}
    {methodName descriptor : String} {isStatic : Bool}
    (fine : ∀ layer ∈ layers, layer.probe.Harmless)
    (body : (code.tell entries className methodName descriptor isStatic).Told told)
    {start : MethodRewrite} (taken : start.ledger.phase = .open) :
    ∃ items blocks actions marked written, decode entries code.code = .ok items ∧
      List.Forall₂ (CodeAttribute.TellsBlock entries code.code.length) code.handlers blocks ∧
      actions.filterMap Action.own? = told ∧
      Strand start actions (runAll layers told start).2 marked written ∧
      Woven code.code.length items marked ∧ blocks.Sublist written := by
  obtain ⟨items, blocks, lines, frames, rest, decoded, tells, shape, _, silent⟩ :=
    CodeAttribute.tell_told body
  obtain ⟨actions, run⟩ := runAll_weaves permits_harmless told layers start
    fun layer among => (fine layer among).obeys
  have events := run.own_events
  rw [shape] at run
  have silent' : ∀ event ∈ MethodEvent.sizes code.maxStack code.maxLocals ::
      blocks.map MethodEvent.tryBlock, event.Silent := by
    intro event among
    rcases List.mem_cons.1 among with rfl | among
    · trivial
    · obtain ⟨block, _, rfl⟩ := List.mem_map.1 among
      trivial
  obtain ⟨marked, written, strand, woven, listed⟩ := Weaves.told_inv run taken silent' silent
  rw [← shape] at strand
  have same : (MethodEvent.sizes code.maxStack code.maxLocals ::
      blocks.map MethodEvent.tryBlock).filterMap MethodEvent.block? = blocks := by
    rw [List.filterMap_cons_none rfl, List.filterMap_map]
    exact List.filterMap_some
  rw [same] at listed
  exact ⟨items, blocks, actions, marked, written, decoded, tells, events, strand, woven, listed⟩

/-- What the exception table of a rewritten method was merged from: the rows of all blocks of the
new body, those of the method among them, and the rows that injected code registered. -/
structure Rewoven.Merged {old : Entries} {code : CodeAttribute} {layers : List Layer}
    {told : List MethodEvent} {start : MethodRewrite} {final : ConstantPool} {payload : Bytes}
    (rewoven : Rewoven old code layers told start final.entries payload) (after : MethodRewrite)
    (own found injected : List (Option HandlerEntry)) : Prop where
  nodes : rewoven.marked.map Prod.snd = after.body.code
  assembles : rewoven.layout.Assembles start.target.pool.entries final.entries after.body.code
    rewoven.assembled
  table : rewoven.table = HandlerEntry.merge (found.filterMap id) (injected.filterMap id)
  rows : rewoven.rows = own.filterMap id
  among : own.Sublist found
  each : own.length = code.handlers.length
  blocks : found.length = after.body.tryBlocks.size
  registered : List.Forall₂ (fun block row? =>
    TryBlock.Becomes rewoven.assembled block final row?) after.ledger.handlers.toList injected

/-- The body of a method, with the harmless code of probes in it. -/
theorem rewoven_merged {code : CodeAttribute} {layers : List Layer}
    {told : List MethodEvent} {method : MethodContext} {target : RewriteTarget} {isStatic : Bool}
    (fine : ∀ layer ∈ layers, layer.probe.Harmless)
    (grown : (ConstantPool.ofEntries entries).Grown target.pool) (slotted : entries.Slotted)
    (body : (code.tell entries className method.name method.descriptor isStatic).Told told)
    (small : code.code.length ≤ 0xFFFF) {payload : Bytes} {after final : ConstantPool}
    (done : (Layer.runAll layers told (MethodRewrite.start target method)).2.serialize target.pool =
      (.ok payload, after)) (later : after.Grown final) :
    ∃ (rewoven : Rewoven entries code layers told (MethodRewrite.start target method) final.entries
        payload) (own found injected : List (Option HandlerEntry)),
      rewoven.Merged (Layer.runAll layers told (MethodRewrite.start target method)).2 own found
        injected := by
  have whole := slotted.entries_ofEntries
  have sound := grown.sound (ConstantPool.ofEntries_sound entries)
  have known : entries.Extends target.pool.entries := by
    have extends_ := grown.extends_
    rwa [whole] at extends_
  obtain ⟨items, blocks, actions, marked, written, decoded, tells, events, strand, woven, listed⟩ :=
    Layer.runAll_woven fine body (rfl : (MethodRewrite.start target method).ledger.phase = .open)
  have new : (Layer.runAll layers told (MethodRewrite.start target method)).2.body.code =
      marked.map Prod.snd := strand.gains.code.trans (List.nil_append _)
  have blocks_ : blocks.Sublist
      (Layer.runAll layers told (MethodRewrite.start target method)).2.body.tryBlocks.toList := by
    rw [strand.gains.blocks]
    exact listed
  obtain ⟨assembled, middle, found, injected, attributes, _, assembles, onwards, become, become',
    payload_, _⟩ := MethodRewrite.serialize_merged sound done
  rw [new] at assembles
  obtain ⟨layout, laid, assembles'⟩ := assemble_eq_ok sound assembles
  -- The pool goes on growing after the code; what was found in it is found in the last one.
  have pools : middle.Grown final := onwards.trans later
  have final_ := assembles'.extends_ pools.extends_
  have rising : Decode.Rising entries code.code.length 0 items := decode_spec decoded
  obtain ⟨landed, stop, lands⟩ := woven.lands final_ rising known (by
    simp only [Label.firstFresh]
    omega)
  obtain ⟨mine, among, own⟩ := Outcome.forall₂_of_sublist become blocks_
  have slotted' : final.entries.Slotted := by
    have first : Entries.Slotted (ConstantPool.ofEntries entries).entries := by
      rw [whole]
      exact slotted
    have step := (assemble_grows (marked.map Prod.snd)).grown sound assembles
    exact (grown.trans (step.trans pools)).slotted first
  have moves := lands.moved_rows rfl slotted' tells
    (own.imp fun _ _ becomes => becomes.grown later)
  have kept : (mine.filterMap id).Sublist
      (HandlerEntry.merge (found.filterMap id) (injected.filterMap id)) :=
    (among.filterMap id).trans (HandlerEntry.sublist_merge _ _)
  have stored := payload_
  rw [CodeAttribute.write, ← Attribute.writeTables_stored] at stored
  have emitted := congrArg CodeAttribute.handlersIn stored
  rw [CodeAttribute.handlersIn_eq _ (final_.size ▸ final_.small)] at emitted
  refine ⟨⟨items, actions, marked, layout, assembled, landed, stop, mine.filterMap id, _, decoded,
    events, strand.replay, strand.trace, ⟨middle, laid, assembles⟩, woven.own_instructions, lands,
    moves, kept, ⟨_, _, _, stored⟩, emitted⟩, mine, found, injected, ?_⟩
  refine ⟨new.symm, ?_, rfl, rfl, among, ?_, ?_, ?_⟩
  · rw [new]
    exact final_
  · exact own.length_eq.symm.trans tells.length_eq.symm
  · rw [← become.length_eq, Array.length_toList]
  · exact become'.imp fun _ _ becomes => becomes.grown later

theorem rewoven_of_serialize {code : CodeAttribute} {layers : List Layer}
    {told : List MethodEvent} {method : MethodContext} {target : RewriteTarget} {isStatic : Bool}
    (fine : ∀ layer ∈ layers, layer.probe.Harmless)
    (grown : (ConstantPool.ofEntries entries).Grown target.pool) (slotted : entries.Slotted)
    (body : (code.tell entries className method.name method.descriptor isStatic).Told told)
    (small : code.code.length ≤ 0xFFFF) {payload : Bytes} {after final : ConstantPool}
    (done : (Layer.runAll layers told (MethodRewrite.start target method)).2.serialize target.pool =
      (.ok payload, after)) (later : after.Grown final) :
    Nonempty (Rewoven entries code layers told (MethodRewrite.start target method) final.entries
      payload) := by
  obtain ⟨rewoven, _⟩ := rewoven_merged fine grown slotted body small done later
  exact ⟨rewoven⟩

/-- The new code of a method that could be told refines its old code. -/
def Member.Refined (probes : List Probe) (entries : Entries) (className : String)
    (member : Member) (method : MethodContext) (target : RewriteTarget) (final : Entries)
    (payload : Bytes) : Prop :=
  ∃ code told, member.code? entries = .ok (some code) ∧
    (member.tell entries className method.name method.descriptor).Told (told ++ [.finish]) ∧
    (code.code.length ≤ 0xFFFF →
      Nonempty (Rewoven entries code (probes.map fun probe => Layer.start probe method) told
        (MethodRewrite.start target method) final payload))

/-- **Rewritten code refines the code it was.**  Whatever harmless code the probes inject, every
method of the class with a new payload has its old instructions in it, branches and exception
blocks with them. -/
theorem weaveMethods_refines {bytes : Bytes} {file : ClassFile}
    (read : ClassFile.read bytes = .ok file) (harmless : ∀ probe ∈ probes, probe.Harmless)
    {options : Options} {hierarchy : Hierarchy} {target : RewriteTarget} {fault : Option ReadError}
    (woven : weaveMethods probes file.entries className options file.methods.zipIdx
      (RewriteTarget.start className file.major (ConstantPool.ofEntries file.entries) hierarchy
        options) = (target, fault))
    {index : Nat} {payload : Bytes} (rewritten : (index, payload) ∈ target.rewritten) :
    ∃ member name descriptor before, (member, index) ∈ file.methods.zipIdx ∧
      file.entries.utf8 member.name = .ok name ∧
      file.entries.utf8 member.descriptor = .ok descriptor ∧
      (ConstantPool.ofEntries file.entries).Grown before.pool ∧
      member.Refined (probes.filter fun probe => probe.appliesTo name descriptor) file.entries
        className ⟨index, member.access, name, descriptor⟩ before target.pool.entries payload := by
  obtain ⟨before, pool, member, name, descriptor, own⟩ :=
    weaveMethods_rewrites harmless woven rewritten
  obtain ⟨code, told, known, whole, done⟩ := own.rewrites
  have fine : ∀ layer ∈ (probes.filter fun probe => probe.appliesTo name descriptor).map
      fun probe => Layer.start probe ⟨index, member.access, name, descriptor⟩,
      layer.probe.Harmless :=
    fun layer among => harmless layer.probe (Layer.probe_mem_of_start among)
  exact ⟨member, name, descriptor, before, own.among, own.named, own.described, own.grown, code, told,
    known, Member.tell_of_code known whole, fun small => rewoven_of_serialize fine own.grown
      (ClassFile.fits_of_read read).slotted whole small done own.later⟩

theorem weaveMethods_refines_plain : ∃ file target, ClassFile.read Sample.plain = .ok file ∧
    (weaveMethods Sample.nopAtEntry.probes file.entries "A" Options.standard file.methods.zipIdx
      (RewriteTarget.start "A" file.major (ConstantPool.ofEntries file.entries) Hierarchy.flat
        Options.standard)).1 = target ∧
    (0, [0, 0, 0, 0, 0, 0, 0, 2, 0, 0xB1, 0, 0, 0, 0]) ∈ target.rewritten ∧
    ∃ member name descriptor before, (member, 0) ∈ file.methods.zipIdx ∧
      file.entries.utf8 member.name = .ok name ∧
      file.entries.utf8 member.descriptor = .ok descriptor ∧
      (ConstantPool.ofEntries file.entries).Grown before.pool ∧
      member.Refined (Sample.nopAtEntry.probes.filter fun probe => probe.appliesTo name descriptor)
        file.entries "A" ⟨0, member.access, name, descriptor⟩ before target.pool.entries
        [0, 0, 0, 0, 0, 0, 0, 2, 0, 0xB1, 0, 0, 0, 0] := by
  have runs : ((ClassFile.read Sample.plain).toOption.any fun file =>
      decide ((0, [0, 0, 0, 0, 0, 0, 0, 2, 0, 0xB1, 0, 0, 0, 0]) ∈
        (weaveMethods Sample.nopAtEntry.probes file.entries "A" Options.standard
          file.methods.zipIdx (RewriteTarget.start "A" file.major
            (ConstantPool.ofEntries file.entries) Hierarchy.flat
            Options.standard)).1.rewritten)) = true := by decide +kernel
  have harmless : ∀ probe ∈ Sample.nopAtEntry.probes, probe.Harmless := by
    intro probe among
    obtain rfl := List.mem_singleton.1 among
    exact Snippet.probeCode_harmless rfl
  obtain ⟨file, read, written⟩ := Outcome.exists_of_any runs
  have rewritten := of_decide_eq_true written
  exact ⟨file, _, read, rfl, rewritten, weaveMethods_refines read harmless rfl rewritten⟩

/-- A probe that ends every method of class `A` on entry to it. -/
def Sample.endAtEntry : Transformer :=
  ⟨[⟨"A", "", none, ⟨"", "", "", "", 0, .entry, .before⟩, fun _ => .emit .finish .done⟩],
    Options.standard⟩

/-- The class of `Sample.plain` without the code of its method. -/
def Sample.emptied : Bytes :=
  [0xCA, 0xFE, 0xBA, 0xBE, 0, 0, 0, 49,
    0, 6, 1, 0, 1, 65, 7, 0, 1, 1, 0, 1, 109, 1, 0, 3, 40, 41, 86, 1, 0, 4, 67, 111, 100, 101,
    0, 1, 0, 2, 0, 0, 0, 0, 0, 0, 0, 1, 0, 8, 0, 3, 0, 4, 0, 1,
    0, 5, 0, 0, 0, 12, 0, 0, 0, 0, 0, 0, 0, 0, 0, 0, 0, 0, 0, 0]

/-- The bodies of the methods of a class. -/
def ClassFile.bodies (bytes : Bytes) : Except ReadError (List (Option CodeAttribute)) := do
  let file ← read bytes
  file.methods.mapM (·.code? file.entries)

/-- The method had a `return`.  The probe places no label, the method is rewritten, and the `return`
is not in the new code. -/
theorem endAtEntry_empties :
    (Sample.endAtEntry.transform? ⟨none, []⟩ Sample.plain ClassCache.empty).1 =
      .ok (some Sample.emptied) ∧
    ClassFile.bodies Sample.plain = .ok [some ⟨0, 0, [0xB1], [], []⟩] ∧
    decode #[] [0xB1] = .ok [(0, .simple Opcode.voidReturn)] ∧
    ClassFile.bodies Sample.emptied = .ok [some ⟨0, 0, [], [], []⟩] := by
  refine ⟨?_, ?_, ?_, ?_⟩ <;> decide +kernel

end ClassWeave
