/-
# ClassWeave.Proofs.CodePayload -- what a new code payload is put together from

`MethodRewrite.Serialized` takes the payload of a rewritten method apart: the body was
assembled, the exception blocks of the body have their rows in its table, and the frames
of the body that are kept have theirs in its stack map.
-/
import ClassWeave.Proofs.CodeTables

set_option autoImplicit false

namespace ClassWeave

/-! ## The payload of a method -/

/-- The payload of a rewritten method and what it is made of.  In `pool` its body was assembled, and
`after` is the pool in the end. -/
structure MethodRewrite.Serialized (rewrite : MethodRewrite) (pool after : ConstantPool)
    (payload : Bytes) where
  assembled : AssembledCode
  middle : ConstantPool
  rows : List (Option HandlerEntry)
  handlers : List HandlerEntry
  tables : List (UInt16 × Bytes)
  assembles : assemble rewrite.body.code pool = (.ok assembled, middle)
  grown : middle.Grown after
  /-- The rows of the blocks of the body, and none for a block without a range. -/
  resolved : List.Forall₂ (fun block row? => TryBlock.Resolves assembled block row? after)
    rewrite.body.tryBlocks.toList rows
  kept : (rows.filterMap id).Sublist handlers
  whole : payload = Bytes.u2 rewrite.finalMaxStack ++ Bytes.u2 rewrite.finalMaxLocals
    ++ Bytes.u4 (UInt32.ofNat assembled.code.length) ++ assembled.code
    ++ Bytes.count handlers.length ++ handlers.flatMap HandlerEntry.write
    ++ CodeAttribute.writeTables tables
  /-- The frames of the body that are kept stand in the first table. -/
  frames : rewrite.target.options.emitsFrames rewrite.target.major = true →
    ∃ frames, StackMap.kept assembled rewrite.body.frames.toList = .ok frames ∧
      (frames ≠ [] → ∃ name table others, tables = (name, table) :: others ∧
        after.entries.utf8? name = some Attribute.stackMapTable ∧
        StackMap.Written assembled after.entries frames table)

/-- The payload of a rewritten method is that of a code attribute: the assembled body, with the rows
of the blocks of the body and those of injected code merged into one table, and the tables of what
has a place in the code. -/
theorem MethodRewrite.serialize_merged {rewrite : MethodRewrite} {pool after : ConstantPool}
    {payload : Bytes} (sound : pool.Sound)
    (done : rewrite.serialize pool = (.ok payload, after)) :
    ∃ assembled middle rows injected attributes tables,
      assemble rewrite.body.code pool = (.ok assembled, middle) ∧ middle.Grown after ∧
      List.Forall₂ (fun block row? => block.Becomes assembled after row?)
        rewrite.body.tryBlocks.toList rows ∧
      List.Forall₂ (fun block row? => block.Becomes assembled after row?)
        rewrite.ledger.handlers.toList injected ∧
      payload = (CodeAttribute.mk rewrite.finalMaxStack rewrite.finalMaxLocals assembled.code
        (HandlerEntry.merge (rows.filterMap id) (injected.filterMap id)) attributes).write ∧
      (CodeAttribute.mk rewrite.finalMaxStack rewrite.finalMaxLocals assembled.code
        (HandlerEntry.merge (rows.filterMap id) (injected.filterMap id)) attributes).Carries
          after.entries tables ∧
      assembled.Fills after.entries
        (if rewrite.target.options.emitsFrames rewrite.target.major then
          rewrite.body.frames.toList else [])
        (if rewrite.target.options.dropDebugTables then [] else rewrite.body.declared.toList)
        tables := by
  obtain ⟨assembled, middle, assembles, done⟩ := Interning.bind_eq_ok.1 done
  obtain ⟨original, second, resolved, done⟩ := Interning.bind_eq_ok.1 done
  obtain ⟨injected, third, resolved', done⟩ := Interning.bind_eq_ok.1 done
  obtain ⟨layout, _, laid⟩ := assemble_eq_ok sound assembles
  -- Four writers follow one another, and each gives its entries to the pool the one before it left:
  -- what an earlier one found has to be carried over every later growth.
  have small := laid.offset_small
  have sound' := ((assemble_grows rewrite.body.code).grown sound assembles).sound sound
  obtain ⟨grown, found, rfl, each⟩ := (AssembledCode.resolveHandlers_leads small
    rewrite.body.tryBlocks.toList sound').of_eq_ok resolved
  have sound'' := grown.sound sound'
  obtain ⟨grown', found', rfl, each'⟩ := (AssembledCode.resolveHandlers_leads small
    rewrite.ledger.handlers.toList sound'').of_eq_ok resolved'
  obtain ⟨last, attributes, tables, whole, carries, fills⟩ := (AssembledCode.encode_leads small
    (grown'.sound sound'') rewrite.finalMaxStack rewrite.finalMaxLocals
    (HandlerEntry.merge (found.filterMap id) (found'.filterMap id))
    (if rewrite.target.options.emitsFrames rewrite.target.major then
      some rewrite.body.frames.toList else none)
    (if rewrite.target.options.dropDebugTables then [] else
      rewrite.body.declared.toList)).of_eq_ok done
  refine ⟨assembled, middle, found, found', attributes, tables, assembles,
    grown.trans (grown'.trans last), ?_, ?_, whole, carries, ?_⟩
  · exact each.imp fun _ _ becomes => becomes.grown (grown'.trans last)
  · exact each'.imp fun _ _ becomes => becomes.grown last
  · cases emits : rewrite.target.options.emitsFrames rewrite.target.major
    all_goals
      rw [emits] at fills
      exact fills

/-- Among the handlers of the payload are the rows of the blocks of the body. -/
theorem MethodRewrite.serialize_eq_ok {rewrite : MethodRewrite} {pool after : ConstantPool}
    {payload : Bytes} (sound : pool.Sound)
    (done : rewrite.serialize pool = (.ok payload, after)) :
    ∃ assembled middle rows handlers attributes tables,
      assemble rewrite.body.code pool = (.ok assembled, middle) ∧ middle.Grown after ∧
      List.Forall₂ (fun block row? => block.Becomes assembled after row?)
        rewrite.body.tryBlocks.toList rows ∧
      (rows.filterMap id).Sublist handlers ∧
      payload = (CodeAttribute.mk rewrite.finalMaxStack rewrite.finalMaxLocals assembled.code
        handlers attributes).write ∧
      (CodeAttribute.mk rewrite.finalMaxStack rewrite.finalMaxLocals assembled.code handlers
        attributes).Carries after.entries tables ∧
      assembled.Fills after.entries
        (if rewrite.target.options.emitsFrames rewrite.target.major then
          rewrite.body.frames.toList else [])
        (if rewrite.target.options.dropDebugTables then [] else rewrite.body.declared.toList)
        tables := by
  obtain ⟨assembled, middle, rows, injected, attributes, tables, assembles, grown, each, _, whole,
    carries, fills⟩ := MethodRewrite.serialize_merged sound done
  exact ⟨assembled, middle, rows, _, attributes, tables, assembles, grown, each,
    HandlerEntry.sublist_merge _ _, whole, carries, fills⟩

theorem MethodRewrite.serialized {rewrite : MethodRewrite} {pool after : ConstantPool}
    {payload : Bytes} (sound : pool.Sound)
    (done : rewrite.serialize pool = (.ok payload, after)) :
    Nonempty (rewrite.Serialized pool after payload) := by
  obtain ⟨assembled, middle, rows, handlers, attributes, tables, assembles, grown, each, among, whole,
    carries, fills⟩ := MethodRewrite.serialize_eq_ok sound done
  refine ⟨⟨assembled, middle, rows, handlers, attributes.map Attribute.stored, assembles, grown,
    each.imp fun _ _ becomes => becomes.resolves, among, ?_, fun emits => ?_⟩⟩
  · rw [Attribute.writeTables_stored]
    exact whole
  · obtain ⟨kept, chosen, tells⟩ := fills.frames
    rw [if_pos emits] at chosen
    refine ⟨kept, chosen, fun some_ => ?_⟩
    obtain ⟨stackMap, _, _, _, parts, tabled, _⟩ := carries.attributes
    obtain rfl := parts
    generalize same : tables.frames.map StackMapEntry.write = rows at tabled
    cases tabled with
    | nothing =>
      rw [List.map_eq_nil_iff.1 same] at tells
      cases tells
      exact absurd rfl some_
    | table named _ =>
      subst same
      refine ⟨_, _, _, rfl, named, ⟨tables.frames, ?_, tells⟩⟩
      rw [List.length_map, ← List.flatMap_def]

end ClassWeave
