/-
# ClassWeave.Proofs.GuardedRanges -- the exception table with layers for errors

What layers for errors do to the code of a method (`Layer.Enclosed`) is followed into its
exception table.  The offsets of assembled code are ordered as the instructions are, so
all that is the method's own stands between two places, and the ranges of the layers reach
from before the first of them to behind the second (`Rewoven.Surrounds`).  They end later
and later, hence their rows come behind all others, in the order of the layers
(`Rewoven.Merged.guarded`).

For a class this means that an exception goes where it went if the method caught it, and
else to the handler of the outermost probe for errors (`weaveMethods_guards`), as long as
the rows can be counted: of a table of 65536 rows the payload has none.
-/
import ClassWeave.Proofs.ErrorHandlers
import ClassWeave.Proofs.ExceptionDispatch
import ClassWeave.Proofs.JoinedLocals
import ClassWeave.Proofs.ToldLabels

set_option autoImplicit false

namespace ClassWeave

/-! ## The run of a method -/

/-- Instructions are told in the middle of a body, and without blocks. -/
theorem CodeAttribute.amid_of_mem_tellInstruction {lines : Std.TreeMap Nat (List UInt16)}
    {frames : Std.TreeMap Nat PinnedFrame} {offset : Nat} {insn : Instruction} {event : MethodEvent}
    (among : event ∈ tellInstruction lines frames offset insn) :
    event.Amid ∧ event.block? = none := by
  simp only [tellInstruction_eq, List.mem_cons, List.mem_append, List.not_mem_nil, or_false] at among
  rcases among with rfl | aside | rfl
  · exact ⟨trivial, rfl⟩
  · have known := aside_of_mem aside
    cases event <;> first | exact ⟨trivial, rfl⟩ | exact known.elim
  · exact ⟨trivial, rfl⟩

/-- A body is told between its sizes. -/
theorem CodeAttribute.tell_amid {code : CodeAttribute} {entries : Entries}
    {className methodName descriptor : String} {isStatic : Bool} {events : List MethodEvent}
    (told : (code.tell entries className methodName descriptor isStatic).Told events) :
    ∃ amid, events = .sizes code.maxStack code.maxLocals ::
        (amid ++ [.maxs code.maxStack code.maxLocals]) ∧
      (∀ event ∈ amid, event.Amid) ∧
      (events.filterMap MethodEvent.block?).length = code.handlers.length := by
  obtain ⟨items, blocks, lines, frames, declared, _, handlers, _, _, whole⟩ := tellsBody_of_told told
  refine ⟨blocks.map .tryBlock ++ (items.flatMap (fun item =>
      tellInstruction (linesByOffset lines) (framesByOffset frames) item.1 item.2) ++
      .label ⟨code.code.length⟩ :: declared.map .variable), ?_, ?_, ?_⟩
  · rw [whole]
    simp
  · intro event among
    simp only [List.mem_append, List.mem_map, List.mem_flatMap, List.mem_cons] at among
    rcases among with ⟨_, _, rfl⟩ | ⟨item, _, told⟩ | rfl | ⟨_, _, rfl⟩
    · trivial
    · exact (amid_of_mem_tellInstruction told).1
    · trivial
    · trivial
  -- Blocks are told ahead of the instructions, and neither these nor the variables tell any.
  · have told : (items.flatMap fun item => tellInstruction (linesByOffset lines)
        (framesByOffset frames) item.1 item.2).filterMap MethodEvent.block? = [] := by
      refine List.filterMap_eq_nil_iff.2 fun event among => ?_
      obtain ⟨item, _, told⟩ := List.mem_flatMap.1 among
      exact (amid_of_mem_tellInstruction told).2
    have last : (declared.map MethodEvent.variable).filterMap MethodEvent.block? = [] := by
      refine List.filterMap_eq_nil_iff.2 fun event among => ?_
      obtain ⟨_, _, rfl⟩ := List.mem_map.1 among
      rfl
    have all : events.filterMap MethodEvent.block? = blocks := by
      rw [whole]
      simp only [List.filterMap_append, List.filterMap_cons, List.filterMap_nil, told, last,
        List.filterMap_map, MethodEvent.block?, List.append_nil]
      exact List.filterMap_some
    rw [all, handlers.length_eq]

/-- The labels that a body is told with stand for offsets. -/
theorem CodeAttribute.told_old {code : CodeAttribute} {entries : Entries}
    {className methodName descriptor : String} {isStatic : Bool} {events : List MethodEvent}
    (told : (code.tell entries className methodName descriptor isStatic).Told events)
    (small : code.code.length ≤ 0xFFFF) :
    ∀ label ∈ events.filterMap MethodEvent.label?, label.IsOld := by
  intro label among
  obtain ⟨event, within, own⟩ := List.mem_filterMap.1 among
  have all : (code.tell entries className methodName descriptor isStatic).All MethodEvent.NamesOld :=
    tell_old small
  rw [told] at all
  refine all event within label ?_
  cases event <;> cases own
  rfl

/-! ## Places in the new code -/

namespace Layout

variable {first entries : Entries} {ahead between behind : List Node} {layout : Layout}
  {assembled : AssembledCode}

/-- A label has the offset of what follows its last place. -/
theorem Assembles.offset_at_label {nodes early late : List Node} {label : Label} {place : Nat}
    (assembles : layout.Assembles first entries nodes assembled)
    (split : nodes = early ++ .label label :: late) (last : .label label ∉ late)
    (known : assembled.offsetOf label = .ok place) :
    (layout.offsets ++ [assembled.code.length])[(Snippet.instructions early).length]? =
      some place := by
  subst split
  obtain ⟨_, found, stands⟩ := assembles.offset_of_label last
  rw [known] at found
  cases found
  exact stands

/-- The two places that bound a part of assembled code, by the numbers of the instructions there. -/
structure Bounds (layout : Layout) (assembled : AssembledCode) (ahead between behind : List Node)
    (lower upper : Nat) : Prop where
  opens : (layout.offsets ++ [assembled.code.length])[(Snippet.instructions ahead).length]? =
    some lower
  closes : (layout.offsets ++ [assembled.code.length])[(Snippet.instructions
    (ahead ++ between)).length]? = some upper
  ordered : lower ≤ upper
  /-- Labels that are not placed behind the bounds stand before them. -/
  before : ∀ label place, .label label ∉ between → .label label ∉ behind →
    assembled.offsetOf label = .ok place → place ≤ lower
  within : ∀ label place, .label label ∉ ahead → .label label ∉ behind →
    assembled.offsetOf label = .ok place → lower ≤ place ∧ place ≤ upper

theorem Assembles.bounds
    (assembles : layout.Assembles first entries (ahead ++ (between ++ behind)) assembled) :
    ∃ lower upper, layout.Bounds assembled ahead between behind lower upper := by
  -- The layout is cut twice; a label lies in the part of the code that placed it last.
  obtain ⟨entry, early, rest⟩ := assembles.lays.append_inv
  obtain ⟨exit_, middle, late⟩ := rest.append_inv
  have known {label : Label} {place : Nat} (found : assembled.offsetOf label = .ok place) :
      layout.labels[label]? = some place := by
    rw [AssembledCode.offsetOf, assembles.labels, AssembledCode.place] at found
    split at found
    · rename_i here
      rw [here, Except.ok.inj found]
    · cases found
  have none_ (label : Label) : Layout.empty.labels[label]? = none :=
    Std.TreeMap.getElem?_emptyc
  have entered (label : Label) (place : Nat) (found : entry.labels[label]? = some place) :
      place ≤ entry.size :=
    early.label_le (fun place found => by rw [none_] at found; cases found) found
  refine ⟨entry.size, exit_.size, ?_, ?_, middle.size_le, ?_, ?_⟩
  · rw [assembles.size]
    exact early.offset_at rest
  · rw [assembles.size]
    exact (early.append middle).offset_at late
  · intro label place apart behind found
    have there := known found
    rw [late.label_kept behind, middle.label_kept apart] at there
    exact entered label place there
  · intro label place apart behind found
    have there := known found
    rw [late.label_kept behind] at there
    have unknown (place : Nat) (found : entry.labels[label]? = some place) : False := by
      rcases early.label_placed (by rw [found]; rfl) with placed | placed
      · exact apart placed
      · rw [none_] at placed
        cases placed
    have placed : .label label ∈ between := by
      rcases middle.label_placed (by rw [there]; rfl) with here | ahead
      · exact here
      · obtain ⟨place, found⟩ := Option.isSome_iff_exists.1 ahead
        exact (unknown place found).elim
    obtain ⟨place', there', beyond⟩ := middle.label_ge placed
    obtain rfl : place = place' := Option.some.inj (there.symm.trans there')
    exact ⟨beyond, middle.label_le (fun place found => (unknown place found).elim) there⟩

end Layout

/-- What a layer writes for its handler when it closes its range. -/
def Layer.handlerCode (layer : Layer) (start : Label) (rewrite : MethodRewrite) : List Node :=
  (layer.closeRange start rewrite).body.code.drop rewrite.body.code.length

namespace Rewoven

variable {old : Entries} {code : CodeAttribute} {layers : List Layer} {told : List MethodEvent}
  {start : MethodRewrite} {final : ConstantPool} {payload : Bytes}

/-- The row for the range of a layer.  It catches everything and ends where its handler begins, which
is where the layer writes the code of the handler, outside of the range. -/
structure Guards {final : Entries} (rewoven : Rewoven old code layers told start final payload)
    (layer : Layer) (row : HandlerEntry) : Prop where
  caught : row.catchType = 0
  handler : row.handler = row.stop
  closes : ∃ (opened : Label) (early late : List Action) (reached : MethodRewrite)
      (rest : List Node), early.foldl MethodRewrite.act start = reached ∧
    Layer.record layers told start =
      early ++ ((layer.closeRangeRequests opened reached).map .request ++ late) ∧
    rewoven.marked.map Prod.snd = reached.body.code ++ (layer.handlerCode opened reached ++ rest) ∧
    rewoven.assembled.offsetOf opened = .ok row.start.toNat ∧
    (rewoven.layout.offsets ++ [rewoven.assembled.code.length])[(Snippet.instructions
      reached.body.code).length]? = some row.handler.toNat ∧
    ∀ place ∈ (rewoven.layout.offsets.drop (Snippet.instructions reached.body.code).length).take
      (Snippet.instructions (layer.handlerCode opened reached)).length, ¬ row.Covers place

variable {rewoven : Rewoven old code layers told start final.entries payload}
  {own found injected : List (Option HandlerEntry)}

/-- A range ends where its layer has closed it. -/
theorem Merged.stop_at (merged : rewoven.Merged (Layer.runAll layers told start).2 own found injected)
    {layer : Layer} {block : TryBlock} {number : Nat}
    (closes : layer.Closes start (Layer.record layers told start) block number) {place : Nat}
    (known : rewoven.assembled.offsetOf block.stop = .ok place) :
    (rewoven.layout.offsets ++ [rewoven.assembled.code.length])[number]? = some place := by
  obtain ⟨_, _, _, reached, _, _, _, _, rfl, _, whole, last, _⟩ := closes
  rw [← Layer.runAll_record] at whole
  exact merged.assembles.offset_at_label whole last known

/-- The row of a block that a layer has registered. -/
theorem Merged.guards (merged : rewoven.Merged (Layer.runAll layers told start).2 own found injected)
    {layer : Layer} {block : TryBlock} {number : Nat}
    (closes : layer.Closes start (Layer.record layers told start) block number)
    {row : HandlerEntry} (stands : row.StandsFor rewoven.assembled final block) :
    rewoven.Guards layer row := by
  have stop := merged.stop_at closes stands.stop
  obtain ⟨caught, early, late, reached, own, rest, stage, parts, rfl, own_, whole, _, last⟩ := closes
  rw [← Layer.runAll_record] at whole
  have handler : (rewoven.layout.offsets ++ [rewoven.assembled.code.length])[(Snippet.instructions
      reached.body.code).length]? = some row.handler.toNat := by
    -- Both labels of a closed range stand at its end, so the handler starts where the range stops.
    have behind := merged.assembles.offset_at_label (whole.trans (List.append_cons _ _ _)) last
      stands.handler
    have same : Snippet.instructions (reached.body.code ++ [.label block.stop]) =
        Snippet.instructions reached.body.code :=
      List.filterMap_append.trans (List.append_nil _)
    rwa [same] at behind
  have written : layer.handlerCode block.start reached =
      .label block.stop :: .label block.handler :: own := by
    rw [Layer.handlerCode, own_, List.drop_left]
  refine ⟨?_, ?_, block.start, early, late, reached, rest, stage, parts, ?_, stands.start, handler,
    ?_⟩
  · have catches := stands.catches
    rw [caught] at catches
    exact catches
  · exact UInt16.toNat_inj.1 (Option.some.inj (handler.symm.trans stop))
  · rw [merged.nodes, whole, written]
    rfl
  · intro place among covers
    obtain ⟨i, inside, rfl⟩ := List.mem_drop_iff_getElem.1 (List.mem_of_mem_take among)
    have at_ : (rewoven.layout.offsets ++ [rewoven.assembled.code.length])[(Snippet.instructions
        reached.body.code).length + i]? = some (rewoven.layout.offsets[(Snippet.instructions
          reached.body.code).length + i]) := by
      rw [List.getElem?_append_left (by omega), List.getElem?_eq_getElem]
    have ahead := (MethodRewrite.offset_lt_iff merged.assembles at_ stop).1 covers.2
    omega

/-- The exception table of a rewritten method: its own rows, and behind them those of the layers for
errors, which take what no row of the method takes. -/
structure Guarded {final : Entries} (rewoven : Rewoven old code layers told start final payload)
    (guarding : List Layer) (guards : List HandlerEntry) : Prop where
  table : rewoven.table = rewoven.rows ++ guards
  around : ∀ l ∈ rewoven.landed, List.Forall₂ (fun layer row =>
    rewoven.Guards layer row ∧ row.Covers l.place) guarding guards
  taken : ∀ isA, ∀ l ∈ rewoven.landed, ∀ before,
    HandlerEntry.dispatch old isA code.handlers l.offset = some before →
      ∃ after, HandlerEntry.dispatch final isA rewoven.table l.place = some after ∧
        before.Moves old final rewoven.assembled rewoven.landed after
  left : ∀ isA, ∀ l ∈ rewoven.landed,
    HandlerEntry.dispatch old isA code.handlers l.offset = none →
      HandlerEntry.dispatch final isA rewoven.table l.place = guards.head?
  emitted : CodeAttribute.handlersIn payload =
    .ok (rewoven.table.take (rewoven.table.length % 0x10000))

section Enclosed

variable {ahead between behind : List Node} {closed : List (TryBlock × Nat)} {lower upper : Nat}
  (bounds : rewoven.layout.Bounds rewoven.assembled ahead between behind lower upper)
  (outside : ∀ label, .label label ∈ ahead ∨ .label label ∈ behind → label.isFresh = true)

include bounds outside

/-- Labels of the method stand within the bounds. -/
theorem within_of_old {label : Label} {place : Nat} (own : label.IsOld)
    (known : rewoven.assembled.offsetOf label = .ok place) : lower ≤ place ∧ place ≤ upper := by
  have apart (among : .label label ∈ ahead ∨ .label label ∈ behind) : False := by
    have fresh := outside label among
    rw [own] at fresh
    cases fresh
  exact bounds.within label place (fun among => apart (.inl among)) (fun among => apart (.inr among))
    known

theorem landed_within (small : code.code.length ≤ 0xFFFF) :
    ∀ l ∈ rewoven.landed, lower ≤ l.place ∧ l.place < upper := by
  intro l among
  have lands := rewoven.lands
  have inside := lands.inside l among
  have begins := within_of_old bounds outside (Label.isOld_of_le (by omega))
    (lands.refines l among).label
  have ends := within_of_old bounds outside (Label.isOld_of_le small) lands.ends
  exact ⟨Nat.le_trans begins.1 (lands.refines l among).ordered,
    Nat.lt_of_lt_of_le (lands.below l among) ends.2⟩

theorem rows_within : ∀ row ∈ rewoven.rows, lower ≤ row.start.toNat ∧ row.stop.toNat ≤ upper := by
  intro row among
  obtain ⟨before, _, moves⟩ := Outcome.exists_of_forall₂ rewoven.moves row among
  exact ⟨(within_of_old bounds outside (Label.isOld_offset _) moves.start).1,
    (within_of_old bounds outside (Label.isOld_offset _) moves.stop).2⟩

end Enclosed

/-- A row that a layer has left, around all that stands within the bounds. -/
structure Surrounds {final : Entries} (rewoven : Rewoven old code layers told start final payload)
    (lower upper : Nat) (layer : Layer) (number : Nat) (row : HandlerEntry) : Prop where
  guards : rewoven.Guards layer row
  stands : (rewoven.layout.offsets ++ [rewoven.assembled.code.length])[number]? =
    some row.stop.toNat
  begins : row.start.toNat ≤ lower
  ends : upper ≤ row.stop.toNat

section Table

variable {ahead between behind : List Node} {closed : List (TryBlock × Nat)} {lower upper : Nat}

/-- What has become of the block of a layer: a row, unless there is nothing between the bounds. -/
theorem Merged.surrounds
    (merged : rewoven.Merged (Layer.runAll layers told start).2 own found injected)
    (bounds : rewoven.layout.Bounds rewoven.assembled ahead between behind lower upper)
    {layer : Layer} {part : TryBlock × Nat}
    (apart : .label part.1.start ∉ between ∧ .label part.1.start ∉ behind)
    (closes : layer.Closes start (Layer.record layers told start) part.1 part.2)
    (above : (Snippet.instructions (ahead ++ between)).length ≤ part.2)
    {row? : Option HandlerEntry}
    (becomes : part.1.Becomes rewoven.assembled final row?) :
    (∀ row ∈ row?, rewoven.Surrounds lower upper layer part.2 row) ∧
      (lower < upper → row?.isSome = true) := by
  have begins {place : Nat} (known : rewoven.assembled.offsetOf part.1.start = .ok place) :
      place ≤ lower := bounds.before _ _ apart.1 apart.2 known
  have ends {place : Nat} (known : rewoven.assembled.offsetOf part.1.stop = .ok place) :
      upper ≤ place := by
    have less := MethodRewrite.offset_lt_iff merged.assembles (merged.stop_at closes known)
      bounds.closes
    exact Nat.not_lt.1 fun below => Nat.not_lt.2 above (less.1 below)
  cases becomes with
  | nothing opens stops empty =>
    refine ⟨nofun, fun filled => ?_⟩
    have first := begins opens
    have last := ends stops
    omega
  | row stands =>
    refine ⟨fun row same => ?_, fun _ => rfl⟩
    obtain rfl := Option.some.inj same
    exact ⟨merged.guards closes stands, merged.stop_at closes stands.stop, begins stands.start,
      ends stands.stop⟩

/-- Rows that begin at or before all others and end behind all that come before them stand last. -/
theorem merge_around {rows : List HandlerEntry}
    (within : ∀ row ∈ rows, lower ≤ row.start.toNat ∧ row.stop.toNat ≤ upper)
    {guards : List HandlerEntry}
    (begins : ∀ row ∈ guards, row.start.toNat ≤ lower ∧ upper ≤ row.stop.toNat)
    (rising : guards.Pairwise fun a b => a.stop < b.stop) :
    HandlerEntry.merge rows guards = rows ++ guards := by
  refine HandlerEntry.merge_behind ?_ fun other among row later => ?_
  · refine rising.imp fun {a b} less => Bool.eq_false_iff.2 fun around => ?_
    rw [HandlerEntry.strictlyContains_iff] at around
    exact UInt16.not_le.2 less around.2.1
  · refine Bool.eq_false_iff.2 fun around => ?_
    rw [HandlerEntry.strictlyContains_iff, UInt16.le_iff_toNat_le, UInt16.le_iff_toNat_le,
      ← UInt16.toNat_inj, ← UInt16.toNat_inj.ne] at around
    have inner := within other among
    have outer := begins row later
    omega

/-- Exceptions go to the rows they went to, and else to the first of the rows around. -/
theorem dispatch_around (rewoven : Rewoven old code layers told start final.entries payload)
    {guards : List HandlerEntry} (table : rewoven.table = rewoven.rows ++ guards)
    (isA : String → Bool) {l : Landed} (among : l ∈ rewoven.landed)
    (takes : ∀ row ∈ guards, row.Covers l.place ∧ row.catchType = 0) :
    (∀ before, HandlerEntry.dispatch old isA code.handlers l.offset = some before →
      ∃ after, HandlerEntry.dispatch final.entries isA rewoven.table l.place = some after ∧
        before.Moves old final.entries rewoven.assembled rewoven.landed after) ∧
      (HandlerEntry.dispatch old isA code.handlers l.offset = none →
        HandlerEntry.dispatch final.entries isA rewoven.table l.place = guards.head?) := by
  obtain ⟨took, left⟩ := HandlerEntry.dispatch_moves rewoven.moves isA among
  rw [HandlerEntry.dispatch_filled] at took left
  have whole : HandlerEntry.dispatch final.entries isA rewoven.table l.place =
      (HandlerEntry.dispatch final.entries isA rewoven.rows l.place).or
        (HandlerEntry.dispatch final.entries isA guards l.place) := by
    rw [table]
    exact List.find?_append
  have first : HandlerEntry.dispatch final.entries isA guards l.place = guards.head? := by
    cases guards with
    | nil => rfl
    | cons row rest =>
      obtain ⟨covers, all⟩ := takes row List.mem_cons_self
      have catches : row.catches final.entries isA = true := by
        rw [HandlerEntry.catches, HandlerEntry.caught?, if_pos all]
      refine List.find?_cons_of_pos ?_
      rw [decide_eq_true covers, catches]
      rfl
  rw [whole, first]
  refine ⟨fun before same => ?_, fun nothing => ?_⟩
  · obtain ⟨after, found, moves⟩ := took before same
    exact ⟨after, by rw [found]; rfl, moves⟩
  · rw [left nothing]
    rfl

variable (merged : rewoven.Merged (Layer.runAll layers told start).2 own found injected)
  (enclosed : Layer.Enclosed layers told start ahead between behind closed)
  (bounds : rewoven.layout.Bounds rewoven.assembled ahead between behind lower upper)

include merged enclosed

/-- The blocks that layers have registered, and what has become of them. -/
theorem Merged.become : List.Forall₂ (fun part row? =>
    (Snippet.instructions (ahead ++ between)).length ≤ part.2 ∧
      part.1.Becomes rewoven.assembled final row?) closed injected := by
  have registered := merged.registered
  rw [enclosed.handlers, List.forall₂_map_left_iff] at registered
  exact (List.forall₂_and_left _ _).2 ⟨enclosed.above, registered⟩

include bounds

/-- All rows of layers are around the method, and they end later and later. -/
theorem Merged.rising : (injected.filterMap id).Pairwise (fun a b => a.stop < b.stop) ∧
    ∀ row ∈ injected.filterMap id, row.start.toNat ≤ lower ∧ upper ≤ row.stop.toNat := by
  have numbered : List.Forall₂ (fun part row? => ∀ row ∈ row?,
      ∃ layer, rewoven.Surrounds lower upper layer part.2 row) closed injected := by
    have known : ∀ part ∈ closed, ∃ layer : Layer, (.label part.1.start ∉ between ∧
        .label part.1.start ∉ behind) ∧
        layer.Closes start (Layer.record layers told start) part.1 part.2 := by
      intro part among
      obtain ⟨layer, _, opens, opens', closes⟩ := Outcome.exists_of_forall₂ enclosed.each part among
      exact ⟨layer, ⟨opens, opens'⟩, closes⟩
    refine ((List.forall₂_and_left _ _).2 ⟨known, merged.become enclosed⟩).imp ?_
    rintro part row? ⟨⟨layer, apart, closes⟩, above, becomes⟩ row same
    exact ⟨layer, (merged.surrounds bounds apart closes above becomes).1 row same⟩
  constructor
  · refine List.pairwise_filterMap.2 (Outcome.pairwise_of_forall₂ numbered
      (List.pairwise_map.1 enclosed.rising) fun part row? part' row?' holds holds' less => ?_)
    intro row same row' same'
    obtain ⟨_, one⟩ := holds row same
    obtain ⟨_, other⟩ := holds' row' same'
    exact (MethodRewrite.offset_lt_iff merged.assembles one.stands other.stands).2 less
  · intro row among
    obtain ⟨row?, within, same⟩ := List.mem_filterMap.1 among
    obtain ⟨part, _, holds⟩ := Outcome.exists_of_forall₂ numbered row? within
    obtain ⟨_, one⟩ := holds row same
    exact ⟨one.begins, one.ends⟩

/-- If anything stands within the bounds, every layer has its row around it. -/
theorem Merged.around {place : Nat} (inside : lower ≤ place ∧ place < upper) :
    List.Forall₂ (fun layer row => rewoven.Guards layer row ∧ row.Covers place)
      (layers.filter Layer.guarding) (injected.filterMap id) := by
  have every : List.Forall₂ (fun layer row? => ∃ row, row? = some row ∧
      rewoven.Guards layer row ∧ row.Covers place) (layers.filter Layer.guarding) injected := by
    refine Outcome.forall₂_through enclosed.each (merged.become enclosed) ?_
    rintro layer part row? ⟨opens, opens', closes⟩ ⟨above, becomes⟩
    obtain ⟨holds, some_⟩ := merged.surrounds bounds ⟨opens, opens'⟩ closes above becomes
    obtain ⟨row, rfl⟩ := Option.isSome_iff_exists.1 (some_ (by omega))
    have one := holds row rfl
    exact ⟨row, rfl, one.guards, Nat.le_trans one.begins inside.1,
      Nat.lt_of_lt_of_le inside.2 one.ends⟩
  have rows : List.Forall₂ (fun layer row => rewoven.Guards layer row ∧ row.Covers place)
      ((layers.filter Layer.guarding).filterMap some) (injected.filterMap id) := by
    refine List.rel_filterMap (fun layer row? found => ?_) every
    obtain ⟨row, rfl, holds⟩ := found
    exact .some holds
  rwa [List.filterMap_some] at rows

omit bounds

/-- **The table of a rewritten method** has the rows of its layers for errors behind its own. -/
theorem Merged.guarded
    (count : (told.filterMap MethodEvent.block?).length = code.handlers.length)
    (small : code.code.length ≤ 0xFFFF) :
    ∃ guards, rewoven.Guarded (layers.filter Layer.guarding) guards := by
  -- There are no more blocks in the new body than rows in the old table.
  have same : own = found := merged.among.eq_of_length (by
    rw [merged.each, merged.blocks, enclosed.blocks, count])
  obtain ⟨lower, upper, bounds⟩ := Layout.Assembles.bounds (enclosed.code ▸ merged.assembles)
  obtain ⟨rising, begins⟩ := merged.rising enclosed bounds
  have table : rewoven.table = rewoven.rows ++ injected.filterMap id := by
    rw [merged.table, ← same, ← merged.rows]
    exact merge_around (rows_within bounds enclosed.outside) begins rising
  have around : ∀ l ∈ rewoven.landed, List.Forall₂ (fun layer row =>
      rewoven.Guards layer row ∧ row.Covers l.place) (layers.filter Layer.guarding)
        (injected.filterMap id) := fun l among =>
    merged.around enclosed bounds (landed_within bounds enclosed.outside small l among)
  have takes {l : Landed} (among : l ∈ rewoven.landed) : ∀ row ∈ injected.filterMap id,
      row.Covers l.place ∧ row.catchType = 0 := by
    intro row within
    obtain ⟨_, _, guards, covers⟩ := Outcome.exists_of_forall₂ (around l among) row within
    exact ⟨covers, guards.caught⟩
  refine ⟨_, table, around, fun isA l among => ?_, fun isA l among => ?_, rewoven.emitted⟩
  · exact (rewoven.dispatch_around table isA among (takes among)).1
  · exact (rewoven.dispatch_around table isA among (takes among)).2

end Table

end Rewoven

/-! ## Whole classes -/

/-- The exception table of a method that could be told and is rewritten. -/
def Member.Guarded (probes : List Probe) (entries : Entries) (className : String)
    (member : Member) (method : MethodContext) (target : RewriteTarget) (final : Entries)
    (payload : Bytes) : Prop :=
  ∃ code told, member.code? entries = .ok (some code) ∧
    (member.tell entries className method.name method.descriptor).Told (told ++ [.finish]) ∧
    (code.code.length ≤ 0xFFFF →
      ∃ (rewoven : Rewoven entries code (probes.map fun probe => Layer.start probe method) told
          (MethodRewrite.start target method) final payload) (guards : List HandlerEntry),
        rewoven.Guarded ((probes.filter fun probe => probe.location.kind == .error).map
          fun probe => Layer.start probe method) guards)

/-- **Exceptions still go where they went, and else to the outermost probe for errors.**  Whatever
snippets the probes bring, in every method of the class with a new payload that is not a constructor
each probe for errors has a row around all instructions of the method, behind all rows that the
method had and without its own handler, and those of outer probes come first.  The payload has as
many rows of this table as two bytes can count. -/
theorem weaveMethods_guards {probes : List Probe} {className : String} {bytes : Bytes}
    {file : ClassFile} (read : ClassFile.read bytes = .ok file)
    (snippets : ∀ probe ∈ probes, ∃ code : Snippet, probe.code = Snippet.probeCode code)
    {options : Options} {hierarchy : Hierarchy} {target : RewriteTarget} {fault : Option ReadError}
    (woven : weaveMethods probes file.entries className options file.methods.zipIdx
      (RewriteTarget.start className file.major (ConstantPool.ofEntries file.entries) hierarchy
        options) = (target, fault))
    {index : Nat} {payload : Bytes} (rewritten : (index, payload) ∈ target.rewritten) :
    ∃ member name descriptor before, (member, index) ∈ file.methods.zipIdx ∧
      file.entries.utf8 member.name = .ok name ∧
      file.entries.utf8 member.descriptor = .ok descriptor ∧
      (ConstantPool.ofEntries file.entries).Grown before.pool ∧
      (name ≠ constructorName →
        member.Guarded (probes.filter fun probe => probe.appliesTo name descriptor) file.entries
          className ⟨index, member.access, name, descriptor⟩ before target.pool.entries payload) := by
  have harmless := Snippet.probes_harmless snippets
  obtain ⟨before, pool, member, name, descriptor, rewrites⟩ :=
    weaveMethods_rewrites harmless woven rewritten
  refine ⟨member, name, descriptor, before, rewrites.among, rewrites.named, rewrites.described,
    rewrites.grown, fun ordinary => ?_⟩
  obtain ⟨code, told, known, body, done⟩ := rewrites.rewrites
  refine ⟨code, told, known, Member.tell_of_code known body, fun small => ?_⟩
  have unfailed := rewrites.unfailed code told known body
  have fine : ∀ layer ∈ (probes.filter fun probe => probe.appliesTo name descriptor).map
      fun probe => Layer.start probe ⟨index, member.access, name, descriptor⟩,
      layer.probe.Harmless ∧ layer.probe.Obeys tame ∧ layer.Ready := by
    intro layer among
    obtain ⟨probe, chosen, rfl⟩ := List.mem_map.1 among
    have own := (List.mem_filter.1 chosen).1
    obtain ⟨_, same⟩ := snippets probe own
    exact ⟨harmless probe own, Snippet.probeCode_obeys same,
      Layer.ready_start probe (decide_eq_false ordinary)⟩
  obtain ⟨rewoven, own, found, injected, merged⟩ := rewoven_merged (fun layer among =>
    (fine layer among).1) rewrites.grown (ClassFile.fits_of_read read).slotted body small done
    rewrites.later
  obtain ⟨amid, rfl, calm, count⟩ := CodeAttribute.tell_amid body
  -- The labels of the method were read from its code, so no label made by a layer is among them.
  have old : ∀ label ∈ amid.filterMap MethodEvent.label?, label.IsOld := by
    intro label among
    refine CodeAttribute.told_old body small label ?_
    rw [List.filterMap_cons, List.filterMap_append]
    exact List.mem_append_left _ among
  obtain ⟨ahead, between, behind, closed, enclosed⟩ := Layer.runAll_enclosed (fun layer among =>
    (fine layer among).2.1) (fun layer among => (fine layer among).2.2) calm old rfl rfl unfailed
  obtain ⟨guards, guarded⟩ := merged.guarded enclosed count small
  have kinds : (fun probe => (Layer.start probe ⟨index, member.access, name, descriptor⟩).guarding) =
      fun probe => probe.location.kind == .error := funext fun probe => Layer.guarding_start probe _
  rw [List.filter_map, Function.comp_def, kinds] at guarded
  exact ⟨rewoven, guards, guarded⟩

/-- `class A { static void m() }`, where `m` is a `return` and an `athrow` that takes what the
`return` throws. -/
def Sample.covered : Bytes :=
  [0xCA, 0xFE, 0xBA, 0xBE, 0, 0, 0, 49,
    0, 6, 1, 0, 1, 65, 7, 0, 1, 1, 0, 1, 109, 1, 0, 3, 40, 41, 86, 1, 0, 4, 67, 111, 100, 101,
    0, 1, 0, 2, 0, 0, 0, 0, 0, 0, 0, 1, 0, 8, 0, 3, 0, 4, 0, 1,
    0, 5, 0, 0, 0, 22, 0, 1, 0, 0, 0, 0, 0, 2, 0xB1, 0xBF,
    0, 1, 0, 0, 0, 1, 0, 1, 0, 0, 0, 0, 0, 0]

/-- Two probes for errors in class `A`, the outer one with a `nop`. -/
def Sample.twoOnError : List Probe :=
  [⟨"A", "", none, ⟨"", "", "", "", 0, .error, .before⟩,
      Snippet.probeCode [.insn (.simple Opcode.nop)]⟩,
    ⟨"A", "", none, ⟨"", "", "", "", 0, .error, .before⟩, Snippet.probeCode []⟩]

/-- The new code of `m`: the handler of the outer probe begins at 2, that of the inner one at 7. -/
def Sample.doublyGuarded : Bytes :=
  [0, 2, 0, 2, 0, 0, 0, 11, 0xB1, 0xBF, 0x59, 0x3A, 0, 0, 0xBF, 0x59, 0x3A, 1, 0xBF,
    0, 3, 0, 0, 0, 1, 0, 1, 0, 0, 0, 0, 0, 2, 0, 2, 0, 0, 0, 0, 0, 7, 0, 7, 0, 0, 0, 0]

theorem weaveMethods_guards_covered : ∃ file target, ClassFile.read Sample.covered = .ok file ∧
    (∀ probe ∈ Sample.twoOnError, ∃ code : Snippet, probe.code = Snippet.probeCode code) ∧
    (weaveMethods Sample.twoOnError file.entries "A" Options.standard file.methods.zipIdx
      (RewriteTarget.start "A" file.major (ConstantPool.ofEntries file.entries) Hierarchy.flat
        Options.standard)).1 = target ∧
    (0, Sample.doublyGuarded) ∈ target.rewritten ∧
    ∃ member name descriptor before, (member, 0) ∈ file.methods.zipIdx ∧
      file.entries.utf8 member.name = .ok name ∧
      file.entries.utf8 member.descriptor = .ok descriptor ∧
      (ConstantPool.ofEntries file.entries).Grown before.pool ∧
      (name ≠ constructorName →
        member.Guarded (Sample.twoOnError.filter fun probe => probe.appliesTo name descriptor)
          file.entries "A" ⟨0, member.access, name, descriptor⟩ before target.pool.entries
          Sample.doublyGuarded) := by
  have runs : ((ClassFile.read Sample.covered).toOption.any fun file =>
      decide ((0, Sample.doublyGuarded) ∈
        (weaveMethods Sample.twoOnError file.entries "A" Options.standard
          file.methods.zipIdx (RewriteTarget.start "A" file.major
            (ConstantPool.ofEntries file.entries) Hierarchy.flat
            Options.standard)).1.rewritten)) = true := by decide +kernel
  have snippets : ∀ probe ∈ Sample.twoOnError,
      ∃ code : Snippet, probe.code = Snippet.probeCode code :=
    List.forall_mem_cons.2 ⟨⟨_, rfl⟩, List.forall_mem_singleton.2 ⟨_, rfl⟩⟩
  obtain ⟨file, read, written⟩ := Outcome.exists_of_any runs
  have rewritten := of_decide_eq_true written
  exact ⟨file, _, read, snippets, rfl, rewritten, weaveMethods_guards read snippets rfl rewritten⟩

end ClassWeave
