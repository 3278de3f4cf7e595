/-
# ClassWeave.Proofs.ConstructorPrologue -- when the object of a constructor becomes usable

A constructor may use its object once it has called a constructor on it.  Simulated
frames know that call by the type of what it takes (`Frame.constructed?`); a `Prologue`
does not look at frames and counts instead, one more for every object that is created
and one less for every constructor that is called.

`Prologue.answers_eq` compares the two on straight-line code: as long as the constructor
calls take objects that are under construction, the count is the number of objects that
were created and not constructed.  So the prologue ends at the call on its own object if
and only if there are none left by then.  An object that is created and given up keeps it
from ending there (`Prologue.answers_given_up`).
-/
import ClassWeave.Proofs.UnderConstruction
import ClassWeave.Rewrite.Layer
import Mathlib.Data.List.Nodup
import Mathlib.Data.List.Perm.Subperm

set_option autoImplicit false

namespace ClassWeave

/-! ## Straight-line code -/

/-- The place of an object that the instruction creates. -/
def Instruction.creation? (position : Label) : Instruction → Option Label
  | .type op _ => if op = Opcode.new then some position else none
  | _ => none

def FrameType.isUnready : FrameType → Bool
  | .uninitializedThis | .uninitialized _ => true
  | _ => false

theorem FrameType.isUnready_cases {type : FrameType} (unready : type.isUnready = true)
    (other : type ≠ .uninitializedThis) : ∃ site, type = .uninitialized site := by
  cases type <;> first
    | exact ⟨_, rfl⟩
    | exact absurd rfl other
    | cases unready

namespace Frame

/-- What a constructor call takes as the object to be constructed. -/
def constructed? (frame : Frame) : Instruction → Option FrameType
  | .method op target _ =>
    if op = Opcode.invokespecial ∧ target.name = constructorName then
      (MethodType.parse? target.descriptor).bind fun type => frame.stack[type.params.length]?
    else none
  | _ => none

/-- What a call takes lies on the stack. -/
theorem mem_of_constructed? {frame : Frame} {insn : Instruction} {type : FrameType}
    (takes : frame.constructed? insn = some type) : type ∈ frame.stack := by
  cases insn with
  | method op target isInterface =>
    rw [constructed?] at takes
    split at takes
    · obtain ⟨_, _, there⟩ := Option.bind_eq_some_iff.1 takes
      exact List.mem_of_getElem? there
    · cases takes
  | _ => cases takes

/-- Instructions run one after the other, each at its place. -/
def run (className : String) (frame : Frame) (code : List (Label × Instruction)) :
    Except InstrumentError Frame :=
  code.foldlM (fun frame (position, insn) => frame.execute insn position className) frame

/-- What the constructor calls take, as far as the code runs. -/
def receivers (className : String) : Frame → List (Label × Instruction) → List FrameType
  | _, [] => []
  | frame, (position, insn) :: rest =>
    (frame.constructed? insn).toList ++
      match frame.execute insn position className with
      | .ok after => receivers className after rest
      | .error _ => []

variable {className : String} {frame after reached : Frame} {position : Label} {insn : Instruction}
  {early late rest : List (Label × Instruction)}

theorem run_cons_eq_ok (ran : frame.run className ((position, insn) :: rest) = .ok reached) :
    ∃ after, frame.execute insn position className = .ok after ∧
      after.run className rest = .ok reached :=
  Outcome.bind_eq_ok.1 ran

theorem receivers_append : ∀ {early : List (Label × Instruction)} {frame : Frame},
    frame.run className early = .ok reached →
      frame.receivers className (early ++ late) =
        frame.receivers className early ++ reached.receivers className late
  | [], _, ran => by
    cases ran
    rfl
  | (position, insn) :: rest, frame, ran => by
    obtain ⟨after, first, ran⟩ := run_cons_eq_ok ran
    simp only [List.cons_append, receivers, first, receivers_append ran, List.append_assoc]

/-- A constructor call that runs takes an object, and leaves no copy of it that is under
construction. -/
theorem execute_construction {op : Opcode} {target : MemberRef} {isInterface : Bool}
    (own : op = Opcode.invokespecial ∧ target.name = constructorName)
    (ran : frame.execute (.method op target isInterface) position className = .ok after) :
    ∃ receiver, frame.constructed? (.method op target isInterface) = some receiver ∧
      ∀ site, receiver = .uninitialized site → after.SitesIn (· ≠ site) := by
  obtain ⟨effect, told, changed⟩ := execute_eq_ok ran
  obtain ⟨type, parsed, told⟩ := Outcome.bind_eq_ok.1 told
  obtain ⟨pushed, made, told⟩ := Outcome.bind_eq_ok.1 told
  have nonstatic : op ≠ Opcode.invokestatic := by
    rw [own.1]
    decide
  rw [if_neg nonstatic, if_pos own.2] at told
  cases told
  rw [after?] at changed
  split at changed <;> cases changed
  rename_i receiver stack top
  have known : MethodType.parse? target.descriptor = some type := by
    unfold MethodType.parse at parsed
    split at parsed <;> cases parsed
    assumption
  refine ⟨receiver, ?_, ?_⟩
  · rw [constructed?, if_pos own, known, Option.bind_some, ← List.head?_drop, top]
    rfl
  · rintro site rfl
    -- All copies of what is constructed become something else.
    have built (types : List FrameType) : ClassWeave.SitesIn (· ≠ site) (types.map fun type =>
        if type = .uninitialized site then .object target.owner else type) := by
      rintro other among rfl
      obtain ⟨type, _, same⟩ := List.mem_map.1 among
      split at same
      · cases same
      · contradiction
    refine ⟨built frame.locals, .append ?_ (built stack)⟩
    rintro other among rfl
    cases MethodType.isValue_of_pushed made _ among

end Frame

/-- The places of the objects that are created. -/
def creations (code : List (Label × Instruction)) : List Label :=
  code.filterMap fun (position, insn) => insn.creation? position

/-! ## The count -/

namespace Prologue

def passed (prologue : Prologue) (insns : List Instruction) : Prologue :=
  insns.foldl (fun prologue insn => (prologue.step insn).2) prologue

/-- Whether the prologue ends, at each of the instructions. -/
def answers : Prologue → List Instruction → List Bool
  | _, [] => []
  | prologue, insn :: rest => (prologue.step insn).1 :: (prologue.step insn).2.answers rest

theorem answers_append (late : List Instruction) : ∀ (early : List Instruction)
    (prologue : Prologue), prologue.answers (early ++ late) =
      prologue.answers early ++ (prologue.passed early).answers late
  | [], _ => rfl
  | _ :: early, _ => congrArg (_ :: ·) (answers_append late early _)

/-- A prologue ends once. -/
theorem answers_of_done : ∀ (insns : List Instruction) {prologue : Prologue},
    prologue.waiting = false → prologue.answers insns = List.replicate insns.length false
  | [], _, _ => rfl
  | insn :: rest, prologue, done => by
    have still : prologue.step insn = (false, prologue) := by
      unfold step
      rw [done]
      rfl
    rw [answers, still, answers_of_done rest done]
    rfl

/-- The prologue counts the objects that were created and not constructed so far, and the frame has
no others under construction but its own. -/
structure Follows (prologue : Prologue) (frame : Frame) (created : List Label)
    (taken : List FrameType) : Prop where
  waiting : prologue.waiting = true
  count : prologue.pending + taken.length = created.length
  once : taken.Nodup
  known : ∀ type ∈ taken, ∃ site ∈ created, type = .uninitialized site
  sites : frame.SitesIn fun site => site ∈ created ∧ .uninitialized site ∉ taken

variable {prologue : Prologue} {className : String} {frame after reached : Frame}
  {created : List Label} {taken : List FrameType} {position : Label} {insn : Instruction}

namespace Follows

theorem length_lt (follows : Follows prologue frame created taken) {site : Label}
    (among : site ∈ created) (left : .uninitialized site ∉ taken) :
    taken.length < created.length := by
  have subset : .uninitialized site :: taken ⊆ created.map FrameType.uninitialized := by
    refine List.cons_subset.2 ⟨List.mem_map_of_mem among, fun type old => ?_⟩
    obtain ⟨site, known, rfl⟩ := follows.known type old
    exact List.mem_map_of_mem known
  have fits := ((List.nodup_cons.2 ⟨left, follows.once⟩).subperm subset).length_le
  rwa [List.length_cons, List.length_map] at fits

/-- Nothing is pending if all that was created is constructed. -/
theorem pending_eq_zero (follows : Follows prologue frame created taken)
    (apart : created.Nodup) :
    prologue.pending = 0 ↔ ∀ site ∈ created, .uninitialized site ∈ taken := by
  have count := follows.count
  constructor
  · intro none_ site among
    by_contra left
    have less := follows.length_lt among left
    omega
  · intro all
    have subset : created.map FrameType.uninitialized ⊆ taken := fun type among => by
      obtain ⟨site, known, rfl⟩ := List.mem_map.1 among
      exact all site known
    have distinct : (created.map FrameType.uninitialized).Nodup :=
      apart.map fun _ _ same => FrameType.uninitialized.inj same
    have fits := (distinct.subperm subset).length_le
    rw [List.length_map] at fits
    omega

theorem create (follows : Follows prologue frame created taken) {name : String}
    (apart : position ∉ created)
    (ran : frame.execute (.type Opcode.new name) position className = .ok after) :
    (prologue.step (.type Opcode.new name)).1 = false ∧
      Follows (prologue.step (.type Opcode.new name)).2 after (created ++ [position]) taken := by
  obtain ⟨waiting, count, once, known, sites⟩ := follows
  have step : prologue.step (.type Opcode.new name) =
      (false, { prologue with pending := prologue.pending + 1 }) := by
    unfold Prologue.step
    rw [waiting]
    rfl
  have untaken : .uninitialized position ∉ taken := fun among => by
    obtain ⟨site, old, same⟩ := known _ among
    cases same
    exact apart old
  rw [step]
  refine ⟨rfl, waiting, ?_, once, fun type among => ?_, ?_⟩
  · simp only [List.length_append, List.length_singleton]
    omega
  · obtain ⟨site, old, same⟩ := known type among
    exact ⟨site, List.mem_append_left _ old, same⟩
  · have grown := sites.mono fun site (old : site ∈ created ∧ _) =>
      And.intro (List.mem_append_left [position] old.1) old.2
    exact Frame.execute_sites grown
      (fun _ _ => ⟨List.mem_append_right _ List.mem_cons_self, untaken⟩) ran

/-- An object is constructed: one less is pending, and nothing names its site any more. -/
theorem take (follows : Follows prologue frame created taken) {site : Label} {pending : Nat}
    (old : site ∈ created) (less : prologue.pending = pending + 1)
    (still : after.SitesIn fun site => site ∈ created ∧ .uninitialized site ∉ taken)
    (gone : after.SitesIn (· ≠ site)) (untaken : .uninitialized site ∉ taken) :
    Follows { prologue with pending := pending } after created (taken ++ [.uninitialized site]) := by
  obtain ⟨waiting, count, once, known, _⟩ := follows
  have apart {other : Label} (kept : other ∈ created ∧ .uninitialized other ∉ taken)
      (own : other ≠ site) : other ∈ created ∧
        .uninitialized other ∉ taken ++ [.uninitialized site] := by
    refine ⟨kept.1, fun among => ?_⟩
    rcases List.mem_append.1 among with earlier | now
    · exact kept.2 earlier
    · exact own (FrameType.uninitialized.inj (List.mem_singleton.1 now))
  refine ⟨waiting, ?_, ?_, ?_, fun other among => ?_, fun other among => ?_⟩
  · simp only [List.length_append, List.length_singleton]
    omega
  · refine List.nodup_append.2 ⟨once, List.pairwise_singleton _ _, fun type among other same => ?_⟩
    rw [List.mem_singleton.1 same]
    rintro rfl
    exact untaken among
  · intro type among
    rcases List.mem_append.1 among with earlier | now
    · exact known type earlier
    · exact ⟨site, old, List.mem_singleton.1 now⟩
  · exact apart (still.locals other among) (gone.locals other among)
  · exact apart (still.stack other among) (gone.stack other among)

theorem construct (follows : Follows prologue frame created taken) {op : Opcode}
    {target : MemberRef} {isInterface : Bool} {site : Label}
    (own : op = Opcode.invokespecial ∧ target.name = constructorName)
    (takes : frame.constructed? (.method op target isInterface) = some (.uninitialized site))
    (ran : frame.execute (.method op target isInterface) position className = .ok after) :
    (prologue.step (.method op target isInterface)).1 = false ∧
      Follows (prologue.step (.method op target isInterface)).2 after created
        (taken ++ [.uninitialized site]) := by
  obtain ⟨receiver, same, gone⟩ := Frame.execute_construction own ran
  rw [takes] at same
  cases same
  obtain ⟨old, untaken⟩ := follows.sites.stack site (Frame.mem_of_constructed? takes)
  -- There is one object more that was created than were constructed.
  have ahead := follows.length_lt old untaken
  have count := follows.count
  obtain ⟨pending, more⟩ : ∃ pending, prologue.pending = pending + 1 :=
    ⟨prologue.pending - 1, by omega⟩
  have step : prologue.step (.method op target isInterface) =
      (false, { prologue with pending := pending }) := by
    unfold Prologue.step
    rw [follows.waiting]
    simp only [Bool.not_true, Bool.false_eq_true, if_false, if_pos own, more]
  have still : after.SitesIn fun site => site ∈ created ∧ .uninitialized site ∉ taken :=
    Frame.execute_sites follows.sites (fun name same => by cases same) ran
  rw [step]
  exact ⟨rfl, follows.take old more still (gone site rfl) untaken⟩

theorem other (follows : Follows prologue frame created taken)
    (plain : insn.creation? position = none)
    (quiet : ∀ op target isInterface, insn = .method op target isInterface →
      ¬ (op = Opcode.invokespecial ∧ target.name = constructorName))
    (ran : frame.execute insn position className = .ok after) :
    prologue.step insn = (false, prologue) ∧ Follows prologue after created taken := by
  have step : prologue.step insn = (false, prologue) := by
    unfold Prologue.step
    split
    · rfl
    · split
      · rename_i op name
        refine if_neg fun creates => ?_
        rw [Instruction.creation?, if_pos creates] at plain
        cases plain
      · exact if_neg (quiet _ _ _ rfl)
      · rfl
  refine ⟨step, follows.waiting, follows.count, follows.once, follows.known, ?_⟩
  refine Frame.execute_sites follows.sites ?_ ran
  rintro name rfl
  cases plain

theorem step (follows : Follows prologue frame created taken)
    (apart : ∀ site, insn.creation? position = some site → site ∉ created)
    (others : ∀ receiver, frame.constructed? insn = some receiver →
      ∃ site, receiver = .uninitialized site)
    (ran : frame.execute insn position className = .ok after) :
    (prologue.step insn).1 = false ∧
      Follows (prologue.step insn).2 after (created ++ (insn.creation? position).toList)
        (taken ++ (frame.constructed? insn).toList) := by
  -- Neither an object made nor one constructed: the counts of both sides stand still.
  have rest (plain : insn.creation? position = none) (idle : frame.constructed? insn = none)
      (quiet : ∀ op target isInterface, insn = .method op target isInterface →
        ¬ (op = Opcode.invokespecial ∧ target.name = constructorName)) :
      (prologue.step insn).1 = false ∧
        Follows (prologue.step insn).2 after (created ++ (insn.creation? position).toList)
          (taken ++ (frame.constructed? insn).toList) := by
    obtain ⟨step, still⟩ := follows.other plain quiet ran
    rw [step, plain, idle]
    simpa only [Option.toList_none, List.append_nil, true_and] using still
  cases insn with
  | type op name =>
    by_cases creates : op = Opcode.new
    · subst creates
      have places : Instruction.creation? position (.type Opcode.new name) = some position := rfl
      have goes := follows.create (apart position places) ran
      rw [places, show frame.constructed? (.type Opcode.new name) = none from rfl]
      simpa only [Option.toList_some, Option.toList_none, List.append_nil] using goes
    · exact rest (if_neg creates) rfl (fun _ _ _ same => by cases same)
  | method op target isInterface =>
    by_cases own : op = Opcode.invokespecial ∧ target.name = constructorName
    · obtain ⟨receiver, takes, _⟩ := Frame.execute_construction own ran
      obtain ⟨site, rfl⟩ := others receiver takes
      have goes := follows.construct own takes ran
      rw [show Instruction.creation? position (.method op target isInterface) = none from rfl, takes]
      simpa only [Option.toList_some, Option.toList_none, List.append_nil] using goes
    · refine rest rfl (if_neg own) fun _ _ _ same => ?_
      cases same
      exact own
  | _ => exact rest rfl rfl (fun _ _ _ same => by cases same)

/-- As long as no constructor is called on the object of the method itself, the prologue goes on. -/
theorem run : ∀ (code : List (Label × Instruction)) {prologue : Prologue} {frame : Frame}
    {created : List Label} {taken : List FrameType}, Follows prologue frame created taken →
    (created ++ creations code).Nodup →
    (∀ receiver ∈ frame.receivers className code, ∃ site, receiver = .uninitialized site) →
    frame.run className code = .ok reached →
    prologue.answers (code.map Prod.snd) = List.replicate code.length false ∧
      Follows (prologue.passed (code.map Prod.snd)) reached (created ++ creations code)
        (taken ++ frame.receivers className code)
  | [], _, _, _, _, follows, _, _, ran => by
    cases ran
    simp only [creations, Frame.receivers, List.filterMap_nil, List.append_nil]
    exact ⟨rfl, follows⟩
  | (position, insn) :: rest, prologue, frame, created, taken, follows, apart, others, ran => by
    obtain ⟨after, first, ran⟩ := Frame.run_cons_eq_ok ran
    have told : creations ((position, insn) :: rest) =
        (insn.creation? position).toList ++ creations rest := by
      cases made : insn.creation? position <;> simp [creations, made]
    have takes : frame.receivers className ((position, insn) :: rest) =
        (frame.constructed? insn).toList ++ after.receivers className rest := by
      rw [Frame.receivers, first]
    rw [told] at apart
    rw [takes] at others
    obtain ⟨answer, follows⟩ := follows.step (fun site made old => by
      rw [made] at apart
      exact (List.nodup_append.1 apart).2.2 site old site (by simp) rfl)
      (fun receiver taking => others receiver (by simp [taking])) first
    obtain ⟨answers, follows⟩ := run rest follows (by rwa [List.append_assoc])
      (fun receiver among => others receiver (List.mem_append_right _ among)) ran
    rw [told, takes, ← List.append_assoc, ← List.append_assoc]
    refine ⟨?_, follows⟩
    rw [List.map_cons, Prologue.answers, answer, answers]
    rfl

end Follows

/-- A constructor call ends the prologue if nothing is pending. -/
theorem step_of_call (waiting : prologue.waiting = true) {receiver : FrameType}
    (takes : frame.constructed? insn = some receiver) :
    (prologue.step insn).1 = decide (prologue.pending = 0) ∧
      (prologue.pending = 0 → (prologue.step insn).2.waiting = false) := by
  cases insn with
  | method op target isInterface =>
    have own : op = Opcode.invokespecial ∧ target.name = constructorName := by
      by_contra no
      rw [Frame.constructed?, if_neg no] at takes
      cases takes
    unfold step
    simp only [waiting, Bool.not_true, Bool.false_eq_true, if_false, if_pos own]
    cases prologue.pending <;> simp
  | _ => cases takes

/-- A method is entered with nothing created. -/
theorem follows_start {method : MethodContext} (own : method.isConstructor = true)
    (enters : Frame.initial className method.name method.descriptor method.isStatic = .ok frame) :
    Follows (start method) frame [] [] :=
  ⟨own, rfl, .nil, nofun, Frame.initial_sites enters⟩

/-- **When the prologue of a constructor ends**, in straight-line code whose constructor calls take
objects under construction, every created object having a place of its own.  Without a call on the
object of the constructor it does not end.  With one it ends at the first, and only there, if all
objects created before have been constructed; if one was not, it does not end there. -/
theorem answers_eq {method : MethodContext} (own : method.isConstructor = true)
    {entry final : Frame} {code : List (Label × Instruction)}
    (enters : Frame.initial className method.name method.descriptor method.isStatic = .ok entry)
    (runs : entry.run className code = .ok final) (apart : (creations code).Nodup)
    (unready : ∀ receiver ∈ entry.receivers className code, receiver.isUnready = true) :
    let answers := (start method).answers (code.map Prod.snd)
    (.uninitializedThis ∉ entry.receivers className code →
      answers = List.replicate code.length false) ∧
    ∀ early call late before, code = early ++ call :: late →
      entry.run className early = .ok before →
      .uninitializedThis ∉ entry.receivers className early →
      before.constructed? call.2 = some .uninitializedThis →
      ((∀ site ∈ creations early, .uninitialized site ∈ entry.receivers className early) →
        answers = List.replicate early.length false ++ true :: List.replicate late.length false) ∧
      ((∃ site ∈ creations early, .uninitialized site ∉ entry.receivers className early) →
        answers.take (early.length + 1) = List.replicate (early.length + 1) false) := by
  intro answers
  have begins := follows_start own enters
  refine ⟨fun never => ?_, fun early call late before split ran first takes => ?_⟩
  · exact (begins.run code (by rwa [List.nil_append]) (fun receiver among =>
      FrameType.isUnready_cases (unready receiver among) fun same => never (same ▸ among)) runs).1
  · rw [split, Frame.receivers_append ran] at unready
    have places : (creations early).Nodup := by
      rw [split, creations, List.filterMap_append] at apart
      exact (List.nodup_append.1 apart).1
    obtain ⟨falses, follows⟩ := begins.run early (by rwa [List.nil_append])
      (fun receiver among => FrameType.isUnready_cases
        (unready receiver (List.mem_append_left _ among)) fun same => first (same ▸ among)) ran
    rw [List.nil_append, List.nil_append] at follows
    obtain ⟨answer, ends⟩ := step_of_call follows.waiting takes
    have shape : answers = List.replicate early.length false ++
        decide (((start method).passed (early.map Prod.snd)).pending = 0) ::
          (((start method).passed (early.map Prod.snd)).step call.2).2.answers
            (late.map Prod.snd) := by
      rw [← answer, ← falses]
      simp only [answers, split, List.map_append, answers_append, List.map_cons]
      rfl
    have settled := follows.pending_eq_zero places
    constructor
    · intro all
      have none_ := settled.2 all
      rw [shape, answers_of_done _ (ends none_), none_, List.length_map]
      rfl
    · rintro ⟨site, among, left⟩
      have some_ : ((start method).passed (early.map Prod.snd)).pending ≠ 0 :=
        fun none_ => left (settled.1 none_ site among)
      rw [shape, decide_eq_false some_, List.replicate_succ', List.append_cons]
      exact List.take_left' (by simp)

end Prologue

/-! ## Two constructors -/

namespace Sample

/-- The constructor without parameters. -/
def constructor : MethodContext := ⟨0, 1, "<init>", "()V"⟩

def construct (owner : String) : Instruction :=
  .method Opcode.invokespecial ⟨owner, "<init>", "()V"⟩ false

/-- `Object o = new Object();` on the way to the call of the other constructor. -/
def nested : List (Label × Instruction) :=
  [(⟨0⟩, .simple Opcode.aload0), (⟨1⟩, .type Opcode.new "java/lang/Object"),
    (⟨4⟩, .simple Opcode.dup), (⟨5⟩, construct "java/lang/Object"), (⟨8⟩, .simple Opcode.pop),
    (⟨9⟩, construct "java/lang/Object"), (⟨12⟩, .simple Opcode.voidReturn)]

/-- An object is created and dropped, and its constructor is never called. -/
def givenUp : List (Label × Instruction) :=
  [(⟨0⟩, .type Opcode.new "java/lang/Object"), (⟨3⟩, .simple Opcode.pop),
    (⟨4⟩, .simple Opcode.aload0), (⟨5⟩, construct "java/lang/Object"),
    (⟨8⟩, .simple Opcode.voidReturn)]

end Sample

/-- The count follows the nesting. -/
theorem Prologue.answers_eq_nested :
    Sample.constructor.isConstructor = true ∧
    ∃ entry final : Frame,
      Frame.initial "A" Sample.constructor.name Sample.constructor.descriptor
        Sample.constructor.isStatic = .ok entry ∧
      entry.run "A" Sample.nested = .ok final ∧ (creations Sample.nested).Nodup ∧
      (∀ receiver ∈ entry.receivers "A" Sample.nested, receiver.isUnready = true) ∧
      (start Sample.constructor).answers (Sample.nested.map Prod.snd) =
        [false, false, false, false, false, true, false] := by
  let entry : Frame := ⟨[.uninitializedThis], []⟩
  have enters : Frame.initial "A" Sample.constructor.name Sample.constructor.descriptor
      Sample.constructor.isStatic = .ok entry := by decide +kernel
  have runs : entry.run "A" Sample.nested = .ok ⟨[.object "A"], []⟩ := by decide +kernel
  have apart : (creations Sample.nested).Nodup := by decide +kernel
  have unready : ∀ receiver ∈ entry.receivers "A" Sample.nested, receiver.isUnready = true := by
    decide +kernel
  have own : Sample.constructor.isConstructor = true := by decide +kernel
  have ends := (answers_eq own enters runs apart unready).2 (Sample.nested.take 5)
    (⟨9⟩, Sample.construct "java/lang/Object") (Sample.nested.drop 6)
    ⟨[.uninitializedThis], [.uninitializedThis]⟩ rfl (by decide +kernel) (by decide +kernel)
    (by decide +kernel)
  exact ⟨own, entry, _, enters, runs, apart, unready, ends.1 (by decide +kernel)⟩

/-- An object that is given up counts for ever, and the prologue misses its end: the code runs, a
constructor is called on the object of the method, and the prologue does not end at all. -/
theorem Prologue.answers_given_up :
    ∃ entry before final : Frame,
      Frame.initial "A" Sample.constructor.name Sample.constructor.descriptor
        Sample.constructor.isStatic = .ok entry ∧
      entry.run "A" Sample.givenUp = .ok final ∧
      entry.run "A" (Sample.givenUp.take 3) = .ok before ∧
      before.constructed? (Sample.construct "java/lang/Object") = some .uninitializedThis ∧
      Sample.givenUp[3]? = some (⟨5⟩, Sample.construct "java/lang/Object") ∧
      (start Sample.constructor).answers (Sample.givenUp.map Prod.snd) =
        List.replicate 5 false := by
  refine ⟨⟨[.uninitializedThis], []⟩, ⟨[.uninitializedThis], [.uninitializedThis]⟩,
    ⟨[.object "A"], []⟩, ?_⟩
  decide +kernel

end ClassWeave
