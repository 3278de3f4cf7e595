/-
# ClassWeave.Proofs.ClassBuilding -- a class file built part by part

A builder interns what a part names and keeps the indexes.  `ClassBlueprint` keeps the parts
themselves, and `ClassFile.Follows` says that a class file has just these parts, all of
them, by the constants that its indexes lead to.  Every part that is added to a builder
without a fault keeps the two together (`ClassBuilder.Tracks`), and a fault stays.

So the bytes of a class are those of a file that follows its blueprint
(`ClassBuilder.toBytes_follows`).  No part is left out on the way, but the numbers in front
of the tables are cut to two bytes, and no builder checks them: a method with 65536
handlers is written with a count of zero (`Sample.crowded_unread`).
-/
import ClassWeave.ClassFile.Builder
import ClassWeave.Proofs.CodeTables

set_option autoImplicit false

namespace ClassWeave

/-! ## Parts and blueprints -/

/-- A part of a class, as it is given to a builder. -/
inductive ClassPart
  | header (major minor access : UInt16) (name : String) (superName : Option String)
      (interfaces : List String)
  | source (file : String)
  | field (access : UInt16) (name descriptor : String)
  | method (access : UInt16) (name descriptor : String) (events : List MethodEvent)

namespace ClassBuilder

def add (builder : ClassBuilder) : ClassPart → ClassBuilder
  | .header major minor access name superName interfaces =>
    builder.header major minor access name superName interfaces
  | .source file => builder.source file
  | .field access name descriptor => builder.field access name descriptor
  | .method access name descriptor events => builder.method access name descriptor events

def ofParts (parts : List ClassPart) : ClassBuilder := parts.foldl add empty

end ClassBuilder

structure FieldBlueprint where
  access : UInt16
  name : String
  descriptor : String

structure MethodBlueprint where
  access : UInt16
  name : String
  descriptor : String
  /-- The body of a method that told its sizes. -/
  body? : Option MethodBody
  withFrames : Bool

namespace MethodBlueprint

/-- A method in a class of the version `major`. -/
def ofEvents (major access : UInt16) (name descriptor : String) (events : List MethodEvent) :
    MethodBlueprint :=
  let (hasCode, body) := events.foldl ClassBuilder.addEvent (false, MethodBody.empty)
  ⟨access, name, descriptor, if hasCode then some body else none,
    ClassBuilder.framedVersion ≤ major⟩

end MethodBlueprint

/-- The parts of a class that were given.  A later header adds interfaces and replaces the rest; one
that names no superclass leaves the one there was. -/
structure ClassBlueprint where
  major : UInt16
  minor : UInt16
  access : UInt16
  name? : Option String
  superName? : Option String
  interfaces : List String
  sources : List String
  fields : List FieldBlueprint
  methods : List MethodBlueprint

namespace ClassBlueprint

def empty : ClassBlueprint := ⟨ClassBuilder.framedVersion, 0, 0, none, none, [], [], [], []⟩

def add (print : ClassBlueprint) : ClassPart → ClassBlueprint
  | .header major minor access name superName? interfaces =>
    { print with
      major := major, minor := minor, access := access, name? := some name
      superName? := superName?.or print.superName?
      interfaces := print.interfaces ++ interfaces }
  | .source file => { print with sources := print.sources ++ [file] }
  | .field access name descriptor =>
    { print with fields := print.fields ++ [⟨access, name, descriptor⟩] }
  | .method access name descriptor events =>
    { print with
      methods := print.methods ++
        [MethodBlueprint.ofEvents print.major access name descriptor events] }

def ofParts (parts : List ClassPart) : ClassBlueprint := parts.foldl add empty

/-- No table of the class has more rows than its count can say. -/
structure Countable (print : ClassBlueprint) : Prop where
  interfaces : print.interfaces.length < 0x10000
  sources : print.sources.length < 0x10000
  fields : print.fields.length < 0x10000
  methods : print.methods.length < 0x10000

end ClassBlueprint

/-! ## Files that follow a blueprint -/

/-- The index of a class, or zero for none. -/
def ConstantPool.HoldsClass? (pool : ConstantPool) (index : UInt16) : Option String → Prop
  | some name => pool.Holds (.class name) index
  | none => index = 0

/-- The payload is that of a code attribute which says what the body says. -/
def MethodBody.Writes (body : MethodBody) (withFrames : Bool) (pool : ConstantPool)
    (payload : Bytes) : Prop :=
  ∃ before middle assembled code tables, ConstantPool.empty.Grown before ∧
    assemble body.code before = (.ok assembled, middle) ∧ middle.Grown pool ∧
    payload = code.write ∧
    body.Encoded (if withFrames then body.frames.toList else []) assembled pool code tables ∧
    body.ReadsBack (if withFrames then body.frames.toList else []) assembled pool.entries code
      tables

structure FieldBlueprint.Stands (print : FieldBlueprint) (pool : ConstantPool)
    (member : Member) : Prop where
  access : member.access = print.access
  name : pool.Holds (.utf8 print.name) member.name
  descriptor : pool.Holds (.utf8 print.descriptor) member.descriptor
  attributes : member.attributes = []

/-- The attributes of a method: its code, if it has some. -/
inductive MethodBlueprint.Carried (withFrames : Bool) (pool : ConstantPool) :
    Option MethodBody → List Attribute → Prop
  | nothing : Carried withFrames pool none []
  | code {body : MethodBody} {index : UInt16} {payload : Bytes}
      (named : pool.Holds (.utf8 Attribute.code) index)
      (writes : body.Writes withFrames pool payload) :
      Carried withFrames pool (some body) [⟨index, Attribute.code, payload⟩]

structure MethodBlueprint.Stands (print : MethodBlueprint) (pool : ConstantPool)
    (member : Member) : Prop where
  access : member.access = print.access
  name : pool.Holds (.utf8 print.name) member.name
  descriptor : pool.Holds (.utf8 print.descriptor) member.descriptor
  attributes : MethodBlueprint.Carried print.withFrames pool print.body? member.attributes

/-- The attribute that names a source file. -/
structure Attribute.NamesSource (source : String) (pool : ConstantPool) (given : Attribute) :
    Prop where
  name : given.name = Attribute.sourceFile
  named : pool.Holds (.utf8 Attribute.sourceFile) given.nameIndex
  payload : ∃ index, given.payload = Bytes.u2 index ∧ pool.Holds (.utf8 source) index

/-- The class file has the parts of the blueprint, each as often as it was given and in the order
they were given. -/
structure ClassFile.Follows (file : ClassFile) (print : ClassBlueprint) (pool : ConstantPool) :
    Prop where
  major : file.major = print.major
  minor : file.minor = print.minor
  access : file.access = print.access
  thisClass : pool.HoldsClass? file.thisClass print.name?
  superClass : pool.HoldsClass? file.superClass print.superName?
  interfaces : List.Forall₂ (fun name index => pool.Holds (.class name) index)
    print.interfaces file.interfaces
  fields : List.Forall₂ (fun field member => field.Stands pool member) print.fields file.fields
  methods : List.Forall₂ (fun method member => method.Stands pool member)
    print.methods file.methods
  attributes : List.Forall₂ (fun source given => given.NamesSource source pool)
    print.sources file.attributes

section Growth

variable {pool after : ConstantPool} (onwards : pool.Grown after)

include onwards

theorem ConstantPool.HoldsClass?.grown {index : UInt16} {name? : Option String}
    (holds : pool.HoldsClass? index name?) : after.HoldsClass? index name? := by
  cases name? with
  | none => exact holds
  | some name => exact ConstantPool.Holds.grown holds onwards

theorem MethodBody.Writes.grown {body : MethodBody} {withFrames : Bool} {payload : Bytes}
    (writes : body.Writes withFrames pool payload) : body.Writes withFrames after payload := by
  obtain ⟨before, middle, assembled, code, tables, first, assembles, later, same, encoded, _⟩ :=
    writes
  have encoded' := encoded.grown onwards
  exact ⟨before, middle, assembled, code, tables, first, assembles, later.trans onwards, same,
    encoded', encoded'.readsBack⟩

theorem MethodBlueprint.Carried.grown {withFrames : Bool} {body? : Option MethodBody}
    {attributes : List Attribute} (carried : Carried withFrames pool body? attributes) :
    Carried withFrames after body? attributes := by
  cases carried with
  | nothing => exact .nothing
  | code named writes => exact .code (named.grown onwards) (writes.grown onwards)

theorem ClassFile.Follows.grown {file : ClassFile} {print : ClassBlueprint}
    (follows : file.Follows print pool) : file.Follows print after := by
  refine { follows with
    thisClass := follows.thisClass.grown onwards
    superClass := follows.superClass.grown onwards
    interfaces := follows.interfaces.imp fun _ _ holds => holds.grown onwards
    fields := follows.fields.imp fun _ _ stands => ?_
    methods := follows.methods.imp fun _ _ stands => ?_
    attributes := follows.attributes.imp fun _ _ names => ?_ }
  · exact { stands with
      name := stands.name.grown onwards, descriptor := stands.descriptor.grown onwards }
  · exact { stands with
      name := stands.name.grown onwards, descriptor := stands.descriptor.grown onwards
      attributes := stands.attributes.grown onwards }
  · obtain ⟨index, same, holds⟩ := names.payload
    exact { names with
      named := names.named.grown onwards, payload := ⟨index, same, holds.grown onwards⟩ }

end Growth

/-- An attribute goes by the name that its index leads to. -/
theorem Attribute.fits_of_holds {pool : ConstantPool} {index : UInt16} {name : String}
    (named : pool.Holds (.utf8 name) index) {payload : Bytes} (short : payload.length < 2 ^ 32) :
    Attribute.Fits pool.entries ⟨index, name, payload⟩ :=
  ⟨(Entries.utf8_eq_ok _ _ _).2 ((ConstantPool.holds_utf8 _ _ _).1 named), short⟩

/-- Only tables that cannot be counted, and code too long for its length, keep the file from being
told by its bytes. -/
theorem ClassFile.Follows.fits_iff {file : ClassFile} {print : ClassBlueprint} {pool : ConstantPool}
    (follows : file.Follows print pool) (same : file.entries = pool.entries)
    (slotted : Entries.Slotted pool.entries) : file.Fits ↔ print.Countable ∧
    ∀ method ∈ file.methods, ∀ given ∈ method.attributes, given.payload.length < 2 ^ 32 := by
  constructor
  · intro fits
    refine ⟨⟨?_, ?_, ?_, ?_⟩, fun method among given within => ?_⟩
    · rw [follows.interfaces.length_eq]
      exact fits.interfaces
    · rw [follows.attributes.length_eq]
      exact fits.attributes.few
    · rw [follows.fields.length_eq]
      exact fits.fields.few
    · rw [follows.methods.length_eq]
      exact fits.methods.few
    · exact ((fits.methods.each method among).each given within).length
  · rintro ⟨countable, short⟩
    -- The other way round, the tables of the file have as many rows as there are parts.
    rw [← same] at slotted
    refine ⟨slotted, ?_, ⟨?_, fun member among => ?_⟩, ⟨?_, fun member among => ?_⟩,
      ?_, fun given among => ?_⟩
    · rw [← follows.interfaces.length_eq]
      exact countable.interfaces
    · rw [← follows.fields.length_eq]
      exact countable.fields
    · obtain ⟨_, _, stands⟩ := Outcome.exists_of_forall₂ follows.fields member among
      rw [stands.attributes]
      exact ⟨by decide, List.forall_mem_nil _⟩
    · rw [← follows.methods.length_eq]
      exact countable.methods
    · obtain ⟨given, _, stands⟩ := Outcome.exists_of_forall₂ follows.methods member among
      have carried := stands.attributes
      have own := short member among
      generalize member.attributes = attributes at carried own
      generalize given.body? = body? at carried
      cases carried with
      | nothing => exact ⟨by decide, List.forall_mem_nil _⟩
      | code named _ =>
        refine ⟨by simp, fun given within => ?_⟩
        have few := own given within
        obtain rfl := List.mem_singleton.1 within
        rw [same]
        exact Attribute.fits_of_holds named few
    · rw [← follows.attributes.length_eq]
      exact countable.sources
    · obtain ⟨_, _, names⟩ := Outcome.exists_of_forall₂ follows.attributes given among
      obtain ⟨nameIndex, name, payload⟩ := given
      obtain ⟨rfl, named, index, rfl, _⟩ := names
      rw [same]
      exact Attribute.fits_of_holds named (by simp)

/-- A body that is encoded is told by its payload. -/
theorem MethodBody.encode_leads (body : MethodBody) {pool : ConstantPool}
    (grown : ConstantPool.empty.Grown pool) (withFrames : Bool) :
    Interning.Leads (body.encode withFrames) pool fun payload after =>
      body.Writes withFrames after payload := by
  have sound := grown.sound ConstantPool.empty_sound
  refine ⟨body.encode_grows withFrames pool sound, fun payload done => ?_⟩
  obtain ⟨assembled, middle, code, tables, assembles, later, same, encoded⟩ :=
    encode_eq_ok sound (Prod.ext done rfl)
  exact ⟨pool, middle, assembled, code, tables, grown, assembles, later, same, encoded,
    encoded.readsBack⟩

/-! ## One part -/

namespace ClassBuilder

/-- An interning step leaves its value in a grown pool, or else a fault. -/
theorem run_cases (builder : ClassBuilder) {α : Type} {step : Interning α}
    {good : α → ConstantPool → Prop} (leads : Interning.Leads step builder.pool good) :
    (∃ value pool, builder.run step = (some value, { builder with pool := pool }) ∧
      builder.pool.Grown pool ∧ good value pool) ∨
    ∃ pool cause, builder.run step = (none, { builder with pool := pool, fault := some cause }) ∧
      builder.pool.Grown pool := by
  obtain ⟨grown, answer⟩ := leads
  unfold run
  rcases ran : step builder.pool with ⟨cause | value, pool⟩
  · rw [ran] at grown
    exact .inr ⟨pool, _, rfl, grown⟩
  · rw [ran] at grown answer
    exact .inl ⟨value, pool, rfl, grown, answer value rfl⟩

/-- The builder has what the blueprint says, or a fault. -/
structure Tracks (builder : ClassBuilder) (print : ClassBlueprint) : Prop where
  grown : ConstantPool.empty.Grown builder.pool
  follows : builder.fault = none → builder.file.Follows print builder.pool

namespace Tracks

variable {builder : ClassBuilder} {print : ClassBlueprint} (tracks : builder.Tracks print)

include tracks

theorem sound : builder.pool.Sound := tracks.grown.sound ConstantPool.empty_sound

/-- A builder with a fault tracks anything. -/
theorem failed {other : ClassBuilder} {print' : ClassBlueprint} {cause : WriteError}
    (grown : builder.pool.Grown other.pool) (fault : other.fault = some cause) :
    other.Tracks print' :=
  ⟨tracks.grown.trans grown, fun clean => by simp [fault] at clean⟩

theorem addInterface (name : String) : (builder.addInterface name).Tracks
    { print with interfaces := print.interfaces ++ [name] } := by
  unfold ClassBuilder.addInterface
  rcases builder.run_cases (Interning.className_leads tracks.sound name) with
    ⟨index, pool, ran, grown, holds⟩ | ⟨pool, cause, ran, grown⟩
  · rw [ran]
    refine ⟨tracks.grown.trans grown, fun clean => ?_⟩
    have follows := (tracks.follows clean).grown grown
    exact { follows with
      interfaces := List.rel_append follows.interfaces (.cons holds .nil) }
  · rw [ran]
    exact tracks.failed grown rfl

omit tracks in
theorem addInterfaces : ∀ (names : List String) {builder : ClassBuilder} {print : ClassBlueprint},
    builder.Tracks print → (names.foldl ClassBuilder.addInterface builder).Tracks
      { print with interfaces := print.interfaces ++ names }
  | [], _, print, tracks => by
    rw [List.append_nil]
    exact tracks
  | name :: names, _, print, tracks => by
    have others := addInterfaces names (tracks.addInterface name)
    rw [List.append_assoc] at others
    exact others

theorem header (major minor access : UInt16) (name : String) (superName? : Option String)
    (interfaces : List String) :
    (builder.header major minor access name superName? interfaces).Tracks
      (print.add (.header major minor access name superName? interfaces)) := by
  -- The class itself, then its superclass, then its interfaces one by one.
  have first : ∃ thisClass middle, builder.run (Interning.className name) = (thisClass, middle) ∧
      Tracks { middle with file := { middle.file with
        major := major, minor := minor, access := access, thisClass := thisClass.getD 0 } }
        { print with major := major, minor := minor, access := access, name? := some name } := by
    rcases builder.run_cases (Interning.className_leads tracks.sound name) with
      ⟨index, pool, ran, grown, holds⟩ | ⟨pool, cause, ran, grown⟩
    · refine ⟨_, _, ran, tracks.grown.trans grown, fun clean => ?_⟩
      have follows := (tracks.follows clean).grown grown
      exact { follows with major := rfl, minor := rfl, access := rfl, thisClass := holds }
    · exact ⟨_, _, ran, tracks.failed grown rfl⟩
  obtain ⟨thisClass, middle, ran, first⟩ := first
  unfold ClassBuilder.header
  simp only [ran]
  cases superName? with
  | none => exact addInterfaces interfaces first
  | some superName =>
    generalize ({ middle with file := { middle.file with
      major := major, minor := minor, access := access, thisClass := thisClass.getD 0 } } :
      ClassBuilder) = builder' at first ⊢
    rcases builder'.run_cases (Interning.className_leads first.sound superName) with
      ⟨index, pool, ran, grown, holds⟩ | ⟨pool, cause, ran, grown⟩
    · simp only [ran]
      have second : Tracks { builder' with
            pool := pool, file := { builder'.file with superClass := index } }
          { print with
            major := major, minor := minor, access := access, name? := some name
            superName? := some superName } := by
        refine ⟨first.grown.trans grown, fun clean => ?_⟩
        have follows := (first.follows clean).grown grown
        exact { follows with superClass := holds }
      exact addInterfaces interfaces second
    · simp only [ran]
      have second : Tracks { builder' with
            pool := pool, fault := some cause, file := { builder'.file with superClass := 0 } }
          { print with
            major := major, minor := minor, access := access, name? := some name
            superName? := some superName } := first.failed grown rfl
      exact addInterfaces interfaces second

theorem source (file : String) : (builder.source file).Tracks (print.add (.source file)) := by
  unfold ClassBuilder.source
  have leads : Interning.Leads (do
        let nameIndex ← Interning.utf8 Attribute.sourceFile
        return (nameIndex, ← Interning.utf8 file)) builder.pool fun found after =>
      after.Holds (.utf8 Attribute.sourceFile) found.1 ∧ after.Holds (.utf8 file) found.2 :=
    (Interning.utf8_leads tracks.sound _).bind fun nameIndex middle grown holds =>
      (Interning.utf8_leads (grown.sound tracks.sound) file).bind fun index _ later holds' =>
        .pure ⟨holds.grown later, holds'⟩
  rcases builder.run_cases leads with
    ⟨⟨nameIndex, index⟩, pool, ran, grown, named, holds⟩ | ⟨pool, cause, ran, grown⟩
  · simp only [ran]
    refine ⟨tracks.grown.trans grown, fun clean => ?_⟩
    have follows := (tracks.follows clean).grown grown
    exact { follows with
      attributes := List.rel_append follows.attributes
        (.cons ⟨rfl, named, index, rfl, holds⟩ .nil) }
  · simp only [ran]
    exact tracks.failed grown rfl

theorem field (access : UInt16) (name descriptor : String) :
    (builder.field access name descriptor).Tracks (print.add (.field access name descriptor)) := by
  unfold ClassBuilder.field
  have leads : Interning.Leads (do
        let name ← Interning.utf8 name
        return (⟨access, name, ← Interning.utf8 descriptor, []⟩ : Member)) builder.pool
      fun member after => FieldBlueprint.Stands ⟨access, name, descriptor⟩ after member :=
    (Interning.utf8_leads tracks.sound name).bind fun _ middle grown holds =>
      (Interning.utf8_leads (grown.sound tracks.sound) descriptor).bind fun _ _ later holds' =>
        .pure ⟨rfl, holds.grown later, holds', rfl⟩
  rcases builder.run_cases leads with
    ⟨member, pool, ran, grown, stands⟩ | ⟨pool, cause, ran, grown⟩
  · simp only [ran]
    refine ⟨tracks.grown.trans grown, fun clean => ?_⟩
    have follows := (tracks.follows clean).grown grown
    exact { follows with fields := List.rel_append follows.fields (.cons stands .nil) }
  · simp only [ran]
    exact tracks.failed grown rfl

theorem method (access : UInt16) (name descriptor : String) (events : List MethodEvent) :
    (builder.method access name descriptor events).Tracks
      (print.add (.method access name descriptor events)) := by
  unfold ClassBuilder.method
  rcases collected : events.foldl addEvent (false, MethodBody.empty) with ⟨hasCode, body⟩
  generalize framed : decide (framedVersion ≤ builder.file.major) = withFrames
  -- The pool grows four times on the way, and what was interned before is still there after each.
  have leads : Interning.Leads (do
        let name ← Interning.utf8 name
        let descriptor ← Interning.utf8 descriptor
        if hasCode then
          let payload ← body.encode withFrames
          let nameIndex ← Interning.utf8 Attribute.code
          return (⟨access, name, descriptor, [⟨nameIndex, Attribute.code, payload⟩]⟩ : Member)
        else return ⟨access, name, descriptor, []⟩) builder.pool fun member after =>
      MethodBlueprint.Stands ⟨access, name, descriptor, if hasCode then some body else none,
        withFrames⟩ after member := by
    refine (Interning.utf8_leads tracks.sound name).bind fun _ pool₁ grown₁ holds => ?_
    have sound₁ := grown₁.sound tracks.sound
    refine (Interning.utf8_leads sound₁ descriptor).bind fun _ pool₂ grown₂ holds' => ?_
    have sound₂ := grown₂.sound sound₁
    have grown := (tracks.grown.trans grown₁).trans grown₂
    cases hasCode with
    | false => exact .pure ⟨rfl, holds.grown grown₂, holds', .nothing⟩
    | true =>
      refine (body.encode_leads grown withFrames).bind fun payload pool₃ grown₃ writes => ?_
      refine (Interning.utf8_leads (grown₃.sound sound₂) _).bind fun index pool₄ grown₄ named => ?_
      refine .pure ⟨rfl, ?_, holds'.grown (grown₃.trans grown₄), ?_⟩
      · exact holds.grown (grown₂.trans (grown₃.trans grown₄))
      · exact .code named (writes.grown grown₄)
  rcases builder.run_cases leads with
    ⟨member, pool, ran, grown, stands⟩ | ⟨pool, cause, ran, grown⟩
  · simp only [ran]
    refine ⟨tracks.grown.trans grown, fun clean => ?_⟩
    have follows := (tracks.follows clean).grown grown
    have same : MethodBlueprint.ofEvents print.major access name descriptor events =
        ⟨access, name, descriptor, if hasCode then some body else none, withFrames⟩ := by
      rw [MethodBlueprint.ofEvents, collected, ← follows.major, framed]
    rw [ClassBlueprint.add, same]
    exact { follows with methods := List.rel_append follows.methods (.cons stands .nil) }
  · simp only [ran]
    exact tracks.failed grown rfl

theorem add (part : ClassPart) : (builder.add part).Tracks (print.add part) := by
  cases part with
  | header major minor access name superName? interfaces =>
    exact tracks.header major minor access name superName? interfaces
  | source file => exact tracks.source file
  | field access name descriptor => exact tracks.field access name descriptor
  | method access name descriptor events => exact tracks.method access name descriptor events

end Tracks

/-! ## Whole classes -/

theorem empty_tracks : empty.Tracks ClassBlueprint.empty :=
  ⟨.refl, fun _ => ⟨rfl, rfl, rfl, rfl, rfl, .nil, .nil, .nil, .nil⟩⟩

theorem foldl_tracks : ∀ (parts : List ClassPart) {builder : ClassBuilder}
    {print : ClassBlueprint}, builder.Tracks print →
    (parts.foldl add builder).Tracks (parts.foldl ClassBlueprint.add print)
  | [], _, _, tracks => tracks
  | part :: parts, _, _, tracks => foldl_tracks parts (tracks.add part)

/-- **The bytes of a class are those of a file with just the parts that were given**, and code that
says what the bodies say.  The file is read back if its tables have no more rows than can be
counted, and then only. -/
theorem toBytes_follows {parts : List ClassPart} {bytes : Bytes}
    (done : (ofParts parts).toBytes = .ok bytes) :
    ∃ (file : ClassFile) (pool : ConstantPool), file.entries = pool.entries ∧
      file.Follows (ClassBlueprint.ofParts parts) pool ∧
      (ClassFile.read bytes = .ok file ↔ (ClassBlueprint.ofParts parts).Countable ∧
        ∀ method ∈ file.methods, ∀ given ∈ method.attributes,
          given.payload.length < 2 ^ 32) := by
  have tracks : (ofParts parts).Tracks (ClassBlueprint.ofParts parts) :=
    foldl_tracks parts empty_tracks
  generalize ofParts parts = builder at done tracks
  unfold toBytes at done
  split at done
  · cases done
  · rename_i clean
    have follows := tracks.follows clean
    have slotted := tracks.grown.slotted ⟨[], List.forall_mem_nil _, rfl⟩
    have same : ClassFile.Follows { builder.file with entries := builder.pool.entries }
      (ClassBlueprint.ofParts parts) builder.pool := { follows with }
    refine ⟨_, builder.pool, rfl, same, ?_⟩
    rw [← same.fits_iff rfl slotted]
    exact ⟨ClassFile.fits_of_read, fun fits => ClassFile.read_written fits done⟩

/-- A class with an interface, a source file, a field, a method without code, and one whose code has
a line, a frame, a handler and a variable with a signature. -/
def Sample.parts : List ClassPart :=
  [.header 52 0 0x21 "demo/C" (some "java/lang/Object") ["demo/I"], .source "C.java",
    .field 2 "f" "I", .method 0x0401 "a" "()V" [.finish],
    .method 9 "m" "()V" [.sizes 1 1, .tryBlock ⟨⟨0⟩, ⟨1⟩, ⟨1⟩, some "demo/E"⟩, .label ⟨0⟩,
      .line 7 ⟨0⟩, .insn (.simple Opcode.nop), .label ⟨1⟩, .frame [.object "demo/C"] [.int],
      .insn (.simple Opcode.voidReturn), .label ⟨2⟩,
      .variable ⟨"x", "Ldemo/C;", some "TX;", ⟨0⟩, ⟨2⟩, 0⟩, .maxs 1 1, .finish]]

theorem toBytes_follows_parts : ∃ bytes, (ofParts Sample.parts).toBytes = .ok bytes ∧
    ∃ (file : ClassFile) (pool : ConstantPool), file.entries = pool.entries ∧
      file.Follows (ClassBlueprint.ofParts Sample.parts) pool ∧
      (ClassFile.read bytes = .ok file ↔ (ClassBlueprint.ofParts Sample.parts).Countable ∧
        ∀ method ∈ file.methods, ∀ given ∈ method.attributes,
          given.payload.length < 2 ^ 32) := by
  have made : (ofParts Sample.parts).toBytes.toBool = true := by decide +kernel
  rcases done : (ofParts Sample.parts).toBytes with cause | bytes
  · rw [done] at made
    cases made
  · exact ⟨bytes, rfl, toBytes_follows done⟩

/-! ## A table that is not counted -/

/-- A handler around one instruction. -/
def Sample.around : TryBlock := ⟨⟨0⟩, ⟨1⟩, ⟨0⟩, none⟩

/-- A method of one instruction, with handlers. -/
def Sample.guarded (handlers : Nat) : List MethodEvent :=
  [.sizes 0 0, .label ⟨0⟩, .insn (.simple Opcode.voidReturn), .label ⟨1⟩]
    ++ (List.replicate handlers Sample.around).map .tryBlock ++ [.maxs 0 0, .finish]

/-- A class with that method. -/
def Sample.guardedClass (handlers : Nat) : List ClassPart :=
  [.header 49 0 0x21 "demo/C" (some "java/lang/Object") [],
    .method 9 "m" "()V" (Sample.guarded handlers)]

theorem foldl_addEvent_blocks : ∀ (blocks : List TryBlock) (hasCode : Bool) (body : MethodBody),
    (blocks.map MethodEvent.tryBlock).foldl addEvent (hasCode, body) =
      (hasCode, { body with tryBlocks := body.tryBlocks ++ blocks })
  | [], hasCode, body => by simp
  | block :: blocks, hasCode, body => by
    rw [List.map_cons, List.foldl_cons]
    refine (foldl_addEvent_blocks blocks hasCode (body.add (.tryBlock block))).trans ?_
    simp [MethodBody.add]

/-- The body of `Sample.guarded`. -/
def Sample.guardedBody (handlers : Nat) : MethodBody :=
  ⟨#[.label ⟨0⟩, .insn (.simple Opcode.voidReturn), .label ⟨1⟩],
    (List.replicate handlers Sample.around).toArray, #[], #[], 0, 0, some ⟨1⟩⟩

theorem guarded_collected (handlers : Nat) :
    (Sample.guarded handlers).foldl addEvent (false, MethodBody.empty) =
      (true, Sample.guardedBody handlers) := by
  rw [Sample.guarded, List.foldl_append, List.foldl_append]
  have opened : [MethodEvent.sizes 0 0, .label ⟨0⟩, .insn (.simple Opcode.voidReturn),
      .label ⟨1⟩].foldl addEvent (false, MethodBody.empty) = (true, Sample.guardedBody 0) := rfl
  rw [opened, foldl_addEvent_blocks]
  simp [addEvent, MethodBody.add, Sample.guardedBody]

/-- The code of `Sample.guarded`. -/
def Sample.guardedCode (handlers : Nat) : CodeAttribute :=
  ⟨0, 0, [Opcode.voidReturn], List.replicate handlers ⟨0, 1, 0, 0⟩, []⟩

theorem guarded_encode (handlers : Nat) (pool : ConstantPool) :
    (Sample.guardedBody handlers).encode false pool =
      (.ok (Sample.guardedCode handlers).write, pool) := by
  let assembled : AssembledCode := ⟨[Opcode.voidReturn],
    ((∅ : Std.TreeMap Label Nat).insert ⟨0⟩ 0).insert ⟨1⟩ 1, []⟩
  have resolved : assembled.resolveHandlers (List.replicate handlers Sample.around) pool =
      (.ok (List.replicate handlers ⟨0, 1, 0, 0⟩), pool) := by
    refine Interning.bind_eq_ok.2 ⟨List.replicate handlers (some ⟨0, 1, 0, 0⟩), pool, ?_, ?_⟩
    · apply Interning.mapM_replicate
      rfl
    · show (Except.ok ((List.replicate handlers (some _)).filterMap id), pool) = _
      simp
  refine Interning.bind_eq_ok.2 ⟨assembled, pool, rfl, ?_⟩
  exact Interning.bind_eq_ok.2 ⟨_, pool, resolved, rfl⟩

/-- Where the count says zero, the handlers are taken for a table of attributes without a row, and
something is left over. -/
theorem guarded_unread (entries : Entries) (more : Nat)
    (wraps : Bytes.count (more + 1) = Bytes.count 0) :
    CodeAttribute.read entries (Sample.guardedCode (more + 1)).write =
      .error (.invalidAttribute Attribute.code) := by
  have fits : (Sample.guardedCode 0).Fits entries :=
    ⟨by decide, by decide, by decide, List.forall_mem_nil _⟩
  have split : (Sample.guardedCode (more + 1)).write = (Sample.guardedCode 0).write ++
      ([0, 1, 0, 0, 0, 0] ++ (List.replicate more (⟨0, 1, 0, 0⟩ : HandlerEntry)).flatMap
        HandlerEntry.write ++ [0, 0]) := by
    rw [CodeAttribute.write, Sample.guardedCode, List.length_replicate, wraps, List.replicate_succ,
      List.flatMap_cons]
    generalize List.flatMap HandlerEntry.write (List.replicate more _) = rest
    show Bytes.u2 0 ++ Bytes.u2 0 ++ Bytes.u4 (UInt32.ofNat 1) ++ [Opcode.voidReturn]
      ++ Bytes.count 0 ++ ([0, 0, 0, 1, 0, 0, 0, 0] ++ rest) ++ Attribute.writeTable [] = _
    rfl
  rw [split, CodeAttribute.read, Reader.runAll, Cursor.start, CodeAttribute.reads_write fits]
  rfl

/-- The class without its method. -/
def Sample.unguarded : ClassBuilder :=
  empty.header 49 0 0x21 "demo/C" (some "java/lang/Object") []

/-- The names of the method and its code. -/
def Sample.names : Interning (UInt16 × UInt16 × UInt16) := do
  let name ← Interning.utf8 "m"
  let descriptor ← Interning.utf8 "()V"
  let index ← Interning.utf8 Attribute.code
  return (name, descriptor, index)

/-- The class with the method, in a pool where the names are. -/
def Sample.guardedFile (entries : Entries) (name descriptor index : UInt16) (handlers : Nat) :
    ClassFile :=
  { Sample.unguarded.file with
    entries := entries
    methods := [⟨9, name, descriptor,
      [⟨index, Attribute.code, (Sample.guardedCode handlers).write⟩]⟩] }

theorem run_ok (builder : ClassBuilder) {α : Type} {step : Interning α} {value : α}
    {pool : ConstantPool} (done : step builder.pool = (.ok value, pool)) :
    builder.run step = (some value, { builder with pool := pool }) := by
  rw [run, done]

/-- The method comes to the class, however many handlers it has. -/
theorem guarded_method {pool : ConstantPool} {name descriptor index : UInt16}
    (named : Sample.names Sample.unguarded.pool = (.ok (name, descriptor, index), pool))
    (handlers : Nat) :
    Sample.unguarded.method 9 "m" "()V" (Sample.guarded handlers) =
      { Sample.unguarded with
        pool := pool
        file := Sample.guardedFile Sample.unguarded.file.entries name descriptor index
          handlers } := by
  obtain ⟨_, pool₁, first, named⟩ := Interning.bind_eq_ok.1 named
  obtain ⟨_, pool₂, second, named⟩ := Interning.bind_eq_ok.1 named
  obtain ⟨_, pool₃, third, same⟩ := Interning.bind_eq_ok.1 named
  cases same
  have framed : decide (framedVersion ≤ Sample.unguarded.file.major) = false := by decide +kernel
  rw [ClassBuilder.method, guarded_collected]
  simp only [framed, if_true]
  rw [run_ok]
  · rfl
  · refine Interning.bind_eq_ok.2 ⟨_, pool₁, first, ?_⟩
    refine Interning.bind_eq_ok.2 ⟨_, pool₂, second, ?_⟩
    refine Interning.bind_eq_ok.2 ⟨_, pool₂, guarded_encode handlers pool₂, ?_⟩
    exact Interning.bind_eq_ok.2 ⟨_, pool, third, rfl⟩

theorem guardedCode_length (handlers : Nat) :
    (Sample.guardedCode handlers).write.length = 13 + 8 * handlers := by
  have row : (⟨0, 1, 0, 0⟩ : HandlerEntry).write.length = 8 := rfl
  simp [Sample.guardedCode, CodeAttribute.write, Attribute.writeTable, List.length_flatMap, row]
  omega

/-- With a multiple of 65536 handlers the builder has no fault and the class is read back, but the
code of its method is not. -/
theorem guardedClass_unread (more : Nat) (wraps : Bytes.count (more + 1) = Bytes.count 0)
    (short : more < 2 ^ 28) : ∃ (bytes : Bytes) (file : ClassFile) (given : Attribute),
    (ofParts (Sample.guardedClass (more + 1))).toBytes = .ok bytes ∧
      ClassFile.read bytes = .ok file ∧ file.methods.map (·.attributes) = [[given]] ∧
      given.name = Attribute.code ∧ CodeAttribute.read file.entries given.payload =
        .error (.invalidAttribute Attribute.code) := by
  -- The number of handlers plays no part in the pool, so the pool can be computed.
  have made : (match Sample.names Sample.unguarded.pool with
      | (.ok _, pool) => pool.entries.write.toBool
      | (.error _, _) => false) = true := by decide +kernel
  rcases named : Sample.names Sample.unguarded.pool with ⟨cause | ⟨name, descriptor, index⟩, pool⟩
  · rw [named] at made
    cases made
  rw [named] at made
  rcases stored : Entries.write pool.entries with cause | table
  · simp only [stored] at made
    cases made
  have tracks : (ofParts (Sample.guardedClass (more + 1))).Tracks
      (ClassBlueprint.ofParts (Sample.guardedClass (more + 1))) := foldl_tracks _ empty_tracks
  have built : ofParts (Sample.guardedClass (more + 1)) = _ := guarded_method named (more + 1)
  have clean : Sample.unguarded.fault = none := by decide +kernel
  have slotted := tracks.grown.slotted ⟨[], List.forall_mem_nil _, rfl⟩
  have follows := tracks.follows (by rw [built]; exact clean)
  rw [built] at follows slotted
  have same : (Sample.guardedFile pool.entries name descriptor index (more + 1)).Follows
    (ClassBlueprint.ofParts (Sample.guardedClass (more + 1))) pool := { follows with }
  have few : (ClassBlueprint.ofParts (Sample.guardedClass (more + 1))).Countable :=
    ⟨(by decide : 0 < 0x10000), (by decide : 0 < 0x10000), (by decide : 0 < 0x10000),
      (by decide : 1 < 0x10000)⟩
  have fits := (same.fits_iff rfl slotted).2 ⟨few, by
    simp [Sample.guardedFile, guardedCode_length]
    omega⟩
  have written : (Sample.guardedFile pool.entries name descriptor index (more + 1)).write
      pool.entries (fun _ => none) = .ok _ := Outcome.bind_eq_ok.2 ⟨table, stored, rfl⟩
  refine ⟨_, _, _, ?_, ClassFile.read_written fits written, rfl, rfl,
    guarded_unread pool.entries more wraps⟩
  rw [built, toBytes, clean]
  exact written

/-- **Handlers get lost without an error** when there are 65536 of them. -/
theorem crowded_unread : ∃ (bytes : Bytes) (file : ClassFile) (given : Attribute),
    (ofParts (Sample.guardedClass 0x10000)).toBytes = .ok bytes ∧
      ClassFile.read bytes = .ok file ∧ file.methods.map (·.attributes) = [[given]] ∧
      given.name = Attribute.code ∧ CodeAttribute.read file.entries given.payload =
        .error (.invalidAttribute Attribute.code) :=
  guardedClass_unread 0xFFFF (by decide) (by decide)

end ClassBuilder

end ClassWeave
