/-
# ClassWeave.Proofs.Weaving -- what a rewritten class has in common with the one it was

A rewrite may put other code into the methods that some probe applies to and the
options leave open, and may add to the end of the constant pool.  `ClassFile.Keeps` says
that it does nothing else, and `transform?_keeps` that the bytes of a rewritten class
are those of a class file that keeps everything.

The two bookkeepings that this rests on are the pool, which several methods share and
only append to, and the numbers of the methods, under which the new payloads are kept
until the file is written (`Visits.gathers`).

Nobody asks whether the length of a new payload fits the four bytes the format has for it,
so there are bytes that come out of a rewrite and are no class file (`transform?_unread`).
-/
import ClassWeave.Proofs.ClassFileRoundTrip
import ClassWeave.Proofs.RewriteActions
import ClassWeave.Transform

set_option autoImplicit false

namespace ClassWeave

/-! ## What is kept -/

/-- Some probe applies to the method, and it has code that the options leave open. -/
def Member.Rewritable (probes : List Probe) (options : Options) (entries : Entries)
    (member : Member) : Prop :=
  ∃ name descriptor, entries.utf8 member.name = .ok name ∧
    entries.utf8 member.descriptor = .ok descriptor ∧
    touchable options member.access name = true ∧
    ∃ probe ∈ probes, probe.appliesTo name descriptor = true

/-- The same attribute, but for the payload of code that may be rewritten. -/
structure Attribute.Keeps (rewritable : Prop) (before after : Attribute) : Prop where
  nameIndex : after.nameIndex = before.nameIndex
  name : after.name = before.name
  payload : after.payload = before.payload ∨ before.name = Attribute.code ∧ rewritable

structure Member.Keeps (rewritable : Prop) (before after : Member) : Prop where
  access : after.access = before.access
  name : after.name = before.name
  descriptor : after.descriptor = before.descriptor
  attributes : List.Forall₂ (Attribute.Keeps rewritable) before.attributes after.attributes

/-- The class but for its code: methods of the class that `probes` reach may have other code, and
the constant pool more entries. -/
structure ClassFile.Keeps (probes : List Probe) (options : Options) (before after : ClassFile) :
    Prop where
  minor : after.minor = before.minor
  major : after.major = before.major
  entries : before.entries.toList <+: after.entries.toList
  access : after.access = before.access
  thisClass : after.thisClass = before.thisClass
  superClass : after.superClass = before.superClass
  interfaces : after.interfaces = before.interfaces
  fields : after.fields = before.fields
  methods : List.Forall₂
    (fun old new => Member.Keeps (old.Rewritable probes options before.entries) old new)
    before.methods after.methods
  attributes : after.attributes = before.attributes

/-! ## Methods under their numbers -/

/-- Any request at all. -/
def anything : EventRule :=
  fun _ _ _ _ => True

theorem permits_anything : Permits anything := by
  constructor <;> intros <;> trivial

theorem Injection.obeys_anything : ∀ (code : Injection) (rewrite : MethodRewrite),
    code.Obeys (fun _ _ => True) rewrite
  | done, _ | fail _, _ => trivial
  | newLabel next, _ | allocate _ next, _ | storeNew _ next, _ | handler _ next, _
  | frame _ _ next, _ => ⟨trivial, obeys_anything (next _) _⟩
  | report _ next, _ | emit _ next, _ => ⟨trivial, obeys_anything next _⟩

/-- A rewritten method leaves its own payload with the class, and nothing else. -/
theorem weaveMethod_follows (probes : List Probe) (entries : Entries) (className : String)
    (member : Member) (method : MethodContext) (target : RewriteTarget) :
    ∃ after, (MethodRewrite.start target method).Follows after ∧
      (weaveMethod probes entries className member method target).1 = after.target := by
  refine ⟨(Layer.runAll (probes.map fun probe => Layer.start probe method)
    (member.tell entries className method.name method.descriptor).events
    (MethodRewrite.start target method)).2, ?_, rfl⟩
  obtain ⟨actions, run⟩ := Layer.runAll_weaves permits_anything
    (member.tell entries className method.name method.descriptor).events
    (probes.map fun probe => Layer.start probe method) (MethodRewrite.start target method)
    fun layer _ _ _ _ _ _ => Injection.obeys_anything _ _
  exact run.follows

/-- The payloads that methods of a list have left behind, each under the number of a method that
may be rewritten. -/
structure RewriteTarget.Gathers (rewritable : Member → Prop) (methods : List (Member × Nat))
    (before after : RewriteTarget) : Prop where
  pool : before.pool.Sound → before.pool.Grown after.pool
  rewritten : ∃ own, after.rewritten = own ++ before.rewritten ∧
    ∀ payload ∈ own, ∃ member, (member, payload.1) ∈ methods ∧ rewritable member

namespace RewriteTarget.Gathers

variable {rewritable : Member → Prop} {methods : List (Member × Nat)}
  {before middle after : RewriteTarget}

theorem refl (target : RewriteTarget) : target.Gathers rewritable methods target :=
  ⟨fun _ => .refl, [], rfl, by simp⟩

theorem trans (early : before.Gathers rewritable methods middle)
    (late : middle.Gathers rewritable methods after) :
    before.Gathers rewritable methods after := by
  obtain ⟨first, firstAll, firstEach⟩ := early.rewritten
  obtain ⟨second, secondAll, secondEach⟩ := late.rewritten
  refine ⟨fun sound => (early.pool sound).trans (late.pool ((early.pool sound).sound sound)),
    second ++ first, by rw [secondAll, firstAll, List.append_assoc], ?_⟩
  intro payload among
  rcases List.mem_append.1 among with new | old
  · exact secondEach payload new
  · exact firstEach payload old

theorem more (gathers : before.Gathers rewritable methods after) (method : Member × Nat) :
    before.Gathers rewritable (method :: methods) after := by
  obtain ⟨pool, own, all, each⟩ := gathers
  refine ⟨pool, own, all, fun payload among => ?_⟩
  obtain ⟨other, known, may⟩ := each payload among
  exact ⟨other, List.mem_cons_of_mem _ known, may⟩

end RewriteTarget.Gathers

theorem weaveMethod_gathers (probes : List Probe) (entries : Entries) (className : String)
    (member : Member) (method : MethodContext) (target : RewriteTarget)
    {rewritable : Member → Prop} (may : rewritable member) (rest : List (Member × Nat)) :
    target.Gathers rewritable ((member, method.index) :: rest)
      (weaveMethod probes entries className member method target).1 := by
  obtain ⟨after, follows, same⟩ :=
    weaveMethod_follows probes entries className member method target
  obtain ⟨own, all, each⟩ := follows.rewritten
  rw [same]
  refine ⟨follows.pool, own, all, fun payload among => ⟨member, ?_, may⟩⟩
  rw [each payload among]
  exact List.mem_cons_self

/-- Methods visited in order, until one cannot be read: some are passed by, and those that probes
apply to and the options leave open are rewritten, each for itself. -/
inductive Visits (probes : List Probe) (entries : Entries) (className : String)
    (options : Options) : List (Member × Nat) → RewriteTarget → RewriteTarget → Prop
  | stop (methods : List (Member × Nat)) (target : RewriteTarget) :
      Visits probes entries className options methods target target
  | pass {methods : List (Member × Nat)} {target after : RewriteTarget} (method : Member × Nat)
      (rest : Visits probes entries className options methods target after) :
      Visits probes entries className options (method :: methods) target after
  | weave {member : Member} {index : Nat} {name descriptor : String}
      {methods : List (Member × Nat)} {target after : RewriteTarget}
      (named : entries.utf8 member.name = .ok name)
      (described : entries.utf8 member.descriptor = .ok descriptor)
      (open_ : touchable options member.access name = true)
      (applies : ∃ probe ∈ probes, probe.appliesTo name descriptor = true)
      (rest : Visits probes entries className options methods
        (weaveMethod (probes.filter fun probe => probe.appliesTo name descriptor) entries className
          member ⟨index, member.access, name, descriptor⟩ target).1 after) :
      Visits probes entries className options ((member, index) :: methods) target after

/-- A method that is not passed by may be touched, and some probe applies to it. -/
theorem of_not_passed {probes : List Probe} {options : Options} {access : UInt16}
    {name descriptor : String} {failed : Bool}
    (taken : ¬ (!touchable options access name || failed ||
      (probes.filter fun probe => probe.appliesTo name descriptor).isEmpty) = true) :
    touchable options access name = true ∧
      ∃ probe ∈ probes, probe.appliesTo name descriptor = true := by
  simp only [Bool.or_eq_true, Bool.not_eq_true', not_or, Bool.not_eq_false,
    List.isEmpty_iff] at taken
  obtain ⟨⟨open_, _⟩, some_⟩ := taken
  obtain ⟨probe, applies⟩ := List.exists_mem_of_ne_nil _ some_
  exact ⟨open_, probe, List.mem_filter.1 applies⟩

theorem weaveMethods_visits (probes : List Probe) (entries : Entries) (className : String)
    (options : Options) : ∀ (methods : List (Member × Nat)) (target : RewriteTarget),
    Visits probes entries className options methods target
      (weaveMethods probes entries className options methods target).1
  | [], target => .stop [] target
  | (member, index) :: rest, target => by
    have onwards (next : RewriteTarget) :=
      weaveMethods_visits probes entries className options rest next
    unfold weaveMethods
    simp only
    split
    · exact .stop _ target
    · rename_i name descriptor known
      split
      · exact .pass (member, index) (onwards target)
      · rename_i taken
        obtain ⟨name', named, known⟩ := Outcome.bind_eq_ok.1 known
        obtain ⟨descriptor', described, same⟩ := Outcome.bind_eq_ok.1 known
        cases same
        obtain ⟨open_, applies⟩ := of_not_passed taken
        -- The visit goes on only if this method was told without a fault.
        refine .weave named described open_ applies ?_
        split
        · rename_i next cause woven
          rw [woven]
          exact .stop rest next
        · rename_i next woven
          rw [woven]
          exact onwards next

/-- What is gathered over all the methods that are visited. -/
theorem Visits.gathers {probes : List Probe} {entries : Entries} {className : String}
    {options : Options} {methods : List (Member × Nat)} {target after : RewriteTarget}
    (visits : Visits probes entries className options methods target after) :
    target.Gathers (Member.Rewritable probes options entries) methods after := by
  induction visits with
  | stop methods target => exact .refl target
  | pass method _ ih => exact ih.more method
  | @weave member index name descriptor methods target _ named described open_ applies _ ih =>
    have may : member.Rewritable probes options entries :=
      ⟨name, descriptor, named, described, open_, applies⟩
    exact (weaveMethod_gathers _ entries className member
      ⟨index, member.access, name, descriptor⟩ target may methods).trans (ih.more (member, index))

/-! ## The file that is written -/

namespace ClassFile

variable (file : ClassFile) (entries : Entries) (payload? : Nat → Option Bytes)

/-- The file that is written with other entries and other code. -/
def rewritten : ClassFile :=
  { file with entries := entries, methods := file.methodsWith payload? }

theorem write_rewritten :
    (file.rewritten entries payload?).write entries (fun _ => none) =
      file.write entries payload? := by
  unfold write
  rw [methodsWith_none]
  rfl

variable {file entries payload?} {probes : List Probe} {options : Options}

theorem withCode_keeps {rewritable : Prop} (may : rewritable) (member : Member) (payload : Bytes) :
    member.Keeps rewritable (member.withCode payload) := by
  refine ⟨rfl, rfl, rfl, ?_⟩
  refine List.forall₂_map_right_iff.2 (List.forall₂_same.2 fun given _ => ?_)
  split
  · rename_i code
    exact ⟨rfl, rfl, .inr ⟨code, may⟩⟩
  · exact ⟨rfl, rfl, .inl rfl⟩

theorem keeps_refl (rewritable : Prop) (member : Member) : member.Keeps rewritable member :=
  ⟨rfl, rfl, rfl, List.forall₂_same.2 fun _ _ => ⟨rfl, rfl, .inl rfl⟩⟩

/-- Other code goes to the methods under whose numbers it was kept. -/
theorem methodsWith_keeps {rewritable : Member → Prop}
    (each : ∀ member i payload, (member, i) ∈ file.methods.zipIdx → payload? i = some payload →
      rewritable member) :
    List.Forall₂ (fun old new => Member.Keeps (rewritable old) old new) file.methods
      (file.methodsWith payload?) := by
  refine List.forall₂_map_right_iff.2 (Outcome.forall₂_zipIdx fun member i among => ?_)
  simp only
  split
  · rename_i payload known
    exact withCode_keeps (each member i payload among known) member payload
  · exact keeps_refl _ member

/-- A pool and payloads gathered over all methods make a file that keeps everything else. -/
theorem rewritten_keeps {before after : RewriteTarget}
    (gathers : before.Gathers (Member.Rewritable probes options file.entries) file.methods.zipIdx
      after) (none_ : before.rewritten = []) (sound : before.pool.Sound)
    (whole : before.pool.entries = file.entries) :
    file.Keeps probes options (file.rewritten after.pool.entries after.payload?) := by
  obtain ⟨own, all, each⟩ := gathers.rewritten
  rw [none_, List.append_nil] at all
  refine ⟨rfl, rfl, ?_, rfl, rfl, rfl, rfl, rfl, ?_, rfl⟩
  · exact whole ▸ (gathers.pool sound).extends_
  · refine methodsWith_keeps fun member i payload among known => ?_
    have kept : (i, payload) ∈ own := by
      obtain ⟨early, late, split, _⟩ := List.lookup_eq_some_iff.1 known
      rw [← all, split]
      exact List.mem_append_right _ List.mem_cons_self
    obtain ⟨other, same, may⟩ := each _ kept
    simp only [List.mem_zipIdx_iff_getElem?] at among same
    rw [among] at same
    cases same
    exact may

end ClassFile

theorem transform?_eq_ok {transformer : Transformer} {sources : Sources} {bytes out : Bytes}
    {cache : ClassCache}
    (rewritten : (transformer.transform? sources bytes cache).1 = .ok (some out)) :
    ∃ file className probes cache', ClassFile.read bytes = .ok file ∧ file.name = .ok className ∧
      matchingProbes transformer.probes sources file className cache = (.ok probes, cache') ∧
      (weave probes transformer.options (sources.hierarchy cache') file className).1 =
        .ok (some out) := by
  unfold Transformer.transform? at rewritten
  rcases read : ClassFile.read bytes with cause | file <;> rw [read] at rewritten
  · cases rewritten
  · rcases named : file.name with cause | className <;> simp only [named] at rewritten
    · cases rewritten
    · rcases found : matchingProbes transformer.probes sources file className cache with
        ⟨reached, cache'⟩
      simp only [bind, StateT.bind, found] at rewritten
      rcases reached with cause | probes
      · cases rewritten
      · rcases probes with _ | ⟨probe, probes⟩
        · cases rewritten
        · exact ⟨file, className, probe :: probes, cache', rfl, named, found, rewritten⟩

/-- What comes out of a class is a file that keeps everything but code and the end of the pool. -/
theorem weave_keeps {probes : List Probe} {options : Options} {hierarchy : Hierarchy}
    {file : ClassFile} {className : String} {out : Bytes} (filled : file.entries.isEmpty = false)
    (woven : (weave probes options hierarchy file className).1 = .ok (some out)) :
    ∃ after, file.Keeps probes options after ∧ after.write after.entries (fun _ => none) = .ok out ∧
      (file.entries.Slotted → after.entries.Slotted) := by
  unfold weave at woven
  split at woven
  · cases woven
  · let start := RewriteTarget.start className file.major (ConstantPool.ofEntries file.entries)
      hierarchy options
    have gathers := (weaveMethods_visits probes file.entries className options
      file.methods.zipIdx start).gathers
    rcases run : weaveMethods probes file.entries className options file.methods.zipIdx start with
      ⟨target, fault⟩
    simp only [start] at run
    simp only [run] at woven
    rw [run] at gathers
    rcases fault with _ | cause
    · replace woven : target.result file className = .ok (some out) := woven
      unfold RewriteTarget.result at woven
      split at woven
      · cases woven
      · split at woven
        · cases woven
        · split at woven
          · rename_i bytes written
            cases woven
            have sound := ConstantPool.ofEntries_sound file.entries
            have whole := ConstantPool.entries_ofEntries filled
            refine ⟨file.rewritten target.pool.entries target.payload?, ?_, ?_, fun slotted => ?_⟩
            · exact ClassFile.rewritten_keeps gathers rfl sound whole
            · exact (ClassFile.write_rewritten _ _ _).trans written
            · exact (gathers.pool sound).slotted (whole ▸ slotted)
          · cases woven
    · cases woven

/-! ## Reading it again -/

/-- A file that keeps everything else fits if its payloads do. -/
theorem ClassFile.Keeps.fits {probes : List Probe} {options : Options} {before after : ClassFile}
    (keeps : before.Keeps probes options after) (fits : before.Fits)
    (slotted : after.entries.Slotted)
    (short : ∀ method ∈ after.methods, ∀ given ∈ method.attributes,
      given.payload.length < 2 ^ 32) : after.Fits := by
  have more : before.entries.Extends after.entries := keeps.entries
  have named {given : Attribute} (held : given.Fits before.entries) : given.Fits after.entries :=
    ⟨more.utf8 held.name, held.length⟩
  have table {attributes : List Attribute} (held : Attribute.TableFits before.entries attributes) :
      Attribute.TableFits after.entries attributes :=
    ⟨held.few, fun given among => named (held.each given among)⟩
  refine ⟨slotted, ?_, ?_, ?_, ?_⟩
  · rw [keeps.interfaces]
    exact fits.interfaces
  · rw [keeps.fields]
    exact ⟨fits.fields.few, fun member among => table (fits.fields.each member among)⟩
  · refine ⟨keeps.methods.length_eq ▸ fits.methods.few, fun method among => ?_⟩
    obtain ⟨old, known, same⟩ := Outcome.exists_of_forall₂ keeps.methods method among
    have held := fits.methods.each old known
    refine ⟨same.attributes.length_eq ▸ held.few, fun given within => ?_⟩
    obtain ⟨origin, first, alike⟩ := Outcome.exists_of_forall₂ same.attributes given within
    refine ⟨?_, short method among given within⟩
    rw [alike.nameIndex, alike.name]
    exact more.utf8 (held.each origin first).name
  · rw [keeps.attributes]
    exact table fits.attributes

/-- **A class is rewritten in its code and at the end of its constant pool, and nowhere else.**  The
bytes are those of a class file that keeps the rest, and they are read back as that file exactly
when the length of every payload fits the four bytes the format has for it.  Only a new code
payload can be too long. -/
theorem transform?_keeps (transformer : Transformer) (sources : Sources) (bytes : Bytes)
    (cache : ClassCache) {out : Bytes}
    (rewritten : (transformer.transform? sources bytes cache).1 = .ok (some out)) :
    ∃ before className probes after, ClassFile.read bytes = .ok before ∧
      before.name = .ok className ∧
      (matchingProbes transformer.probes sources before className cache).1 = .ok probes ∧
      before.Keeps probes transformer.options after ∧
      after.write after.entries (fun _ => none) = .ok out ∧
      (ClassFile.read out = .ok after ↔
        ∀ method ∈ after.methods, ∀ given ∈ method.attributes,
          given.payload.length < 2 ^ 32) := by
  obtain ⟨before, className, probes, cache', read, named, reached, woven⟩ :=
    transform?_eq_ok rewritten
  have fits := ClassFile.fits_of_read read
  have filled : before.entries.isEmpty = false := by
    obtain ⟨parts, _, table⟩ := fits.slotted
    rw [← Array.isEmpty_toList, table]
    rfl
  obtain ⟨after, keeps, written, slotted⟩ := weave_keeps filled woven
  refine ⟨before, className, probes, after, read, named, by rw [reached], keeps, written, ?_, ?_⟩
  · intro again method among given held
    exact (((ClassFile.fits_of_read again).methods.each method among).each given held).length
  · intro short
    have fits' := keeps.fits fits (slotted fits.slotted) short
    exact ClassFile.read_written fits' written

/-- `class A { static void m() { return; } }`, with nothing more than that takes. -/
def Sample.plain : Bytes :=
  [0xCA, 0xFE, 0xBA, 0xBE, 0, 0, 0, 49,
    0, 6, 1, 0, 1, 65, 7, 0, 1, 1, 0, 1, 109, 1, 0, 3, 40, 41, 86, 1, 0, 4, 67, 111, 100, 101,
    0, 1, 0, 2, 0, 0, 0, 0, 0, 0, 0, 1, 0, 8, 0, 3, 0, 4, 0, 1,
    0, 5, 0, 0, 0, 13, 0, 0, 0, 0, 0, 0, 0, 1, 0xB1, 0, 0, 0, 0, 0, 0]

/-- The same with a `nop` before the `return`. -/
def Sample.probed : Bytes :=
  [0xCA, 0xFE, 0xBA, 0xBE, 0, 0, 0, 49,
    0, 6, 1, 0, 1, 65, 7, 0, 1, 1, 0, 1, 109, 1, 0, 3, 40, 41, 86, 1, 0, 4, 67, 111, 100, 101,
    0, 1, 0, 2, 0, 0, 0, 0, 0, 0, 0, 1, 0, 8, 0, 3, 0, 4, 0, 1,
    0, 5, 0, 0, 0, 14, 0, 0, 0, 0, 0, 0, 0, 2, 0, 0xB1, 0, 0, 0, 0, 0, 0]

/-- A `nop` at the entry of every method of class `A`. -/
def Sample.nopAtEntry : Transformer :=
  ⟨[⟨"A", "", none, ⟨"", "", "", "", 0, .entry, .before⟩,
    Snippet.probeCode [.insn (.simple Opcode.nop)]⟩], Options.standard⟩

theorem transform?_keeps_plain :
    (Sample.nopAtEntry.transform? ⟨none, []⟩ Sample.plain ClassCache.empty).1 =
      .ok (some Sample.probed) ∧
    ∃ before className probes after, ClassFile.read Sample.plain = .ok before ∧
      before.name = .ok className ∧
      (matchingProbes Sample.nopAtEntry.probes ⟨none, []⟩ before className ClassCache.empty).1 =
        .ok probes ∧
      before.Keeps probes Options.standard after ∧
      after.write after.entries (fun _ => none) = .ok Sample.probed ∧
      (ClassFile.read Sample.probed = .ok after ↔
        ∀ method ∈ after.methods, ∀ given ∈ method.attributes,
          given.payload.length < 2 ^ 32) := by
  have rewritten : (Sample.nopAtEntry.transform? ⟨none, []⟩ Sample.plain ClassCache.empty).1 =
      .ok (some Sample.probed) := by decide +kernel
  exact ⟨rewritten, transform?_keeps Sample.nopAtEntry ⟨none, []⟩ Sample.plain ClassCache.empty
    rewritten⟩

/-! ## Code that is too long

The lengths of code payloads are not looked at when a class is written.  A probe may declare so
many variables for a method of one instruction that four bytes do not hold the length of its
payload any more; the bytes are made nevertheless, and no class is read from them. -/

/-- A probe that is not after subtypes is the only one to reach a class, if it reaches it. -/
theorem matchingProbes_singleton {probe : Probe} {sources : Sources} {className : String}
    {cache after : ClassCache} (direct : probe.wantsSubtypes = false)
    (reached : probe.reaches sources className none cache = (true, after)) (file : ClassFile) :
    matchingProbes [probe] sources file className cache = (.ok [probe], after) := by
  simp only [matchingProbes, List.any_cons, direct, List.any_nil, Bool.or_self,
    Bool.false_eq_true, if_false, List.filterM, List.filterAuxM, bind, StateT.bind, reached]
  rfl

/-- A class that some probe reaches is what is woven of it. -/
theorem transform?_of_reached {transformer : Transformer} {sources : Sources} {bytes : Bytes}
    {cache cache' : ClassCache} {file : ClassFile} {className : String} {probe : Probe}
    {probes : List Probe} (read : ClassFile.read bytes = .ok file)
    (named : file.name = .ok className)
    (reached : matchingProbes transformer.probes sources file className cache =
      (.ok (probe :: probes), cache')) :
    (transformer.transform? sources bytes cache).1 =
      (weave (probe :: probes) transformer.options (sources.hierarchy cache') file
        className).1 := by
  unfold Transformer.transform?
  rw [read]
  simp only [named, bind, StateT.bind, reached]
  rfl

/-- Code that declares a variable, so many times over. -/
def Injection.declaring (declared : Variable) : Nat → Injection
  | 0 => .done
  | n + 1 => .emit (.variable declared) (declaring declared n)

/-- The rewrite with these variables, if injected code has declared them. -/
def MethodRewrite.withDeclared (rewrite : MethodRewrite) (declared : Array Variable) :
    MethodRewrite :=
  { rewrite with injected := true, body := { rewrite.body with declared := declared } }

theorem Injection.run_declaring (declared : Variable) : ∀ (n : Nat) (rewrite : MethodRewrite),
    (declaring declared (n + 1)).run rewrite =
      (.ok (), rewrite.withDeclared (rewrite.body.declared ++ Array.replicate (n + 1) declared))
  | 0, _ => rfl
  | n + 1, rewrite => by
    rw [declaring, run, run_declaring declared n]
    simp [MethodRewrite.inject, MethodRewrite.step, MethodBody.add, MethodRewrite.withDeclared,
      ← Array.append_singleton_assoc, Array.replicate_succ']

namespace Layer

/-- A layer that has been entered lets all events of a method pass but the first. -/
theorem stepAll_entered {layer : Layer} {prologue : Prologue}
    (watch : layer.watch = .entry prologue) (entered : prologue.waiting = false)
    {event : MethodEvent} (started : ∀ maxStack maxLocals, event ≠ .sizes maxStack maxLocals)
    (rewrite : MethodRewrite) :
    stepAll [layer] event rewrite = ([layer], rewrite.step event) := by
  obtain ⟨probe, method, _⟩ := layer
  subst watch
  cases event with
  | sizes => exact absurd rfl (started _ _)
  | insn insn => simp [stepAll, before, after, Prologue.step, entered]
  | _ => rfl

theorem runAll_entered {layer : Layer} {prologue : Prologue}
    (watch : layer.watch = .entry prologue) (entered : prologue.waiting = false) :
    ∀ {events : List MethodEvent}, (∀ maxStack maxLocals, .sizes maxStack maxLocals ∉ events) →
    ∀ rewrite : MethodRewrite,
      runAll [layer] events rewrite = ([layer], events.foldl MethodRewrite.step rewrite)
  | [], _, _ => rfl
  | event :: events, started, rewrite => by
    have pass := stepAll_entered watch entered
      (fun _ _ same => started _ _ (List.mem_cons.2 (.inl same.symm))) rewrite
    have later := runAll_entered watch entered
      (fun _ _ among => started _ _ (List.mem_cons_of_mem _ among)) (rewrite.step event)
    rw [List.foldl_cons, ← later, runAll, List.foldl_cons]
    exact congrArg (fun reached => List.foldl _ reached events) pass

/-- A probe for the entry of a method that is no constructor fires once, when the method begins. -/
theorem runAll_entry {probe : Probe} {method : MethodContext}
    (entry : probe.location.kind = .entry) (plain : method.isConstructor = false)
    (maxStack maxLocals : UInt16) {events : List MethodEvent}
    (started : ∀ maxStack maxLocals, .sizes maxStack maxLocals ∉ events)
    (rewrite : MethodRewrite) :
    (runAll [start probe method] (.sizes maxStack maxLocals :: events) rewrite).2 =
      events.foldl MethodRewrite.step
        ((start probe method).fire none (rewrite.step (.sizes maxStack maxLocals))) := by
  have watch : (start probe method).watch = .entry ⟨false, 0⟩ := by
    rw [start, entry, Prologue.start, plain]
  have first : stepAll [start probe method] (.sizes maxStack maxLocals) rewrite =
      ([start probe method],
        (start probe method).fire none (rewrite.step (.sizes maxStack maxLocals))) := by
    simp [stepAll, before, after, watch]
  show (runAll (stepAll [start probe method] _ rewrite).1 events
    (stepAll [start probe method] _ rewrite).2).2 = _
  rw [first, runAll_entered watch rfl started]

end Layer

/-- The method of `Sample.plain`. -/
def Sample.plainMember : Member :=
  ⟨8, 3, 4, [⟨5, "Code", [0, 0, 0, 0, 0, 0, 0, 1, 0xB1, 0, 0, 0, 0]⟩]⟩

/-- What `Sample.plain` is read as. -/
def Sample.plainClass : ClassFile :=
  ⟨0, 49, #[.unusable, .utf8 "A", .class 1, .utf8 "m", .utf8 "()V", .utf8 "Code"], 1, 2, 0, [], [],
    [plainMember], []⟩

theorem Sample.read_plain : ClassFile.read plain = .ok plainClass := rfl

/-- A variable without a range. -/
def Sample.declared : Variable := ⟨"m", "m", none, ⟨0⟩, ⟨0⟩, 0⟩

/-- A probe for class `A` reaches it. -/
theorem Sample.matchingProbes_A (location : Location) (code : ProbeCode) (file : ClassFile) :
    matchingProbes [⟨"A", "", none, location, code⟩] ⟨none, []⟩ file "A" ClassCache.empty =
      (.ok [⟨"A", "", none, location, code⟩], ClassCache.empty) := by
  have whole : ("A".toList.head? == some '+') = false := by decide +kernel
  have direct : ("A".isEmpty || Probe.isExpression "A") = false := rfl
  have byName : Probe.wantsSubtypes ⟨"A", "", none, location, code⟩ = false := whole
  refine matchingProbes_singleton byName ?_ file
  unfold Probe.reaches
  rw [if_neg (ne_true_of_eq_false direct)]
  simp only [beq_self_eq_true]
  rfl

/-- A probe for the entry of every method of class `A` that declares so many variables. -/
def Sample.flood (count : Nat) : Probe :=
  ⟨"A", "", none, ⟨"", "", "", "", 0, .entry, .before⟩,
    fun _ => Injection.declaring Sample.declared count⟩

/-! ### The payload -/

/-- The code of the method, assembled. -/
def Sample.assembled : AssembledCode :=
  ⟨[Opcode.voidReturn], ((∅ : Std.TreeMap Label Nat).insert ⟨0⟩ 0).insert ⟨1⟩ 1, []⟩

def Sample.plainPool : ConstantPool := ConstantPool.ofEntries plainClass.entries

/-- The row of `Sample.declared`. -/
def Sample.row : VariableEntry := ⟨0, 0, 3, 3, 0⟩

theorem Sample.variableRow_declared :
    assembled.variableRow declared plainPool = (.ok (some (row, none)), plainPool) := by
  have known : plainPool.places[Constant.utf8 "m"]? = some 3 := by decide +kernel
  have name := Interning.place_eq_of_known known (return .utf8 "m")
  refine Interning.bind_eq_ok.2 ⟨0, plainPool, rfl, ?_⟩
  refine Interning.bind_eq_ok.2 ⟨0, plainPool, rfl, ?_⟩
  refine Interning.bind_eq_ok.2 ⟨3, plainPool, name, ?_⟩
  exact Interning.bind_eq_ok.2 ⟨3, plainPool, name, rfl⟩

/-- The pool with the name of the table of variables. -/
def Sample.floodedPool : ConstantPool :=
  (Interning.utf8 Attribute.localVariableTable plainPool).2

theorem Sample.name_table : Interning.utf8 Attribute.localVariableTable plainPool =
    (.ok 6, floodedPool) :=
  Prod.ext (by decide +kernel) rfl

/-- The payload of the method with so many variables. -/
def Sample.floodedCode (count : Nat) : Bytes :=
  [0, 0, 0, 0, 0, 0, 0, 1, 0xB1, 0, 0] ++ CodeAttribute.writeTables
    [(6, Bytes.count count ++ (List.replicate count row.write).flatten)]

theorem Sample.encode_declared (n : Nat) :
    assembled.encode 0 0 [] none (List.replicate (n + 1) declared) plainPool =
      (.ok (floodedCode (n + 1)), floodedPool) := by
  have rows := Interning.mapM_replicate variableRow_declared (n + 1)
  have plain : namedTable Attribute.localVariableTable (List.replicate (n + 1) row.write)
      plainPool =
      (.ok [(6, Bytes.count (n + 1) ++ (List.replicate (n + 1) row.write).flatten)],
        floodedPool) := by
    refine Interning.bind_eq_ok.2 ⟨6, floodedPool, name_table, ?_⟩
    rw [List.length_replicate]
    rfl
  -- There is no stack map and no line; behind them come the variables, none with a signature.
  refine Interning.bind_eq_ok.2 ⟨[], plainPool, rfl, ?_⟩
  refine Interning.bind_eq_ok.2 ⟨[], plainPool, rfl, ?_⟩
  refine Interning.bind_eq_ok.2 ⟨[], plainPool, rfl, ?_⟩
  refine Interning.bind_eq_ok.2 ⟨_, plainPool, rows, ?_⟩
  rw [List.filterMap_replicate]
  simp only [id, List.map_replicate, List.filterMap_replicate, Option.map_none]
  refine Interning.bind_eq_ok.2 ⟨_, floodedPool, plain, ?_⟩
  exact Interning.bind_eq_ok.2 ⟨[], floodedPool, rfl, rfl⟩

/-! ### The method -/

/-- The method among those of the class. -/
def Sample.plainMethod : MethodContext := ⟨0, 8, "m", "()V"⟩

/-- The events of the method behind its sizes. -/
def Sample.plainBody : List MethodEvent :=
  [.label ⟨0⟩, .insn (.simple Opcode.voidReturn), .label ⟨1⟩, .maxs 0 0, .finish]

theorem Sample.tell_plain : plainMember.tell plainClass.entries "A" "m" "()V" =
    ⟨.sizes 0 0 :: plainBody, none⟩ := rfl

def Sample.target (pool : ConstantPool) (hierarchy : Hierarchy) : RewriteTarget :=
  RewriteTarget.start "A" 49 pool hierarchy Options.standard

/-- The rewrite of the method after its sizes. -/
def Sample.entered (pool : ConstantPool) (hierarchy : Hierarchy) : MethodRewrite where
  target := target pool hierarchy
  method := plainMethod
  ledger := Ledger.new 0
  body := MethodBody.empty
  hasCode := true
  injected := false
  originalMaxStack := 0
  originalMaxLocals := 0
  current := Frame.empty
  height := 0
  reachable := true
  saved := ∅
  group := []
  frameRequestedHere := false
  positions := ∅
  snapshots := #[]
  ranges := ∅
  inPrefix := true
  prefixLocals := []
  nextLabel := 0
  maxStack := 0
  maxLocals := 0
  fault := none

theorem Sample.step_sizes (pool : ConstantPool) (hierarchy : Hierarchy) :
    (MethodRewrite.start (target pool hierarchy) plainMethod).step (.sizes 0 0) =
      entered pool hierarchy := by
  have initial : Frame.initial "A" plainMethod.name plainMethod.descriptor plainMethod.isStatic =
      .ok Frame.empty := by decide +kernel
  have named : (target pool hierarchy).className = "A" := rfl
  rw [MethodRewrite.start, named, initial]
  rfl

/-- The rewrite behind a label that no jump leads to. -/
def Sample.labelled (rewrite : MethodRewrite) (label : Label) (position : Nat) : MethodRewrite :=
  { rewrite with
    saved := rewrite.saved.erase label
    group := [label]
    positions := rewrite.positions.insert label position
    body := rewrite.body.placeLabel label }

/-- The rewrite behind the label at the start of the code. -/
def Sample.opened (pool : ConstantPool) (hierarchy : Hierarchy) (scopes : Array Variable) :
    MethodRewrite :=
  labelled ((entered pool hierarchy).withDeclared scopes) ⟨0⟩ 0

theorem Sample.step_start (pool : ConstantPool) (hierarchy : Hierarchy)
    (scopes : Array Variable) :
    ((entered pool hierarchy).withDeclared scopes).step (.label ⟨0⟩) =
      opened pool hierarchy scopes := rfl

/-- The rewrite behind the only instruction. -/
def Sample.returned (pool : ConstantPool) (hierarchy : Hierarchy) (scopes : Array Variable) :
    MethodRewrite :=
  let before := opened pool hierarchy scopes
  { before with
    group := []
    snapshots := #[[]]
    inPrefix := false
    reachable := false
    body := before.body.add (.ofInstruction (.simple Opcode.voidReturn)) }

theorem Sample.step_return (pool : ConstantPool) (hierarchy : Hierarchy)
    (scopes : Array Variable) :
    (opened pool hierarchy scopes).step (.insn (.simple Opcode.voidReturn)) =
      returned pool hierarchy scopes := rfl

/-- The rewrite behind the label at the end of the code. -/
def Sample.ended (pool : ConstantPool) (hierarchy : Hierarchy) (scopes : Array Variable) :
    MethodRewrite :=
  labelled (returned pool hierarchy scopes) ⟨1⟩ 1

theorem Sample.step_end (pool : ConstantPool) (hierarchy : Hierarchy)
    (scopes : Array Variable) :
    (returned pool hierarchy scopes).step (.label ⟨1⟩) = ended pool hierarchy scopes := rfl

theorem Sample.step_maxs (pool : ConstantPool) (hierarchy : Hierarchy)
    (scopes : Array Variable) :
    (ended pool hierarchy scopes).step (.maxs 0 0) = ended pool hierarchy scopes := rfl

/-- What comes out of the method is its body with the variables encoded. -/
theorem Sample.foldl_entered {pool after : ConstantPool} {payload : Bytes}
    {scopes : Array Variable} (encoded : assembled.encode 0 0 [] none scopes.toList pool =
      (.ok payload, after)) (hierarchy : Hierarchy) :
    (plainBody.foldl MethodRewrite.step ((entered pool hierarchy).withDeclared scopes)).target =
      { target after hierarchy with rewritten := [(0, payload)] } := by
  have serialized : (ended pool hierarchy scopes).serialize
      (ended pool hierarchy scopes).target.pool = (.ok payload, after) := encoded
  rw [plainBody, List.foldl_cons, step_start, List.foldl_cons, step_return, List.foldl_cons,
    step_end, List.foldl_cons, step_maxs]
  show (ended pool hierarchy scopes).settle = _
  rw [MethodRewrite.settle, serialized]
  rfl

/-- The class after its method, with the payload under its number. -/
def Sample.flooded (hierarchy : Hierarchy) (count : Nat) : RewriteTarget :=
  { target floodedPool hierarchy with rewritten := [(0, floodedCode count)] }

theorem Sample.weaveMethod_flood (hierarchy : Hierarchy) (n : Nat) :
    weaveMethod [flood (n + 1)] plainClass.entries "A" plainMember plainMethod
      (target plainPool hierarchy) = (flooded hierarchy (n + 1), none) := by
  have fired : (Layer.start (flood (n + 1)) plainMethod).fire none (entered plainPool hierarchy) =
      (entered plainPool hierarchy).withDeclared (Array.replicate (n + 1) declared) := by
    have empty : (entered plainPool hierarchy).body.declared = #[] := rfl
    rw [Layer.fire]
    simp only [Layer.start, flood, Injection.run_declaring, empty, Array.empty_append]
  have run : (Layer.runAll [Layer.start (flood (n + 1)) plainMethod] (.sizes 0 0 :: plainBody)
      (MethodRewrite.start (target plainPool hierarchy) plainMethod)).2 = _ :=
    Layer.runAll_entry rfl rfl 0 0 (by simp [plainBody]) _
  rw [step_sizes] at run
  have encoded := encode_declared n
  rw [← Array.toList_replicate] at encoded
  have closed := foldl_entered encoded hierarchy
  rw [← fired] at closed
  rw [weaveMethod]
  simp only [plainMethod, tell_plain] at run ⊢
  rw [List.map_singleton, run]
  exact congrArg (·, none) closed

theorem Sample.weaveMethods_flood (hierarchy : Hierarchy) (n : Nat) :
    weaveMethods [flood (n + 1)] plainClass.entries "A" Options.standard [(plainMember, 0)]
      (target plainPool hierarchy) = (flooded hierarchy (n + 1), none) := by
  have named : plainClass.entries.utf8 plainMember.name = .ok "m" := rfl
  have described : plainClass.entries.utf8 plainMember.descriptor = .ok "()V" := rfl
  have open_ : (Location.allowsName "" "m" && true) = true := rfl
  have applies : (flood (n + 1)).appliesTo "m" "()V" = true := open_
  have touched : touchable Options.standard plainMember.access "m" = true := rfl
  have sound : (target plainPool hierarchy).failure = none := rfl
  have own : (⟨0, plainMember.access, "m", "()V"⟩ : MethodContext) = plainMethod := rfl
  rw [weaveMethods]
  simp only [named, described, pure, Except.pure, bind, Except.bind, List.filter_cons, applies,
    List.filter_nil, if_true, touched, sound]
  rw [if_neg (by simp), own, weaveMethod_flood]
  rfl

/-! ### The bytes -/

/-- The pool of the rewritten class, as it is written. -/
def Sample.floodedTable : Bytes :=
  [0, 7, 1, 0, 1, 65, 7, 0, 1, 1, 0, 1, 109, 1, 0, 3, 40, 41, 86, 1, 0, 4, 67, 111, 100, 101,
    1, 0, 18, 76, 111, 99, 97, 108, 86, 97, 114, 105, 97, 98, 108, 101, 84, 97, 98, 108, 101]

/-- What stands before the length of the payload. -/
def Sample.floodedHead : Bytes :=
  Bytes.u4 ClassFile.magic ++ Bytes.u2 0 ++ Bytes.u2 49 ++ floodedTable ++ Bytes.u2 1 ++ Bytes.u2 2
    ++ Bytes.u2 0 ++ Bytes.count 0 ++ Bytes.count 0 ++ Bytes.count 1
    ++ Bytes.u2 8 ++ Bytes.u2 3 ++ Bytes.u2 4 ++ Bytes.count 1 ++ Bytes.u2 5

/-- The class with a payload for its method. -/
def Sample.floodedClass (payload : Bytes) : Bytes :=
  floodedHead ++ (Bytes.u4 (UInt32.ofNat payload.length) ++ (payload ++ [0, 0]))

theorem Sample.write_flooded (payload : Bytes) :
    plainClass.write floodedPool.entries (fun i => [(0, payload)].lookup i) =
      .ok (floodedClass payload) := by
  have stored : floodedPool.entries.write = .ok floodedTable := by decide +kernel
  have methods : plainClass.methodsWith (fun i => [(0, payload)].lookup i) =
      [⟨8, 3, 4, [⟨5, "Code", payload⟩]⟩] := rfl
  refine Outcome.bind_eq_ok.2 ⟨_, stored, ?_⟩
  simp only [methods, Member.write, Attribute.writeTable, Attribute.write, floodedClass,
    floodedHead, List.flatMap_cons, List.flatMap_nil, List.append_nil, List.append_assoc]
  rfl

theorem Sample.weave_flood (hierarchy : Hierarchy) (n : Nat) :
    (weave [flood (n + 1)] Options.standard hierarchy plainClass "A").1 =
      .ok (some (floodedClass (floodedCode (n + 1)))) := by
  have preface : plainClass.tellPreface.fault = none := rfl
  have written : plainClass.write floodedPool.entries (flooded hierarchy (n + 1)).payload? = _ :=
    write_flooded (floodedCode (n + 1))
  have run : weaveMethods [flood (n + 1)] plainClass.entries "A" Options.standard
      plainClass.methods.zipIdx (RewriteTarget.start "A" plainClass.major
        (ConstantPool.ofEntries plainClass.entries) hierarchy Options.standard) = _ :=
    weaveMethods_flood hierarchy n
  unfold weave
  rw [preface]
  simp only [run]
  show RewriteTarget.result _ plainClass "A" = _
  rw [RewriteTarget.result]
  simp only [flooded, target, RewriteTarget.start, List.isEmpty_cons] at written ⊢
  rw [written]
  rfl

theorem Sample.transform?_flood (n : Nat) :
    ((⟨[flood (n + 1)], Options.standard⟩ : Transformer).transform? ⟨none, []⟩ plain
      ClassCache.empty).1 = .ok (some (floodedClass (floodedCode (n + 1)))) := by
  have named : plainClass.name = .ok "A" := rfl
  have reached : matchingProbes [flood (n + 1)] ⟨none, []⟩ plainClass "A" ClassCache.empty =
      (.ok [flood (n + 1)], ClassCache.empty) := matchingProbes_A _ _ _
  rw [transform?_of_reached read_plain named reached, weave_flood]

/-- What is behind a length that was cut off is taken for attributes of the class. -/
theorem Sample.read_cutOff (rest : Bytes) :
    ClassFile.read (floodedHead ++ ([0, 0, 0, 25] ++ ([0, 0, 0, 0, 0, 0, 0, 1, 0xB1, 0, 0, 0, 1,
      0, 6, 0, 0, 0, 6, 0x99, 0x9A] ++ ([0, 0, 0, 0, 0, 3, 0, 3, 0, 0] ++
      ([0, 0, 0, 0, 0, 3, 0, 3, 0, 0] ++ rest))))) = .error (.invalidIndex 0) := rfl

/-- With 429496730 variables the length of the payload is 25 more than four bytes can say, and that
of its table 6 more. -/
theorem Sample.floodedCode_unread {n : Nat} (many : n + 2 = 429496730) :
    ClassFile.read (floodedClass (floodedCode (n + 2))) = .error (.invalidIndex 0) := by
  have size : (List.replicate (n + 2) row.write).flatten.length = 4294967300 := by
    rw [List.length_flatten, List.map_replicate, List.sum_replicate_nat, many]
    rfl
  have count : Bytes.count (n + 2) = [0x99, 0x9A] := by
    rw [many]
    decide
  have table : (Bytes.count (n + 2) ++ (List.replicate (n + 2) row.write).flatten).length =
      4294967302 := by
    rw [List.length_append, Bytes.length_count, size]
  have cutOff : Bytes.u4 (UInt32.ofNat 4294967302) = [0, 0, 0, 6] := rfl
  have whole : floodedCode (n + 2) = [0, 0, 0, 0, 0, 0, 0, 1, 0xB1, 0, 0, 0, 1, 0, 6, 0, 0, 0, 6,
      0x99, 0x9A] ++ (List.replicate (n + 2) row.write).flatten := by
    rw [floodedCode, CodeAttribute.writeTables, List.flatMap_singleton]
    simp only [table, List.length_singleton]
    rw [cutOff, count]
    rfl
  have length : (floodedCode (n + 2)).length = 4294967321 := by
    rw [whole, List.length_append, size]
    rfl
  rw [floodedClass, length, whole, List.append_assoc, List.replicate_succ, List.replicate_succ,
    List.flatten_cons, List.flatten_cons, List.append_assoc, List.append_assoc]
  exact read_cutOff _

/-- **Code gets longer than its length can say, and there is no error** when a probe declares
429496730 variables. -/
theorem transform?_unread : ∃ out cause,
    ((⟨[Sample.flood 429496730], Options.standard⟩ : Transformer).transform? ⟨none, []⟩
      Sample.plain ClassCache.empty).1 = .ok (some out) ∧ ClassFile.read out = .error cause :=
  ⟨_, _, Sample.transform?_flood 429496729, Sample.floodedCode_unread rfl⟩

end ClassWeave
