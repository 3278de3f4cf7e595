/-
# ClassWeave.Loader.Cache -- what is known of classes, kept by the loader they belong to

`ClassInfo` is what a class file says about the shape of a class.  A cache keeps it
once it has been read, in one table for each loader that a class belongs to and one
for the bootstrap loader; every entry has a number of its own.

A class is looked up along the chain of a loader, as it would be located, and is read
only if no table on the way has it.  A failure is not kept and changes nothing.
Unloading a loader drops its table.
-/
import ClassWeave.ClassFile.Basic
import ClassWeave.Loader.Basic

set_option autoImplicit false

namespace ClassWeave

structure MemberInfo where
  access : UInt16
  name : String
  descriptor : String
deriving DecidableEq, Repr

structure ClassInfo where
  name : ClassName
  superName : Option String
  interfaces : List String
  isInterface : Bool
  methods : List MemberInfo
  fields : List MemberInfo
  /-- The loader the class belongs to, where none is the bootstrap loader. -/
  loader : Option LoaderKey
deriving DecidableEq, Repr

namespace ClassInfo

def memberInfo (file : ClassFile) (member : Member) : Except ReadError MemberInfo := do
  let name ← file.entries.utf8 member.name
  return ⟨member.access, name, ← file.entries.utf8 member.descriptor⟩

def ofClassFile (file : ClassFile) (loader : Option LoaderKey) : Except ReadError ClassInfo := do
  let methods ← file.methods.mapM (memberInfo file)
  let fields ← file.fields.mapM (memberInfo file)
  let name ← file.name
  let superName ← file.superName
  let interfaces ← file.interfaceNames
  return ⟨ClassName.ofString name, superName, interfaces,
    AccessFlag.interface.isIn file.access, methods, fields, loader⟩

def ofBytes (bytes : Bytes) (loader : Option LoaderKey) : Except ReadError ClassInfo := do
  ofClassFile (← ClassFile.read bytes) loader

/-- The superclass, then the interfaces in the order the class names them. -/
def supertypes (info : ClassInfo) : List String := info.superName.toList ++ info.interfaces

def declaresMethod (info : ClassInfo) (name descriptor : String) : Bool :=
  info.methods.any fun method => method.name == name && method.descriptor == descriptor

def declaresField (info : ClassInfo) (name : String) : Bool :=
  info.fields.any fun field => field.name == name

end ClassInfo

/-- An entry of a cache. -/
structure CachedClass where
  number : Nat
  info : ClassInfo
deriving DecidableEq, Repr

abbrev InfoTable := Std.TreeMap String CachedClass

structure ClassCache where
  bootstrap : InfoTable
  loaders : Std.TreeMap LoaderKey InfoTable
  /-- The number of the next entry. -/
  next : Nat

namespace ClassCache

def empty : ClassCache := ⟨∅, ∅, 0⟩

/-- The first entry along a chain of loaders. -/
def lookupIn (cache : ClassCache) (name : ClassName) : List Loader → Option CachedClass
  | [] => none
  | loader :: rest =>
    match (cache.loaders[loader.key]?).bind (·[name.internal]?) with
    | some cached => some cached
    | none => lookupIn cache name rest

def lookup (cache : ClassCache) (sources : Sources) (name : ClassName) : Option CachedClass :=
  match cache.bootstrap[name.internal]? with
  | some cached => some cached
  | none => lookupIn cache name sources.chain

/-- A class that belongs to a loader, kept. -/
def store (cache : ClassCache) (name : ClassName) (info : ClassInfo) : CachedClass × ClassCache :=
  let cached : CachedClass := ⟨cache.next, info⟩
  match info.loader with
  | none =>
    (cached,
      { cache with
        bootstrap := cache.bootstrap.insert name.internal cached, next := cache.next + 1 })
  | some key =>
    let table := (cache.loaders[key]?).getD ∅
    (cached,
      { cache with
        loaders := cache.loaders.insert key (table.insert name.internal cached)
        next := cache.next + 1 })

/-- A class as seen from a loader. -/
def resolve (cache : ClassCache) (sources : Sources) (name : String) :
    Except ResolveError CachedClass × ClassCache :=
  let name := ClassName.ofString name
  match cache.lookup sources name with
  | some cached => (.ok cached, cache)
  | none =>
    match sources.locate name with
    | none => (.error (.notFound sources.display name.internal), cache)
    | some (loader, bytes) =>
      match ClassInfo.ofBytes bytes loader with
      | .error cause => (.error (.unreadable name.internal cause), cache)
      | .ok info =>
        let (cached, cache) := cache.store name info
        (.ok cached, cache)

def unload (cache : ClassCache) (key : LoaderKey) : ClassCache :=
  { cache with loaders := cache.loaders.erase key }

/-- How many loaders have a table. -/
def loaderCount (cache : ClassCache) : Nat := cache.loaders.size

/-- How many supertypes the classes of a table name together. -/
def tableSize (table : InfoTable) : Nat :=
  table.foldl (fun size _ cached => size + cached.info.supertypes.length) 0

/-- How many supertypes the entries name together. -/
def size (cache : ClassCache) : Nat :=
  cache.loaders.foldl (fun size _ table => size + tableSize table) (tableSize cache.bootstrap)

end ClassCache

end ClassWeave
