/-
# ClassWeave.Loader.Hierarchy -- supertypes and common superclasses

Questions about the hierarchy are answered by following names from class to class, as
seen from one loader.  Every step resolves a class and so may add to the cache.

`supertypes` goes breadth first and lists every name once, in the spelling it was
found under, also names that resolve to nothing.  `commonSuperclass` answers the first
class on the way up from the right that is also on the way up from the left.  It falls
back on the root class wherever the way is unknown, and for interfaces.

Both walks follow a name at most once for each time that some class mentions it as a
supertype, and no class mentions more supertypes than it has bytes; so the sizes of
the sources and the cache bound the number of steps.
-/
import ClassWeave.Frame.Merge
import ClassWeave.Loader.Cache

set_option autoImplicit false

namespace ClassWeave

/-- A step that may add to a cache. -/
abbrev Resolving := StateM ClassCache

namespace Sources

def resolve (sources : Sources) (name : String) :
    Resolving (Except ResolveError CachedClass) :=
  fun cache => cache.resolve sources name

/-- More steps than a walk along supertypes takes from one class. -/
def stepBound (sources : Sources) (cache : ClassCache) (info : ClassInfo) : Nat :=
  info.supertypes.length + sources.size + cache.size + 2

/-- The names in `queue` and all their supertypes, in the order they are met, after those of
`found`, which holds the last one first. -/
def collect (sources : Sources) : Nat → List String → List String → Resolving (List String)
  | 0, found, _ => return found.reverse
  | fuel + 1, found, queue =>
    match queue.dropWhile found.contains with
    | [] => return found.reverse
    | name :: queue => do
      match ← sources.resolve name with
      | .ok cached => collect sources fuel (name :: found) (queue ++ cached.info.supertypes)
      | .error _ => collect sources fuel (name :: found) queue

/-- The names of all supertypes of a class, or only of those it names itself, nearest first. -/
def supertypes (sources : Sources) (info : ClassInfo) (onlyDirect : Bool) :
    Resolving (List String) := do
  if onlyDirect then return info.supertypes.eraseDups
  let bound := sources.stepBound (← get) info
  collect sources bound [] info.supertypes

/-- Whether a class is the named one or has it for a supertype. -/
def isSubtype (sources : Sources) (info : ClassInfo) (name : String) : Resolving Bool := do
  let wanted := ClassName.ofString name
  if info.name = wanted then return true
  let supertypes ← sources.supertypes info false
  return supertypes.any fun candidate => ClassName.ofString candidate == wanted

/-- The names on the way up from a class, after those of `found`, which holds the last one first.
The way ends at a class without superclass, or at a root class that is not to be had.  Only where
superclasses go round in a circle the steps run out; such a way, which has no end to be found,
is none. -/
def climb (sources : Sources) : Nat → List String → ClassInfo → Resolving (Option (List String))
  | 0, _, _ => return none
  | fuel + 1, found, info =>
    match info.superName with
    | none => return some found.reverse
    | some name => do
      match ← sources.resolve name with
      | .ok cached => climb sources fuel (name :: found) cached.info
      | .error _ =>
        return if name = ClassName.object then some (name :: found).reverse else none

/-- A class and its superclasses, as long as all of them are to be had. -/
def superclasses (sources : Sources) (name : String) : Resolving (Option (List String)) := do
  match ← sources.resolve name with
  | .error _ => return none
  | .ok cached =>
    let bound := sources.stepBound (← get) cached.info
    climb sources bound [name] cached.info

def commonSuperclass (sources : Sources) (left right : String) : Resolving String := do
  if left = right then return left
  let .ok leftClass ← sources.resolve left | return ClassName.object
  let .ok rightClass ← sources.resolve right | return ClassName.object
  if leftClass.info.isInterface || rightClass.info.isInterface then return ClassName.object
  let some leftNames ← sources.superclasses left | return ClassName.object
  let some rightNames ← sources.superclasses right | return ClassName.object
  return (rightNames.find? leftNames.contains).getD ClassName.object

/-- The hierarchy as a cache knows it and the sources tell it. -/
def hierarchy (sources : Sources) (cache : ClassCache) : Hierarchy :=
  ⟨fun left right => (sources.commonSuperclass left right cache).1⟩

/-- The cache after questions about common superclasses. -/
def settleQuestions (sources : Sources) (questions : List (String × String))
    (cache : ClassCache) : ClassCache :=
  questions.foldl (fun cache (left, right) => (sources.commonSuperclass left right cache).2) cache

end Sources

end ClassWeave
