import Mathlib.Logic.Function.Basic

/-! The name space of POSIX shared-memory objects.

Objects are numbered in order of creation. A name is linked to at most one
object; an unlinked object lives on behind the mappings that refer to it, so its
number is never used again.
-/

set_option autoImplicit false

namespace ComIpc.Semantics

/-- `birthName` is the name an object was created under. -/
structure ShmSpace (Name : Type) where
  linked : Name → Option Nat
  count : Nat
  birthName : Nat → Name
  wellFormed : ∀ name obj, linked name = some obj → obj < count ∧ birthName obj = name

namespace ShmSpace

def empty {Name : Type} [Inhabited Name] : ShmSpace Name :=
  ⟨fun _ => none, 0, fun _ => default, fun _ _ found => nomatch found⟩

variable {Name : Type} [DecidableEq Name]

def unlink (space : ShmSpace Name) (name : Name) : ShmSpace Name where
  linked := Function.update space.linked name none
  count := space.count
  birthName := space.birthName
  wellFormed := by
    intro other obj found
    by_cases same : other = name
    · simp [same] at found
    · exact space.wellFormed other obj (by simpa [same] using found)

/-- Creation under a name, whatever the name was linked to before. -/
def create (space : ShmSpace Name) (name : Name) : ShmSpace Name where
  linked := Function.update space.linked name (some space.count)
  count := space.count + 1
  birthName := Function.update space.birthName space.count name
  wellFormed := by
    intro other obj found
    by_cases same : other = name
    · subst same
      simp only [Function.update_self, Option.some.injEq] at found
      subst found
      simp
    · obtain ⟨old, born⟩ := space.wellFormed other obj (by simpa [same] using found)
      refine ⟨Nat.lt_succ_of_lt old, ?_⟩
      rwa [Function.update_of_ne (Nat.ne_of_lt old)]

/-- `shm_open` with `O_CREAT | O_EXCL`: no result on a linked name (`EEXIST`). -/
def openExclusive (space : ShmSpace Name) (name : Name) : Option (ShmSpace Name × Nat) :=
  if (space.linked name).isNone then some (space.create name, space.count) else none

/-- `shm_open` without `O_CREAT`. -/
def openExisting (space : ShmSpace Name) (name : Name) : Option Nat := space.linked name

@[simp] theorem linked_create (space : ShmSpace Name) (name other : Name) :
    (space.create name).linked other =
      if other = name then some space.count else space.linked other := by
  simp [create, Function.update_apply]

@[simp] theorem count_create (space : ShmSpace Name) (name : Name) :
    (space.create name).count = space.count + 1 := rfl

@[simp] theorem linked_unlink (space : ShmSpace Name) (name other : Name) :
    (space.unlink name).linked other = if other = name then none else space.linked other := by
  simp [unlink, Function.update_apply]

@[simp] theorem count_unlink (space : ShmSpace Name) (name : Name) :
    (space.unlink name).count = space.count := rfl

@[simp] theorem birthName_unlink (space : ShmSpace Name) (name : Name) :
    (space.unlink name).birthName = space.birthName := rfl

theorem birthName_create_old (space : ShmSpace Name) (name : Name) {obj : Nat}
    (old : obj < space.count) : (space.create name).birthName obj = space.birthName obj :=
  Function.update_of_ne (Nat.ne_of_lt old) _ _

@[simp] theorem birthName_create_new (space : ShmSpace Name) (name : Name) :
    (space.create name).birthName space.count = name :=
  Function.update_self _ _ _

end ShmSpace

end ComIpc.Semantics
