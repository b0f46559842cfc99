import NetState.Inventory.Basic
import NetState.Session.Operation
import NetState.Support.Basic

/-!
What is to be asked of the kernel so that an object becomes as wanted, given what is known of it.

Nothing is asked if nothing is to be done. A link is changed in place if its kind allows it; a
filter cannot be changed and makes room for a new one; all else is replaced, in two requests where
the kernel cannot do it in one.
-/

namespace NetState

/-- What an operation has to do. -/
inductive Plan where
  | done (outcome : Outcome)
  | steps (steps : List Step)
  deriving DecidableEq, Repr

namespace Plan

/-- The requests that put an object in the place of one there is. -/
def substitute (existing desired : Object) : List Step :=
  [⟨existing, .delete⟩, ⟨desired, .create⟩]

/-- The requests that make an object that is there and not as wanted so. -/
def adapt (support : Support) (existing desired : Object) : Except Fault (List Step) :=
  let replacement :=
    if support.contains Support.replace then [⟨desired, .replace⟩]
    else substitute existing desired
  match existing, desired with
  | .link known, .link wanted =>
    if known.changeableTo wanted then
      .ok [⟨.link { wanted with index := known.index }, .change⟩]
    else .error (.alreadyExists (.linkOfOtherKind known.name known.kind.text))
  | .discipline d, _ => .ok (if d.isDefault then [⟨desired, .create⟩] else replacement)
  | .filter _, _ => .ok (substitute existing desired)
  | _, _ => .ok replacement

/-- How an object comes to be as wanted. -/
def toAdd (inventory : Inventory) (support : Support) (desired : Object) : Except Fault Plan :=
  match inventory.find? desired with
  | none => .ok (.steps [⟨desired, .create⟩])
  | some existing =>
    if existing.satisfies desired then .ok (.done (.unchanged existing))
    else (adapt support existing desired).map .steps

/-- Whether nothing can be there to be deleted, though nothing is known of it: a filter without a
priority, for which the request would delete all others as well, or without a discipline. -/
def isSurelyAbsent (inventory : Inventory) (desired : Object) : Bool :=
  match desired with
  | .filter f => f.priority == 0 || (inventory.filterParent? f.interface f.parent).isNone
  | _ => false

/-- Whether an object is the discipline that the kernel puts where there is no other. -/
def isDefaultDiscipline : Object → Bool
  | .discipline d => d.isDefault
  | _ => false

/-- How an object comes to be gone, and the object that this is about: the known snapshot, if there
is one, since that has the numbers that the kernel gave. -/
def toDelete (inventory : Inventory) (desired : Object) : Object × Plan :=
  match inventory.find? desired with
  | some existing =>
    if isDefaultDiscipline existing then (desired, .done .alreadyAbsent)
    else (existing, .steps [⟨existing, .delete⟩])
  | none =>
    if isSurelyAbsent inventory desired then (desired, .done .alreadyAbsent)
    else (desired, .steps [⟨desired, .delete⟩])

end Plan

end NetState
