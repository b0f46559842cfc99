import NetState.Object.Basic
import NetState.Support.Basic
import NetState.Support.Modules

/-!
How the features of a kernel are found out, once, and what they allow.

The socket and two trial listings tell the features of the kernel as a whole; its modules tell the
rest. Those of traffic control need that as well as their module. An object is refused when it needs
a feature that is known by name and not there; of kinds without a name nothing is known, and the
kernel has the last word.
-/

namespace NetState

/-- What the socket and the trial listings told. -/
structure Facts where
  extendedAck : Bool
  strictCheck : Bool
  /-- Queueing disciplines could be listed. -/
  traffic : Bool
  /-- Addresses of version 6 could be listed. -/
  ipv6 : Bool
  deriving DecidableEq, Repr

namespace Support

/-- The features of the kernel as a whole that the facts tell. -/
def ofFacts (facts : Facts) : Support :=
  ((((none.set extendedAck facts.extendedAck).set strictCheck facts.strictCheck).set traffic
    facts.traffic).set replace facts.traffic).set ipv6 facts.ipv6

/-- Whether a feature that comes with a module is there. -/
def Feature.isPresent (facts : Facts) (modules : Modules) (feature : Feature) : Bool :=
  feature.module?.any fun module =>
    (firstLink.bits ≤ feature.flag.bits || facts.traffic) && modules.has module

/-- The features that facts and modules tell. -/
def evaluate (facts : Facts) (modules : Modules) : Support :=
  (features.filter (Feature.isPresent facts modules)).foldl
    (fun support feature => support.union feature.flag) (ofFacts facts)

/-- Demands a feature. -/
def require (support : Support) (name : String) (flag : Support) : Except Fault Unit :=
  if support.contains flag then .ok () else .error (.notSupported (.featureMissing name))

/-- Demands the feature of a name, if there is one. -/
def requireNamed (support : Support) (name : String) : Except Fault Unit :=
  match flag? name with
  | some flag => support.require name flag
  | Option.none => .ok ()

/-- Refuses an object that cannot be added for want of a feature. -/
def permit (support : Support) (object : Object) : Except Fault Unit :=
  match object with
  | .link l =>
    match l.kind.kernelName? with
    | some name => if l.kind.isCreatable then support.requireNamed name else .ok ()
    | Option.none => .ok ()
  | .address a => if a.ip.isV6 then support.require "ipv6" ipv6 else .ok ()
  | .route r => if r.isV6 then support.require "ipv6" ipv6 else .ok ()
  | .discipline d => do
    support.require "tc" traffic
    support.requireNamed d.kind
  | .filter f => do
    support.require "tc" traffic
    support.requireNamed f.kind
    match f.action with
    | some action => support.requireNamed action.kindName
    | Option.none => .ok ()

end Support

/-- What has been found out of the features of a kernel. -/
structure Probe where
  /-- The files that tell its modules. -/
  files : Files
  /-- The answer, once there is one. -/
  answer : Option Support

namespace Probe

def new (files : Files) : Probe := ⟨files, none⟩

/-- A probe whose answer is given. -/
def fixed (support : Support) : Probe := ⟨Files.nothing, some support⟩

/-- The probe with the answer that facts lead to. -/
def finish (probe : Probe) (facts : Facts) : Probe :=
  { probe with answer := some (Support.evaluate facts (Modules.ofFiles probe.files)) }

/-- Forgets the answer, so that it is found out again. -/
def invalidate (probe : Probe) : Probe :=
  { probe with answer := none }

end Probe

end NetState
