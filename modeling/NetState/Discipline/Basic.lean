import NetState.Handle

namespace NetState

/-- The parameters of the fair queueing discipline with controlled delay; what is not set is left to
the kernel. Times are in microseconds. -/
structure FairQueue where
  target : Option UInt32
  limit : Option UInt32
  interval : Option UInt32
  ecn : Option Bool
  flows : Option UInt32
  quantum : Option UInt32
  ceThreshold : Option UInt32
  dropBatch : Option UInt32
  memoryLimit : Option UInt32
  deriving DecidableEq, Repr

namespace FairQueue

/-- Nothing set. -/
def unset : FairQueue := ⟨none, none, none, none, none, none, none, none, none⟩

/-- Whether a parameter has the wanted value, if one is wanted. -/
def meets {α : Type} [DecidableEq α] (value wanted : Option α) : Bool :=
  wanted == none || value == wanted

/-- Whether all that `wanted` sets is so. -/
def covers (params wanted : FairQueue) : Bool :=
  meets params.target wanted.target && meets params.limit wanted.limit &&
    meets params.interval wanted.interval && meets params.ecn wanted.ecn &&
    meets params.flows wanted.flows && meets params.quantum wanted.quantum &&
    meets params.ceThreshold wanted.ceThreshold && meets params.dropBatch wanted.dropBatch &&
    meets params.memoryLimit wanted.memoryLimit

end FairQueue

/-- What a discipline is told beyond its kind. -/
inductive DisciplineOptions where
  | none
  | fairQueue (params : FairQueue)
  /-- Octets for a kind whose parameters are not known here. -/
  | raw (octets : Bytes)
  deriving DecidableEq, Repr

/-- Whether the options meet what is wanted; no wish is met by any. -/
def DisciplineOptions.meet (options wanted : DisciplineOptions) : Bool :=
  match options, wanted with
  | _, .none => true
  | .fairQueue params, .fairQueue wanted => params.covers wanted
  | _, _ => options == wanted

/-- A queueing discipline, or what is wanted of one. -/
structure Discipline where
  interface : UInt32
  kind : String
  handle : Handle
  /-- Where it is attached. -/
  parent : Handle
  options : DisciplineOptions
  deriving DecidableEq, Repr

namespace Discipline

/-- The kind with parameters of its own here. -/
def fairQueueKind : String := "fq_codel"

def ingressKind : String := "ingress"

/-- The kind that hooks incoming and outgoing packets at the ingress attach point. -/
def bothSidesKind : String := "clsact"

/-- The kinds that take no options. -/
def plainKinds : List String :=
  ["ingress", "clsact", "pfifo_fast", "noqueue", "mq"]

def new (interface : UInt32) (kind : String) (handle parent : Handle) : Discipline where
  interface := interface
  kind := kind
  handle := handle
  parent := parent
  options := .none

/-- The discipline on the ingress side of a link, whose place and handle are fixed. -/
def ingress (interface : UInt32) : Discipline :=
  new interface ingressKind Handle.ingressDiscipline Handle.ingress

/-- Whether it is the kernel's own choice. -/
def isDefault (discipline : Discipline) : Bool :=
  discipline.handle.isUnspecified

/-- Whether what `wanted` sets is so: kind, and handle and options if set. -/
def satisfies (discipline wanted : Discipline) : Bool :=
  discipline.kind == wanted.kind &&
    (wanted.handle.isUnspecified || discipline.handle == wanted.handle) &&
    discipline.options.meet wanted.options

/-- Whether a kind can have such options. -/
def optionsFit (kind : String) : DisciplineOptions → Bool
  | .none => true
  | .fairQueue _ => kind == fairQueueKind
  | .raw _ => !plainKinds.contains kind

def validate (discipline : Discipline) : Except Fault Unit :=
  let refuse (cause : Cause) : Except Fault Unit := .error (.invalidArgument cause)
  if discipline.kind = "" then refuse .disciplineWithoutKind
  else if discipline.interface = 0 then refuse (.disciplineWithoutInterface discipline.kind)
  else if discipline.parent.isUnspecified then refuse (.disciplineWithoutParent discipline.kind)
  else if discipline.kind = ingressKind ∧ discipline.parent ≠ Handle.ingress then
    refuse .ingressElsewhere
  else if optionsFit discipline.kind discipline.options then .ok ()
  else refuse (.disciplineOptions discipline.kind)

end Discipline

end NetState
