import NetState.Files
import NetState.Ip.Text
import NetState.Span
import NetState.Text.Quoted
import NetState.Text.Utf8

/-!
What can go wrong, and how it is told.

A `Fault` says who failed: the socket, the kernel, a message that cannot be read, or a request that
is refused before it is sent. A `Cause` says why, and holds what its text needs. `Fault.status` maps
every fault to one of a few statuses a caller can act on.
-/

namespace NetState

/-- What is missing or wrong in the text of a queueing discipline. -/
inductive DisciplineTextFlaw where
  | missingValue
  | badInterface
  | trailingInput
  | missingKind
  | missingParent
  deriving DecidableEq, Repr

def DisciplineTextFlaw.message : DisciplineTextFlaw → String
  | .missingValue => "missing value"
  | .badInterface => "bad ifindex"
  | .trailingInput => "trailing input"
  | .missingKind => "missing kind"
  | .missingParent => "missing parent"

/-- Why something is refused or cannot be read. -/
inductive Cause where
  /-- A cause in a caller's own words. -/
  | words (text : String)
  | addressText (text : String)
  | prefixLengthText (text : String)
  | routeText (text : String)
  | handleText (text : String)
  | actionText (text : String)
  | disciplineText (text : String) (flaw : DisciplineTextFlaw)
  | prefixLength (length : UInt8) (address : Ip)
  | addressWithoutInterface (address : Ip)
  | labelNotV4
  | labelTooLong (label : String)
  | linkUnnamed
  | linkNameTooLong (name : String)
  | vlanWithoutId (name : String)
  | routeWithoutNextHop (destination : Ip) (length : UInt8)
  | gatewayFamily (gateway destination : Ip) (length : UInt8)
  | disciplineWithoutKind
  | disciplineWithoutInterface (kind : String)
  | disciplineWithoutParent (kind : String)
  | ingressElsewhere
  | disciplineOptions (kind : String)
  | filterUnplaced (kind : String)
  | actionDataTooLong (octets : Nat)
  | attributeTooLong (kind : UInt16) (octets : Nat)
  | linkKindFixed (kind : String)
  | filterWithoutActions (kind : String)
  | featureMissing (name : String)
  | linkOfOtherKind (name kind : String)
  | namespaceFile (path : String) (flaw : PathFlaw)
  | messageLength (octets : Nat)
  | emptyOctet
  | attributeTruncated (what : String)
  | attributeText (flaw : Text.Utf8.Flaw)
  | addressFamily (family : UInt8)
  deriving DecidableEq, Repr

namespace Cause

/-- An address and a prefix length, with a slash between them. -/
def network (address : Ip) (length : UInt8) : String :=
  address.text ++ "/" ++ toString length.toNat

/-- The most octets of data that a logging action keeps. -/
def actionDataLimit : Nat := 31

def message : Cause → String
  | words text => text
  | addressText text => "invalid address: " ++ Text.quoted text
  | prefixLengthText text => "invalid prefix length: " ++ Text.quoted text
  | routeText text => "invalid route prefix: " ++ Text.quoted text
  | handleText text => "invalid tc handle: " ++ Text.quoted text
  | actionText text => "invalid action: " ++ Text.quoted text
  | disciplineText text flaw => "qdisc " ++ Text.quoted text ++ ": " ++ flaw.message
  | prefixLength length address =>
    "prefix length " ++ toString length.toNat ++ " out of range for " ++ address.text
  | addressWithoutInterface address => "address " ++ address.text ++ " needs an interface"
  | labelNotV4 => "address labels are IPv4 only"
  | labelTooLong label => "address label too long: " ++ label
  | linkUnnamed => "link needs a name or an ifindex"
  | linkNameTooLong name => "link name too long: " ++ name
  | vlanWithoutId name => "vlan " ++ name ++ " needs an id"
  | routeWithoutNextHop destination length =>
    "route " ++ network destination length ++ " needs a device or a gateway"
  | gatewayFamily gateway destination length =>
    "gateway " ++ gateway.text ++ " does not match the family of " ++ network destination length
  | disciplineWithoutKind => "qdisc kind is empty"
  | disciplineWithoutInterface kind => "qdisc " ++ kind ++ " needs an interface"
  | disciplineWithoutParent kind => "qdisc " ++ kind ++ " needs a parent"
  | ingressElsewhere => "ingress qdisc must attach at the ingress parent"
  | disciplineOptions kind => "options do not match qdisc kind " ++ kind
  | filterUnplaced kind => kind ++ " filter needs an interface and a parent"
  | actionDataTooLong octets =>
    "simple action data is " ++ toString octets ++ " bytes, the kernel keeps at most " ++
      toString actionDataLimit
  | attributeTooLong kind octets =>
    "attribute " ++ toString kind.toNat ++ " carries " ++ toString octets ++
      " bytes, more than a netlink attribute can hold"
  | linkKindFixed kind => "links of kind " ++ kind ++ " cannot be created"
  | filterWithoutActions kind => "actions on " ++ kind ++ " filters"
  | featureMissing name => name ++ " is not supported by the running kernel"
  | linkOfOtherKind name kind => "link " ++ name ++ " exists as " ++ kind
  | namespaceFile path flaw => "namespace '" ++ path ++ "': " ++ flaw.message
  | messageLength octets => "invalid message length: " ++ toString octets
  | emptyOctet => "empty u8 attribute"
  | attributeTruncated what => "truncated " ++ what ++ " attribute"
  | attributeText flaw => "invalid UTF-8: " ++ flaw.message
  | addressFamily family => "address in unsupported family " ++ toString family.toNat

end Cause

/-- What a caller is told about an operation or a request. -/
inductive Status where
  | success
  | notFound
  | alreadyExists
  | invalidArgument
  | notSupported
  /-- Any other failure of the kernel, by its number. -/
  | kernelError (errno : Int)
  | timeout
  deriving DecidableEq, Repr

def Status.isSuccess : Status → Bool
  | .success => true
  | _ => false

def Status.text : Status → String
  | .success => "success"
  | .notFound => "not-found"
  | .alreadyExists => "already-exists"
  | .invalidArgument => "invalid-argument"
  | .notSupported => "not-supported"
  | .kernelError errno => "kernel-error(" ++ String.ofList (Text.signed errno) ++ ")"
  | .timeout => "timeout"

/-- A failure: who failed and why. -/
inductive Fault where
  /-- The socket failed. -/
  | io (errno : Int)
  /-- The kernel refused a request, perhaps with words of its own. -/
  | kernel (errno : Int) (note : Option String)
  /-- The kernel refused a request that was part of a named operation. -/
  | kernelDuring (operation : String) (errno : Int) (note : Option String)
  /-- A header or a message is shorter than it must be. -/
  | truncated (expected actual : Nat)
  | invalidMessage (cause : Cause)
  | invalidAttribute (cause : Cause)
  /-- The payload of a message does not have the form its type demands. -/
  | malformed
  | notFound (cause : Cause)
  | alreadyExists (cause : Cause)
  | invalidArgument (cause : Cause)
  | notSupported (cause : Cause)
  /-- No answer to a named operation came in time. -/
  | timeout (operation : String) (after : Span)
  deriving DecidableEq, Repr

namespace Fault

/-- The kernel's words, or the text of its error number if it had none. -/
def kernelWords (errno : Int) (note : Option String) : String :=
  note.getD (Errno.report errno) ++ " (errno " ++ String.ofList (Text.signed errno) ++ ")"

/-- The text of a fault; a malformed payload has none of its own beyond its class. -/
def message : Fault → String
  | io errno => "I/O error: " ++ Errno.report errno
  | kernel errno note => "kernel error: " ++ kernelWords errno note
  | kernelDuring operation errno note => operation ++ ": " ++ kernelWords errno note
  | truncated expected actual =>
    "message truncated: expected " ++ toString expected ++ " bytes, got " ++ toString actual
  | invalidMessage cause => "invalid message: " ++ cause.message
  | invalidAttribute cause => "invalid attribute: " ++ cause.message
  | malformed => "parse error"
  | notFound cause => "not found: " ++ cause.message
  | alreadyExists cause => "already exists: " ++ cause.message
  | invalidArgument cause => "invalid argument: " ++ cause.message
  | notSupported cause => "operation not supported: " ++ cause.message
  | timeout operation after => operation ++ ": timed out after " ++ after.text

/-- A refusal by the kernel gets the name of the operation it belongs to, unless it has one. -/
def during (operation : String) : Fault → Fault
  | kernel errno note => kernelDuring operation errno note
  | other => other

/-- The error number the kernel gave. -/
def errno? : Fault → Option Int
  | kernel errno _ => some errno
  | kernelDuring _ errno _ => some errno
  | _ => none

/-- The numbers by which the kernel says that an object of some kind is not there. -/
def absentNumbers : List Int :=
  [Errno.noEntry, Errno.noProcess, Errno.noDevice, Errno.addressNotAvailable]

def isNotFound (fault : Fault) : Bool :=
  match fault with
  | notFound _ => true
  | _ => fault.errno?.any absentNumbers.contains

def isPermissionDenied (fault : Fault) : Bool :=
  fault.errno?.any [Errno.perm, Errno.access].contains

def isAlreadyExists (fault : Fault) : Bool :=
  match fault with
  | alreadyExists _ => true
  | _ => fault.errno? == some Errno.exist

def isBusy (fault : Fault) : Bool :=
  fault.errno? == some Errno.busy

/-- The same request may succeed later. -/
def isTransient (fault : Fault) : Bool :=
  fault.errno?.any [Errno.again, Errno.busy, Errno.interrupted].contains

/-- The socket dropped messages because its buffer was full. -/
def isOverrun : Fault → Bool
  | io errno => errno == Errno.noBuffers
  | _ => false

/-- The status of a refusal by the kernel. -/
def kernelStatus (errno : Int) : Status :=
  if absentNumbers.contains errno then .notFound
  else if errno = Errno.exist then .alreadyExists
  else if errno = Errno.invalid then .invalidArgument
  else if errno = Errno.notSupported then .notSupported
  else .kernelError errno

def status : Fault → Status
  | io errno => .kernelError errno
  | kernel errno _ => kernelStatus errno
  | kernelDuring _ errno _ => kernelStatus errno
  | truncated _ _ => .kernelError Errno.protocol
  | invalidMessage _ => .kernelError Errno.protocol
  | invalidAttribute _ => .kernelError Errno.protocol
  | malformed => .kernelError Errno.protocol
  | notFound _ => .notFound
  | alreadyExists _ => .alreadyExists
  | invalidArgument _ => .invalidArgument
  | notSupported _ => .notSupported
  | timeout _ _ => .timeout

end Fault

/-- How a computation fails: with a fault that the caller is told, or by ending the program. -/
inductive Failure where
  | fault (fault : Fault)
  | crash
  deriving DecidableEq, Repr

def Failure.isCrash {α : Type} : Except Failure α → Bool
  | .error .crash => true
  | _ => false

theorem eq_crash_of_isCrash {α : Type} {result : Except Failure α}
    (h : Failure.isCrash result = true) : result = .error .crash := by
  rcases result with (fault | _) | value
  · exact absurd h Bool.false_ne_true
  · rfl
  · exact absurd h Bool.false_ne_true

/-- The error number that an answer tells by a negative code. The least code has no negation. -/
def negated (code : Int32) : Except Failure Int :=
  if code = Int32.minValue then .error .crash else .ok (-code.toInt)

end NetState
