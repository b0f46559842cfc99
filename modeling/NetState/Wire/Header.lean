import NetState.Fault

namespace NetState

namespace MessageType

/-- Nothing; the message is to be ignored. -/
def noop : UInt16 := 1
/-- The answer to a request: an error, or an acknowledgement if its number is zero. -/
def error : UInt16 := 2
/-- The end of a listing. -/
def done : UInt16 := 3
/-- Messages were lost. -/
def overrun : UInt16 := 4
def newLink : UInt16 := 16
def delLink : UInt16 := 17
def getLink : UInt16 := 18
def newAddress : UInt16 := 20
def delAddress : UInt16 := 21
def getAddress : UInt16 := 22
def newRoute : UInt16 := 24
def delRoute : UInt16 := 25
def getRoute : UInt16 := 26
def newDiscipline : UInt16 := 36
def delDiscipline : UInt16 := 37
def getDiscipline : UInt16 := 38
def newFilter : UInt16 := 44
def delFilter : UInt16 := 45
def getFilter : UInt16 := 46

end MessageType

namespace Flag

def request : UInt16 := 0x01
/-- One of several messages of a listing. -/
def multi : UInt16 := 0x02
/-- The sender wants an acknowledgement. -/
def ack : UInt16 := 0x04
/-- The sender wants to see the notification of its own change. -/
def echo : UInt16 := 0x08
/-- What is listed changed while it was being listed. -/
def interrupted : UInt16 := 0x10
/-- List everything. -/
def dump : UInt16 := 0x300
def replace : UInt16 := 0x100
/-- Fail if there is such an object. -/
def exclusive : UInt16 := 0x200
def create : UInt16 := 0x400
def append : UInt16 := 0x800

end Flag

/-- Whether `flags` has a bit of `mask` set. -/
def hasFlag (flags mask : UInt16) : Bool :=
  flags &&& mask != 0

/-- What stands in front of a message. -/
structure Header where
  /-- The octets in the message, these sixteen included. -/
  length : UInt32
  kind : UInt16
  flags : UInt16
  /-- Which request a message belongs to; zero for none. -/
  seq : UInt32
  /-- The socket that a message is from or for. -/
  pid : UInt32
  deriving DecidableEq, Repr

namespace Header

/-- The octets in a header. -/
def size : Nat := 16

def toBytes (header : Header) : Bytes :=
  Bytes.ofUInt32 header.length ++ Bytes.ofUInt16 header.kind ++ Bytes.ofUInt16 header.flags ++
    Bytes.ofUInt32 header.seq ++ Bytes.ofUInt32 header.pid

/-- The header in the first octets of a string that has enough of them. -/
def read (bytes : Bytes) : Header where
  length := bytes.u32At 0
  kind := bytes.u16At 4
  flags := bytes.u16At 6
  seq := bytes.u32At 8
  pid := bytes.u32At 12

def ofBytes (bytes : Bytes) : Except Fault Header :=
  if bytes.atLeast size then .ok (read bytes) else .error (.truncated size bytes.length)

def isError (header : Header) : Bool :=
  header.kind == MessageType.error

def isDone (header : Header) : Bool :=
  header.kind == MessageType.done

def isOverrun (header : Header) : Bool :=
  header.kind == MessageType.overrun

def isMulti (header : Header) : Bool :=
  hasFlag header.flags Flag.multi

def isInterrupted (header : Header) : Bool :=
  hasFlag header.flags Flag.interrupted

end Header

end NetState
