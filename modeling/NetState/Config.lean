import NetState.Namespace
import NetState.Support.Basic

namespace NetState

structure Config where
  /-- How long to wait for the answer to a request. -/
  ackTimeout : Span
  /-- How long to wait for the news of a change that was acknowledged. -/
  confirmTimeout : Span
  /-- How often to repeat a request that failed for the moment. -/
  maxRetries : UInt32
  /-- How long to wait before the first repetition. -/
  retryBackoff : Span
  /-- How often to repeat a listing that was disturbed. -/
  dumpRetries : UInt32
  receiveBuffer : Nat
  /-- Whether to ask for the news of one's own changes. -/
  echo : Bool
  /-- The features of the kernel, if they are not to be found out. -/
  support : Option Support
  /-- Where the files of the system are. -/
  moduleRoot : String
  netns : Namespace
  deriving DecidableEq, Repr

namespace Config

def standard : Config where
  ackTimeout := .ofSeconds 5
  confirmTimeout := .ofMillis 250
  maxRetries := 3
  retryBackoff := .ofMillis 20
  dumpRetries := 3
  receiveBuffer := 4194304
  echo := false
  support := none
  moduleRoot := "/"
  netns := .current

/-- How many times the first delay is waited before a repetition: twice as often each time, as long
as a word of 32 bits holds it, and then as often as that word can tell. -/
def backoffFactor (attempt : UInt32) : Nat :=
  let doublings := attempt.toNat - 1
  if doublings < 32 then 1 <<< doublings else 4294967295

/-- The delay before repetition number `attempt`, counted from one. -/
def backoffFor (config : Config) (attempt : UInt32) : Span :=
  config.retryBackoff.times (backoffFactor attempt)

end Config

end NetState
