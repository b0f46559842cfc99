import NetState.Peer.Answer

namespace NetState

structure Channel where
  peer : Peer
  /-- What is received before anything from the peer. -/
  injected : List (Except Fault Bytes)
  /-- How the next attempts to send fail. -/
  sendFaults : List Fault
  /-- Every datagram that was sent, last first. -/
  sent : List Bytes
  /-- Whether error reports carry the kernel's own words. -/
  extendedAck : Bool
  /-- Whether the kernel looks closely at requests for listings. -/
  strictCheck : Bool

namespace Channel

def new (peer : Peer) (extendedAck strictCheck : Bool) : Channel :=
  ⟨peer, [], [], [], extendedAck, strictCheck⟩

/-- Sends a datagram. -/
def send (channel : Channel) (datagram : Bytes) : Channel × Except Fault Unit :=
  match channel.sendFaults with
  | fault :: rest => ({ channel with sendFaults := rest }, .error fault)
  | [] =>
    let (peer, result) := channel.peer.take datagram
    ({ channel with peer, sent := datagram :: channel.sent }, result)

/-- What can be received now, if anything can. -/
def receive? (channel : Channel) : Option (Except Fault Bytes × Channel) :=
  match channel.injected with
  | first :: rest => some (first, { channel with injected := rest })
  | [] => channel.peer.receive?.map fun (received, peer) => (received, { channel with peer })

/-- How many receptions there is something for. -/
def waiting (channel : Channel) : Nat :=
  channel.injected.length + channel.peer.waiting

theorem receive?_eq_none {channel : Channel} (h : channel.waiting = 0) :
    channel.receive? = none := by
  simp only [waiting, Peer.waiting] at h
  have hinjected : channel.injected = [] := List.length_eq_zero_iff.mp (by omega)
  have hoverruns : channel.peer.overruns = 0 := by omega
  have houtbox : channel.peer.outbox = [] := List.length_eq_zero_iff.mp (by omega)
  simp [receive?, hinjected, Peer.receive?, hoverruns, houtbox]

end Channel

end NetState
