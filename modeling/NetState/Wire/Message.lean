import NetState.Wire.Header

/-!
Messages in a datagram: each starts at a multiple of four with its header, which tells its length.

A length below that of the header, or past the end of the datagram, leaves no way to find the next
message, so it ends the reading with a fault. Fewer octets than a header at the end are ignored.
-/

namespace NetState

/-- A message: its header and what follows it. -/
structure Message where
  header : Header
  payload : Bytes
  deriving DecidableEq, Repr

namespace Message

/-- The messages of a datagram in order, and a fault at the end if the reading got stuck. -/
def scan (datagram : Bytes) : List (Except Fault Message) :=
  if _hsize : datagram.atLeast Header.size then
    let header := Header.read datagram
    let length := header.length.toNat
    if _hlength : Header.size ≤ length ∧ datagram.atLeast length then
      .ok ⟨header, (datagram.take length).drop Header.size⟩ ::
        scan (datagram.drop (Bytes.align length))
    else [.error (.invalidMessage (.messageLength length))]
  else []
termination_by datagram.length
decreasing_by
  have hwhole : Header.size ≤ datagram.length := Bytes.atLeast_iff.mp _hsize
  have hshort : Header.size ≤ (Header.read datagram).length.toNat := _hlength.1
  have halign := Bytes.le_align (Header.read datagram).length.toNat
  simp only [Header.size] at hwhole hshort
  simp only [List.length_drop]
  omega

end Message

end NetState
