import NetState.Proofs.Wire

namespace NetState

instance (draft : Draft) : Decidable draft.IsMeasured :=
  inferInstanceAs (Decidable (_ < _))

namespace Message

/-- The octets that messages take in a datagram. -/
def extent : List Message → Nat
  | [] => 0
  | first :: rest => Bytes.align first.header.length.toNat + extent rest

/-- A message stands at an offset of a datagram: its header is read there, and its payload is what
follows up to the length that the header tells. -/
structure StandsAt (datagram : Bytes) (offset : Nat) (message : Message) : Prop where
  header : Header.read (datagram.drop offset) = message.header
  measured : Header.size ≤ message.header.length.toNat
  within : offset + message.header.length.toNat ≤ datagram.length
  payload : message.payload =
    datagram.extract (offset + Header.size) (offset + message.header.length.toNat)

def StandInOrder (datagram : Bytes) (messages : List Message) : Prop :=
  ∀ before message after, messages = before ++ message :: after →
    message.StandsAt datagram (extent before)

theorem StandsAt.of_drop {datagram : Bytes} {front offset : Nat} {message : Message}
    (h : message.StandsAt (datagram.drop front) offset) :
    message.StandsAt datagram (front + offset) := by
  have hmeasured := h.measured
  have hwithin := h.within
  rw [List.length_drop] at hwithin
  constructor
  · rw [← List.drop_drop]
    exact h.header
  · exact hmeasured
  · simp only [Header.size] at hmeasured
    omega
  · rw [h.payload]
    simp only [List.extract_eq_take_drop, List.drop_drop, Nat.add_assoc, Nat.add_sub_add_left]

theorem StandInOrder.cons {datagram : Bytes} {first : Message} {rest : List Message}
    (hfirst : first.StandsAt datagram 0)
    (hrest : StandInOrder (datagram.drop (Bytes.align first.header.length.toNat)) rest) :
    StandInOrder datagram (first :: rest) := by
  intro before message after hsplit
  cases before with
  | nil =>
      obtain ⟨rfl, -⟩ := List.cons.inj hsplit
      exact hfirst
  | cons other before =>
      obtain ⟨rfl, hmore⟩ := List.cons.inj hsplit
      have hextent : extent (first :: before) =
          Bytes.align first.header.length.toNat + extent before := rfl
      rw [hextent]
      exact (hrest before message after hmore).of_drop

theorem standInOrder_nil (datagram : Bytes) : StandInOrder datagram [] := by
  intro before message after hsplit
  exact absurd hsplit (by simp)

section

variable {datagram : Bytes}

theorem scan_of_short (h : datagram.length < Header.size) : scan datagram = [] := by
  rw [scan, dif_neg]
  rw [Bytes.atLeast_iff]
  omega

theorem scan_of_measured (hsize : Header.size ≤ (Header.read datagram).length.toNat)
    (hwhole : (Header.read datagram).length.toNat ≤ datagram.length) :
    scan datagram = .ok ⟨Header.read datagram,
        (datagram.take (Header.read datagram).length.toNat).drop Header.size⟩ ::
      scan (datagram.drop (Bytes.align (Header.read datagram).length.toNat)) := by
  rw [scan, dif_pos (Bytes.atLeast_iff.mpr (Nat.le_trans hsize hwhole))]
  exact dif_pos ⟨hsize, Bytes.atLeast_iff.mpr hwhole⟩

theorem scan_of_unmeasured (hsize : Header.size ≤ datagram.length)
    (h : (Header.read datagram).length.toNat < Header.size ∨
      datagram.length < (Header.read datagram).length.toNat) :
    scan datagram =
      [.error (.invalidMessage (.messageLength (Header.read datagram).length.toNat))] := by
  rw [scan, dif_pos (Bytes.atLeast_iff.mpr hsize)]
  apply dif_neg
  rw [Bytes.atLeast_iff]
  omega

theorem standsAt_zero (hsize : Header.size ≤ (Header.read datagram).length.toNat)
    (hwhole : (Header.read datagram).length.toNat ≤ datagram.length) :
    StandsAt datagram 0 ⟨Header.read datagram,
      (datagram.take (Header.read datagram).length.toNat).drop Header.size⟩ := by
  constructor
  · rw [List.drop_zero]
  · exact hsize
  · rwa [Nat.zero_add]
  · simp only [Nat.zero_add, List.extract_eq_take_drop, List.drop_take]

end

/-- A datagram is too short for a header, or its header tells a length that no message there can
have, or it starts with a message and goes on behind it. -/
@[elab_as_elim]
theorem datagram_induction {motive : Bytes → Prop}
    (short : ∀ datagram, datagram.length < Header.size → motive datagram)
    (unmeasured : ∀ datagram, Header.size ≤ datagram.length →
      ((Header.read datagram).length.toNat < Header.size ∨
        datagram.length < (Header.read datagram).length.toNat) → motive datagram)
    (measured : ∀ datagram, Header.size ≤ (Header.read datagram).length.toNat →
      (Header.read datagram).length.toNat ≤ datagram.length →
      motive (datagram.drop (Bytes.align (Header.read datagram).length.toNat)) → motive datagram)
    (datagram : Bytes) : motive datagram := by
  induction datagram using scan.induct with
  | case1 datagram hsize header length hlength ih =>
      exact measured datagram hlength.1 (Bytes.atLeast_iff.mp hlength.2) ih
  | case2 datagram hsize header length hlength =>
      apply unmeasured datagram (Bytes.atLeast_iff.mp hsize)
      change length < Header.size ∨ datagram.length < length
      rw [Bytes.atLeast_iff] at hlength
      omega
  | case3 datagram hsize =>
      apply short
      rw [Bytes.atLeast_iff] at hsize
      omega

theorem exists_standInOrder (datagram : Bytes) : ∃ messages, StandInOrder datagram messages ∧
    let rest := datagram.drop (extent messages)
    let length := (Header.read rest).length.toNat
    (rest.length < Header.size ∧ scan datagram = messages.map .ok) ∨
      (Header.size ≤ rest.length ∧ (length < Header.size ∨ rest.length < length) ∧
        scan datagram =
          messages.map .ok ++ [.error (.invalidMessage (.messageLength length))]) := by
  induction datagram using datagram_induction with
  | short datagram hshort =>
      exact ⟨[], standInOrder_nil datagram, Or.inl ⟨hshort, scan_of_short hshort⟩⟩
  | unmeasured datagram hsize hbad =>
      exact ⟨[], standInOrder_nil datagram, Or.inr ⟨hsize, hbad, scan_of_unmeasured hsize hbad⟩⟩
  | measured datagram hsize hwhole ih =>
      obtain ⟨messages, hmessages, hend⟩ := ih
      refine ⟨_ :: messages, .cons (standsAt_zero hsize hwhole) hmessages, ?_⟩
      have hextent (payload : Bytes) : extent (⟨Header.read datagram, payload⟩ :: messages) =
          Bytes.align (Header.read datagram).length.toNat + extent messages := rfl
      rw [hextent, ← List.drop_drop, scan_of_measured hsize hwhole]
      rcases hend with ⟨hshort, hmore⟩ | ⟨hlong, hbad, hmore⟩
      · left
        exact ⟨hshort, congrArg (_ :: ·) hmore⟩
      · right
        exact ⟨hlong, hbad, congrArg (_ :: ·) hmore⟩

theorem length_scan_le (datagram : Bytes) :
    Header.size * (scan datagram).length ≤ datagram.length := by
  induction datagram using datagram_induction with
  | short datagram hshort =>
      rw [scan_of_short hshort]
      exact Nat.zero_le _
  | unmeasured datagram hsize hbad =>
      rw [scan_of_unmeasured hsize hbad]
      exact hsize
  | measured datagram hsize hwhole ih =>
      have hfilled := Bytes.le_align (Header.read datagram).length.toNat
      rw [scan_of_measured hsize hwhole, List.length_cons]
      rw [List.length_drop] at ih
      simp only [Header.size] at *
      omega

theorem scan_flatMap (drafts : List Draft) : scan (drafts.flatMap Draft.toBytes) =
    (drafts.takeWhile (·.IsMeasured)).map (fun draft => .ok ⟨draft.header, draft.body⟩) ++
      scan ((drafts.dropWhile (·.IsMeasured)).flatMap Draft.toBytes) := by
  induction drafts with
  | nil =>
      rw [List.takeWhile_nil, List.dropWhile_nil]
      rfl
  | cons first rest ih =>
      by_cases hfirst : first.IsMeasured
      · rw [List.flatMap_cons, scan_toBytes hfirst, ih, List.takeWhile_cons_of_pos (by simpa),
          List.dropWhile_cons_of_pos (by simpa)]
        rfl
      · rw [List.takeWhile_cons_of_neg (by simpa), List.dropWhile_cons_of_neg (by simpa)]
        rfl

/-- Messages that are written one after the other are read back, headers and bodies, in order and
without a fault; only one of 2³² octets or more, whose header cannot tell its length, ends that. Of
any octets at all the reading ends, since each thing that is read takes at least a header. It yields
messages that stand in order, each where those before it end, and at most one fault, at the end. The
fault is there just when at least a header is left whose length is below that of a header or above
what is left. -/
theorem scan_datagram :
    (∀ drafts : List Draft, scan (drafts.flatMap Draft.toBytes) =
      (drafts.takeWhile (·.IsMeasured)).map (fun draft => .ok ⟨draft.header, draft.body⟩) ++
        scan ((drafts.dropWhile (·.IsMeasured)).flatMap Draft.toBytes)) ∧
      ∀ datagram : Bytes, Header.size * (scan datagram).length ≤ datagram.length ∧
        ∃ messages, StandInOrder datagram messages ∧
          let rest := datagram.drop (extent messages)
          let length := (Header.read rest).length.toNat
          (rest.length < Header.size ∧ scan datagram = messages.map .ok) ∨
            (Header.size ≤ rest.length ∧ (length < Header.size ∨ rest.length < length) ∧
              scan datagram =
                messages.map .ok ++ [.error (.invalidMessage (.messageLength length))]) := by
  constructor
  · exact scan_flatMap
  · intro datagram
    exact ⟨length_scan_le datagram, exists_standInOrder datagram⟩

end Message

end NetState
