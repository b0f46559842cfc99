import NetState.Proofs.Listing
import NetState.Proofs.Peer.Account
import NetState.Proofs.Peer.Reach

namespace NetState.Peer

/-- All that a peer keeps belongs to something that it keeps too, and is told from everything
else. -/
structure Intact (peer : Peer) : Prop where
  /-- Links are kept under their numbers, and the next number is above all of them. -/
  placed : ∀ {index l}, peer.links.get? index = some l → l.index = index ∧ index < peer.nextIndex
  named : (peer.links.values.map Link.name).Nodup
  /-- Everything is on a link that there is. -/
  based : ∀ {object}, peer.Has object → peer.HasLink object.interface
  addresses_keyed : (peer.addresses.map fun a => (Object.address a).key).Nodup
  routes_keyed : (peer.routes.map fun r => (Object.route r).key).Nodup
  disciplines_keyed : (peer.disciplines.map fun d => (Object.discipline d).key).Nodup
  filters_keyed :
    (peer.filters.map fun f => (f.interface, f.parent, f.priority, f.handle)).Nodup
  /-- Filters hang below a discipline that is not the kernel's choice. -/
  hung : ∀ f ∈ peer.filters, ∃ d ∈ peer.disciplines,
    d.interface = f.interface ∧ d.isDefault = false ∧ d.handle.major = f.parent.major

theorem Sound.nodup_names {peer : Peer} (h : peer.Sound) :
    (peer.links.values.map Link.name).Nodup := by
  rw [Table.values, List.map_map]
  refine peer.links.nodup_entries.map_on ?_
  rintro ⟨index, l⟩ hl ⟨other, m⟩ hm hname
  have hget := Table.get?_eq_some_iff.mpr hl
  have hother := Table.get?_eq_some_iff.mpr hm
  obtain rfl := h.named hget hother hname
  rw [Option.some.inj (hget.symm.trans hother)]

theorem Sound.hasLink {peer : Peer} (h : peer.Sound) {object : Object} (hhas : peer.Has object) :
    peer.HasLink object.interface := by
  cases object with
  | link l => exact ⟨l, hhas⟩
  | address a => exact h.addresses_based a hhas
  | route r => exact h.routes_based r hhas
  | discipline d => exact h.disciplines_based d hhas
  | filter f => exact h.filters_based f hhas

theorem nodup_keys_of {α κ : Type} {field : α → κ} {wrap : α → Object} {list : List α}
    (h : (list.map field).Nodup)
    (hkey : ∀ {a b}, (wrap a).key = (wrap b).key → field a = field b) :
    (list.map fun value => (wrap value).key).Nodup := by
  rw [List.nodup_iff_pairwise_ne, List.pairwise_map] at h ⊢
  refine h.imp ?_
  intro a b hne heq
  exact hne (hkey heq)

theorem intact_of_sound {peer : Peer} (h : peer.Sound) : peer.Intact where
  placed hl := ⟨h.placed hl, (h.numbered hl).2⟩
  named := h.nodup_names
  based := h.hasLink
  addresses_keyed := nodup_keys_of h.addresses_distinct (by simp [Object.key, addressKey])
  routes_keyed := h.routes_distinct
  disciplines_keyed := nodup_keys_of h.disciplines_distinct (by simp [Object.key, disciplineKey])
  filters_keyed := h.filters_distinct
  hung f hf := hasFilterParent_iff.mp (h.filters_hung f hf)

theorem take_eq (peer : Peer) (datagram : Bytes) :
    (peer.take datagram).1 = (Exchange.messages datagram).foldl answer peer := by
  rw [take, Exchange.messages]
  generalize Message.scan datagram = scanned
  generalize (Except.ok () : Except Fault Unit) = result
  induction scanned generalizing peer result with
  | nil => rfl
  | cons message rest ih => cases message <;> exact ih _ _

/-- A datagram leads to a state that the peer can come to, if none of its requests uses up the
numbers of links. -/
theorem Reachable.take {peer : Peer} (h : peer.Reachable) {datagram : Bytes}
    (hnext : ∀ earlier request later, Exchange.messages datagram = earlier ++ request :: later →
      (earlier.foldl Peer.answer peer).nextIndex ≤
        ((earlier.foldl Peer.answer peer).answer request).nextIndex) :
    (peer.take datagram).1.Reachable := by
  rw [take_eq]
  generalize Exchange.messages datagram = requests at hnext
  induction requests generalizing peer with
  | nil => exact h
  | cons request rest ih =>
      refine ih (h.answer request (hnext [] request rest rfl)) ?_
      intro earlier other later hrest
      exact hnext (request :: earlier) other later (congrArg (request :: ·) hrest)

/-- The peer stays intact whatever happens to it. -/
theorem Reachable.intact {peer : Peer} (h : peer.Reachable) : peer.Intact :=
  intact_of_sound h.sound

/-- A peer on which a link was to be named like another one, a discipline was replaced, and a filter
was put below it without a word. -/
def filtering : Peer :=
  initial
    |>.intervene (.link (.new "a" .dummy)) .present false |>.1
    |>.intervene (.link { Link.new "lo" .dummy with index := 2 }) .present false |>.1
    |>.intervene (.discipline (.new 2 "ingress" Handle.ingressDiscipline Handle.ingress)) .present
      false |>.1
    |>.intervene (.discipline (.new 2 "clsact" Handle.ingressDiscipline Handle.ingress)) .present
      false |>.1
    |>.intervene
      (.filter ⟨2, "matchall", ⟨0⟩, Handle.ingressHook, 0, Filter.anyProtocol, none⟩) .present true
    |>.1

theorem Reachable.intact_filtering :
    filtering.Reachable ∧ filtering.filters.length = 1 ∧ filtering.Intact := by
  have hreachable : filtering.Reachable := by
    rw [filtering]
    refine Reachable.intervene (Reachable.intervene (Reachable.intervene (Reachable.intervene
      (Reachable.intervene Reachable.initial _ _ _ ?_) _ _ _ ?_) _ _ _ ?_) _ _ _ ?_) _ _ _ ?_
    all_goals decide +kernel
  exact ⟨hreachable, by decide +kernel, hreachable.intact⟩

end NetState.Peer
