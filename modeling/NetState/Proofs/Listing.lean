import NetState.Proofs.Exchange

namespace NetState

/-- What is awaited, whether it is known to be disturbed or not. -/
def Awaited.calmed : Awaited → Awaited
  | .ack => .ack
  | .listing kind delivery objects _ => .listing kind delivery objects false

def Incoming.Answers (seq : UInt32) (incoming : Incoming) : Prop :=
  ∃ result, incoming = .reply seq result

theorem Incoming.mem_of_mem_add {before : List Incoming} {next incoming : Incoming} {seq : UInt32}
    (hanswers : incoming.Answers seq) (h : incoming ∈ Incoming.add before next) :
    incoming ∈ before ∨ incoming = next := by
  obtain ⟨result, rfl⟩ := hanswers
  rw [add.eq_def] at h
  split at h
  · split at h
    · rcases List.mem_append.mp h with h | h
      · exact Or.inl (List.dropLast_subset _ h)
      · exact absurd (List.mem_singleton.mp h) (by simp)
    · exact (List.mem_append.mp h).imp_right List.mem_singleton.mp
  · exact (List.mem_append.mp h).imp_right List.mem_singleton.mp

namespace Exchange

def pending? (exchange : Exchange) (seq : UInt32) : Option Awaited :=
  (exchange.awaited.get? seq).map Awaited.calmed

/-- Whether a message is no part of what is awaited under a number. -/
def Passes (exchange : Exchange) (seq : UInt32) (header : Header) : Prop :=
  header.pid = exchange.pid → header.seq = seq → exchange.pending? seq = none

variable {exchange : Exchange} {seq : UInt32}

theorem pending?_eq_none : exchange.pending? seq = none ↔ exchange.awaited.get? seq = none := by
  rw [pending?, Option.map_eq_none_iff]

theorem exists_get?_of_pending? {kind : Kind} {delivery : Delivery} {objects : List Object}
    (h : exchange.pending? seq = some (.listing kind delivery objects false)) :
    ∃ interrupted,
      exchange.awaited.get? seq = some (.listing kind delivery objects interrupted) := by
  obtain ⟨awaited, hawaited, hcalmed⟩ := Option.map_eq_some_iff.mp h
  cases awaited with
  | ack => exact absurd hcalmed (by simp [Awaited.calmed])
  | listing other way found interrupted =>
      rw [Awaited.calmed, Awaited.listing.injEq] at hcalmed
      obtain ⟨rfl, rfl, rfl, -⟩ := hcalmed
      exact ⟨interrupted, hawaited⟩

theorem pending?_insert {other : UInt32} (awaited : Awaited) (h : other ≠ seq) :
    ({ exchange with awaited := exchange.awaited.insert other awaited } : Exchange).pending? seq =
      exchange.pending? seq := by
  rw [pending?, Table.get?_insert, if_neg h, pending?]

theorem pending?_cancel (other : UInt32) :
    (exchange.cancel other).pending? seq = if other = seq then none else exchange.pending? seq := by
  rw [cancel, pending?, Table.get?_erase, pending?]
  split <;> rfl

theorem pending?_noteInterruption (header : Header) :
    (exchange.noteInterruption header).pending? seq = exchange.pending? seq := by
  rcases exchange.noteInterruption_cases header with hsame | ⟨_, _, _, _, hget, hnoted⟩
  · rw [hsame]
  · rw [hnoted, pending?, Table.get?_insert, pending?]
    split
    · rename_i hseq
      rw [← hseq, hget]
      rfl
    · rfl

theorem isOurs_iff {header : Header} : exchange.isOurs header = true ↔
    header.seq ≠ 0 ∧ header.pid = exchange.pid ∧ exchange.pending? header.seq ≠ none := by
  rw [isOurs, Bool.and_eq_true, Bool.and_eq_true, bne_iff_ne, beq_iff_eq, and_assoc]
  refine and_congr_right fun _ => and_congr_right fun _ => ?_
  rw [Table.contains_iff, Ne, pending?_eq_none, ← Ne, Option.ne_none_iff_exists']

/-- A message that is no part of a listing leaves it alone. -/
structure LeavesAlone (exchange after : Exchange) (seq : UInt32) : Prop where
  pid : after.pid = exchange.pid
  pending : after.pending? seq = exchange.pending? seq

theorem leavesAlone_conclude {header : Header} (h : exchange.Passes seq header)
    (hours : exchange.isOurs header = true) (failure : Option Fault) {noted : Exchange}
    (hnoted : noted.LeavesAlone exchange seq) :
    exchange.LeavesAlone (noted.conclude header.seq failure).1 seq ∧
      ∀ incoming ∈ (noted.conclude header.seq failure).2, ¬ incoming.Answers seq := by
  obtain ⟨-, hpid, hpending⟩ := isOurs_iff.mp hours
  have hother : header.seq ≠ seq := by
    intro hseq
    exact hpending (hseq ▸ h hpid hseq)
  refine ⟨⟨hnoted.pid.symm, ?_⟩, ?_⟩
  · show (noted.cancel header.seq).pending? seq = exchange.pending? seq
    rw [pending?_cancel, if_neg hother]
    exact hnoted.pending.symm
  · intro incoming hincoming hanswers
    obtain ⟨result, rfl⟩ := hanswers
    exact hother (Incoming.reply.inj (Option.some.inj hincoming)).1

theorem leavesAlone_takeObject {header : Header} (h : exchange.Passes seq header) (change : Change)
    (object : Object) :
    exchange.LeavesAlone (exchange.takeObject header change object).1 seq ∧
      ∀ incoming ∈ (exchange.takeObject header change object).2, ¬ incoming.Answers seq := by
  have htakes := takesObject exchange header change object
  generalize exchange.takeObject header change object = taken at htakes
  cases htakes with
  | stray hpid hget hkind => exact ⟨⟨rfl, rfl⟩, by simp⟩
  | held hpid hget =>
      have hother : header.seq ≠ seq := by
        intro hseq
        have hnone := pending?_eq_none.mp (h hpid hseq)
        rw [← hseq, hget] at hnone
        exact absurd hnone (by simp)
      exact ⟨⟨rfl, pending?_insert _ hother⟩, by simp⟩
  | handed hpid hget => exact ⟨⟨rfl, rfl⟩, by simp [Incoming.Answers]⟩
  | notice hunlisted => exact ⟨⟨rfl, rfl⟩, by simp [Incoming.Answers]⟩

theorem leavesAlone_take {message : Message} (h : exchange.Passes seq message.header)
    {taken : Exchange × Option Incoming} (htake : exchange.take message = .ok taken) :
    exchange.LeavesAlone taken.1 seq ∧ ∀ incoming ∈ taken.2, ¬ incoming.Answers seq := by
  have hnoted : (exchange.noteInterruption message.header).LeavesAlone exchange seq :=
    ⟨(pid_noteInterruption _).symm, (pending?_noteInterruption _).symm⟩
  cases takes htake with
  | overrun => exact ⟨⟨rfl, rfl⟩, by simp [Incoming.Answers]⟩
  | ended failure _ hours hsame =>
      rcases hsame with rfl | rfl
      · exact leavesAlone_conclude h hours _ ⟨rfl, rfl⟩
      · exact leavesAlone_conclude h hours _ hnoted
  | told =>
      have hpasses : (exchange.noteInterruption message.header).Passes seq message.header := by
        intro hpid hseq
        rw [pending?_noteInterruption]
        exact h (hpid.trans (pid_noteInterruption _)) hseq
      obtain ⟨halone, hincoming⟩ := leavesAlone_takeObject hpasses _ _
      exact ⟨⟨halone.pid.trans hnoted.pid.symm, halone.pending.trans hnoted.pending.symm⟩,
        hincoming⟩
  | skipped => exact ⟨⟨rfl, rfl⟩, by simp⟩

theorem leavesAlone_takeAll {messages : List Message} {before : List Incoming}
    (h : ∀ message ∈ messages, exchange.Passes seq message.header)
    {taken : Exchange × List Incoming} (htake : exchange.takeAll before messages = .ok taken) :
    exchange.LeavesAlone taken.1 seq ∧
      ∀ incoming ∈ taken.2, incoming.Answers seq → incoming ∈ before := by
  induction messages generalizing exchange before with
  | nil =>
      cases htake
      exact ⟨⟨rfl, rfl⟩, fun incoming hincoming _ => hincoming⟩
  | cons first rest ih =>
      obtain ⟨next, incoming, hnext, htake⟩ := takeAll_cons_eq_ok_iff.mp htake
      obtain ⟨halone, hfirst⟩ := leavesAlone_take (h first List.mem_cons_self) hnext
      -- What is awaited under the number is as it was, so the rest passes by as well.
      have hrest : ∀ message ∈ rest, next.Passes seq message.header := by
        intro message hmessage hpid hseq
        rw [halone.pending]
        exact h message (List.mem_cons_of_mem _ hmessage) (hpid.trans halone.pid) hseq
      obtain ⟨hlater, hanswers⟩ := ih hrest htake
      refine ⟨⟨hlater.pid.trans halone.pid, hlater.pending.trans halone.pending⟩, ?_⟩
      intro reply hreply hanswer
      have hmem := hanswers reply hreply hanswer
      cases incoming with
      | none => exact hmem
      | some first =>
          rcases Incoming.mem_of_mem_add hanswer hmem with hmem | rfl
          · exact hmem
          · exact absurd hanswer (hfirst _ rfl)

/-- Whether an exchange gathers a listing, and has so many of its objects. -/
def Gathers (exchange : Exchange) (seq : UInt32) (kind : Kind) (objects : List Object) : Prop :=
  exchange.pending? seq = some (.listing kind .whole objects false)

variable {kind : Kind} {objects : List Object}

theorem take_entry {message : Message} {image : Object} (h : exchange.Gathers seq kind objects)
    (hpid : message.header.pid = exchange.pid) (hseq : message.header.seq = seq)
    (hdecode : Object.decode message.header.kind message.payload = .ok (some (.new, image)))
    (hkind : image.kind = kind) :
    ∃ after, exchange.take message = .ok (after, none) ∧ after.pid = exchange.pid ∧
      after.Gathers seq kind (objects ++ [image]) := by
  have hnoted : (exchange.noteInterruption message.header).Gathers seq kind objects := by
    rw [Gathers, pending?_noteInterruption]
    exact h
  obtain ⟨interrupted, hawaited⟩ := exists_get?_of_pending? hnoted
  rw [take_of_decode exchange hdecode, takeObject]
  simp only [pid_noteInterruption, hpid, hseq, if_true, hawaited, hkind, ne_eq, not_true_eq_false,
    if_false]
  refine ⟨_, rfl, rfl, ?_⟩
  rw [Gathers, pending?, Table.get?_insert_self]
  rfl

theorem take_end (message : Message) (h : exchange.Gathers seq kind objects)
    (hnumber : seq ≠ 0) (hpid : message.header.pid = exchange.pid) (hseq : message.header.seq = seq)
    (hdone : message.header.kind = MessageType.done)
    (hcode : endFailure message.payload = .ok none) :
    ∃ after interrupted, exchange.take message =
        .ok (after, some (.reply seq (.ok (.listing kind objects interrupted)))) ∧
      after.pid = exchange.pid := by
  have hours : exchange.isOurs message.header = true := by
    rw [isOurs_iff, hseq]
    refine ⟨hnumber, hpid, ?_⟩
    rw [show exchange.pending? seq = some _ from h]
    simp
  have hnoted : (exchange.noteInterruption message.header).Gathers seq kind objects := by
    rw [Gathers, pending?_noteInterruption]
    exact h
  obtain ⟨interrupted, hawaited⟩ := exists_get?_of_pending? hnoted
  rw [take_of_done exchange hdone, if_pos hours, hcode, hseq]
  refine ⟨(exchange.noteInterruption message.header).cancel seq, interrupted, ?_,
    pid_noteInterruption _⟩
  simp only [Except.map, conclude, hawaited, replyTo]

end Exchange

namespace Peer

def entryMessage? (request : Header) (object : Object) : Option Message :=
  match object.toMessage object.kind.newType Flag.multi with
  | .ok draft =>
    some ⟨(draft.addressed request.seq request.pid).header,
      (draft.addressed request.seq request.pid).body⟩
  | .error _ => none

def endDraft (request : Header) (interrupted : Bool) : Draft :=
  (Draft.new MessageType.done (if interrupted then Flag.multi ||| Flag.interrupted else Flag.multi)
    [.raw (Bytes.ofInt32 0)]).addressed request.seq request.pid

theorem messages_nil : Exchange.messages [] = [] := by
  rw [Exchange.messages, Message.scan]
  rfl

theorem messages_toBytes_append {draft : Draft} (h : draft.IsMeasured) (rest : Bytes) :
    Exchange.messages (draft.toBytes ++ rest) =
      ⟨draft.header, draft.body⟩ :: Exchange.messages rest := by
  rw [Exchange.messages, Message.scan_toBytes h]
  rfl

theorem messages_flatMap_entryBytes (request : Header) (piece : List Object) (rest : Bytes) :
    Exchange.messages (piece.flatMap (entryBytes request) ++ rest) =
      piece.filterMap (entryMessage? request) ++ Exchange.messages rest := by
  induction piece with
  | nil => rfl
  | cons first more ih =>
      rw [List.flatMap_cons, List.append_assoc, List.filterMap_cons, entryBytes, entryMessage?]
      cases hdraft : first.toMessage first.kind.newType Flag.multi with
      | error fault => exact ih
      | ok draft =>
          simp only
          rw [messages_toBytes_append (Object.isMeasured_toMessage hdraft _ _), ih]
          rfl

theorem header_of_mem_entries {request : Header} {piece : List Object} {message : Message}
    (h : message ∈ piece.filterMap (entryMessage? request)) :
    message.header.seq = request.seq ∧ message.header.pid = request.pid := by
  obtain ⟨object, -, hentry⟩ := List.mem_filterMap.mp h
  rw [entryMessage?] at hentry
  split at hentry
  · rw [← Option.some.inj hentry]
    exact ⟨rfl, rfl⟩
  · exact absurd hentry (by simp)

theorem body_endDraft (request : Header) (interrupted : Bool) :
    (endDraft request interrupted).body = Bytes.ofInt32 0 :=
  Field.encodeAll_raw ⟨1, rfl⟩

theorem seq_endDraft (request : Header) (interrupted : Bool) :
    (endDraft request interrupted).header.seq = request.seq := by
  rw [endDraft, Draft.addressed, Draft.header]

theorem pid_endDraft (request : Header) (interrupted : Bool) :
    (endDraft request interrupted).header.pid = request.pid := by
  rw [endDraft, Draft.addressed, Draft.header]

theorem kind_endDraft (request : Header) (interrupted : Bool) :
    (endDraft request interrupted).header.kind = MessageType.done := by
  rw [endDraft, Draft.addressed, Draft.header]
  rfl

theorem messages_endBytes (request : Header) (interrupted : Bool) :
    Exchange.messages (endBytes request interrupted) =
      [⟨(endDraft request interrupted).header, Bytes.ofInt32 0⟩] := by
  have hmeasured : (endDraft request interrupted).IsMeasured := by
    rw [Draft.IsMeasured, body_endDraft]
    decide
  rw [← body_endDraft request interrupted]
  exact Exchange.messages_toBytes hmeasured

theorem entryMessage?_eq_none {request : Header} {object : Object}
    (h : entryMessage? request object = none) : object.image? = none := by
  refine Option.map_eq_none_iff.mpr (Option.eq_none_iff_forall_ne_some.mpr fun told htold => ?_)
  obtain ⟨fields, hfields, hsize, -⟩ := Object.told?_eq_some_iff.mp htold
  rw [entryMessage?, Object.toMessage_eq_ok_iff.mpr ⟨fields, hfields, hsize, rfl⟩] at h
  exact absurd h (by simp)

theorem decode_entryMessage? {request : Header} {object : Object} {message : Message}
    (h : entryMessage? request object = some message) :
    Object.changeOf? message.header.kind = some .new ∧ ∀ found,
      Object.decode message.header.kind message.payload = .ok (some found) ↔
        ∃ image, object.image? = some image ∧ found = (.new, image) := by
  rw [entryMessage?] at h
  split at h
  · rename_i draft hdraft
    obtain ⟨fields, hfields, hsize, rfl⟩ := Object.toMessage_eq_ok_iff.mp hdraft
    rw [← Option.some.inj h]
    have hchange := Object.changeOf?_newType object.kind
    refine ⟨hchange, fun ⟨change, image⟩ => ?_⟩
    have htold : object.told? object.kind.newType = some (change, image) ↔
        Object.decode object.kind.newType (Field.encodeAll fields) =
          .ok (some (change, image)) := by
      rw [Object.told?_eq_some_iff, Object.decode_eq_ok_some_iff]
      refine ⟨?_, fun hread => ⟨fields, hfields, hsize, hread⟩⟩
      rintro ⟨other, hother, -, hread⟩
      rw [Except.ok.inj (hfields.symm.trans hother)]
      exact hread
    refine htold.symm.trans ⟨fun hread => ?_, ?_⟩
    · obtain rfl := Option.some.inj (hchange.symm.trans
        (Object.decode_eq_ok_some_iff.mp (htold.mp hread)).1)
      exact ⟨image, by rw [Object.image?, hread]; rfl, rfl⟩
    · rintro ⟨seen, himage, hfound⟩
      obtain ⟨⟨other, told⟩, hread, rfl⟩ := Option.map_eq_some_iff.mp himage
      obtain rfl := Option.some.inj (hchange.symm.trans
        (Object.told?_eq_some_iff.mp hread).choose_spec.2.2.1)
      rw [hfound]
      exact hread
  · exact absurd h (by simp)

end Peer

namespace Exchange

open Peer

variable {exchange : Exchange} {seq : UInt32} {kind : Kind} {objects : List Object}

theorem take_entryMessage? {request : Header} (h : exchange.Gathers request.seq kind objects)
    (hpid : request.pid = exchange.pid) {object : Object} (hkind : object.kind = kind)
    {message : Message} (hmessage : entryMessage? request object = some message)
    (hcalm : exchange.take message ≠ .error .crash) :
    ∃ middle, exchange.take message = .ok (middle, none) ∧ middle.pid = exchange.pid ∧
      middle.Gathers request.seq kind (objects ++ [object].filterMap Object.image?) := by
  obtain ⟨hchange, hdecode⟩ := decode_entryMessage? hmessage
  obtain ⟨hseq, hown⟩ := header_of_mem_entries
    (List.mem_filterMap.mpr ⟨object, List.mem_singleton_self object, hmessage⟩)
  cases himage : object.image? with
  | none =>
      refine ⟨exchange, take_unread hchange (fun found hfound => ?_)
        (fun hcrash => hcalm (take_crash hchange hcrash)), rfl, ?_⟩
      · obtain ⟨image, hsome, -⟩ := (hdecode found).mp hfound
        exact absurd (himage.symm.trans hsome) (by simp)
      · rw [List.filterMap_cons_none himage, List.filterMap_nil, List.append_nil]
        exact h
  | some image =>
      rw [List.filterMap_cons_some himage, List.filterMap_nil]
      exact take_entry h (hown.trans hpid) hseq ((hdecode _).mpr ⟨image, himage, rfl⟩)
        ((Object.resembles_of_image? himage).kind.trans hkind)

theorem takeAll_piece {request : Header} (h : exchange.Gathers request.seq kind objects)
    (hpid : request.pid = exchange.pid) {piece : List Object}
    (hpiece : ∀ object ∈ piece, object.kind = kind) {before : List Incoming} {rest : List Message}
    (hcalm : exchange.takeAll before (piece.filterMap (entryMessage? request) ++ rest) ≠
      .error .crash) :
    ∃ after : Exchange, after.pid = exchange.pid ∧
      after.Gathers request.seq kind (objects ++ piece.filterMap Object.image?) ∧
      exchange.takeAll before (piece.filterMap (entryMessage? request) ++ rest) =
        after.takeAll before rest := by
  induction piece generalizing exchange objects with
  | nil =>
      rw [List.filterMap_nil, List.append_nil]
      exact ⟨exchange, rfl, h, rfl⟩
  | cons first more ih =>
      have hmore : ∀ object ∈ more, object.kind = kind := fun object hmem =>
        hpiece object (List.mem_cons_of_mem first hmem)
      cases hmessage : entryMessage? request first with
      | none =>
          rw [List.filterMap_cons_none hmessage] at hcalm ⊢
          rw [List.filterMap_cons_none (entryMessage?_eq_none hmessage)]
          exact ih h hpid hmore hcalm
      | some message =>
          rw [List.filterMap_cons_some hmessage, List.cons_append] at hcalm ⊢
          obtain ⟨middle, htake, hmiddlePid, hmiddle⟩ :=
            take_entryMessage? h hpid (hpiece first List.mem_cons_self) hmessage fun hcrash =>
              hcalm (by rw [takeAll, hcrash]; rfl)
          rw [takeAll_cons_of_take htake] at hcalm ⊢
          obtain ⟨after, hafterPid, hafter, hall⟩ :=
            ih hmiddle (hpid.trans hmiddlePid.symm) hmore hcalm
          rw [List.append_assoc, ← List.filterMap_append] at hafter
          exact ⟨after, hafterPid.trans hmiddlePid, hafter, hall⟩

theorem takeAll_end {request : Header} (h : exchange.Gathers request.seq kind objects)
    (hpid : request.pid = exchange.pid) (hnumber : request.seq ≠ 0) (interrupted : Bool) :
    ∃ (after : Exchange) (disturbed : Bool), after.pid = exchange.pid ∧
      exchange.takeAll [] [⟨(endDraft request interrupted).header, Bytes.ofInt32 0⟩] =
        .ok (after, [.reply request.seq (.ok (.listing kind objects disturbed))]) := by
  obtain ⟨after, disturbed, htake, hafter⟩ := take_end
    ⟨(endDraft request interrupted).header, Bytes.ofInt32 0⟩ h hnumber
    ((pid_endDraft request interrupted).trans hpid) (seq_endDraft request interrupted)
    (kind_endDraft request interrupted) (show endFailure (Bytes.ofInt32 0) = .ok none by rfl)
  refine ⟨after, disturbed, hafter, ?_⟩
  rw [takeAll_single, htake]
  rfl

end Exchange

namespace Peer

/-- The datagrams that are left of a listing, and the objects in them. -/
inductive Remaining (request : Header) (interrupted : Bool) : List Bytes → List Object → Prop where
  | last (piece : List Object) : Remaining request interrupted
      [piece.flatMap (entryBytes request) ++ endBytes request interrupted] piece
  | more (piece : List Object) {datagrams : List Bytes} {objects : List Object}
      (h : Remaining request interrupted datagrams objects) : Remaining request interrupted
        (piece.flatMap (entryBytes request) :: datagrams) (piece ++ objects)

theorem flatten_chunks {α : Type} (size : Nat) (values : List α) :
    (chunks size values).flatten = values := by
  induction values using chunks.induct size with
  | case1 => rw [chunks, List.flatten_nil]
  | case2 first rest ih =>
      rw [chunks, List.flatten_cons, ih, List.cons_append, List.take_append_drop]

theorem remaining_pieces (request : Header) (interrupted : Bool) (pieces : List (List Object)) :
    Remaining request interrupted
      ((pieces.map (·.flatMap (entryBytes request))).dropLast ++
        [(pieces.map (·.flatMap (entryBytes request))).getLast?.getD [] ++
          endBytes request interrupted]) pieces.flatten := by
  induction pieces with
  | nil => exact Remaining.last []
  | cons first rest ih =>
      cases rest with
      | nil =>
          rw [List.flatten_cons, List.flatten_nil, List.append_nil]
          exact Remaining.last first
      | cons second rest => exact Remaining.more first ih

theorem remaining_listingDatagrams (size : Nat) (request : Header) (objects : List Object)
    (interrupted : Bool) : Remaining request interrupted
      (listingDatagrams size request objects interrupted) objects := by
  have hpieces := remaining_pieces request interrupted (chunks size objects)
  rw [flatten_chunks] at hpieces
  exact hpieces

theorem Remaining.header_of_mem {request : Header} {interrupted : Bool} {datagrams : List Bytes}
    {objects : List Object} (h : Remaining request interrupted datagrams objects) {datagram : Bytes}
    (hdatagram : datagram ∈ datagrams) {message : Message}
    (hmessage : message ∈ Exchange.messages datagram) :
    message.header.seq = request.seq ∧ message.header.pid = request.pid := by
  induction h with
  | last piece =>
      rw [List.mem_singleton.mp hdatagram, messages_flatMap_entryBytes, messages_endBytes]
        at hmessage
      rcases List.mem_append.mp hmessage with hmessage | hmessage
      · exact header_of_mem_entries hmessage
      · rw [List.mem_singleton.mp hmessage]
        exact ⟨seq_endDraft request interrupted, pid_endDraft request interrupted⟩
  | more piece _ ih =>
      rcases List.mem_cons.mp hdatagram with rfl | hdatagram
      · rw [← List.append_nil (piece.flatMap _), messages_flatMap_entryBytes] at hmessage
        rcases List.mem_append.mp hmessage with hmessage | hmessage
        · exact header_of_mem_entries hmessage
        · rw [messages_nil] at hmessage
          exact absurd hmessage List.not_mem_nil
      · exact ih hdatagram

end Peer

/-- The next datagram of a listing brings the rest of it, or some more of its objects, unless it
ends the program. -/
theorem Exchange.receive_remaining {exchange : Exchange} {request : Header} {kind : Kind}
    {told left : List Object} {interrupted : Bool} {datagrams : List Bytes}
    (hgathers : exchange.Gathers request.seq kind told) (hpid : request.pid = exchange.pid)
    (hnumber : request.seq ≠ 0) (hremaining : Peer.Remaining request interrupted datagrams left)
    (hleft : ∀ object ∈ left, object.kind = kind) :
    ∃ datagram rest, datagrams = datagram :: rest ∧
      (exchange.receive (.ok datagram) ≠ .error .crash →
        (rest = [] ∧ ∃ after disturbed, exchange.receive (.ok datagram) =
          .ok (after, [.reply request.seq
            (.ok (.listing kind (told ++ left.filterMap Object.image?) disturbed))])) ∨
        ∃ middle piece more, exchange.receive (.ok datagram) = .ok (middle, []) ∧
          middle.pid = exchange.pid ∧
          middle.Gathers request.seq kind (told ++ piece.filterMap Object.image?) ∧
          Peer.Remaining request interrupted rest more ∧ left = piece ++ more) := by
  cases hremaining with
  | last piece =>
      refine ⟨_, [], rfl, fun hcalm => Or.inl ⟨rfl, ?_⟩⟩
      rw [receive, Peer.messages_flatMap_entryBytes] at hcalm ⊢
      obtain ⟨middle, hmiddlePid, hmiddle, hpieces⟩ := takeAll_piece hgathers hpid hleft hcalm
      obtain ⟨after, disturbed, -, hend⟩ := takeAll_end hmiddle (hpid.trans hmiddlePid.symm) hnumber
        interrupted
      rw [hpieces, Peer.messages_endBytes]
      exact ⟨after, disturbed, hend⟩
  | more piece hrest =>
      refine ⟨_, _, rfl, fun hcalm => Or.inr ?_⟩
      rw [receive, ← List.append_nil (piece.flatMap _), Peer.messages_flatMap_entryBytes,
        Peer.messages_nil] at hcalm ⊢
      obtain ⟨middle, hmiddlePid, hmiddle, hpieces⟩ := takeAll_piece hgathers hpid
        (fun object hobject => hleft object (List.mem_append_left _ hobject)) hcalm
      exact ⟨middle, piece, _, hpieces, hmiddlePid, hmiddle, hrest, rfl⟩

end NetState
