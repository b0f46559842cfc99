import NetState.Proofs.Exchange
import NetState.Proofs.Object.Reading
import NetState.Proofs.Peer.Reach
import NetState.Proofs.Peer.Treat

namespace NetState.Peer

def codeOf : Option Int → Int32
  | none => 0
  | some errno => Int32.ofInt (-errno)

/-- How the answer to a request comes about, in a peer that speaks up and is not set to fail. -/
structure Responds (peer : Peer) (request : Message) (tells : Peer → List News → Prop)
    (news : List News) (refusal : Option Int) : Prop where
  stance : (peer.answer request).stance =
    (peer.outbox ++ (news.flatMap (News.datagrams ⟨request.header.seq, request.header.pid, false⟩
      false) ++ [(Exchange.reportOn request.header (codeOf refusal)).toBytes]),
      peer.failures, peer.overruns, peer.muted, peer.repliesDropped)
  refused : ∀ errno, refusal = some errno →
    errno ∈ refusals ∧ Linkless news ∧ (peer.answer request).links = peer.links
  granted : refusal = none →
    ∃ after, after.links = (peer.answer request).links ∧ tells after news

variable {peer : Peer} {request : Message} {tells : Peer → List News → Prop}

theorem stance_report {after : Peer} (hstance : after.stance = peer.stance)
    (hmuted : peer.muted = false) (hreplies : peer.repliesDropped = false) (origin : Origin)
    (news : List News) (header : Header) (code : Int32) :
    ((after.tellAll origin news).report header code).stance =
      (peer.outbox ++ (news.flatMap (News.datagrams origin false) ++
        [(Exchange.reportOn header code).toBytes]),
        peer.failures, peer.overruns, peer.muted, peer.repliesDropped) := by
  simp only [stance, Prod.mk.injEq] at hstance
  obtain ⟨houtbox, hfailures, hoverruns, hmute, hdropped⟩ := hstance
  have hspeaks : ¬(after.tellAll origin news).repliesDropped = true := by
    rw [tellAll]
    simp [hdropped, hreplies]
  rw [report, if_neg hspeaks, ← hfailures, ← hoverruns, ← hmute, ← hdropped, ← houtbox,
    ← List.append_assoc]
  simp only [stance, post, tellAll, hmute, hmuted]
  rfl

theorem links_report (peer : Peer) (header : Header) (code : Int32) :
    (peer.report header code).links = peer.links := by
  rw [report]
  split <;> rfl

/-- A request that is treated as told is answered with the news and a report. -/
theorem exists_responds (hcalm : peer.crashes request = false) (hfailures : peer.failures = [])
    (hmuted : peer.muted = false) (hreplies : peer.repliesDropped = false)
    (hlisting : asksForListing request.header = false)
    (hack : hasFlag request.header.flags Flag.ack = true)
    (htreats : Treats (peer.noted request) ⟨request.header.seq, request.header.pid, false⟩ tells
      ((peer.noted request).carryOut request.header
        (Object.decode request.header.kind request.payload))) :
    ∃ news refusal, peer.Responds request tells news refusal := by
  have hanswer : peer.answer request = (peer.noted request).answerChange request.header
      (Object.decode request.header.kind request.payload) := by
    rw [answer_of_calm hcalm, respond_eq, hfailures]
    simp only [takeFailure, hlisting, Bool.false_eq_true, if_false]
  rw [answerChange_eq] at hanswer
  generalize (peer.noted request).carryOut request.header
    (Object.decode request.header.kind request.payload) = effect at hanswer htreats
  cases htreats with
  | refused hstance hlinks hnews herrno =>
      rename_i after news errno
      refine ⟨news, some errno, ?_, ?_, fun h => absurd h (by simp)⟩
      · rw [hanswer]
        exact stance_report (show after.stance = peer.stance from hstance) hmuted hreplies _ _ _ _
      · intro other hother
        rw [← Option.some.inj hother]
        refine ⟨herrno, hnews, ?_⟩
        rw [hanswer]
        exact (links_report _ _ _).trans hlinks
  | granted hstance htells =>
      rename_i after news
      simp only [if_pos hack] at hanswer
      refine ⟨news, none, ?_, fun errno h => absurd h (by simp), fun _ => ⟨_, ?_, htells⟩⟩
      · rw [hanswer]
        exact stance_report (show after.stance = peer.stance from hstance) hmuted hreplies _ _ _ _
      · rw [hanswer]
        exact (links_report (after.tellAll _ news) _ _).symm

theorem treats_carryOut {header : Header} {decoded : Except Failure (Option (Change × Object))}
    {goal : Goal}
    (hgoal : (if Object.delTypes.contains header.kind then .absent else .present) = goal)
    (h : ∀ change told, decoded = .ok (some (change, told)) →
      Treats peer ⟨header.seq, header.pid, false⟩ tells
        (peer.apply ⟨header.seq, header.pid, false⟩ header.flags goal told)) :
    Treats peer ⟨header.seq, header.pid, false⟩ tells (peer.carryOut header decoded) := by
  subst hgoal
  rcases decoded with fault | _ | ⟨change, told⟩
  · exact Treats.refuse rfl rfl (by decide)
  · exact Treats.refuse rfl rfl (by decide)
  · exact h change told rfl

theorem treats_wish (peer : Peer) {header : Header} {object : Object} {verb : Verb}
    {fields : List Field} (hkind : header.kind = object.kind.newType)
    (hfields : object.requestFields verb = .ok fields)
    (hsize : Field.oversizedAmong? fields = none) :
    Treats peer ⟨header.seq, header.pid, false⟩
      (fun _ news =>
        ∃ told, object.ReadsAs verb told ∧ Presents (peer.Stores header.flags told) news)
      (peer.carryOut header (Object.decode header.kind (Field.encodeAll fields))) := by
  have hgoal : (if Object.delTypes.contains header.kind then Goal.absent else .present) =
      .present := by
    rw [hkind]
    cases object.kind <;> rfl
  refine treats_carryOut hgoal fun change told hdecode => ?_
  have hread := (Object.decode_eq_ok_some_iff.mp hdecode).2
  rw [hkind] at hread
  exact (treats_present peer _ header.flags told).mono fun _ news hnews =>
    ⟨told, ⟨fields, hfields, hsize, hread⟩, hnews⟩

theorem treats_riddance (peer : Peer) {header : Header} {kind : Kind} (hlink : kind ≠ .link)
    (hkind : header.kind = kind.delType) (payload : Bytes) :
    Treats peer ⟨header.seq, header.pid, false⟩ peer.SparesLinks
      (peer.carryOut header (Object.decode header.kind payload)) := by
  have hgoal : (if Object.delTypes.contains header.kind then Goal.absent else .present) =
      .absent := by
    rw [hkind]
    cases kind <;> rfl
  refine treats_carryOut hgoal fun change told hdecode => treats_absent peer _ header.flags ?_
  refine Object.kind_ne_link_of_ofPayload (Object.decode_eq_ok_some_iff.mp hdecode).2 ?_ ?_ <;>
    rw [hkind] <;> revert hlink <;> cases kind <;> decide

end NetState.Peer
