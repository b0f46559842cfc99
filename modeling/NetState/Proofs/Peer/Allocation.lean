import Mathlib.Data.List.Perm.Subperm
import NetState.Proofs.Handle
import NetState.Proofs.Peer.Reach

namespace NetState.Peer

def HasMajor (peer : Peer) (interface : UInt32) (major : UInt16) : Prop :=
  ∃ d ∈ peer.disciplines, d.interface = interface ∧ d.handle.major = major

/-- How the search for a major number goes, for as long as it goes: every turn takes the next
number, and the first that is free ends it. -/
inductive Seeks (peer : Peer) (interface : UInt32) :
    (turns : Nat) → (next found after : UInt16) → Prop
  | free {next : UInt16} (h : ¬peer.HasMajor interface next) :
      Seeks peer interface 1 next next (majorAfter next)
  | taken {turns : Nat} {next found after : UInt16} (h : peer.HasMajor interface next)
      (hrest : Seeks peer interface turns (majorAfter next) found after) :
      Seeks peer interface (turns + 1) next found after

theorem hasMajor_iff {peer : Peer} {interface : UInt32} {major : UInt16} :
    (peer.disciplines.any fun d => d.interface == interface && d.handle.major == major) = true ↔
      peer.HasMajor interface major := by
  simp only [List.any_eq_true, Bool.and_eq_true, beq_iff_eq, HasMajor]

namespace Seeks

variable {peer : Peer} {interface : UInt32} {turns : Nat} {next found after : UInt16}

theorem pos (h : peer.Seeks interface turns next found after) : 0 < turns := by
  cases h <;> omega

theorem not_hasMajor (h : peer.Seeks interface turns next found after) :
    ¬peer.HasMajor interface found := by
  induction h with
  | free hfree => exact hfree
  | taken _ _ ih => exact ih

theorem freeMajor_eq (h : peer.Seeks interface turns next found after) {tries : Nat}
    (htries : turns ≤ tries + 1) :
    freeMajor peer.disciplines interface next tries = (found, after) := by
  induction h generalizing tries with
  | free hfree =>
      cases tries with
      | zero => rfl
      | succ tries => rw [freeMajor, if_neg (fun hany => hfree (hasMajor_iff.mp hany))]
  | taken htaken hrest ih =>
      have hturn := hrest.pos
      obtain ⟨tries, rfl⟩ := Nat.exists_eq_add_of_lt (show 0 < tries by omega)
      rw [freeMajor, if_pos (hasMajor_iff.mpr htaken)]
      exact ih (by omega)

end Seeks

theorem majorAfter_eq (major : UInt16) :
    majorAfter major = if major + 1 ≤ firstMajor then firstMajor else major + 1 :=
  rfl

theorem firstMajor_le_majorAfter (major : UInt16) : firstMajor ≤ majorAfter major := by
  rw [majorAfter_eq]
  split
  · exact UInt16.le_refl _
  · rename_i hmore
    exact UInt16.le_of_lt (UInt16.not_le.mp hmore)

theorem toNat_majorAfter {major : UInt16} (h : firstMajor ≤ major) :
    major.toNat = 0xFFFF ∧ (majorAfter major).toNat = 0x8001 ∨
      major.toNat < 0xFFFF ∧ (majorAfter major).toNat = major.toNat + 1 := by
  have hmajor := major.toNat_lt
  have hfirst : 0x8001 ≤ major.toNat := UInt16.le_iff_toNat_le.mp h
  have hnext : (major + 1).toNat = (major.toNat + 1) % 2 ^ 16 := UInt16.toNat_add major 1
  have hround : major + 1 ≤ firstMajor ↔ (major + 1).toNat ≤ 0x8001 := UInt16.le_iff_toNat_le
  rw [majorAfter_eq]
  by_cases hlast : major.toNat = 0xFFFF
  · rw [if_pos (hround.mpr (by omega))]
    exact Or.inl ⟨hlast, rfl⟩
  · rw [if_neg (fun hle => absurd (hround.mp hle) (by omega))]
    exact Or.inr (by omega)

theorem majorAfter_distinct {major : UInt16} (h : firstMajor ≤ major) :
    majorAfter major ≠ major ∧ majorAfter (majorAfter major) ≠ majorAfter major ∧
      majorAfter (majorAfter major) ≠ major := by
  have hone := toNat_majorAfter h
  have htwo := toNat_majorAfter (firstMajor_le_majorAfter major)
  simp only [ne_eq, ← UInt16.toNat_inj]
  omega

theorem firstMajor_le_freeMajor (disciplines : List Discipline) (interface : UInt32)
    (major : UInt16) (tries : Nat) :
    firstMajor ≤ (freeMajor disciplines interface major tries).2 := by
  induction tries generalizing major with
  | zero => exact firstMajor_le_majorAfter major
  | succ tries ih =>
      rw [freeMajor]
      split
      · exact ih (majorAfter major)
      · exact firstMajor_le_majorAfter major

theorem Seeks.chosen {peer : Peer} {interface : UInt32} {turns : Nat} {next found after : UInt16}
    (h : peer.Seeks interface turns next found after) (hnext : firstMajor ≤ next) :
    firstMajor ≤ found ∧ firstMajor ≤ after := by
  induction h with
  | free _ => exact ⟨hnext, firstMajor_le_majorAfter _⟩
  | taken _ _ ih => exact ih (firstMajor_le_majorAfter _)

/-- Every discipline is at the root of a link or on its ingress side, and the number that is tried
next is one of those that are chosen. -/
structure Roomy (peer : Peer) : Prop where
  attached : ∀ d ∈ peer.disciplines, d.parent = Handle.root ∨ d.parent = Handle.ingress
  chosen : firstMajor ≤ peer.nextMajor

section

variable {peer : Peer} (h : peer.Roomy) (hkeys : (peer.disciplines.map disciplineKey).Nodup)
include h hkeys

theorem Roomy.eq_or_eq {d e f : Discipline} (hd : d ∈ peer.disciplines)
    (he : e ∈ peer.disciplines) (hf : f ∈ peer.disciplines) (hde : d.interface = e.interface)
    (hef : e.interface = f.interface) : d = e ∨ e = f ∨ d = f := by
  have hsame {a b : Discipline} (ha : a ∈ peer.disciplines) (hb : b ∈ peer.disciplines)
      (hinterface : a.interface = b.interface) (hparent : a.parent = b.parent) : a = b :=
    List.inj_on_of_nodup_map hkeys ha hb (Prod.ext hinterface hparent)
  rcases h.attached d hd with hroot | hingress
  · rcases h.attached e he with heroot | heingress
    · exact Or.inl (hsame hd he hde (hroot.trans heroot.symm))
    · rcases h.attached f hf with hfroot | hfingress
      · exact Or.inr (Or.inr (hsame hd hf (hde.trans hef) (hroot.trans hfroot.symm)))
      · exact Or.inr (Or.inl (hsame he hf hef (heingress.trans hfingress.symm)))
  · rcases h.attached e he with heroot | heingress
    · rcases h.attached f hf with hfroot | hfingress
      · exact Or.inr (Or.inl (hsame he hf hef (heroot.trans hfroot.symm)))
      · exact Or.inr (Or.inr (hsame hd hf (hde.trans hef) (hingress.trans hfingress.symm)))
    · exact Or.inl (hsame hd he hde (hingress.trans heingress.symm))

theorem Roomy.not_hasMajor {interface : UInt32} {first second third : UInt16}
    (hfirst : peer.HasMajor interface first) (hsecond : peer.HasMajor interface second)
    (hne : second ≠ first) (hthird : third ≠ second) (hother : third ≠ first) :
    ¬peer.HasMajor interface third := by
  rintro ⟨f, hf, hfinterface, rfl⟩
  obtain ⟨d, hd, hdinterface, rfl⟩ := hfirst
  obtain ⟨e, he, heinterface, rfl⟩ := hsecond
  rcases h.eq_or_eq hkeys hd he hf (hdinterface.trans heinterface.symm)
    (heinterface.trans hfinterface.symm) with rfl | rfl | rfl
  · exact hne rfl
  · exact hthird rfl
  · exact hother rfl

/-- The search ends in the third turn at the latest, and takes no more turns than there are
disciplines and one. -/
theorem Roomy.exists_seeks (interface : UInt32) :
    ∃ turns found after, turns ≤ 3 ∧ turns ≤ peer.disciplines.length + 1 ∧
      peer.Seeks interface turns peer.nextMajor found after := by
  obtain ⟨hsecond, hthird, hother⟩ := majorAfter_distinct h.chosen
  by_cases hone : peer.HasMajor interface peer.nextMajor
  · obtain ⟨d, hd, -, hdmajor⟩ := id hone
    by_cases htwo : peer.HasMajor interface (majorAfter peer.nextMajor)
    · obtain ⟨e, he, -, hemajor⟩ := id htwo
      have hfree := h.not_hasMajor hkeys hone htwo hsecond hthird hother
      have hpair : [d, e].Nodup := by
        have hne : d ≠ e := by
          rintro rfl
          exact hsecond (hemajor.symm.trans hdmajor)
        simpa using hne
      have hlength : [d, e].length ≤ peer.disciplines.length :=
        (List.subperm_of_subset hpair (by simp [hd, he])).length_le
      exact ⟨3, _, _, Nat.le_refl 3, Nat.succ_le_succ hlength,
        .taken hone (.taken htwo (.free hfree))⟩
    · have hlength := List.length_pos_of_mem hd
      exact ⟨2, _, _, by omega, by omega, .taken hone (.free htwo)⟩
  · exact ⟨1, _, _, by omega, by omega, .free hone⟩

end

theorem mem_replaceFirst {α : Type} {fits : α → Bool} {value other : α} {list : List α}
    (h : other ∈ replaceFirst fits value list) : other = value ∨ other ∈ list := by
  induction list with
  | nil => exact absurd h List.not_mem_nil
  | cons first rest ih =>
      rw [replaceFirst] at h
      split at h
      · exact (List.mem_cons.mp h).imp id (List.mem_cons_of_mem first)
      · rcases List.mem_cons.mp h with rfl | h
        · exact Or.inr List.mem_cons_self
        · exact (ih h).imp id (List.mem_cons_of_mem first)

/-- What the numbers of disciplines are given out from. -/
def register (peer : Peer) : List Discipline × UInt16 :=
  (peer.disciplines, peer.nextMajor)

namespace Roomy

theorem ite {condition : Prop} [Decidable condition] {first second : Effect}
    (hfirst : condition → first.peer.Roomy) (hsecond : ¬condition → second.peer.Roomy) :
    (if condition then first else second).peer.Roomy := by
  split
  · exact hfirst ‹_›
  · exact hsecond ‹_›

variable {peer other : Peer} (h : peer.Roomy)
include h

theorem of_register (hsame : other.register = peer.register) : other.Roomy := by
  obtain ⟨hdisciplines, hnext⟩ := Prod.mk.inj hsame
  constructor
  · rw [hdisciplines]
    exact h.attached
  · rw [hnext]
    exact h.chosen

theorem told (hsame : other.register = peer.register) (origin : Origin) (news : News) :
    (other.tell origin news.type news.object).Roomy := by
  rw [tell_eq]
  exact h.of_register hsame

theorem tellNew (hsame : other.register = peer.register) (origin : Origin) (object : Object) :
    (other.tellNew origin object).Roomy :=
  h.told hsame origin ⟨.new, object⟩

theorem tellGone (hsame : other.register = peer.register) (origin : Origin) (object : Object) :
    (other.tellGone origin object).Roomy :=
  h.told hsame origin ⟨.del, object⟩

theorem put {disciplines : List Discipline} {d : Discipline}
    (hd : d.parent = Handle.root ∨ d.parent = Handle.ingress)
    (hmem : ∀ other ∈ disciplines, other = d ∨ other ∈ peer.disciplines) :
    ({ peer with disciplines } : Peer).Roomy := by
  refine ⟨?_, h.chosen⟩
  intro other hother
  rcases hmem other hother with rfl | hold
  · exact hd
  · exact h.attached other hold

theorem append {d : Discipline} (hd : d.parent = Handle.root ∨ d.parent = Handle.ingress) :
    ({ peer with disciplines := peer.disciplines ++ [d] } : Peer).Roomy :=
  h.put hd fun _ hother => (List.mem_append.mp hother).symm.imp List.mem_singleton.mp id

theorem dropFiltersBelow (d : Discipline) : (peer.dropFiltersBelow d).Roomy :=
  h.of_register rfl

theorem without {disciplines : List Discipline} (hsub : disciplines.Sublist peer.disciplines) :
    ({ peer with disciplines } : Peer).Roomy :=
  ⟨fun d hd => h.attached d (hsub.subset hd), h.chosen⟩

variable (origin : Origin) (flags : UInt16)

theorem addLink (wanted : Link) : (peer.addLink origin flags wanted).peer.Roomy := by
  rw [Peer.addLink]
  cases peer.resolveLink wanted with
  | some link => exact ite (fun _ => h) fun _ => h.tellNew (by rfl) origin _
  | none =>
      refine ite (fun _ => h) fun _ => ite (fun _ => h) fun _ => ite (fun _ => h) fun _ =>
        ite (fun _ => h) fun _ => ?_
      simp only [tellNew_eq]
      have hqueued := h.append (d := defaultDiscipline peer.nextIndex) (Or.inl rfl)
      exact hqueued.of_register rfl

theorem deleteLink (wanted : Link) : (peer.deleteLink origin wanted).peer.Roomy := by
  rw [Peer.deleteLink]
  cases peer.resolveLink wanted with
  | none => exact h
  | some link =>
      refine ite (fun _ => h) fun _ => ?_
      simp only [foldl_tellGone]
      have hbare := h.without (peer.disciplines.filter_sublist (p := (·.interface != link.index)))
      exact hbare.tellGone (by rfl) origin _

theorem addAddress (wanted : Address) : (peer.addAddress origin flags wanted).peer.Roomy := by
  rw [Peer.addAddress]
  cases peer.links.get? wanted.interface with
  | none => exact h
  | some link =>
      refine ite (fun _ => h) fun _ => ite (fun _ => ?_) fun _ => ?_
      · exact ite (fun _ => h) fun _ => h.tellNew (by rfl) origin _
      · exact ite (fun _ => h.tellNew (by rfl) origin _) fun _ => h

theorem deleteAddress (wanted : Address) : (peer.deleteAddress origin wanted).peer.Roomy := by
  rw [Peer.deleteAddress]
  split
  · exact h
  · exact h.tellGone (by rfl) origin _

theorem addRoute (wanted : Route) : (peer.addRoute origin flags wanted).peer.Roomy := by
  rw [Peer.addRoute]
  refine ite (fun _ => h) fun _ => ?_
  cases peer.routeInterface wanted with
  | error errno => exact h
  | ok interface =>
      refine ite (fun _ => ?_) fun _ => ?_
      · exact ite (fun _ => h) fun _ => h.tellNew (by rfl) origin _
      · exact ite (fun _ => h.tellNew (by rfl) origin _) fun _ => h

theorem deleteRoute (wanted : Route) : (peer.deleteRoute origin wanted).peer.Roomy := by
  rw [Peer.deleteRoute]
  split
  · exact h
  · exact h.tellGone (by rfl) origin _

theorem addFilter (wanted : Filter) : (peer.addFilter origin flags wanted).peer.Roomy := by
  rw [Peer.addFilter]
  refine ite (fun _ => h) fun _ => ite (fun _ => h) fun _ => ite (fun _ => h) fun _ => ?_
  simp only
  split
  · exact ite (fun _ => h) fun _ => h.tellNew (by rfl) origin _
  · exact ite (fun _ => h.tellNew (by rfl) origin _) fun _ => h

theorem deleteFilter (wanted : Filter) : (peer.deleteFilter origin wanted).peer.Roomy := by
  rw [Peer.deleteFilter]
  refine ite (fun _ => h) fun _ => ite (fun _ => h) fun _ => ?_
  simp only [foldl_tellGone]
  exact h.of_register rfl

theorem allocateHandle (interface : UInt32) : (peer.allocateHandle interface).2.Roomy :=
  ⟨h.attached, firstMajor_le_freeMajor _ interface _ _⟩

theorem placeDiscipline {wanted : Discipline}
    (hwanted : wanted.parent = Handle.root ∨ wanted.parent = Handle.ingress) :
    (peer.placeDiscipline origin wanted).peer.Roomy := by
  have hput {middle : Peer} (hmiddle : middle.Roomy) (handle : Handle) :
      (({ middle with
        disciplines := middle.disciplines ++ [{ wanted with handle }] } : Peer).tellNew origin
          (.discipline { wanted with handle })).Roomy :=
    (hmiddle.append (d := { wanted with handle }) hwanted).tellNew rfl origin _
  rw [Peer.placeDiscipline]
  refine ite (fun _ => hput h _) fun _ => ite (fun _ => ?_) fun _ => ?_
  · exact hput (h.allocateHandle _) _
  · exact ite (fun _ => h) fun _ => hput h _

theorem regraftDiscipline {old wanted : Discipline}
    (hwanted : wanted.parent = Handle.root ∨ wanted.parent = Handle.ingress) :
    (peer.regraftDiscipline origin flags old wanted).peer.Roomy := by
  rw [Peer.regraftDiscipline]
  refine ite (fun _ => h) fun _ => ite (fun _ => ?_) fun _ => ite (fun _ => h) fun _ => ?_
  · have hreplaced := h.put (d := { wanted with handle := old.handle }) hwanted
      fun other (hother : other ∈ replaceFirst (sameDisciplinePlace · wanted) _ _) =>
        mem_replaceFirst hother
    exact hreplaced.tellNew rfl origin _
  · have hleft := h.without (List.eraseP_sublist (p := (sameDisciplinePlace · wanted)))
    have htold := (hleft.dropFiltersBelow old).tellGone rfl origin (.discipline old)
    exact htold.placeDiscipline origin hwanted

theorem addDiscipline (wanted : Discipline) :
    (peer.addDiscipline origin flags wanted).peer.Roomy := by
  rw [Peer.addDiscipline]
  refine ite (fun _ => h) fun _ => ite (fun _ => h) fun _ => ite (fun _ => h) fun hside =>
    ite (fun _ => h) fun hroot => ?_
  have hwanted : wanted.parent = Handle.root ∨ wanted.parent = Handle.ingress := by
    simp only [bne_iff_ne, ne_eq, Decidable.not_not, Bool.and_eq_true, Bool.not_eq_true',
      not_and, Bool.not_eq_false] at hside hroot
    cases hkind : isIngressKind wanted.kind with
    | true => exact Or.inr (eq_of_beq (hside.symm.trans hkind))
    | false => exact Or.inl (eq_of_beq (hroot hkind))
  split
  · refine ite (fun _ => ?_) fun _ => h.regraftDiscipline origin flags hwanted
    exact (h.without List.eraseP_sublist).placeDiscipline origin hwanted
  · exact ite (fun _ => h.placeDiscipline origin hwanted) fun _ => h

theorem deleteDiscipline (wanted : Discipline) :
    (peer.deleteDiscipline origin wanted).peer.Roomy := by
  rw [Peer.deleteDiscipline]
  split
  · exact h
  · rename_i old hfound
    have hleft := h.without (List.eraseP_sublist (p := (isNamedBy · wanted)))
    have htold := (hleft.dropFiltersBelow old).tellGone rfl origin (.discipline old)
    refine ite (fun _ => h) fun _ => ite (fun _ => ?_) fun _ => htold
    have hrestored := htold.append (d := defaultDiscipline old.interface) (Or.inl rfl)
    exact hrestored.tellNew rfl origin _

theorem apply (goal : Goal) (object : Object) :
    (peer.apply origin flags goal object).peer.Roomy := by
  cases goal with
  | present =>
      cases object with
      | link l => exact h.addLink origin flags l
      | address a => exact h.addAddress origin flags a
      | route r => exact h.addRoute origin flags r
      | discipline d => exact h.addDiscipline origin flags d
      | filter f => exact h.addFilter origin flags f
  | absent =>
      cases object with
      | link l => exact h.deleteLink origin l
      | address a => exact h.deleteAddress origin a
      | route r => exact h.deleteRoute origin r
      | discipline d => exact h.deleteDiscipline origin d
      | filter f => exact h.deleteFilter origin f

theorem intervene (object : Object) (goal : Goal) (silent : Bool) :
    (peer.intervene object goal silent).1.Roomy := by
  rw [intervene_eq]
  exact h.apply _ _ goal object

theorem report (request : Header) (code : Int32) : (peer.report request code).Roomy := by
  rw [Peer.report]
  split
  · exact h
  · exact h.of_register rfl

theorem answerChange (request : Header) (decoded : Except Failure (Option (Change × Object))) :
    (peer.answerChange request decoded).Roomy := by
  have hcarried : (peer.carryOut request decoded).peer.Roomy := by
    cases decoded with
    | error fault => exact h
    | ok found =>
        cases found with
        | none => exact h
        | some told => exact h.apply _ _ _ told.2
  rw [answerChange_eq]
  split
  · exact hcarried.report request _
  · split
    · exact hcarried.report request 0
    · exact hcarried

theorem answerListing (request : Message) : (peer.answerListing request).Roomy := by
  rw [Peer.answerListing]
  split
  · exact h.report request.header _
  · exact h.of_register rfl

theorem respond (request : Message) : (peer.respond request).Roomy := by
  have hnoted : (peer.noted request).Roomy := h.of_register rfl
  rw [respond_eq]
  split
  · refine report ?_ request.header _
    exact hnoted.of_register rfl
  · split
    · exact hnoted.answerListing request
    · exact hnoted.answerChange request.header _

theorem answer (request : Message) : (peer.answer request).Roomy := by
  rcases peer.answer_cases request with hanswer | hanswer <;> rw [hanswer]
  · exact h.of_register rfl
  · exact h.respond request

theorem receive {rest : Peer} {received : Except Fault Bytes}
    (hreceived : peer.receive? = some (received, rest)) : rest.Roomy := by
  rcases receive?_eq_some hreceived with ⟨-, -, rfl⟩ | ⟨_, _, -, -, -, rfl⟩ <;>
    exact h.of_register rfl

end Roomy

theorem roomy_initial : initial.Roomy := by
  constructor
  · intro d hd
    rw [List.mem_singleton.mp hd]
    exact Or.inl rfl
  · exact UInt16.le_refl _

theorem Reachable.roomy {peer : Peer} (h : peer.Reachable) : peer.Roomy := by
  induction h with
  | initial => exact roomy_initial
  | intervene _ object goal silent _ ih => exact ih.intervene object goal silent
  | answer _ request _ ih => exact ih.answer request
  | receive _ hreceived ih => exact ih.receive hreceived
  | control => rename_i ih; exact ih.of_register rfl

/-- The search that has no end of its own comes to one, in the third turn at the latest, and a
handle for a discipline is what it finds: with a major number of the range that is chosen from that
no discipline of the link has, and without a minor number. What is tried next stays in the range. -/
theorem Reachable.allocateHandle_fresh {peer : Peer} (h : peer.Reachable) (interface : UInt32) :
    ∃ turns after,
      turns ≤ 3 ∧
      peer.Seeks interface turns peer.nextMajor (peer.allocateHandle interface).1.major after ∧
      (peer.allocateHandle interface).2 = { peer with nextMajor := after } ∧
      (peer.allocateHandle interface).1.minor = 0 ∧
      (∀ d ∈ peer.disciplines, d.interface = interface →
        d.handle.major ≠ (peer.allocateHandle interface).1.major) ∧
      0x8001 ≤ (peer.allocateHandle interface).1.major ∧ 0x8001 ≤ after := by
  obtain ⟨turns, found, after, hthree, hfew, hseeks⟩ :=
    h.roomy.exists_seeks h.sound.disciplines_distinct interface
  have hallocate : peer.allocateHandle interface =
      (.ofParts found 0, { peer with nextMajor := after }) := by
    rw [allocateHandle, hseeks.freeMajor_eq hfew]
  have hmajor : (peer.allocateHandle interface).1.major = found := by
    rw [hallocate, Handle.major_ofParts]
  obtain ⟨hfound, hafter⟩ := hseeks.chosen h.roomy.chosen
  refine ⟨turns, after, hthree, ?_, congrArg Prod.snd hallocate, ?_, ?_, ?_, hafter⟩
  · rw [hmajor]
    exact hseeks
  · rw [hallocate, Handle.minor_ofParts]
  · rw [hmajor]
    exact fun d hd hinterface hsame => hseeks.not_hasMajor ⟨d, hd, hinterface, hsame⟩
  · rw [hmajor]
    exact hfound

/-- A peer with a discipline on the ingress side of its loopback link, and one at the root that took
the number to be tried next. -/
def occupied : Peer :=
  initial
    |>.intervene (.discipline (.new 1 "fq_codel" (Handle.ofParts firstMajor 0) Handle.root))
      .present false |>.1
    |>.intervene (.discipline (.new 1 "ingress" Handle.ingressDiscipline Handle.ingress)) .present
      false |>.1

theorem Reachable.allocateHandle_fresh_occupied :
    occupied.Reachable ∧ occupied.HasMajor 1 occupied.nextMajor ∧
      ∃ turns after, turns ≤ 3 ∧
        occupied.Seeks 1 turns occupied.nextMajor (occupied.allocateHandle 1).1.major after ∧
        ∀ d ∈ occupied.disciplines, d.interface = 1 →
          d.handle.major ≠ (occupied.allocateHandle 1).1.major := by
  have hreachable : occupied.Reachable := by
    rw [occupied]
    refine Reachable.intervene (Reachable.intervene Reachable.initial _ _ _ ?_) _ _ _ ?_
    all_goals decide +kernel
  obtain ⟨turns, after, hthree, hseeks, -, -, hfresh, -⟩ := hreachable.allocateHandle_fresh 1
  exact ⟨hreachable, hasMajor_iff.mp (by decide +kernel), turns, after, hthree, hseeks, hfresh⟩

end NetState.Peer
