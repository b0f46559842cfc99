import NetState.Proofs.Peer.Fulfil
import NetState.Proofs.Peer.Respond

namespace NetState

open Peer

namespace Peer.News

/-- What news are taken for when their message is read. -/
def read? (news : News) : Option News :=
  (news.object.told? news.type).map fun (change, seen) => ⟨change, seen⟩

/-- What an inventory does when it hears of what was read. -/
def deed (seen : News) : Inventory.Command :=
  seen.command seen.object

theorem told?_of_read? {news seen : News} (h : news.read? = some seen) :
    news.object.told? news.type = some (news.change, seen.object) ∧ seen.change = news.change := by
  obtain ⟨⟨change, object⟩, htold, rfl⟩ := Option.map_eq_some_iff.mp h
  obtain ⟨-, -, -, hchange, -⟩ := Object.told?_eq_some_iff.mp htold
  have hsame : change = news.change :=
    Option.some.inj (hchange.symm.trans (Exchange.changeOf?_type news))
  exact ⟨hsame ▸ htold, hsame⟩

theorem read?_of_image? {object image : Object} (h : object.image? = some image) :
    News.read? ⟨.new, object⟩ = some ⟨.new, image⟩ := by
  obtain ⟨⟨change, shown⟩, hshown, rfl⟩ := Option.map_eq_some_iff.mp h
  obtain ⟨-, -, -, hchange, -⟩ := Object.told?_eq_some_iff.mp hshown
  rw [Object.changeOf?_newType] at hchange
  rw [read?]
  exact congrArg (Option.map _) (hshown.trans (by rw [← Option.some.inj hchange]))

theorem kind_of_read? {news seen : News} (h : news.read? = some seen)
    (hkind : news.object.kind ≠ .link) : seen.object.kind ≠ .link := by
  obtain ⟨fields, -, -, -, hread⟩ := Object.told?_eq_some_iff.mp (told?_of_read? h).1
  refine Object.kind_ne_link_of_ofPayload hread ?_ ?_ <;>
    obtain ⟨change, object⟩ := news <;> revert hkind <;> cases change <;>
    simp only [type] <;> cases object.kind <;> decide

end Peer.News

/-- What datagrams bring in, one after the other, as long as the exchange stays as it is and the
program goes on. -/
inductive Exchange.Hears (exchange : Exchange) : List Bytes → List News → Prop where
  | nil : Hears exchange [] []
  | crash {datagram : Bytes} (hreceive : exchange.receive (.ok datagram) = .error .crash)
      (rest : List Bytes) (heard : List News) : Hears exchange (datagram :: rest) heard
  | nothing {datagram : Bytes} {rest : List Bytes} {heard : List News}
      (hreceive : exchange.receive (.ok datagram) = .ok (exchange, []))
      (hrest : Hears exchange rest heard) : Hears exchange (datagram :: rest) heard
  | notice {datagram : Bytes} {rest : List Bytes} {seen : News} {heard : List News}
      (hreceive : exchange.receive (.ok datagram) =
        .ok (exchange, [.notice seen.object.kind seen.change seen.object]))
      (hrest : Hears exchange rest heard) : Hears exchange (datagram :: rest) (seen :: heard)

theorem Exchange.hears_told {exchange : Exchange} {seq pid : UInt32}
    (hunlisted : exchange.Unlisted seq pid) (news : List News) :
    exchange.Hears (news.flatMap (News.datagrams ⟨seq, pid, false⟩ false))
      (news.filterMap News.read?) := by
  induction news with
  | nil => exact Hears.nil
  | cons first rest ih =>
      rw [List.flatMap_cons, List.filterMap_cons, News.datagrams, News.read?]
      cases hdraft : first.object.toMessage first.type 0 with
      | error fault =>
          have htold : first.object.told? first.type = none := by
            rw [Object.told?, hdraft]
          rw [htold]
          exact ih
      | ok draft =>
          rcases receive_told hunlisted hdraft with hcrash | hreceive
          · exact Hears.crash hcrash _ _
          cases htold : first.object.told? first.type with
          | none =>
              rw [htold] at hreceive
              exact Hears.nothing hreceive ih
          | some found =>
              rw [htold] at hreceive
              exact @Hears.notice _ _ _ ⟨found.1, found.2⟩ _ hreceive ih

def KeepsLinks (heard : List News) : Prop :=
  ∀ seen ∈ heard, seen.change = .del → seen.object.kind ≠ .link

theorem keepsLinks_read {news : List News}
    (h : ∀ told ∈ news, told.change = .del → told.object.kind ≠ .link) :
    KeepsLinks (news.filterMap News.read?) := by
  intro seen hseen hdel
  obtain ⟨told, htold, hread⟩ := List.mem_filterMap.mp hseen
  exact News.kind_of_read? hread (h told htold ((News.told?_of_read? hread).2 ▸ hdel))

theorem keepsLinks_of_linkless {news : List News} (h : Linkless news) :
    KeepsLinks (news.filterMap News.read?) :=
  keepsLinks_read fun told htold _ => h told htold

theorem keepsLinks_of_presents {stores : Object → Prop} {news : List News}
    (h : Presents stores news) : KeepsLinks (news.filterMap News.read?) := by
  refine keepsLinks_read fun told htold hdel => ?_
  cases h with
  | last hbefore hkind hstores =>
      rcases List.mem_append.mp htold with htold | htold
      · exact hbefore told htold
      · rw [List.mem_singleton.mp htold]
        exact hkind
  | first hkind hbehind hstores =>
      rcases List.mem_cons.mp htold with rfl | htold
      · exact absurd hdel (by simp)
      · exact (hbehind told htold).2

namespace Object

theorem kind_of_satisfies {image wanted : Object} (h : image.satisfies wanted = true) :
    image.kind = .link ↔ wanted.kind = .link := by
  constructor
  · intro hlink
    obtain ⟨l, rfl⟩ := exists_link_of_kind hlink
    cases wanted with
    | link l => rfl
    | _ => exact absurd h (by simp [satisfies])
  · intro hlink
    obtain ⟨l, rfl⟩ := exists_link_of_kind hlink
    cases image with
    | link l => rfl
    | _ => exact absurd h (by simp [satisfies])

end Object

namespace Inventory

variable {inventory : Inventory} {wanted : Object}

/-- Whether an inventory shows an object as it is wanted. -/
def Meets (inventory : Inventory) (wanted : Object) : Prop :=
  ∃ found, inventory.find? wanted = some found ∧ found.satisfies wanted = true

theorem run_append (inventory : Inventory) (commands more : List Command) :
    inventory.run (commands ++ more) = (inventory.run commands).run more :=
  List.foldl_append

theorem Suits.of_ne_link {image : Object} (h : inventory.Suits image wanted)
    (hkind : wanted.kind ≠ .link) (other : Inventory) : other.Suits image wanted := by
  cases wanted with
  | link l => exact absurd rfl hkind
  | _ => exact h

theorem Consistent.find?_run (h : inventory.Consistent) {l : Link} {behind : List News}
    (hbehind : ∀ told ∈ behind, told.change = .new ∧ told.object.kind ≠ .link) :
    (inventory.run ((behind.filterMap News.read?).map News.deed)).find? (.link l) =
      inventory.find? (.link l) := by
  induction behind generalizing inventory with
  | nil => rfl
  | cons first rest ih =>
      obtain ⟨hnew, hkind⟩ := hbehind first List.mem_cons_self
      have hrest := fun told htold => hbehind told (List.mem_cons_of_mem first htold)
      rw [List.filterMap_cons]
      cases hread : first.read? with
      | none => exact ih h hrest
      | some seen =>
          obtain ⟨change, object⟩ := seen
          obtain rfl : change = .new := (News.told?_of_read? hread).2.trans hnew
          exact (ih (h.perform (.upsert object)) hrest).trans
            (h.find?_link_upsert (News.kind_of_read? hread hkind))

/-- News that tell of something stored as wanted make an inventory show it. -/
theorem Consistent.meets_run (h : inventory.Consistent) {stores : Object → Prop} {news : List News}
    (hnews : Presents stores news)
    (hstores : ∀ stored, stores stored → ∃ image, stored.image? = some image ∧
      image.satisfies wanted = true ∧ inventory.Suits image wanted) :
    (inventory.run ((news.filterMap News.read?).map News.deed)).Meets wanted := by
  cases hnews with
  | last hbefore hkind hstored =>
      rename_i before stored
      obtain ⟨image, himage, hdoes, hsuits⟩ := hstores stored hstored
      have hwanted : wanted.kind ≠ .link := fun hlink => hkind
        ((Object.resembles_of_image? himage).kind.symm.trans
          ((Object.kind_of_satisfies hdoes).mpr hlink))
      rw [List.filterMap_append, List.map_append, run_append, List.filterMap_cons,
        News.read?_of_image? himage]
      exact (h.run _).find?_upsert hdoes (hsuits.of_ne_link hwanted _)
  | first hkind hbehind hstored =>
      rename_i stored behind
      obtain ⟨image, himage, hdoes, hsuits⟩ := hstores stored hstored
      have hlink : wanted.kind = .link := (Object.kind_of_satisfies hdoes).mp
        ((Object.resembles_of_image? himage).kind.trans hkind)
      obtain ⟨l, rfl⟩ := Object.exists_link_of_kind hlink
      obtain ⟨found, hfound, hmeets⟩ := h.find?_upsert hdoes hsuits
      rw [List.filterMap_cons, News.read?_of_image? himage]
      exact ⟨found, ((h.perform (.upsert image)).find?_run hbehind).trans hfound, hmeets⟩

end Inventory

end NetState
