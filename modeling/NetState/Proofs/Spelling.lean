import NetState.Address.Basic
import NetState.Proofs.Text.Ip
import NetState.Route.Basic

namespace NetState

open Text

/-- White space, as much of it as there is. -/
structure Blanks where
  text : String
  blank : ∀ c ∈ text.toList, isBlank c = true

theorem Blanks.not_mem (blanks : Blanks) {mark : Char} (h : isBlank mark = false) :
    mark ∉ blanks.text.toList := by
  intro hmem
  rw [blanks.blank mark hmem] at h
  exact Bool.noConfusion h

namespace Ip

theorem toList_text (ip : Ip) : ip.text.toList = ip.chars :=
  String.toList_ofList

theorem chars_ne_nil (ip : Ip) : ip.chars ≠ [] := by
  intro hnone
  have hread := ofChars?_chars ip
  rw [hnone, show ofChars? [] = none from rfl] at hread
  exact Option.some_ne_none ip hread.symm

theorem isWord_chars (ip : Ip) : IsWord ip.chars :=
  ⟨ip.chars_ne_nil, fun _ hc => (plain_of_mem_chars hc).1⟩

theorem slash_not_mem_chars (ip : Ip) : '/' ∉ ip.chars :=
  fun hmem => (plain_of_mem_chars hmem).2 rfl

theorem toNat_maxPrefix (ip : Ip) : ip.maxPrefix.toNat = if ip.isV6 then 128 else 32 := by
  cases ip <;> rfl

end Ip

theorem Address.new_host (interface : UInt32) (ip : Ip) :
    ∃ address, Address.new interface ip ip.maxPrefix = .ok address ∧
      address.length.toNat = if ip.isV6 then 128 else 32 := by
  rw [Address.new, if_neg (UInt8.lt_irrefl _)]
  exact ⟨_, rfl, ip.toNat_maxPrefix⟩

theorem Route.new_host (ip : Ip) :
    ∃ route, Route.new ip ip.maxPrefix = .ok route ∧
      route.length.toNat = if ip.isV6 then 128 else 32 := by
  rw [Route.new, if_neg (UInt8.lt_irrefl _)]
  exact ⟨_, rfl, ip.toNat_maxPrefix⟩

namespace Address

theorem slash_not_mem (ip : Ip) (before after : Blanks) :
    '/' ∉ before.text.toList ++ (ip.chars ++ after.text.toList) := by
  simp only [List.mem_append, not_or]
  exact ⟨before.not_mem rfl, ip.slash_not_mem_chars, after.not_mem rfl⟩

theorem ofText_network (interface : UInt32) (ip : Ip) (length : UInt8)
    (before between after last : Blanks) :
    ofText interface (before.text ++ ip.text ++ between.text ++ "/" ++ after.text ++
      toString length.toNat ++ last.text) = new interface ip length := by
  have htext : (before.text ++ ip.text ++ between.text ++ "/" ++ after.text ++
      toString length.toNat ++ last.text).toList =
        (before.text.toList ++ (ip.chars ++ between.text.toList)) ++
          '/' :: (after.text.toList ++ (decimal length.toNat ++ last.text.toList)) := by
    simp [decimal, Ip.toList_text]
  simp only [ofText, htext, splitOnce?_append (slash_not_mem ip before between),
    trim_blanks before.blank ip.isWord_chars between.blank, Ip.ofChars?_chars,
    trim_blanks after.blank (isWord_decimal _) last.blank, numeralUInt8?_decimal]
  rfl

theorem ofText_host (interface : UInt32) (ip : Ip) (before after : Blanks) :
    ofText interface (before.text ++ ip.text ++ after.text) = new interface ip ip.maxPrefix := by
  have htext : (before.text ++ ip.text ++ after.text).toList =
      before.text.toList ++ (ip.chars ++ after.text.toList) := by
    simp [Ip.toList_text]
  simp only [ofText, htext, splitOnce?_eq_none (slash_not_mem ip before after),
    trim_blanks before.blank ip.isWord_chars after.blank, Ip.ofChars?_chars]
  rfl

end Address

namespace Route

theorem ofText_network (ip : Ip) (length : UInt8) :
    ofText (Cause.network ip length) = new ip length := by
  have htext : (Cause.network ip length).toList = ip.chars ++ '/' :: decimal length.toNat := by
    simp [Cause.network, decimal, Ip.toList_text]
  have hsome : (decimal length.toNat).isEmpty = false := by simp [(isWord_decimal _).1]
  simp only [ofText, htext, splitOnce?_append ip.slash_not_mem_chars, Option.getD_some,
    Ip.ofChars?_chars, hsome, numeralUInt8?_decimal]
  rfl

theorem ofText_host (ip : Ip) : ofText ip.text = new ip ip.maxPrefix := by
  simp only [ofText, Ip.toList_text, splitOnce?_eq_none ip.slash_not_mem_chars, Option.getD_none,
    Ip.ofChars?_chars]
  rfl

end Route

/-- An address and a length with a slash between them tell what the two tell apart: an object, or
the fault of a length that the address cannot have. In the text of an address of a link there may be
blanks around either part. An address alone has the length of a host. -/
theorem Ip.spellings_agree (interface : UInt32) (ip : Ip) (length : UInt8)
    (before between after last : Blanks) :
    Address.ofText interface (before.text ++ ip.text ++ between.text ++ "/" ++ after.text ++
        toString length.toNat ++ last.text) = Address.new interface ip length ∧
      Route.ofText (ip.text ++ "/" ++ toString length.toNat) = Route.new ip length ∧
      (∃ address, Address.ofText interface (before.text ++ ip.text ++ between.text) = .ok address ∧
        Address.new interface ip ip.maxPrefix = .ok address ∧
        address.length.toNat = if ip.isV6 then 128 else 32) ∧
      ∃ route, Route.ofText ip.text = .ok route ∧ Route.new ip ip.maxPrefix = .ok route ∧
        route.length.toNat = if ip.isV6 then 128 else 32 := by
  obtain ⟨address, haddress, hbits⟩ := Address.new_host interface ip
  obtain ⟨route, hroute, hlength⟩ := Route.new_host ip
  refine ⟨Address.ofText_network interface ip length before between after last,
    Route.ofText_network ip length, ⟨address, ?_, haddress, hbits⟩, route, ?_, hroute, hlength⟩
  · rw [Address.ofText_host, haddress]
  · rw [Route.ofText_host, hroute]

example : Address.ofText 2 " 2001:db8::1 /\t64" =
    Address.new 2 (.v6 0x20010DB8000000000000000000000001) 64 := by
  rfl

end NetState
