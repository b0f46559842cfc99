import NetState.Proofs.Wire

namespace NetState

namespace Field

def IsAttribute : Field → Prop
  | raw _ => False
  | _ => True

def asAttribute : Field → Attribute
  | raw octets => ⟨0, octets⟩
  | leaf kind payload => ⟨Attribute.unmarked kind, payload⟩
  | nest kind fields => ⟨Attribute.unmarked (nestKind kind), encodeAll fields⟩

theorem asAttribute_leaf {kind : UInt16} (h : Attribute.unmarked kind = kind) (payload : Bytes) :
    (leaf kind payload).asAttribute = ⟨kind, payload⟩ := by
  rw [asAttribute, h]

theorem asAttribute_nest {kind : UInt16} (h : Attribute.unmarked (nestKind kind) = kind)
    (fields : List Field) : (nest kind fields).asAttribute = ⟨kind, encodeAll fields⟩ := by
  rw [asAttribute, h]

end Field

namespace Attribute

section

variable {σ : Type} {read : σ → Attribute → Option σ} {start middle final : σ}

theorem foldlM_cons_some {first : Attribute} {rest : List Attribute}
    (hfirst : read start first = some middle) (hrest : rest.foldlM read middle = some final) :
    (first :: rest).foldlM read start = some final := by
  rw [List.foldlM_cons, hfirst]
  exact hrest

theorem foldlM_append_some {before after : List Attribute}
    (hbefore : before.foldlM read start = some middle)
    (hafter : after.foldlM read middle = some final) :
    (before ++ after).foldlM read start = some final := by
  rw [List.foldlM_append, hbefore]
  exact hafter

end

theorem readAll?_encode {field : Field} (h : field.IsAttribute)
    (hsize : Field.oversized? field = none) (rest : Bytes) :
    readAll? (Field.encode field ++ rest) = (readAll? rest).map (field.asAttribute :: ·) := by
  cases field with
  | raw octets => exact absurd h id
  | leaf kind payload => exact readAll?_marked hsize rest
  | nest kind fields =>
      obtain ⟨hfits, hencode⟩ := Field.encode_nest hsize
      rw [hencode, readAll?_marked hfits]
      rfl

theorem readAll?_encodeAll {fields : List Field} (h : ∀ field ∈ fields, field.IsAttribute)
    (hsize : Field.oversizedAmong? fields = none) :
    readAll? (Field.encodeAll fields) = some (fields.map Field.asAttribute) := by
  induction fields with
  | nil => exact readAll?_nil
  | cons first rest ih =>
      rw [Field.oversizedAmong?, Option.or_eq_none_iff] at hsize
      rw [Field.encodeAll, readAll?_encode (h first List.mem_cons_self) hsize.1,
        ih (fun field hfield => h field (List.mem_cons_of_mem first hfield)) hsize.2]
      rfl

theorem read?_eq_some {bytes rest : Bytes} {first : Attribute}
    (h : read? bytes = some (first, rest)) :
    headerSize ≤ (Head.read bytes).length.toNat ∧
      bytes.atLeast (Head.read bytes).length.toNat = true ∧
      first = ⟨(Head.read bytes).kind,
        (bytes.take (Head.read bytes).length.toNat).drop headerSize⟩ ∧
      rest = bytes.drop (Bytes.align (Head.read bytes).length.toNat) := by
  rw [read?] at h
  obtain ⟨⟨head, after⟩, hhead, hbody⟩ := Option.bind_eq_some_iff.mp h
  obtain ⟨hsize, rfl⟩ := Bytes.split?_eq_some_iff.mp hhead
  have hlength : (Head.read (head ++ after)).length = Bytes.u16At head 0 := by
    simp only [Head.read, Bytes.u16At, List.drop_zero]
    rw [List.take_append_of_le_length (by rw [hsize]; decide)]
  have hfield : (Head.read (head ++ after)).field = Bytes.u16At head 2 := by
    simp only [Head.read, Bytes.u16At]
    rw [List.drop_append_of_le_length (by rw [hsize]; decide),
      List.take_append_of_le_length (by rw [List.length_drop, hsize]; decide)]
  simp only at hbody
  split at hbody
  · exact absurd hbody (by simp)
  · rename_i hlong
    obtain ⟨⟨payload, tail⟩, htail, hpair⟩ := Option.map_eq_some_iff.mp hbody
    obtain ⟨hpayload, rfl⟩ := Bytes.split?_eq_some_iff.mp htail
    obtain ⟨rfl, rfl⟩ := Prod.mk.inj hpair
    have hall : (head ++ payload).length = (Bytes.u16At head 0).toNat := by
      rw [List.length_append, hsize, hpayload]
      omega
    have halign := Bytes.le_align (Bytes.u16At head 0).toNat
    rw [Head.kind, hlength, hfield]
    refine ⟨Nat.le_of_not_lt hlong, ?_, ?_, ?_⟩
    · rw [Bytes.atLeast_iff, ← List.append_assoc, List.length_append, hall]
      exact Nat.le_add_right _ _
    · rw [← List.append_assoc, ← hall, List.take_left, ← hsize, List.drop_left]
    · have hpast : (head ++ payload).drop (Bytes.align (Bytes.u16At head 0).toNat) = [] :=
        List.drop_eq_nil_of_le (by rw [hall]; exact halign)
      rw [← List.append_assoc, List.drop_append, hpast, List.nil_append, hall]

theorem scan_of_read? {bytes rest : Bytes} {first : Attribute}
    (h : read? bytes = some (first, rest)) :
    scan bytes = first :: scan rest := by
  obtain ⟨hlong, hall, hfirst, hrest⟩ := read?_eq_some h
  have hfour : bytes.atLeast headerSize = true :=
    Bytes.atLeast_iff.mpr (Nat.le_trans hlong (Bytes.atLeast_iff.mp hall))
  rw [scan, dif_pos hfour]
  simp only
  rw [dif_pos ⟨hlong, hall⟩, ← hfirst, ← hrest]

theorem scan_of_readAll? {bytes : Bytes} {attrs : List Attribute}
    (h : readAll? bytes = some attrs) :
    scan bytes = attrs := by
  induction bytes using readAll?.induct generalizing attrs with
  | case1 bytes hfour hnone =>
      rw [readAll?_of_read?_eq_none hfour hnone] at h
      exact absurd h (by simp)
  | case2 bytes hfour first rest hread ih =>
      rw [readAll?_of_read? hread] at h
      obtain ⟨more, hmore, rfl⟩ := Option.map_eq_some_iff.mp h
      rw [scan_of_read? hread, ih hmore]
  | case3 bytes hfour =>
      rw [readAll?, if_neg hfour] at h
      rw [scan, dif_neg hfour, ← Option.some.inj h]

theorem scan_encodeAll {fields : List Field} (h : ∀ field ∈ fields, field.IsAttribute)
    (hsize : Field.oversizedAmong? fields = none) :
    scan (Field.encodeAll fields) = fields.map Field.asAttribute :=
  scan_of_readAll? (readAll?_encodeAll h hsize)

end Attribute

end NetState
