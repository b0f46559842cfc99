import NetState.Proofs.Attribute

/-!
Attributes are taken from the start of a string up to the first failure.

Both readers of runs are measured against reading one attribute after the other. The one that skips
what it cannot read yields all that was read before the failure. The other one yields the same when
only padding is left there, and nothing otherwise.
-/

namespace NetState

theorem Bytes.split?_of_le {count : Nat} {bytes : Bytes} (h : count ≤ bytes.length) :
    split? count bytes = some (bytes.take count, bytes.drop count) := by
  rw [split?_eq_some_iff, List.length_take, List.take_append_drop]
  exact ⟨Nat.min_eq_left h, rfl⟩

namespace Attribute

/-- Attributes read one after the other, and what is left after them. -/
inductive Reads : Bytes → List Attribute → Bytes → Prop where
  | nil (bytes : Bytes) : Reads bytes [] bytes
  | cons {bytes after rest : Bytes} {first : Attribute} {attrs : List Attribute}
      (hfirst : read? bytes = some (first, after)) (hrest : Reads after attrs rest) :
      Reads bytes (first :: attrs) rest

/-- Reading one attribute fails for the reasons for which `scan` stops: too little for a header, a
length below that of the header, or one past the end. -/
theorem read?_eq_none_iff {bytes : Bytes} :
    read? bytes = none ↔ ¬(headerSize ≤ (Head.read bytes).length.toNat ∧
      bytes.atLeast (Head.read bytes).length.toNat = true) := by
  constructor
  · rintro hnone ⟨hlong, hall⟩
    rw [Bytes.atLeast_iff] at hall
    have hword : Bytes.u16At (bytes.take headerSize) 0 = (Head.read bytes).length := by
      simp only [Head.read, Bytes.u16At, List.drop_zero, List.take_take]
      rfl
    have hpayload :
        (Head.read bytes).length.toNat - headerSize ≤ (bytes.drop headerSize).length := by
      rw [List.length_drop]
      omega
    rw [read?, Bytes.split?_of_le (Nat.le_trans hlong hall), Option.bind_some] at hnone
    simp only [hword] at hnone
    rw [if_neg (Nat.not_lt_of_le hlong), Bytes.split?_of_le hpayload] at hnone
    exact absurd hnone (by simp)
  · intro hstop
    cases hread : read? bytes with
    | none => rfl
    | some found =>
        obtain ⟨first, rest⟩ := found
        obtain ⟨hlong, hall, -⟩ := read?_eq_some hread
        exact absurd ⟨hlong, hall⟩ hstop

theorem scan_of_read?_eq_none {bytes : Bytes} (h : read? bytes = none) : scan bytes = [] := by
  rw [scan]
  split
  · exact dif_neg (read?_eq_none_iff.mp h)
  · rfl

theorem readAll?_of_stuck {bytes : Bytes} (h : read? bytes = none) :
    readAll? bytes = if headerSize ≤ bytes.length then none else some [] := by
  split
  · rename_i hsize
    exact readAll?_of_read?_eq_none (Bytes.atLeast_iff.mpr hsize) h
  · rename_i hsize
    rw [readAll?, if_neg (by rwa [Bytes.atLeast_iff])]

namespace Reads

variable {bytes rest : Bytes} {attrs : List Attribute}

theorem scan_eq (h : Reads bytes attrs rest) : scan bytes = attrs ++ scan rest := by
  induction h with
  | nil bytes => rfl
  | cons hfirst _ ih => rw [scan_of_read? hfirst, ih, List.cons_append]

theorem readAll?_eq (h : Reads bytes attrs rest) :
    readAll? bytes = (readAll? rest).map (attrs ++ ·) := by
  induction h with
  | nil bytes => simp
  | cons hfirst _ ih =>
      rw [readAll?_of_read? hfirst, ih, Option.map_map]
      rfl

theorem rest_unique {other : Bytes} (h : Reads bytes attrs rest)
    (hother : Reads bytes attrs other) :
    rest = other := by
  induction h with
  | nil bytes =>
      cases hother
      rfl
  | cons hfirst _ ih =>
      cases hother with
      | cons hsame hmore =>
          rw [hfirst] at hsame
          obtain ⟨-, rfl⟩ := Prod.mk.inj (Option.some.inj hsame)
          exact ih hmore

end Reads

theorem exists_reads (bytes : Bytes) :
    ∃ rest, Reads bytes (scan bytes) rest ∧ read? rest = none := by
  induction bytes using readAll?.induct with
  | case1 bytes hfour hnone =>
      rw [scan_of_read?_eq_none hnone]
      exact ⟨bytes, .nil bytes, hnone⟩
  | case2 bytes hfour first after hread ih =>
      obtain ⟨rest, hrest, hstuck⟩ := ih
      rw [scan_of_read? hread]
      exact ⟨rest, .cons hread hrest, hstuck⟩
  | case3 bytes hfour =>
      have hnone : read? bytes = none := by
        rw [read?_eq_none_iff]
        rintro ⟨hlong, hall⟩
        rw [Bytes.atLeast_iff] at hfour hall
        omega
      rw [scan_of_read?_eq_none hnone]
      exact ⟨bytes, .nil bytes, hnone⟩

/-- Of every string, what `scan` yields are the attributes that can be read one after the other
before the first failure. A run is refused if there is more than padding where that is, and else
they are all it holds. The first of them with a type is the one that is found. -/
theorem reads_scan (bytes : Bytes) : ∃ rest,
    (∀ attrs last, Reads bytes attrs last ∧ read? last = none ↔ attrs = scan bytes ∧ last = rest) ∧
      readAll? bytes = (if headerSize ≤ rest.length then none else some (scan bytes)) ∧
      ∀ kind payload, find? kind bytes = some payload ↔ ∃ before after,
        scan bytes = before ++ ⟨kind, payload⟩ :: after ∧ ∀ attr ∈ before, attr.kind ≠ kind := by
  obtain ⟨rest, hreads, hstuck⟩ := exists_reads bytes
  refine ⟨rest, ?_, ?_, ?_⟩
  · intro attrs last
    constructor
    · rintro ⟨hother, hend⟩
      have hscan := hother.scan_eq
      rw [scan_of_read?_eq_none hend, List.append_nil] at hscan
      rw [← hscan] at hother ⊢
      exact ⟨rfl, hother.rest_unique hreads⟩
    · rintro ⟨rfl, rfl⟩
      exact ⟨hreads, hstuck⟩
  · rw [hreads.readAll?_eq, readAll?_of_stuck hstuck]
    split
    · rfl
    · rw [Option.map_some, List.append_nil]
  · intro kind payload
    rw [find?, Option.map_eq_some_iff]
    simp only [List.find?_eq_some_iff_append, beq_iff_eq, Bool.not_eq_true',
      beq_eq_false_iff_ne]
    constructor
    · rintro ⟨attr, ⟨rfl, before, after, hscan, hbefore⟩, rfl⟩
      exact ⟨before, after, hscan, hbefore⟩
    · rintro ⟨before, after, hscan, hbefore⟩
      exact ⟨⟨kind, payload⟩, ⟨rfl, before, after, hscan, hbefore⟩, rfl⟩

end Attribute

end NetState
