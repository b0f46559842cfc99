import NetState.Proofs.Attribute

namespace NetState

/-- A type of attributes: it leaves the two marks alone. -/
abbrev PlainKind := {kind : UInt16 // kind < 0x4000}

namespace PlainKind

theorem unmarked (kind : PlainKind) : Attribute.unmarked kind = kind := by
  obtain ⟨kind, hkind⟩ := kind
  rw [UInt16.lt_iff_toNat_lt] at hkind
  rw [Attribute.unmarked, ← UInt16.toNat_inj, UInt16.toNat_and]
  exact (Nat.and_two_pow_sub_one_eq_mod _ 14).trans (Nat.mod_eq_of_lt hkind)

theorem unmarked_nestKind (kind : PlainKind) : Attribute.unmarked (Field.nestKind kind) = kind := by
  refine Eq.trans ?_ kind.unmarked
  rw [Attribute.unmarked, Attribute.unmarked, Field.nestKind, ← UInt16.toNat_inj, UInt16.toNat_and,
    UInt16.toNat_and, UInt16.toNat_or, Nat.and_or_distrib_right]
  exact Nat.or_zero _

end PlainKind

/-- Attributes within attributes, of any depth. -/
inductive Tree where
  | leaf (kind : PlainKind) (payload : Bytes)
  | nest (kind : PlainKind) (trees : List Tree)

namespace Tree

def kind : Tree → PlainKind
  | leaf kind _ => kind
  | nest kind _ => kind

mutual

def length : Tree → Nat
  | leaf _ payload => Attribute.headerSize + payload.length
  | nest _ trees => Attribute.headerSize + lengthAll trees

/-- The octets of trees one after the other, each filled up to a multiple of four. -/
def lengthAll : List Tree → Nat
  | [] => 0
  | first :: rest => Bytes.align first.length + lengthAll rest

end

/-- A tree is one of several, or a part of one of them. -/
inductive IsAmong (part : Tree) : List Tree → Prop where
  | head (rest : List Tree) : IsAmong part (part :: rest)
  | inside {kind : PlainKind} {inner : List Tree} (h : IsAmong part inner) (rest : List Tree) :
      IsAmong part (nest kind inner :: rest)
  | tail (first : Tree) {rest : List Tree} (h : IsAmong part rest) : IsAmong part (first :: rest)

mutual

def write (outline : Outline) : Tree → Outline
  | leaf kind payload => outline.append (.leaf kind payload)
  | nest kind trees => (writeAll (outline.openNest kind) trees).closeNest

def writeAll (outline : Outline) : List Tree → Outline
  | [] => outline
  | first :: rest => writeAll (write outline first) rest

end

/-- A message whose fields are a fixed part and trees, as its maker writes them. -/
def draft (type flags : UInt16) (head : Bytes) (trees : List Tree) : Draft :=
  Draft.new type flags (writeAll (Outline.empty.append (.raw head)) trees).fields

mutual

/-- An attribute that a tree is read from: that of a leaf holds its payload, and the payload of a
nest is a run of attributes from which its trees are read. -/
inductive IsReadFrom : Tree → Attribute → Prop where
  | leaf (kind : PlainKind) (payload : Bytes) : IsReadFrom (leaf kind payload) ⟨kind, payload⟩
  | nest (kind : PlainKind) {trees : List Tree} {payload : Bytes} {attrs : List Attribute}
      (hattrs : Attribute.readAll? payload = some attrs) (htrees : AreReadFrom trees attrs) :
      IsReadFrom (nest kind trees) ⟨kind, payload⟩

inductive AreReadFrom : List Tree → List Attribute → Prop where
  | nil : AreReadFrom [] []
  | cons {first : Tree} {rest : List Tree} {attr : Attribute} {attrs : List Attribute}
      (hfirst : IsReadFrom first attr) (hrest : AreReadFrom rest attrs) :
      AreReadFrom (first :: rest) (attr :: attrs)

end

mutual

def field : Tree → Field
  | leaf kind payload => .leaf kind payload
  | nest kind trees => .nest kind (fields trees)

def fields : List Tree → List Field
  | [] => []
  | first :: rest => field first :: fields rest

end

theorem isAttribute_field (tree : Tree) : tree.field.IsAttribute := by
  cases tree <;> exact trivial

theorem isAttribute_of_mem_fields {trees : List Tree} {field : Field} (h : field ∈ fields trees) :
    field.IsAttribute := by
  induction trees with
  | nil => exact absurd h List.not_mem_nil
  | cons first rest ih =>
      rcases List.mem_cons.mp h with rfl | h
      · exact first.isAttribute_field
      · exact ih h

mutual

theorem write_eq (outline : Outline) (tree : Tree) :
    write outline tree = outline.append tree.field := by
  match tree with
  | leaf kind payload => rfl
  | nest kind trees =>
      rw [write, writeAll_eq, field, Outline.closeNest, Outline.openNest]
      simp only [List.append_nil, List.reverse_reverse]
      rfl

theorem writeAll_eq (outline : Outline) (trees : List Tree) :
    writeAll outline trees =
      { outline with recent := (fields trees).reverse ++ outline.recent } := by
  match trees with
  | [] => rfl
  | first :: rest =>
      rw [writeAll, write_eq outline first, writeAll_eq _ rest, Outline.append, fields,
        List.reverse_cons, List.append_assoc]
      rfl

end

theorem fields_draft (type flags : UInt16) (head : Bytes) (trees : List Tree) :
    (draft type flags head trees).fields = .raw head :: fields trees := by
  rw [draft, writeAll_eq, Draft.new, Outline.fields]
  simp [Outline.empty, Outline.append]

theorem dvd_lengthAll (trees : List Tree) : 4 ∣ lengthAll trees := by
  induction trees with
  | nil => exact Nat.dvd_zero 4
  | cons first rest ih =>
      rw [lengthAll]
      exact Nat.dvd_add (Bytes.dvd_align _) ih

mutual

theorem size_field {tree : Tree} (h : tree.field.oversized? = none) :
    tree.field.size = Bytes.align tree.length := by
  match tree with
  | leaf kind payload =>
      rw [field, Field.size, if_pos (Field.excess?_eq_none_iff.mp h), length]
  | nest kind trees =>
      rw [field, Field.oversized?, Option.or_eq_none_iff] at h
      have hwhole : 4 ∣ Attribute.headerSize + lengthAll trees :=
        Nat.dvd_add (Nat.dvd_refl 4) (dvd_lengthAll trees)
      rw [field, Field.size, sizeAll_fields h.1, length, Bytes.align_of_dvd hwhole]

theorem sizeAll_fields {trees : List Tree} (h : Field.oversizedAmong? (fields trees) = none) :
    Field.sizeAll (fields trees) = lengthAll trees := by
  match trees with
  | [] => rfl
  | first :: rest =>
      rw [fields, Field.oversizedAmong?, Option.or_eq_none_iff] at h
      rw [fields, Field.sizeAll, size_field h.1, sizeAll_fields h.2, lengthAll]

end

mutual

theorem length_le {tree : Tree} (h : tree.field.oversized? = none) {part : Tree}
    (hpart : part.IsAmong [tree]) : part.length ≤ Field.maxLength := by
  match tree with
  | leaf kind payload =>
      cases hpart with
      | head => exact Field.excess?_eq_none_iff.mp h
      | tail _ hnone => exact nomatch hnone
  | nest kind trees =>
      rw [field, Field.oversized?, Option.or_eq_none_iff, Field.excess?_eq_none_iff] at h
      cases hpart with
      | head =>
          rw [length, ← sizeAll_fields h.1]
          exact h.2
      | inside hinner => exact length_le_of_isAmong h.1 hinner
      | tail _ hnone => exact nomatch hnone

theorem length_le_of_isAmong {trees : List Tree}
    (h : Field.oversizedAmong? (fields trees) = none) {part : Tree} (hpart : part.IsAmong trees) :
    part.length ≤ Field.maxLength := by
  match trees with
  | [] => exact nomatch hpart
  | first :: rest =>
      rw [fields, Field.oversizedAmong?, Option.or_eq_none_iff] at h
      cases hpart with
      | head => exact length_le h.1 (.head [])
      | inside hinner => exact length_le h.1 (.inside hinner [])
      | tail _ hrest => exact length_le_of_isAmong h.2 hrest

end

mutual

/-- What is refused is refused for a part that is too long, and with the length of its payload: the
parts of that part are not too long, so it is written in full. -/
theorem exists_of_oversized? {tree : Tree} {kind : UInt16} {octets : Nat}
    (h : tree.field.oversized? = some (kind, octets)) :
    ∃ part, IsAmong part [tree] ∧ Field.maxLength < part.length ∧ part.kind = kind ∧
      part.length = Attribute.headerSize + octets := by
  match tree with
  | leaf own payload =>
      rw [field, Field.oversized?, Field.excess?] at h
      split at h
      · exact absurd h (by simp)
      · rename_i hlong
        obtain ⟨rfl, rfl⟩ := Prod.mk.inj (Option.some.inj h)
        exact ⟨_, .head [], Nat.lt_of_not_le hlong, rfl, rfl⟩
  | nest own trees =>
      rw [field, Field.oversized?] at h
      cases hinner : Field.oversizedAmong? (fields trees) with
      | none =>
          rw [hinner, Option.none_or, Field.excess?, sizeAll_fields hinner] at h
          split at h
          · exact absurd h (by simp)
          · rename_i hlong
            obtain ⟨rfl, rfl⟩ := Prod.mk.inj (Option.some.inj h)
            exact ⟨_, .head [], Nat.lt_of_not_le hlong, rfl, rfl⟩
      | some found =>
          rw [hinner, Option.some_or] at h
          obtain ⟨part, hpart, hlong⟩ := exists_of_oversizedAmong? (hinner.trans h)
          exact ⟨part, .inside hpart [], hlong⟩

theorem exists_of_oversizedAmong? {trees : List Tree} {kind : UInt16} {octets : Nat}
    (h : Field.oversizedAmong? (fields trees) = some (kind, octets)) :
    ∃ part, IsAmong part trees ∧ Field.maxLength < part.length ∧ part.kind = kind ∧
      part.length = Attribute.headerSize + octets := by
  match trees with
  | [] => exact absurd h (by simp [fields, Field.oversizedAmong?])
  | first :: rest =>
      rw [fields, Field.oversizedAmong?] at h
      cases hfirst : first.field.oversized? with
      | none =>
          rw [hfirst, Option.none_or] at h
          obtain ⟨part, hpart, hlong⟩ := exists_of_oversizedAmong? h
          exact ⟨part, .tail first hpart, hlong⟩
      | some found =>
          rw [hfirst, Option.some_or] at h
          obtain ⟨part, hpart, hlong⟩ := exists_of_oversized? (hfirst.trans h)
          refine ⟨part, ?_, hlong⟩
          cases hpart with
          | head => exact .head rest
          | inside hinner => exact .inside hinner rest
          | tail _ hnone => exact nomatch hnone

end

mutual

theorem isReadFrom_field {tree : Tree} (h : tree.field.oversized? = none) :
    tree.IsReadFrom tree.field.asAttribute := by
  match tree with
  | leaf kind payload =>
      rw [field, Field.asAttribute_leaf kind.unmarked]
      exact .leaf kind payload
  | nest kind trees =>
      rw [field, Field.oversized?, Option.or_eq_none_iff] at h
      rw [field, Field.asAttribute_nest kind.unmarked_nestKind]
      exact .nest kind
        (Attribute.readAll?_encodeAll (fun _ => isAttribute_of_mem_fields) h.1)
        (areReadFrom_fields h.1)

theorem areReadFrom_fields {trees : List Tree}
    (h : Field.oversizedAmong? (fields trees) = none) :
    AreReadFrom trees ((fields trees).map Field.asAttribute) := by
  match trees with
  | [] => exact .nil
  | first :: rest =>
      rw [fields, Field.oversizedAmong?, Option.or_eq_none_iff] at h
      exact .cons (isReadFrom_field h.1) (areReadFrom_fields h.2)

end

variable (type flags : UInt16) (head : Bytes) (trees : List Tree)

theorem check_draft : (draft type flags head trees).check =
    match Field.oversizedAmong? (fields trees) with
    | some (kind, octets) => .error (.invalidArgument (.attributeTooLong kind octets))
    | none => .ok () := by
  rw [Draft.check, fields_draft]
  rfl

theorem drop_draft : (draft type flags head trees).toBytes.drop
    (Header.size + Bytes.align head.length) = Field.encodeAll (fields trees) := by
  rw [Draft.toBytes, Draft.body, fields_draft, Field.encodeAll, Field.encode, ← Bytes.length_pad,
    ← List.append_assoc]
  refine List.drop_left' ?_
  rw [List.length_append, Header.length_toBytes]

/-- A message of a fixed part and trees is accepted just when no part of a tree is too long for an
attribute, and then the trees are read back from what follows the fixed part. A fault tells the type
and the length of a part that is too long. -/
theorem read_draft :
    let message := draft type flags head trees
    (message.check = .ok () ↔ ∀ part, IsAmong part trees → part.length ≤ Field.maxLength) ∧
      (message.check = .ok () → ∃ attrs,
        Attribute.readAll? (message.toBytes.drop (Header.size + Bytes.align head.length)) =
          some attrs ∧ AreReadFrom trees attrs) ∧
      ∀ fault, message.check = .error fault → ∃ part, IsAmong part trees ∧
        Field.maxLength < part.length ∧ fault = .invalidArgument
          (.attributeTooLong part.kind (part.length - Attribute.headerSize)) := by
  intro message
  have hcheck : message.check = _ := check_draft type flags head trees
  rw [hcheck]
  cases hlong : Field.oversizedAmong? (fields trees) with
  | none =>
      refine ⟨⟨fun _ part hpart => length_le_of_isAmong hlong hpart, fun _ => rfl⟩, ?_, ?_⟩
      · intro _
        refine ⟨_, ?_, areReadFrom_fields hlong⟩
        rw [drop_draft]
        exact Attribute.readAll?_encodeAll (fun _ => isAttribute_of_mem_fields) hlong
      · intro fault hfault
        exact absurd hfault (by simp)
  | some found =>
      obtain ⟨kind, octets⟩ := found
      obtain ⟨part, hpart, hexceeds, hkind, hlength⟩ := exists_of_oversizedAmong? hlong
      refine ⟨⟨fun hok => absurd hok (by simp), fun hfits => ?_⟩,
        fun hok => absurd hok (by simp), ?_⟩
      · exact absurd hexceeds (Nat.not_lt_of_le (hfits part hpart))
      · intro fault hfault
        refine ⟨part, hpart, hexceeds, ?_⟩
        rw [hkind, hlength, Nat.add_sub_cancel_left]
        exact (Except.error.inj hfault).symm

theorem read_draft_nested :
    let trees : List Tree :=
      [nest ⟨2, by decide⟩ [leaf ⟨1, by decide⟩ [7, 8, 9], nest ⟨0x3FFF, by decide⟩ []],
        leaf ⟨4, by decide⟩ []]
    let message := draft MessageType.newDiscipline 0 [1, 2, 3] trees
    message.check = .ok () ∧ ∃ attrs,
      Attribute.readAll? (message.toBytes.drop 20) = some attrs ∧ AreReadFrom trees attrs := by
  intro trees message
  have hcheck : message.check = .ok () := rfl
  exact ⟨hcheck, (read_draft MessageType.newDiscipline 0 [1, 2, 3] trees).2.1 hcheck⟩

end Tree

end NetState
