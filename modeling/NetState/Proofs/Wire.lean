import NetState.Proofs.Result
import NetState.Wire.Draft
import NetState.Wire.Message
import NetState.Wire.Value

namespace NetState

namespace Bytes

theorem toUInt16_ofUInt16 (value : UInt16) :
    UInt16.ofNat (ofLittleEndian (ofUInt16 value)) = value := by
  have hlimit : value.toNat < limit 2 := value.toNat_lt
  rw [ofUInt16, ofLittleEndian_littleEndian, Nat.mod_eq_of_lt hlimit, UInt16.ofNat_toNat]

theorem toUInt32_ofUInt32 (value : UInt32) :
    UInt32.ofNat (ofLittleEndian (ofUInt32 value)) = value := by
  have hlimit : value.toNat < limit 4 := value.toNat_lt
  rw [ofUInt32, ofLittleEndian_littleEndian, Nat.mod_eq_of_lt hlimit, UInt32.ofNat_toNat]

theorem u32At_ofUInt32 (value : UInt32) (rest : Bytes) : u32At (ofUInt32 value ++ rest) 0 = value :=
  toUInt32_ofUInt32 value

theorem i32At_ofInt32 (value : Int32) (rest : Bytes) : i32At (ofInt32 value ++ rest) 0 = value := by
  rw [i32At, ofInt32, u32At_ofUInt32]
  rfl

theorem ofBigEndian_bigEndian (width n : Nat) :
    ofBigEndian (bigEndian width n) = n % limit width := by
  rw [ofBigEndian, bigEndian, List.reverse_reverse, ofLittleEndian_littleEndian]

theorem align_of_dvd {length : Nat} (h : 4 ∣ length) : align length = length := by
  rw [align]
  omega

theorem dvd_align (length : Nat) : 4 ∣ align length :=
  ⟨(length + 3) / 4, Nat.mul_comm _ _⟩

theorem pad_of_dvd {bytes : Bytes} (h : 4 ∣ bytes.length) : pad bytes = bytes := by
  rw [pad, align_of_dvd h, Nat.sub_self, List.replicate_zero, List.append_nil]

end Bytes

namespace Value

theorem u32_ofUInt32 (value : UInt32) : u32 (Bytes.ofUInt32 value) = .ok value := by
  have hfront : Bytes.split? 4 (Bytes.ofUInt32 value) = some (Bytes.ofUInt32 value, []) := rfl
  rw [u32, front, hfront]
  exact congrArg Except.ok (Bytes.u32At_ofUInt32 value [])

theorem ip_toBytes (address : Ip) : ip address.family address.toBytes = .ok address := by
  cases address with
  | v4 bits =>
      have hfront : Bytes.split? 4 (Ip.v4 bits).toBytes = some ((Ip.v4 bits).toBytes, []) := rfl
      have hbits : Bytes.ofBigEndian (Ip.v4 bits).toBytes = bits.toNat := by
        rw [Ip.toBytes, Bytes.ofBigEndian_bigEndian]
        exact Nat.mod_eq_of_lt bits.isLt
      rw [ip, Ip.family, if_pos rfl, front, hfront]
      simp only [Except.map, hbits, BitVec.ofNat_toNat, BitVec.setWidth_eq]
  | v6 bits =>
      have hfront : Bytes.split? 16 (Ip.v6 bits).toBytes = some ((Ip.v6 bits).toBytes, []) := rfl
      have hbits : Bytes.ofBigEndian (Ip.v6 bits).toBytes = bits.toNat := by
        rw [Ip.toBytes, Bytes.ofBigEndian_bigEndian]
        exact Nat.mod_eq_of_lt bits.isLt
      rw [ip, Ip.family, if_neg (by decide), if_pos rfl, front, hfront]
      simp only [Except.map, hbits, BitVec.ofNat_toNat, BitVec.setWidth_eq]

end Value

namespace Field

theorem oversizedAmong?_append (before after : List Field) :
    oversizedAmong? (before ++ after) = (oversizedAmong? before).or (oversizedAmong? after) := by
  induction before with
  | nil => rfl
  | cons first rest ih =>
    rw [List.cons_append, oversizedAmong?, oversizedAmong?, ih, Option.or_assoc]

theorem oversizedAmong?_eq_none_iff {fields : List Field} :
    oversizedAmong? fields = none ↔ ∀ field ∈ fields, oversized? field = none := by
  induction fields with
  | nil => simp [oversizedAmong?]
  | cons first rest ih => simp [oversizedAmong?, ih]

theorem oversizedAmong?_of_subset {fewer fields : List Field} (hsub : fewer ⊆ fields)
    (h : oversizedAmong? fields = none) : oversizedAmong? fewer = none := by
  rw [oversizedAmong?_eq_none_iff] at h ⊢
  exact fun field hfield => h field (hsub hfield)

theorem oversizedAmong?_of_raw {fewer fields : List Field}
    (hsub : ∀ field ∈ fewer, (∃ octets, field = raw octets) ∨ field ∈ fields)
    (h : oversizedAmong? fields = none) : oversizedAmong? fewer = none := by
  rw [oversizedAmong?_eq_none_iff] at h ⊢
  intro field hfield
  rcases hsub field hfield with ⟨octets, rfl⟩ | hmem
  · rfl
  · exact h field hmem

theorem excess?_eq_none_iff {kind : UInt16} {payload : Nat} :
    excess? kind payload = none ↔ Attribute.headerSize + payload ≤ maxLength := by
  rw [excess?]
  split <;> simp_all

mutual

theorem dvd_size (field : Field) : 4 ∣ size field := by
  match field with
  | raw octets => exact Bytes.dvd_align octets.length
  | leaf kind payload =>
      rw [size]
      split
      · exact Bytes.dvd_align _
      · exact Nat.dvd_zero 4
  | nest kind fields =>
      rw [size]
      exact Nat.dvd_add (Nat.dvd_refl 4) (dvd_sizeAll fields)

theorem dvd_sizeAll (fields : List Field) : 4 ∣ sizeAll fields := by
  match fields with
  | [] => exact Nat.dvd_zero 4
  | field :: rest =>
      rw [sizeAll]
      exact Nat.dvd_add (dvd_size field) (dvd_sizeAll rest)

end

theorem dvd_length_encodeAll (fields : List Field) : 4 ∣ (encodeAll fields).length := by
  rw [length_encodeAll]
  exact dvd_sizeAll fields

/-- At most so many fields, of which those outside attributes are no longer than attributes are. -/
def AtMost (count : Nat) (fields : List Field) : Prop :=
  fields.length ≤ count ∧ ∀ octets, raw octets ∈ fields → octets.length ≤ maxLength

theorem atMost_append {first second : Nat} {before after : List Field}
    (hbefore : AtMost first before) (hafter : AtMost second after) :
    AtMost (first + second) (before ++ after) := by
  refine ⟨?_, ?_⟩
  · rw [List.length_append]
    exact Nat.add_le_add hbefore.1 hafter.1
  · intro octets hmem
    rcases List.mem_append.mp hmem with hmem | hmem
    · exact hbefore.2 octets hmem
    · exact hafter.2 octets hmem

theorem atMost_cons_raw {count size : Nat} (octets : Bytes) {fields : List Field}
    (hsize : octets.length = size) (hmax : size ≤ maxLength) (h : AtMost count fields) :
    AtMost (count + 1) (raw octets :: fields) := by
  refine ⟨Nat.succ_le_succ h.1, ?_⟩
  intro other hmem
  rcases List.mem_cons.mp hmem with heq | hmem
  · rw [Field.raw.inj heq, hsize]
    exact hmax
  · exact h.2 other hmem

theorem AtMost.mono {few many : Nat} {fields : List Field} (h : AtMost few fields)
    (hle : few ≤ many) : AtMost many fields :=
  ⟨Nat.le_trans h.1 hle, h.2⟩

theorem atMost_ofAttribute {count : Nat} {attrs : List Attribute} (h : attrs.length ≤ count) :
    AtMost count (attrs.map fun attr => leaf attr.kind attr.payload) := by
  refine ⟨by rwa [List.length_map], ?_⟩
  intro octets hmem
  obtain ⟨attr, -, hattr⟩ := List.mem_map.mp hmem
  exact absurd hattr (by simp)

/-- A field that can be read back is not much longer than the longest attribute. -/
theorem size_le {field : Field} (hraw : ∀ octets, field = raw octets → octets.length ≤ maxLength)
    (h : oversized? field = none) : size field ≤ maxLength + 1 := by
  have halign (length : Nat) (hlength : length ≤ maxLength) :
      Bytes.align length ≤ maxLength + 1 := by
    simp only [Bytes.align, maxLength] at hlength ⊢
    omega
  cases field with
  | raw octets => exact halign _ (hraw octets rfl)
  | leaf kind payload =>
      have hlength := excess?_eq_none_iff.mp h
      rw [size, if_pos hlength]
      exact halign _ hlength
  | nest kind fields =>
      rw [oversized?, Option.or_eq_none_iff] at h
      exact Nat.le_succ_of_le (excess?_eq_none_iff.mp h.2)

theorem sizeAll_le {count : Nat} {fields : List Field} (hcount : AtMost count fields)
    (h : oversizedAmong? fields = none) : sizeAll fields ≤ count * (maxLength + 1) := by
  refine Nat.le_trans ?_ (Nat.mul_le_mul_right _ hcount.1)
  have hraw := hcount.2
  clear hcount
  induction fields with
  | nil => exact Nat.zero_le _
  | cons first rest ih =>
      rw [oversizedAmong?, Option.or_eq_none_iff] at h
      have hfirst := size_le
        (fun octets heq => hraw octets (heq ▸ List.mem_cons_self)) h.1
      have hrest := ih h.2 fun octets hmem => hraw octets (List.mem_cons_of_mem first hmem)
      rw [sizeAll, List.length_cons, Nat.succ_mul]
      omega

end Field

namespace Attribute

theorem readAll?_nil : readAll? [] = some [] := by
  rw [readAll?]
  rfl

theorem readAll?_of_read? {bytes rest : Bytes} {first : Attribute}
    (h : read? bytes = some (first, rest)) :
    readAll? bytes = (readAll? rest).map (first :: ·) := by
  have hfour : bytes.atLeast headerSize = true := by
    obtain ⟨⟨head, after⟩, hhead, -⟩ := Option.bind_eq_some_iff.mp h
    obtain ⟨hsize, rfl⟩ := Bytes.split?_eq_some_iff.mp hhead
    rw [Bytes.atLeast_iff, List.length_append, hsize]
    exact Nat.le_add_right _ _
  rw [readAll?, if_pos hfour]
  split
  · rename_i hnone
    exact absurd (hnone.symm.trans h) (by simp)
  · rename_i other left hsome
    obtain ⟨rfl, rfl⟩ := Prod.mk.inj (Option.some.inj (hsome.symm.trans h))
    rfl

theorem readAll?_of_read?_eq_none {bytes : Bytes} (hfour : bytes.atLeast headerSize = true)
    (h : read? bytes = none) : readAll? bytes = none := by
  rw [readAll?, if_pos hfour]
  split
  · rfl
  · rename_i hsome
    exact absurd (h.symm.trans hsome) (by simp)

theorem read?_marked {kind : UInt16} {payload : Bytes}
    (h : Field.oversized? (.leaf kind payload) = none) (rest : Bytes) :
    read? (Field.encode (.leaf kind payload) ++ rest) = some (⟨unmarked kind, payload⟩, rest) := by
  have hlength : headerSize + payload.length ≤ Field.maxLength := Field.excess?_eq_none_iff.mp h
  have hencode : Field.encode (.leaf kind payload) ++ rest =
      Field.head (headerSize + payload.length) kind ++ (payload ++
        (List.replicate (Bytes.align payload.length - payload.length) 0 ++ rest)) := by
    rw [Field.encode, Field.encodeLeaf, if_pos hlength, Bytes.pad]
    simp only [List.append_assoc]
  have hword : (Bytes.u16At (Field.head (headerSize + payload.length) kind) 0).toNat =
      headerSize + payload.length := by
    have hlimit : headerSize + payload.length < Bytes.limit 2 := Nat.lt_succ_of_le hlength
    show (UInt16.ofNat (Bytes.ofLittleEndian
      (Bytes.littleEndian 2 (headerSize + payload.length)))).toNat = _
    rw [Bytes.ofLittleEndian_littleEndian, Nat.mod_eq_of_lt hlimit, UInt16.toNat_ofNat']
    exact Nat.mod_eq_of_lt hlimit
  have hkind : Bytes.u16At (Field.head (headerSize + payload.length) kind) 2 = kind :=
    Bytes.toUInt16_ofUInt16 kind
  have hpadding : Bytes.align (headerSize + payload.length) - (headerSize + payload.length) =
      Bytes.align payload.length - payload.length := by
    simp only [Bytes.align, headerSize]
    omega
  have hhead : Bytes.split? headerSize (Field.encode (.leaf kind payload) ++ rest) =
      some (Field.head (headerSize + payload.length) kind, payload ++
        (List.replicate (Bytes.align payload.length - payload.length) 0 ++ rest)) := by
    rw [hencode, Bytes.split?_eq_some_iff]
    exact ⟨Field.length_head _ _, rfl⟩
  rw [read?, hhead, Option.bind_some]
  simp only [hword, hkind]
  rw [if_neg (by omega), Nat.add_sub_cancel_left, Bytes.split?_append, Option.map_some, hpadding,
    List.drop_left' List.length_replicate]

/-- A leaf is read back without its marks, and then what follows it. -/
theorem readAll?_marked {kind : UInt16} {payload : Bytes}
    (h : Field.oversized? (.leaf kind payload) = none) (rest : Bytes) :
    readAll? (Field.encode (.leaf kind payload) ++ rest) =
      (readAll? rest).map (⟨unmarked kind, payload⟩ :: ·) :=
  readAll?_of_read? (read?_marked h rest)

theorem readAll?_leaf {kind : UInt16} (hunmarked : unmarked kind = kind) {payload : Bytes}
    (h : Field.oversized? (.leaf kind payload) = none) (rest : Bytes) :
    readAll? (Field.encode (.leaf kind payload) ++ rest) =
      (readAll? rest).map (⟨kind, payload⟩ :: ·) := by
  rw [readAll?_marked h, hunmarked]

end Attribute

theorem Field.encode_nest {kind : UInt16} {fields : List Field}
    (h : oversized? (.nest kind fields) = none) :
    oversized? (.leaf (nestKind kind) (encodeAll fields)) = none ∧
      encode (.nest kind fields) = encode (.leaf (nestKind kind) (encodeAll fields)) := by
  rw [oversized?, Option.or_eq_none_iff] at h
  have hlength := excess?_eq_none_iff.mp h.2
  rw [← length_encodeAll] at hlength
  refine ⟨excess?_eq_none_iff.mpr hlength, ?_⟩
  rw [encode, encode, encodeLeaf, nestHead, if_pos hlength, if_pos hlength,
    Bytes.pad_of_dvd (dvd_length_encodeAll fields)]

theorem Attribute.foldlM_keeps {σ β : Type} {read : σ → Attribute → Option σ} {part : σ → β}
    {attrs : List Attribute}
    (h : ∀ attr ∈ attrs, ∀ {seen after}, read seen attr = some after → part after = part seen)
    {start final : σ} (hread : attrs.foldlM read start = some final) : part final = part start := by
  induction attrs generalizing start with
  | nil =>
      rw [List.foldlM_nil] at hread
      rw [Option.some.inj hread]
  | cons first rest ih =>
      rw [List.foldlM_cons] at hread
      obtain ⟨between, hfirst, hrest⟩ := Option.bind_eq_some_iff.mp hread
      rw [ih (fun attr hattr => h attr (List.mem_cons_of_mem first hattr)) hrest,
        h first List.mem_cons_self hfirst]

theorem Field.split?_encodeAll (octets : Bytes) (h : 4 ∣ octets.length) (fields : List Field) :
    Bytes.split? octets.length (encodeAll (.raw octets :: fields)) =
      some (octets, encodeAll fields) := by
  rw [encodeAll, encode, Bytes.pad_of_dvd h, Bytes.split?_append]

theorem Field.encodeAll_raw {octets : Bytes} (h : 4 ∣ octets.length) :
    encodeAll [.raw octets] = octets := by
  rw [encodeAll, encodeAll, encode, Bytes.pad_of_dvd h, List.append_nil]

theorem Value.exists_string_of_map {α : Type} {payload : Bytes} {make : String → α} {made : α}
    (h : (Value.string payload).toOption.map make = some made) :
    ∃ text, Value.string payload = .ok text := by
  obtain ⟨text, htext, -⟩ := Option.map_eq_some_iff.mp h
  cases hstring : Value.string payload with
  | ok read => exact ⟨read, rfl⟩
  | error fault =>
      rw [hstring] at htext
      exact absurd htext (by simp [Except.toOption])

def Field.ofAttribute (attr : Attribute) : Field :=
  .leaf attr.kind attr.payload

theorem Attribute.readAll?_ofAttribute {attrs : List Attribute}
    (hunmarked : ∀ attr ∈ attrs, unmarked attr.kind = attr.kind)
    (hsize : Field.oversizedAmong? (attrs.map Field.ofAttribute) = none) :
    readAll? (Field.encodeAll (attrs.map Field.ofAttribute)) = some attrs := by
  induction attrs with
  | nil => exact readAll?_nil
  | cons first rest ih =>
      rw [List.map_cons, Field.oversizedAmong?, Option.or_eq_none_iff] at hsize
      rw [List.map_cons, Field.encodeAll, Field.ofAttribute,
        readAll?_leaf (hunmarked first List.mem_cons_self) hsize.1,
        ih (fun attr hattr => hunmarked attr (List.mem_cons_of_mem first hattr)) hsize.2]
      rfl

theorem Header.length_toBytes (header : Header) : header.toBytes.length = size :=
  rfl

theorem Header.read_toBytes (header : Header) (rest : Bytes) :
    read (header.toBytes ++ rest) = header := by
  have hlength : (header.toBytes ++ rest).u32At 0 = header.length :=
    Bytes.toUInt32_ofUInt32 header.length
  have hkind : (header.toBytes ++ rest).u16At 4 = header.kind :=
    Bytes.toUInt16_ofUInt16 header.kind
  have hflags : (header.toBytes ++ rest).u16At 6 = header.flags :=
    Bytes.toUInt16_ofUInt16 header.flags
  have hseq : (header.toBytes ++ rest).u32At 8 = header.seq :=
    Bytes.toUInt32_ofUInt32 header.seq
  have hpid : (header.toBytes ++ rest).u32At 12 = header.pid :=
    Bytes.toUInt32_ofUInt32 header.pid
  rw [read, hlength, hkind, hflags, hseq, hpid]

/-- The longest body that a header can tell the length of. -/
def Draft.IsMeasured (draft : Draft) : Prop :=
  Header.size + draft.body.length < UInt32.size

theorem Draft.isMeasured_of_atMost {draft : Draft} (hcount : Field.AtMost 16 draft.fields)
    (hsize : Field.oversizedAmong? draft.fields = none) : draft.IsMeasured := by
  have hbound := Field.sizeAll_le hcount hsize
  rw [Draft.IsMeasured, Draft.body, Field.length_encodeAll]
  simp only [Field.maxLength] at hbound
  simp only [Header.size, UInt32.size]
  omega

theorem Message.scan_toBytes {draft : Draft} (h : draft.IsMeasured) (rest : Bytes) :
    scan (draft.toBytes ++ rest) = .ok ⟨draft.header, draft.body⟩ :: scan rest := by
  have hlength : draft.header.length.toNat = Header.size + draft.body.length := by
    rw [Draft.header, UInt32.toNat_ofNat']
    exact Nat.mod_eq_of_lt h
  have hwhole : draft.toBytes.length = draft.header.length.toNat := by
    rw [hlength, Draft.toBytes, List.length_append]
    rfl
  have hread : Header.read (draft.toBytes ++ rest) = draft.header := by
    rw [Draft.toBytes, List.append_assoc, Header.read_toBytes]
  have halign : Bytes.align draft.toBytes.length = draft.toBytes.length := by
    refine Bytes.align_of_dvd ?_
    rw [hwhole, hlength]
    exact Nat.dvd_add ⟨4, rfl⟩ (Field.dvd_length_encodeAll draft.fields)
  have hsize : Header.size ≤ draft.toBytes.length := by
    rw [hwhole, hlength]
    exact Nat.le_add_right _ _
  have hmany (count : Nat) (hcount : count ≤ draft.toBytes.length) :
      (draft.toBytes ++ rest).atLeast count := by
    rw [Bytes.atLeast_iff, List.length_append]
    exact Nat.le_add_right_of_le hcount
  rw [scan, dif_pos (hmany _ hsize)]
  simp only [hread]
  rw [dif_pos ⟨hwhole ▸ hsize, hmany _ (Nat.le_of_eq hwhole.symm)⟩, ← hwhole, halign,
    List.take_left, List.drop_left]
  rfl

theorem Message.scan_toBytes_self {draft : Draft} (h : draft.IsMeasured) :
    scan draft.toBytes = [.ok ⟨draft.header, draft.body⟩] := by
  have hscan := scan_toBytes h []
  rw [List.append_nil] at hscan
  rw [hscan, scan]
  rfl

end NetState
