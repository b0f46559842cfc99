import NetState.Proofs.Attribute

namespace NetState.Attribute

def IsOther (used : List UInt16) (attr : Attribute) : Prop :=
  attr.kind ∉ used

instance (used : List UInt16) (attr : Attribute) : Decidable (IsOther used attr) :=
  inferInstanceAs (Decidable (attr.kind ∉ used))

/-- A payload stays as it is, or is changed as attributes of its type may be. -/
def Alike (inside : UInt16 → Bytes → Bytes → Prop) (kind : UInt16)
    (payload changed : Bytes) : Prop :=
  payload = changed ∨ inside kind payload changed

def Fixed : UInt16 → Bytes → Bytes → Prop :=
  fun _ _ _ => False

section

variable (idle : Attribute → Prop) (inside : UInt16 → Bytes → Bytes → Prop)

/-- A run is another one with idle attributes put in between and some payloads changed, up to
somewhere; the rest of both is the same. -/
inductive Extends : Bytes → Bytes → Prop where
  | same (bytes : Bytes) : Extends bytes bytes
  | insert {bytes extended rest : Bytes} {extra : Attribute}
      (hextra : read? extended = some (extra, rest)) (hidle : idle extra)
      (hrest : Extends bytes rest) : Extends bytes extended
  | follow {bytes extended rest more : Bytes} {kind : UInt16} {payload changed : Bytes}
      (hread : read? bytes = some (⟨kind, payload⟩, rest))
      (hextended : read? extended = some (⟨kind, changed⟩, more))
      (halike : Alike inside kind payload changed) (hrest : Extends rest more) :
      Extends bytes extended

/-- The same of the attributes of a run. -/
inductive Interspersed : List Attribute → List Attribute → Prop where
  | nil : Interspersed [] []
  | insert {attrs more : List Attribute} {extra : Attribute} (hidle : idle extra)
      (hrest : Interspersed attrs more) : Interspersed attrs (extra :: more)
  | follow {attrs more : List Attribute} {kind : UInt16} {payload changed : Bytes}
      (halike : Alike inside kind payload changed) (hrest : Interspersed attrs more) :
      Interspersed (⟨kind, payload⟩ :: attrs) (⟨kind, changed⟩ :: more)

end

variable {idle : Attribute → Prop} {inside : UInt16 → Bytes → Bytes → Prop}

theorem read?_append {front rest : Bytes} {first : Attribute}
    (h : read? front = some (first, rest)) (haligned : 4 ∣ front.length) (tail : Bytes) :
    read? (front ++ tail) = some (first, rest ++ tail) ∧ 4 ∣ rest.length := by
  rw [read?] at h
  obtain ⟨⟨head, after⟩, hhead, hbody⟩ := Option.bind_eq_some_iff.mp h
  obtain ⟨hsize, rfl⟩ := Bytes.split?_eq_some_iff.mp hhead
  simp only at hbody
  split at hbody
  · exact absurd hbody (by simp)
  · rename_i hlong
    obtain ⟨⟨payload, filled⟩, hpayload, hpair⟩ := Option.map_eq_some_iff.mp hbody
    obtain ⟨hlength, rfl⟩ := Bytes.split?_eq_some_iff.mp hpayload
    obtain ⟨rfl, rfl⟩ := Prod.mk.inj hpair
    have hcounted : headerSize ≤ (Bytes.u16At head 0).toNat := Nat.le_of_not_lt hlong
    rw [List.length_append, List.length_append, hsize, hlength] at haligned
    have hfill : Bytes.align (Bytes.u16At head 0).toNat - (Bytes.u16At head 0).toNat ≤
        filled.length := by
      simp only [Bytes.align, headerSize] at *
      omega
    refine ⟨?_, ?_⟩
    · rw [List.append_assoc, List.append_assoc, read?,
        Bytes.split?_eq_some_iff.mpr ⟨hsize, rfl⟩, Option.bind_some]
      simp only
      rw [if_neg hlong, Bytes.split?_eq_some_iff.mpr ⟨hlength, rfl⟩, Option.map_some,
        List.drop_append_of_le_length hfill]
    · rw [List.length_drop]
      simp only [Bytes.align, headerSize] at *
      omega

namespace Extends

theorem prepend {front bytes extended : Bytes} {attrs : List Attribute}
    (hfront : readAll? front = some attrs) (haligned : 4 ∣ front.length)
    (h : Extends idle inside bytes extended) :
    Extends idle inside (front ++ bytes) (front ++ extended) := by
  induction front using readAll?.induct generalizing attrs with
  | case1 front hfour hnone =>
      rw [readAll?_of_read?_eq_none hfour hnone] at hfront
      exact absurd hfront (by simp)
  | case2 front hfour first rest hread ih =>
      rw [readAll?_of_read? hread] at hfront
      obtain ⟨others, hothers, -⟩ := Option.map_eq_some_iff.mp hfront
      have hbytes := read?_append hread haligned bytes
      have hextended := read?_append hread haligned extended
      exact follow hbytes.1 hextended.1 (Or.inl rfl) (ih hothers hbytes.2)
  | case3 front hfour =>
      rw [Bytes.atLeast_iff] at hfour
      have hempty : front = [] := by
        refine List.eq_nil_of_length_eq_zero ?_
        simp only [headerSize] at hfour
        omega
      rw [hempty]
      exact h

theorem insert_leaf {front : Bytes} {attrs : List Attribute} (hfront : readAll? front = some attrs)
    (haligned : 4 ∣ front.length) {field : UInt16} {payload : Bytes}
    (hsize : Field.oversized? (.leaf field payload) = none)
    (hidle : idle ⟨unmarked field, payload⟩) (rest : Bytes) :
    Extends idle inside (front ++ rest) (front ++ (Field.encode (.leaf field payload) ++ rest)) :=
  prepend hfront haligned (insert (read?_marked hsize rest) hidle (same rest))

theorem change_leaf {front : Bytes} {attrs : List Attribute} (hfront : readAll? front = some attrs)
    (haligned : 4 ∣ front.length) {field : UInt16} {payload changed : Bytes}
    (hsize : Field.oversized? (.leaf field payload) = none)
    (hfits : Field.oversized? (.leaf field changed) = none)
    (hinside : inside (unmarked field) payload changed) (rest : Bytes) :
    Extends idle inside (front ++ (Field.encode (.leaf field payload) ++ rest))
      (front ++ (Field.encode (.leaf field changed) ++ rest)) :=
  prepend hfront haligned (follow (read?_marked hsize rest) (read?_marked hfits rest)
    (Or.inr hinside) (same rest))

end Extends

theorem Interspersed.refl (attrs : List Attribute) : Interspersed idle inside attrs attrs := by
  induction attrs with
  | nil => exact nil
  | cons first rest ih => exact follow (Or.inl rfl) ih

theorem Extends.interspersed_scan {bytes extended : Bytes}
    (h : Extends idle inside bytes extended) :
    Interspersed idle inside (scan bytes) (scan extended) := by
  induction h with
  | same bytes => exact .refl _
  | insert hextra hidle _ ih =>
      rw [scan_of_read? hextra]
      exact .insert hidle ih
  | follow hread hextended halike _ ih =>
      rw [scan_of_read? hread, scan_of_read? hextended]
      exact .follow halike ih

theorem Extends.exists_readAll? {bytes extended : Bytes} (h : Extends idle inside bytes extended)
    {attrs : List Attribute} (hread : readAll? bytes = some attrs) :
    ∃ more, readAll? extended = some more ∧ Interspersed idle inside attrs more := by
  induction h generalizing attrs with
  | same bytes => exact ⟨attrs, hread, .refl attrs⟩
  | insert hextra hidle _ ih =>
      obtain ⟨more, hmore, hinterspersed⟩ := ih hread
      refine ⟨_ :: more, ?_, .insert hidle hinterspersed⟩
      rw [readAll?_of_read? hextra, hmore, Option.map_some]
  | follow hfirst hextended halike _ ih =>
      rw [readAll?_of_read? hfirst] at hread
      obtain ⟨others, hothers, rfl⟩ := Option.map_eq_some_iff.mp hread
      obtain ⟨more, hmore, hinterspersed⟩ := ih hothers
      refine ⟨_ :: more, ?_, .follow halike hinterspersed⟩
      rw [readAll?_of_read? hextended, hmore, Option.map_some]

namespace Interspersed

variable {attrs more : List Attribute}

theorem narrow (h : Interspersed idle inside attrs more) (narrower : Attribute → Prop)
    (hnarrower : ∀ attr ∈ more, idle attr → narrower attr) :
    Interspersed narrower inside attrs more := by
  induction h with
  | nil => exact nil
  | insert hidle _ ih =>
      exact insert (hnarrower _ List.mem_cons_self hidle)
        (ih fun attr hmem => hnarrower attr (List.mem_cons_of_mem _ hmem))
  | follow halike _ ih =>
      exact follow halike (ih fun attr hmem => hnarrower attr (List.mem_cons_of_mem _ hmem))

section

variable {σ : Type} {read : σ → Attribute → Option σ}

/-- A reader that can go on with every idle attribute, and with every changed payload where it can
with the one it was, comes to a state that matches the one it would have come to. -/
theorem foldlM (h : Interspersed idle inside attrs more) (matched : σ → σ → Prop)
    (hpass : ∀ {seen other extra}, idle extra → matched seen other →
      ∃ next, read other extra = some next ∧ matched seen next)
    (hstep : ∀ {seen other after kind payload changed}, Alike inside kind payload changed →
      matched seen other → read seen ⟨kind, payload⟩ = some after →
      ∃ next, read other ⟨kind, changed⟩ = some next ∧ matched after next)
    {start other final : σ} (hstart : matched start other)
    (hread : attrs.foldlM read start = some final) :
    ∃ last, more.foldlM read other = some last ∧ matched final last := by
  induction h generalizing start other with
  | nil =>
      rw [List.foldlM_nil] at hread
      exact ⟨other, rfl, Option.some.inj hread ▸ hstart⟩
  | insert hidle _ ih =>
      obtain ⟨next, hnext, hmatched⟩ := hpass hidle hstart
      obtain ⟨last, hlast, hfinal⟩ := ih hmatched hread
      exact ⟨last, foldlM_cons_some hnext hlast, hfinal⟩
  | follow halike _ ih =>
      rw [List.foldlM_cons] at hread
      obtain ⟨after, hafter, hrest⟩ := Option.bind_eq_some_iff.mp hread
      obtain ⟨next, hnext, hmatched⟩ := hstep halike hstart hafter
      obtain ⟨last, hlast, hfinal⟩ := ih hmatched hrest
      exact ⟨last, foldlM_cons_some hnext hlast, hfinal⟩

theorem foldlM_eq (h : Interspersed idle inside attrs more)
    (hpass : ∀ seen extra, idle extra → read seen extra = some seen)
    (hstep : ∀ {seen after kind payload changed}, inside kind payload changed →
      read seen ⟨kind, payload⟩ = some after → read seen ⟨kind, changed⟩ = some after)
    {start final : σ} (hread : attrs.foldlM read start = some final) :
    more.foldlM read start = some final := by
  obtain ⟨last, hlast, rfl⟩ := h.foldlM Eq
    (fun {seen other extra} hidle hsame => ⟨other, hpass other extra hidle, hsame⟩)
    (fun {seen other after kind payload changed} halike hsame hafter => by
      subst hsame
      rcases halike with rfl | hinside
      · exact ⟨after, hafter, rfl⟩
      · exact ⟨after, hstep hinside hafter, rfl⟩) rfl hread
  exact hlast

end

theorem find? (h : Interspersed idle inside attrs more) {kind : UInt16}
    (hkind : ∀ extra, idle extra → extra.kind ≠ kind) :
    Option.Rel (Alike inside kind) ((attrs.find? (·.kind == kind)).map (·.payload))
      ((more.find? (·.kind == kind)).map (·.payload)) := by
  induction h with
  | nil => exact .none
  | insert hidle _ ih =>
      rw [List.find?_cons_of_neg (by simpa using hkind _ hidle)]
      exact ih
  | @follow attrs more other payload changed halike _ ih =>
      by_cases hsame : other = kind
      · subst hsame
        rw [List.find?_cons_of_pos (by simp), List.find?_cons_of_pos (by simp)]
        exact .some halike
      · rw [List.find?_cons_of_neg (by simpa using hsame),
          List.find?_cons_of_neg (by simpa using hsame)]
        exact ih

end Interspersed

theorem Extends.exists_foldlM {σ : Type} {read : σ → Attribute → Option σ} {bytes extended : Bytes}
    (h : Extends idle inside bytes extended)
    (hpass : ∀ seen extra, idle extra → read seen extra = some seen)
    (hstep : ∀ {seen after kind payload changed}, inside kind payload changed →
      read seen ⟨kind, payload⟩ = some after → read seen ⟨kind, changed⟩ = some after)
    {attrs : List Attribute} (hattrs : readAll? bytes = some attrs) {start final : σ}
    (hread : attrs.foldlM read start = some final) :
    ∃ more, readAll? extended = some more ∧ more.foldlM read start = some final := by
  obtain ⟨more, hmore, hinterspersed⟩ := h.exists_readAll? hattrs
  exact ⟨more, hmore, hinterspersed.foldlM_eq hpass hstep hread⟩

/-- A reader that learns something from attributes of one type, and keeps the payload of the last
one of another. -/
def readPair {α : Type} (toldBy keptFrom : UInt16) (tell : α → Bytes → Option α)
    (seen : α × Option Bytes) (attr : Attribute) : Option (α × Option Bytes) :=
  if attr.kind = toldBy then (tell seen.1 attr.payload).map fun told => (told, seen.2)
  else if attr.kind = keptFrom then some (seen.1, some attr.payload)
  else some seen

theorem Interspersed.foldlM_readPair {α : Type} {toldBy keptFrom : UInt16}
    {tell : α → Bytes → Option α} {changes : Bytes → Bytes → Prop} {attrs more : List Attribute}
    (h : Interspersed (IsOther [toldBy, keptFrom])
      (fun kind payload changed => kind = keptFrom ∧ changes payload changed) attrs more)
    (hne : toldBy ≠ keptFrom) {start told : α} {payload : Option Bytes}
    (hread : attrs.foldlM (readPair toldBy keptFrom tell) (start, none) = some (told, payload)) :
    ∃ changed, more.foldlM (readPair toldBy keptFrom tell) (start, none) = some (told, changed) ∧
      Option.Rel (fun before after => before = after ∨ changes before after) payload changed := by
  let matched (seen other : α × Option Bytes) : Prop := seen.1 = other.1 ∧
    Option.Rel (fun before after => before = after ∨ changes before after) seen.2 other.2
  have hpass {seen other : α × Option Bytes} {extra : Attribute}
      (hother : IsOther [toldBy, keptFrom] extra) (hmatched : matched seen other) :
      ∃ next, readPair toldBy keptFrom tell other extra = some next ∧ matched seen next := by
    simp only [IsOther, List.mem_cons, not_or] at hother
    rw [readPair, if_neg hother.1, if_neg hother.2.1]
    exact ⟨other, rfl, hmatched⟩
  have hstep {seen other after : α × Option Bytes} {kind : UInt16} {payload changed : Bytes}
      (halike : Alike (fun kind payload changed => kind = keptFrom ∧ changes payload changed) kind
        payload changed) (hmatched : matched seen other)
      (hafter : readPair toldBy keptFrom tell seen ⟨kind, payload⟩ = some after) :
      ∃ next, readPair toldBy keptFrom tell other ⟨kind, changed⟩ = some next ∧
        matched after next := by
    rw [readPair] at hafter ⊢
    simp only at hafter ⊢
    split at hafter
    · rename_i hkind
      have hsame : payload = changed := halike.resolve_right fun hkept => hne (hkind ▸ hkept.1)
      obtain ⟨found, hfound, rfl⟩ := Option.map_eq_some_iff.mp hafter
      rw [if_pos hkind, ← hsame, ← hmatched.1, hfound]
      exact ⟨_, rfl, rfl, hmatched.2⟩
    · rename_i hkind
      rw [if_neg hkind]
      split at hafter
      · rename_i hkept
        rw [if_pos hkept, ← Option.some.inj hafter]
        exact ⟨_, rfl, hmatched.1, .some (halike.imp_right And.right)⟩
      · rename_i hkept
        rw [if_neg hkept, ← Option.some.inj hafter]
        exact ⟨other, rfl, hmatched⟩
  obtain ⟨⟨told', changed⟩, hlast, hsame, hrel⟩ := h.foldlM matched hpass hstep
    (show matched (start, none) (start, none) from ⟨rfl, .none⟩) hread
  obtain rfl : told = told' := hsame
  exact ⟨changed, hlast, hrel⟩

theorem Extends.find? {used : List UInt16} {bytes extended : Bytes}
    (h : Extends (IsOther used) inside bytes extended) {kind : UInt16} (hkind : kind ∈ used) :
    Option.Rel (Alike inside kind) (Attribute.find? kind bytes)
      (Attribute.find? kind extended) := by
  refine h.interspersed_scan.find? ?_
  rintro extra hother rfl
  exact hother hkind

theorem Extends.find?_eq {used : List UInt16} {bytes extended : Bytes}
    (h : Extends (IsOther used) inside bytes extended) {kind : UInt16} (hkind : kind ∈ used)
    (hfixed : ∀ payload changed, ¬ inside kind payload changed) :
    Attribute.find? kind extended = Attribute.find? kind bytes := by
  generalize hbefore : Attribute.find? kind bytes = before
  generalize hafter : Attribute.find? kind extended = after
  have hrel := h.find? hkind
  rw [hbefore, hafter] at hrel
  cases hrel with
  | none => rfl
  | some halike =>
      rcases halike with rfl | hinside
      · rfl
      · exact absurd hinside (hfixed _ _)

end NetState.Attribute
