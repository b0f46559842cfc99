import NetState.Discipline.Text
import NetState.Proofs.Handle
import NetState.Proofs.Result
import NetState.Proofs.Text.Numeral

namespace NetState

open Text

namespace Handle

theorem part?_hexadecimal (value : UInt16) : part? (hexadecimal value.toNat) = some value := by
  rw [part?, hexadecimal, numeral?_toDigits (by decide) (by decide) value.toNat_lt,
    Option.map_some, UInt16.ofNat_toNat]

def numberChars (handle : Handle) : List Char :=
  hexadecimal handle.major.toNat ++
    ':' :: if handle.minor = 0 then [] else hexadecimal handle.minor.toNat

theorem chars_cases (handle : Handle) :
    handle = root ∧ handle.chars = "root".toList ∨
      handle = ingress ∧ handle.chars = "ingress".toList ∨
      handle = unspecified ∧ handle.chars = "none".toList ∨
      handle.chars = handle.numberChars := by
  by_cases hroot : handle = root
  · rw [hroot]
    exact Or.inl ⟨rfl, rfl⟩
  by_cases hingress : handle = ingress
  · rw [hingress]
    exact Or.inr (Or.inl ⟨rfl, rfl⟩)
  by_cases hunspecified : handle = unspecified
  · rw [hunspecified]
    exact Or.inr (Or.inr (Or.inl ⟨rfl, rfl⟩))
  have hnumber : (if handle.minor = 0 then hexadecimal handle.major.toNat ++ [':']
      else hexadecimal handle.major.toNat ++ [':'] ++ hexadecimal handle.minor.toNat) =
        handle.numberChars := by
    rw [numberChars]
    split
    · rfl
    · rw [List.append_assoc]
      rfl
  right; right; right
  rw [chars, role, if_neg hunspecified, if_neg hroot, if_neg hingress]
  by_cases hmajor : handle.major = ingressMajor
  · rw [if_pos hmajor]
    exact hnumber
  · rw [if_neg hmajor]
    exact hnumber

theorem ofChars?_numberChars (handle : Handle) : ofChars? handle.numberChars = some handle := by
  have hcolon : ':' ∈ handle.numberChars := by simp [numberChars]
  have hnamed (name : List Char) (hname : ':' ∉ name) : handle.numberChars ≠ name := by
    rintro rfl
    exact hname hcolon
  have hmark : ':' ∉ hexadecimal handle.major.toNat := by
    intro hmem
    exact (plain_of_mem_toDigits (by decide) (by decide) hmem).2.2 rfl
  rw [ofChars?, if_neg (hnamed _ (by decide)), if_neg (hnamed _ (by decide)),
    if_neg (hnamed _ (by decide)), if_neg (hnamed _ (by decide)), numberChars,
    splitOnce?_append hmark]
  simp only [Option.getD_some, part?_hexadecimal, Option.bind_some]
  by_cases hminor : handle.minor = 0
  · rw [if_pos hminor, ← hminor, ofParts_major_minor]
    rfl
  · have hsome : ¬(hexadecimal handle.minor.toNat).isEmpty = true := by simp [hexadecimal]
    rw [if_neg hminor, if_neg hsome, part?_hexadecimal, Option.map_some, ofParts_major_minor]

theorem ofChars?_chars (handle : Handle) : ofChars? handle.chars = some handle := by
  rcases handle.chars_cases with ⟨rfl, -⟩ | ⟨rfl, -⟩ | ⟨rfl, -⟩ | hnumber
  · rfl
  · rfl
  · rfl
  · rw [hnumber, ofChars?_numberChars]

theorem ofText_chars (handle : Handle) : ofText (String.ofList handle.chars) = .ok handle := by
  rw [ofText, String.toList_ofList, ofChars?_chars]

theorem isWord_chars (handle : Handle) : IsWord handle.chars := by
  rcases handle.chars_cases with ⟨-, hname⟩ | ⟨-, hname⟩ | ⟨-, hname⟩ | hnumber
  · rw [hname]
    decide
  · rw [hname]
    decide
  · rw [hname]
    decide
  · rw [hnumber]
    constructor
    · simp [numberChars]
    · intro c hc
      rcases List.mem_append.mp hc with hc | hc
      · exact (isWord_hexadecimal _).2 c hc
      · rcases List.mem_cons.mp hc with rfl | hc
        · decide
        · split at hc
          · exact absurd hc List.not_mem_nil
          · exact (isWord_hexadecimal _).2 c hc

end Handle

namespace Discipline

/-- The words that are never a kind. -/
def keywords : List String :=
  ["root", "parent", "handle", "dev"]

/-- A text can tell a discipline: it has no options, it is attached somewhere, and its kind is a
word that has no meaning of its own. -/
structure IsTellable (discipline : Discipline) : Prop where
  options : discipline.options = .none
  parent : discipline.parent ≠ Handle.unspecified
  kind : IsWord discipline.kind.toList
  free : discipline.kind ∉ keywords

def lead (discipline : Discipline) : List (List Char) :=
  (if discipline.interface = 0 then []
    else ["dev".toList, decimal discipline.interface.toNat]) ++
  (if discipline.parent.isRoot then ["root".toList]
    else ["parent".toList, discipline.parent.chars]) ++
  if discipline.handle.isUnspecified then []
    else ["handle".toList, discipline.handle.chars]

theorem chars_eq (discipline : Discipline) :
    discipline.chars = discipline.lead.flatMap (· ++ [' ']) ++ discipline.kind.toList := by
  simp only [chars, lead, List.flatMap_append]
  congr 2
  · congr 1
    · split
      · rfl
      · simp
    · split
      · rfl
      · simp
  · split
    · rfl
    · simp

theorem isWord_of_mem_lead {discipline : Discipline} {word : List Char}
    (h : word ∈ discipline.lead) : IsWord word := by
  rw [lead, List.mem_append, List.mem_append] at h
  rcases h with (h | h) | h
  · split at h
    · exact absurd h List.not_mem_nil
    · simp only [List.mem_cons, List.not_mem_nil, or_false] at h
      rcases h with rfl | rfl
      · decide
      · exact isWord_decimal _
  · split at h
    · rw [List.mem_singleton.mp h]
      decide
    · simp only [List.mem_cons, List.not_mem_nil, or_false] at h
      rcases h with rfl | rfl
      · decide
      · exact discipline.parent.isWord_chars
  · split at h
    · exact absurd h List.not_mem_nil
    · simp only [List.mem_cons, List.not_mem_nil, or_false] at h
      rcases h with rfl | rfl
      · decide
      · exact discipline.handle.isWord_chars

section

variable (whole : String) (told : Discipline) (rest : List (List Char))

theorem readWords_root : readWords whole told ("root".toList :: rest) =
    readWords whole { told with parent := Handle.root } rest := by
  rw [readWords.eq_def]
  exact if_pos rfl

theorem readWords_parent (parent : Handle) :
    readWords whole told ("parent".toList :: parent.chars :: rest) =
      readWords whole { told with parent } rest := by
  rw [readWords, if_neg (by decide), if_neg (fun h => absurd h.1 (by decide)), if_pos rfl,
    Handle.ofText_chars]
  rfl

theorem readWords_handle (handle : Handle) :
    readWords whole told ("handle".toList :: handle.chars :: rest) =
      readWords whole { told with handle } rest := by
  rw [readWords, if_neg (by decide), if_neg (fun h => absurd h.1 (by decide)),
    if_neg (by decide), if_pos rfl, Handle.ofText_chars]
  rfl

theorem readWords_dev (interface : UInt32) :
    readWords whole told ("dev".toList :: decimal interface.toNat :: rest) =
      readWords whole { told with interface } rest := by
  rw [readWords, if_neg (by decide), if_neg (fun h => absurd h.1 (by decide)),
    if_neg (by decide), if_neg (by decide), if_pos rfl, numeralUInt32?_decimal]

/-- Any other word is the kind, the ingress kind too where a place has been told before it. -/
theorem readWords_kind {kind : String} (hfree : kind ∉ keywords) (hkind : told.kind = "")
    (hparent : told.parent ≠ Handle.unspecified) :
    readWords whole told [kind.toList] = .ok { told with kind } := by
  have hother (word : String) (hword : word ∈ keywords) : kind.toList ≠ word.toList := by
    intro hsame
    rw [String.toList_inj.mp hsame] at hfree
    exact hfree hword
  have hplaced : ¬(kind.toList = "ingress".toList ∧ told.parent.isUnspecified = true) := by
    rintro ⟨-, hunspecified⟩
    exact hparent (beq_iff_eq.mp hunspecified)
  rw [readWords, if_neg (hother "root" (by decide)), if_neg hplaced,
    if_neg (hother "parent" (by decide)), if_neg (hother "handle" (by decide)),
    if_neg (hother "dev" (by decide)), if_pos hkind, readWords, String.ofList_toList]

theorem readWords_lead (discipline : Discipline) :
    readWords whole (new 0 "" Handle.unspecified Handle.unspecified) (discipline.lead ++ rest) =
      readWords whole (new discipline.interface "" discipline.handle discipline.parent) rest := by
  have hdevice (told : Discipline) (htold : told.interface = 0) (more : List (List Char)) :
      readWords whole told ((if discipline.interface = 0 then []
        else ["dev".toList, decimal discipline.interface.toNat]) ++ more) =
        readWords whole { told with interface := discipline.interface } more := by
    split
    · rename_i hnone
      rw [hnone, ← htold]
      rfl
    · exact readWords_dev whole told more discipline.interface
  have hplace (told : Discipline) (more : List (List Char)) :
      readWords whole told ((if discipline.parent.isRoot then ["root".toList]
        else ["parent".toList, discipline.parent.chars]) ++ more) =
        readWords whole { told with parent := discipline.parent } more := by
    split
    · rename_i hroot
      rw [beq_iff_eq.mp hroot]
      exact readWords_root whole told more
    · exact readWords_parent whole told more discipline.parent
  have hhandle (told : Discipline) (htold : told.handle = Handle.unspecified)
      (more : List (List Char)) :
      readWords whole told ((if discipline.handle.isUnspecified then []
        else ["handle".toList, discipline.handle.chars]) ++ more) =
        readWords whole { told with handle := discipline.handle } more := by
    split
    · rename_i hnone
      rw [beq_iff_eq.mp hnone, ← htold]
      rfl
    · exact readWords_handle whole told more discipline.handle
  rw [lead, List.append_assoc, List.append_assoc, hdevice _ rfl, hplace, hhandle _ rfl]
  rfl

end

theorem ofText_text_of_isTellable {discipline : Discipline} (h : discipline.IsTellable) :
    ofText discipline.text = .ok discipline := by
  have hwords : words discipline.text.toList = discipline.lead ++ [discipline.kind.toList] := by
    rw [text, String.toList_ofList, chars_eq, words_flatMap fun _ => isWord_of_mem_lead,
      words_of_isWord h.kind]
  have hread : readWords discipline.text (new 0 "" Handle.unspecified Handle.unspecified)
      (words discipline.text.toList) = .ok discipline := by
    rw [hwords, readWords_lead, readWords_kind _ (new _ "" _ _) h.free rfl h.parent, new,
      ← h.options]
  have hkind : discipline.kind ≠ "" := by
    intro hnone
    exact h.kind.1 (by rw [hnone]; rfl)
  have hparent : ¬discipline.parent.isUnspecified = true := by
    intro hnone
    exact h.parent (beq_iff_eq.mp hnone)
  rw [ofText, hread]
  change (if discipline.kind = "" then _ else _) = _
  rw [if_neg hkind]
  rw [if_neg hparent]
  rfl

/-- What may have been told after some of the words. -/
structure IsTold (told : Discipline) : Prop where
  options : told.options = .none
  kind : told.kind = "" ∨ IsWord told.kind.toList ∧ told.kind ∉ keywords

theorem IsTold.named {told : Discipline} (h : told.IsTold) {word : List Char} (hword : IsWord word)
    (hfree : ∀ keyword ∈ keywords, word ≠ keyword.toList) :
    IsTold { told with kind := String.ofList word } := by
  constructor
  · exact h.options
  · right
    constructor
    · change IsWord (String.ofList word).toList
      rwa [String.toList_ofList]
    · intro hmem
      exact hfree _ hmem String.toList_ofList.symm

theorem isTold_of_readWords {whole : String} {told result : Discipline} {text : List (List Char)}
    (hwords : ∀ word ∈ text, IsWord word) (htold : told.IsTold)
    (h : readWords whole told text = .ok result) : result.IsTold := by
  fun_induction readWords whole told text with
  | case1 told =>
      rw [← Except.ok.inj h]
      exact htold
  | case2 told rest ih =>
      exact ih (List.forall_mem_cons.mp hwords).2 ⟨htold.options, htold.kind⟩ h
  | case3 told word rest _ _ ih =>
      have hkind : IsWord ingressKind.toList ∧ ingressKind ∉ keywords := by decide
      exact ih (List.forall_mem_cons.mp hwords).2 ⟨htold.options, Or.inr hkind⟩ h
  | case5 told value rest _ _ ih | case7 told value rest _ _ _ ih =>
      simp only [List.forall_mem_cons] at hwords
      obtain ⟨handle, -, hread⟩ := bind_eq_ok_iff.mp h
      exact ih handle hwords.2.2 ⟨htold.options, htold.kind⟩ hread
  | case10 told value rest interface _ _ _ _ _ ih =>
      simp only [List.forall_mem_cons] at hwords
      exact ih hwords.2.2 ⟨htold.options, htold.kind⟩ h
  | case11 told word rest hroot _ hparent hhandle hdev _ ih =>
      rw [List.forall_mem_cons] at hwords
      refine ih hwords.2 (htold.named hwords.1 ?_) h
      simp only [keywords, List.forall_mem_cons]
      exact ⟨hroot, hparent, hhandle, hdev, List.forall_mem_nil _⟩
  | case4 | case6 | case8 | case9 | case12 => exact absurd h nofun

theorem isTellable_of_ofText {text : String} {discipline : Discipline}
    (h : ofText text = .ok discipline) : discipline.IsTellable := by
  obtain ⟨told, hread, h⟩ := bind_eq_ok_iff.mp h
  have htold : told.IsTold :=
    isTold_of_readWords (fun _ => isWord_of_mem_words) ⟨rfl, Or.inl rfl⟩ hread
  by_cases hkind : told.kind = ""
  · rw [if_pos hkind] at h
    exact absurd h nofun
  by_cases hparent : told.parent.isUnspecified = true
  · rw [if_neg hkind, if_pos hparent] at h
    exact absurd h nofun
  rw [if_neg hkind, if_neg hparent] at h
  rw [← Except.ok.inj h]
  have hnamed := htold.kind.resolve_left hkind
  constructor
  · exact htold.options
  · intro hnone
    exact hparent (beq_iff_eq.mpr hnone)
  · exact hnamed.1
  · exact hnamed.2

/-- A handle is read back from its text, and a discipline if any text tells it. -/
theorem ofText_text :
    (∀ handle : Handle, Handle.ofText handle.text = .ok handle) ∧
      ∀ discipline : Discipline,
        (ofText discipline.text = .ok discipline ↔ discipline.IsTellable) ∧
          ∀ text, ofText text = .ok discipline → ofText discipline.text = .ok discipline := by
  constructor
  · exact Handle.ofText_chars
  · intro discipline
    constructor
    · constructor
      · exact isTellable_of_ofText
      · exact ofText_text_of_isTellable
    · intro text htext
      exact ofText_text_of_isTellable (isTellable_of_ofText htext)

end Discipline

end NetState
