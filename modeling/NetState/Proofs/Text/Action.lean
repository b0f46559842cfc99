import NetState.Action.Basic
import NetState.Proofs.Text.Numeral

namespace NetState.Action

open Text

def toldVerdicts : List Int32 :=
  [passVerdict, dropVerdict, pipeVerdict]

/-- A text to log is not empty and has no blank at either end. -/
def HasPlainData : Action → Prop
  | simple data => data ≠ "" ∧ IsTrimmed data.toList
  | _ => True

/-- A fixed verdict is one of those that a text can tell. -/
def HasToldVerdict : Action → Prop
  | gact verdict => verdict ∈ toldVerdicts
  | _ => True

instance (action : Action) : Decidable action.HasToldVerdict :=
  match action with
  | gact verdict => inferInstanceAs (Decidable (verdict ∈ toldVerdicts))
  | simple _ | mirred _ _ _ => inferInstanceAs (Decidable True)

theorem ofText_chars {action : Action} (h : ofChars? action.chars = some action) :
    ofText action.text = .ok action := by
  rw [ofText, text, String.toList_ofList, h]

theorem ofChars?_simple {data : String} (hsome : data ≠ "") (hdata : IsTrimmed data.toList) :
    ofChars? (simple data).chars = some (simple data) := by
  have hchars : data.toList ≠ [] := by
    intro hnone
    exact hsome (String.toList_eq_nil_iff.mp hnone)
  have hfront : IsWord "simple".toList := by decide
  have htrim : trim (simple data).chars = (simple data).chars := by
    apply trim_of_isTrimmed
    exact .append hfront hdata hchars " sdata ".toList
  have hblank : trim (' ' :: data.toList) = data.toList := by
    have hstart : trimStart (' ' :: data.toList) = trimStart data.toList := rfl
    rw [trim, hstart]
    exact trim_of_isTrimmed hdata
  have hsimple : stripFront? "simple".toList (simple data).chars =
      some (" sdata ".toList ++ data.toList) :=
    stripFront?_append "simple".toList (" sdata ".toList ++ data.toList)
  have hsdata : stripFront? "sdata".toList (trimStart (" sdata ".toList ++ data.toList)) =
      some (' ' :: data.toList) :=
    stripFront?_append "sdata".toList (' ' :: data.toList)
  have hopen : ¬data.toList.isEmpty = true := by
    rw [List.isEmpty_iff]
    exact hchars
  simp only [ofChars?, htrim, hsimple, hsdata, Option.bind_some, hblank, if_neg hopen,
    String.ofList_toList]

/-- The words of a forwarding action but for the last. -/
def forwardLead (ingress redirect : Bool) : List (List Char) :=
  ["mirred".toList, (if ingress then "ingress" else "egress").toList,
    (if redirect then "redirect" else "mirror").toList, "dev".toList]

theorem isWord_of_mem_forwardLead {ingress redirect : Bool} :
    ∀ word ∈ forwardLead ingress redirect, IsWord word := by
  cases ingress <;> cases redirect <;> decide

theorem mirred_chars (ingress redirect : Bool) (interface : UInt32) :
    (mirred ingress redirect interface).chars =
      (forwardLead ingress redirect).flatMap (· ++ [' ']) ++ decimal interface.toNat := by
  cases ingress <;> cases redirect <;> rfl

theorem ofChars?_mirred (ingress redirect : Bool) (interface : UInt32) :
    ofChars? (mirred ingress redirect interface).chars =
      some (mirred ingress redirect interface) := by
  have hback := isWord_decimal interface.toNat
  have hwords : words (mirred ingress redirect interface).chars =
      forwardLead ingress redirect ++ [decimal interface.toNat] := by
    rw [mirred_chars, words_flatMap isWord_of_mem_forwardLead, words_of_isWord hback]
  have htrim : trim (mirred ingress redirect interface).chars =
      (mirred ingress redirect interface).chars := by
    apply trim_of_isTrimmed
    rw [mirred_chars, forwardLead, List.flatMap_cons, List.append_assoc, List.append_assoc,
      ← List.append_assoc [' ']]
    exact .append (by decide) hback.isTrimmed hback.1 _
  have hstrip : stripFront? "simple".toList (mirred ingress redirect interface).chars = none := rfl
  have hread : ofWords? (forwardLead ingress redirect ++ [decimal interface.toNat]) =
      (numeralUInt32? (decimal interface.toNat)).bind
        fun interface => some (mirred ingress redirect interface) := by
    cases ingress <;> cases redirect <;> rfl
  simp only [ofChars?, htrim, hstrip, hwords, hread, numeralUInt32?_decimal, Option.bind_some]

theorem ofChars?_gact {verdict : Int32} (h : verdict ∈ toldVerdicts) :
    ofChars? (gact verdict).chars = some (gact verdict) := by
  simp only [toldVerdicts, List.mem_cons, List.not_mem_nil, or_false] at h
  rcases h with rfl | rfl | rfl
  · decide
  · decide
  · decide

/-- A verdict that no text tells has a text that tells nothing, whether it has a name or not. -/
theorem ofChars?_gact_eq_none {verdict : Int32} (h : verdict ∉ toldVerdicts) :
    ofChars? (gact verdict).chars = none := by
  simp only [toldVerdicts, List.mem_cons, List.not_mem_nil, or_false, not_or] at h
  obtain ⟨hpass, hdrop, hpipe⟩ := h
  by_cases hreclassify : verdict = reclassifyVerdict
  · rw [hreclassify]
    decide
  by_cases hstolen : verdict = stolenVerdict
  · rw [hstolen]
    decide
  have hname : verdictName? verdict = none := by
    rw [verdictName?, if_neg hpass, if_neg hdrop, if_neg hpipe, if_neg hreclassify, if_neg hstolen]
  have hgact : "gact ".toList = "gact".toList ++ [' '] := rfl
  have hchars : (gact verdict).chars = "gact".toList ++ ' ' :: signed verdict.toInt := by
    unfold chars
    simp only [hname, hgact, List.append_assoc, List.singleton_append]
  have hback := isWord_signed verdict.toInt
  have htrim : trim (gact verdict).chars = (gact verdict).chars := by
    apply trim_of_isTrimmed
    rw [hchars]
    exact .append (by decide) hback.isTrimmed hback.1 [' ']
  have hstrip : stripFront? "simple".toList (gact verdict).chars = none := by
    rw [hchars]
    rfl
  have hwords : words (gact verdict).chars = ["gact".toList, signed verdict.toInt] := by
    rw [hchars, words_append_space (by decide), words_of_isWord hback]
  simp only [ofChars?, htrim, hstrip, hwords]
  rfl

theorem told_of_ofWords? {text : List (List Char)} {action : Action}
    (h : ofWords? text = some action) : action.HasPlainData ∧ action.HasToldVerdict := by
  have hgact {verdict : Int32} (hverdict : verdict ∈ toldVerdicts)
      (hsame : some (gact verdict) = some action) :
      action.HasPlainData ∧ action.HasToldVerdict := by
    rw [← Option.some.inj hsame]
    exact ⟨trivial, hverdict⟩
  rw [ofWords?.eq_def] at h
  split at h
  · split at h
    · exact hgact (by decide) h
    · split at h
      · exact hgact (by decide) h
      · split at h
        · exact hgact (by decide) h
        · exact absurd h nofun
  · split at h
    · obtain ⟨ingress, -, h⟩ := Option.bind_eq_some_iff.mp h
      obtain ⟨redirect, -, h⟩ := Option.bind_eq_some_iff.mp h
      obtain ⟨interface, -, h⟩ := Option.bind_eq_some_iff.mp h
      rw [← Option.some.inj h]
      exact ⟨trivial, trivial⟩
    · exact absurd h nofun
  · exact absurd h nofun

theorem told_of_ofChars? {text : List Char} {action : Action} (h : ofChars? text = some action) :
    action.HasPlainData ∧ action.HasToldVerdict := by
  rw [ofChars?] at h
  split at h
  · exact told_of_ofWords? h
  · obtain ⟨rest, -, h⟩ := Option.bind_eq_some_iff.mp h
    change (if (trim rest).isEmpty = true then none else _) = _ at h
    split at h
    · exact absurd h nofun
    · rename_i hopen
      rw [← Option.some.inj h]
      constructor
      · constructor
        · simpa using hopen
        · rw [String.toList_ofList]
          exact isTrimmed_trim rest
      · trivial

theorem told_of_ofText {text : String} {action : Action} (h : ofText text = .ok action) :
    action.HasPlainData ∧ action.HasToldVerdict := by
  rw [ofText] at h
  split at h
  · rename_i told htold
    rw [← Except.ok.inj h]
    exact told_of_ofChars? htold
  · exact absurd h nofun

theorem ofText_text_of_told {action : Action} (hdata : action.HasPlainData)
    (hverdict : action.HasToldVerdict) : ofText action.text = .ok action := by
  apply ofText_chars
  cases action with
  | simple data => exact ofChars?_simple hdata.1 hdata.2
  | gact verdict => exact ofChars?_gact hverdict
  | mirred ingress redirect interface => exact ofChars?_mirred ingress redirect interface

/-- An action is read back from its text if its data is plain and its verdict one of three, and only
then does any text tell it. The text of any other verdict is refused. -/
theorem ofText_text_iff (action : Action) :
    (ofText action.text = .ok action ↔ action.HasPlainData ∧ action.HasToldVerdict) ∧
      (∀ text, ofText text = .ok action → ofText action.text = .ok action) ∧
      (¬action.HasToldVerdict →
        ofText action.text = .error (.invalidArgument (.actionText action.text))) := by
  refine ⟨?_, ?_, ?_⟩
  · constructor
    · exact told_of_ofText
    · rintro ⟨hdata, hverdict⟩
      exact ofText_text_of_told hdata hverdict
  · intro text htext
    obtain ⟨hdata, hverdict⟩ := told_of_ofText htext
    exact ofText_text_of_told hdata hverdict
  · intro hverdict
    cases action with
    | gact verdict =>
        rw [ofText, Action.text, String.toList_ofList, ofChars?_gact_eq_none hverdict]
    | simple data => exact absurd trivial hverdict
    | mirred ingress redirect interface => exact absurd trivial hverdict

theorem ofText_text_iff_reclassify :
    ¬(gact reclassifyVerdict).HasToldVerdict ∧
      ofText "reclassify" = .error (.invalidArgument (.actionText "reclassify")) := by
  have hverdict : ¬(gact reclassifyVerdict).HasToldVerdict := by decide
  exact ⟨hverdict, (ofText_text_iff (gact reclassifyVerdict)).2.2 hverdict⟩

/-- The text of a verdict that has a name is refused, though its data is plain. -/
theorem exists_ofText_text_ne :
    ∃ action : Action, action.HasPlainData ∧ action.text = "reclassify" ∧
      ofText action.text ≠ .ok action := by
  refine ⟨gact reclassifyVerdict, trivial, rfl, ?_⟩
  intro h
  have hverdict := (told_of_ofText h).2
  exact absurd hverdict (by decide)

end NetState.Action
