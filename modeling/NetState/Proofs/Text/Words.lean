import NetState.Text.Blank

namespace NetState.Text

def IsWord (text : List Char) : Prop :=
  text ≠ [] ∧ ∀ c ∈ text, isBlank c = false

def IsTrimmed (text : List Char) : Prop :=
  (∀ c ∈ text.head?, isBlank c = false) ∧ ∀ c ∈ text.getLast?, isBlank c = false

instance (text : List Char) : Decidable (IsWord text) :=
  @instDecidableAnd _ _ inferInstance (List.decidableBAll (isBlank · = false) text)

theorem wordsAfter_append {text : List Char} (h : ∀ c ∈ text, isBlank c = false)
    (word rest : List Char) :
    wordsAfter word (text ++ rest) = wordsAfter (text.reverse ++ word) rest := by
  induction text generalizing word with
  | nil => rfl
  | cons c text ih =>
      have hc : ¬isBlank c = true := by simp [h c List.mem_cons_self]
      rw [List.cons_append, wordsAfter, if_neg hc,
        ih (fun d hd => h d (List.mem_cons_of_mem c hd)), List.reverse_cons, List.append_assoc]
      rfl

theorem words_append_space {text : List Char} (h : IsWord text) (rest : List Char) :
    words (text ++ ' ' :: rest) = text :: words rest := by
  have hopen : text.reverse.isEmpty = false := by simp [h.1]
  rw [words, wordsAfter_append h.2, List.append_nil, wordsAfter]
  simp only [hopen, List.reverse_reverse, Bool.false_eq_true, if_false]
  rfl

theorem words_of_isWord {text : List Char} (h : IsWord text) : words text = [text] := by
  have hopen : text.reverse.isEmpty = false := by simp [h.1]
  have hwords := wordsAfter_append h.2 [] []
  rw [List.append_nil, List.append_nil, wordsAfter] at hwords
  rw [words, hwords]
  simp only [hopen, List.reverse_reverse, Bool.false_eq_true, if_false]

/-- Words that have a space behind each are found again, and then those of the rest. -/
theorem words_flatMap {front : List (List Char)} (h : ∀ word ∈ front, IsWord word)
    (rest : List Char) : words (front.flatMap (· ++ [' ']) ++ rest) = front ++ words rest := by
  induction front with
  | nil => rfl
  | cons first front ih =>
      rw [List.flatMap_cons, List.append_assoc, List.append_assoc, List.singleton_append,
        words_append_space (h first List.mem_cons_self),
        ih fun word hword => h word (List.mem_cons_of_mem first hword)]
      rfl

theorem isWord_of_mem_wordsAfter {text letters word : List Char}
    (hletters : ∀ c ∈ letters, isBlank c = false) (h : word ∈ wordsAfter letters text) :
    IsWord word := by
  -- No blank is ever among the letters of the open word, so it is a word once it has any.
  have hopen (hsome : ¬letters.isEmpty = true) : IsWord letters.reverse := by
    constructor
    · simpa using hsome
    · simpa using hletters
  induction text generalizing letters with
  | nil =>
      rw [wordsAfter] at h
      split at h
      · exact absurd h List.not_mem_nil
      · rename_i hsome
        rw [List.mem_singleton.mp h]
        exact hopen hsome
  | cons c text ih =>
      rw [wordsAfter] at h
      split at h
      · split at h
        · exact ih (by simp) h (by simp)
        · rename_i hsome
          rcases List.mem_cons.mp h with rfl | h
          · exact hopen hsome
          · exact ih (by simp) h (by simp)
      · rename_i hc
        have hmore : ∀ d ∈ c :: letters, isBlank d = false := by
          intro d hd
          rcases List.mem_cons.mp hd with rfl | hd
          · simpa using hc
          · exact hletters d hd
        refine ih hmore h ?_
        intro _
        constructor
        · simp
        · simpa only [List.mem_reverse] using hmore

theorem isWord_of_mem_words {text word : List Char} (h : word ∈ words text) : IsWord word :=
  isWord_of_mem_wordsAfter (by simp) h

theorem IsWord.isTrimmed {text : List Char} (h : IsWord text) : IsTrimmed text := by
  constructor
  · intro c hc
    exact h.2 c (List.mem_of_mem_head? hc)
  · intro c hc
    exact h.2 c (List.mem_of_getLast? hc)

theorem IsTrimmed.reverse {text : List Char} (h : IsTrimmed text) : IsTrimmed text.reverse := by
  rw [IsTrimmed, List.head?_reverse, List.getLast?_reverse]
  exact h.symm

theorem IsTrimmed.append {front back : List Char} (hfront : IsWord front) (hback : IsTrimmed back)
    (hsome : back ≠ []) (middle : List Char) : IsTrimmed (front ++ (middle ++ back)) := by
  obtain ⟨first, rest, rfl⟩ := List.exists_cons_of_ne_nil hfront.1
  constructor
  · exact hfront.isTrimmed.1
  · have hlast := hback.2
    rw [List.getLast?_eq_some_getLast hsome] at hlast
    rw [← List.append_assoc, List.getLast?_append, List.getLast?_eq_some_getLast hsome]
    exact hlast

theorem trimStart_of_isTrimmed {text : List Char} (h : IsTrimmed text) : trimStart text = text := by
  cases text with
  | nil => rfl
  | cons c text =>
      rw [trimStart, List.dropWhile_cons_of_neg]
      simp [h.1 c rfl]

theorem trim_of_isTrimmed {text : List Char} (h : IsTrimmed text) : trim text = text := by
  rw [trim, trimStart_of_isTrimmed h, trimStart_of_isTrimmed h.reverse, List.reverse_reverse]

theorem trimStart_blanks {front : List Char} (h : ∀ c ∈ front, isBlank c = true)
    (text : List Char) :
    trimStart (front ++ text) = trimStart text :=
  List.dropWhile_append_of_pos h

theorem trim_blanks {front text back : List Char} (hfront : ∀ c ∈ front, isBlank c = true)
    (htext : IsWord text) (hback : ∀ c ∈ back, isBlank c = true) :
    trim (front ++ (text ++ back)) = text := by
  have hstart : trimStart (text ++ back) = text ++ back := by
    obtain ⟨c, rest, rfl⟩ := List.exists_cons_of_ne_nil htext.1
    rw [trimStart, List.cons_append, List.dropWhile_cons_of_neg]
    simp [htext.2 c List.mem_cons_self]
  have hend : ∀ c ∈ back.reverse, isBlank c = true := fun c hc => hback c (List.mem_reverse.mp hc)
  rw [trim, trimStart_blanks hfront, hstart, List.reverse_append, trimStart_blanks hend,
    trimStart_of_isTrimmed htext.isTrimmed.reverse, List.reverse_reverse]

theorem isTrimmed_trim (text : List Char) : IsTrimmed (trim text) := by
  have hstart (other : List Char) : ∀ c ∈ (trimStart other).head?, isBlank c = false := by
    intro c hc
    have hnot := List.head?_dropWhile_not isBlank other
    rw [trimStart] at hc
    rw [hc] at hnot
    simpa using hnot
  constructor
  · intro c hc
    refine hstart text c ?_
    have hprefix : trim text <+: trimStart text := by
      rw [trim, ← List.reverse_suffix, List.reverse_reverse]
      exact List.dropWhile_suffix _
    obtain ⟨tail, htail⟩ := hprefix
    rw [← htail, List.head?_append, Option.mem_def.mp hc]
    exact Option.mem_some_self c
  · intro c hc
    rw [trim, List.getLast?_reverse] at hc
    exact hstart _ c hc

theorem splitOnce?_eq_none {mark : Char} {text : List Char} (h : mark ∉ text) :
    splitOnce? mark text = none := by
  have hother : ∀ c ∈ text, (c != mark) = true := by
    intro c hc
    simp only [bne_iff_ne, ne_eq]
    rintro rfl
    exact h hc
  have hdrop : (text ++ []).dropWhile (· != mark) = [] := List.dropWhile_append_of_pos hother
  rw [List.append_nil] at hdrop
  rw [splitOnce?, hdrop]

theorem stripFront?_append (front rest : List Char) :
    stripFront? front (front ++ rest) = some rest := by
  rw [stripFront?, if_pos (List.isPrefixOf_iff_prefix.mpr (List.prefix_append front rest)),
    List.drop_left]

end NetState.Text
