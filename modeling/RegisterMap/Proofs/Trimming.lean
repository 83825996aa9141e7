import Mathlib.Data.List.DropRight
import RegisterMap.Text.Blank

/-!
# Trimmed texts

A text is tight if it neither begins nor ends with blank space and holds a character. Trimming makes
a text tight unless nothing is left of it, and it undoes the adding of blank space to a tight text.
-/

namespace RegisterMap.Text

/-- The text starts with a character that is not blank. -/
def Starts (cs : List Char) : Prop :=
  ∃ c ∈ cs.head?, isBlank c = false

/-- The text ends with a character that is not blank. -/
def Ends (cs : List Char) : Prop :=
  ∃ c ∈ cs.getLast?, isBlank c = false

/-- The text is trimmed, and something is left of it. -/
structure Tight (cs : List Char) : Prop where
  starts : Starts cs
  ends : Ends cs

/-- The text consists of the given characters and of blank space around them. -/
inductive Padded (cs : List Char) (s : String) : Prop
  | intro (before after : List Char) (text : s.toList = before ++ cs ++ after)
      (blankBefore : ∀ c ∈ before, isBlank c) (blankAfter : ∀ c ∈ after, isBlank c)

variable {cs ds : List Char}

theorem Starts.append (h : Starts cs) (ds : List Char) : Starts (cs ++ ds) := by
  obtain ⟨c, hc, hblank⟩ := h
  obtain ⟨rest, rfl⟩ := List.head?_eq_some_iff.1 hc
  exact ⟨c, rfl, hblank⟩

theorem Ends.append (h : Ends ds) (cs : List Char) : Ends (cs ++ ds) := by
  obtain ⟨d, hd, hblank⟩ := h
  obtain ⟨front, rfl⟩ := List.getLast?_eq_some_iff.1 hd
  exact ⟨d, List.getLast?_eq_some_iff.2 ⟨cs ++ front, (List.append_assoc ..).symm⟩, hblank⟩

theorem Ends.of_append (cs : List Char) (h : Ends (cs ++ ds)) (ne : ds ≠ []) : Ends ds := by
  obtain ⟨d, hd, hblank⟩ := h
  rw [List.getLast?_append_of_ne_nil _ ne] at hd
  exact ⟨d, hd, hblank⟩

theorem Tight.ne_nil (h : Tight cs) : cs ≠ [] := by
  rintro rfl
  obtain ⟨c, hc, -⟩ := h.starts
  cases hc

theorem Tight.of_forall (ne : cs ≠ []) (h : ∀ c ∈ cs, isBlank c = false) : Tight cs where
  starts := ⟨cs.head ne, List.head?_eq_some_head ne, h _ (List.head_mem ne)⟩
  ends := ⟨cs.getLast ne, List.getLast?_eq_some_getLast ne, h _ (List.getLast_mem ne)⟩

/-- What is left of a text when it is trimmed is tight, if anything is left. -/
theorem tight_trimChars (left : trimChars isBlank cs ≠ []) : Tight (trimChars isBlank cs) := by
  have hright : trimChars isBlank cs = (cs.dropWhile isBlank).rdropWhile isBlank := rfl
  rw [hright] at left ⊢
  constructor
  · obtain ⟨c, rest, hrest⟩ := List.exists_cons_of_ne_nil left
    obtain ⟨suffix, hsuffix⟩ := List.rdropWhile_prefix isBlank (l := cs.dropWhile isBlank)
    have hdropped := List.head?_dropWhile_not isBlank cs
    rw [← hsuffix, hrest] at hdropped
    rw [hrest]
    exact ⟨c, rfl, hdropped⟩
  · refine ⟨_, List.getLast?_eq_some_getLast left, ?_⟩
    exact eq_false_of_ne_true (List.rdropWhile_last_not isBlank _ left)

/-- A text that starts with a character that is not dropped stays as it is. -/
theorem Starts.dropWhile_eq {p : Char → Bool} (blank : ∀ c, p c → isBlank c) (h : Starts cs) :
    cs.dropWhile p = cs := by
  obtain ⟨c, hc, hfirst⟩ := h
  obtain ⟨rest, rfl⟩ := List.head?_eq_some_iff.1 hc
  have hkeep : ¬ p c := fun hp => Bool.false_ne_true (hfirst.symm.trans (blank c hp))
  rw [List.dropWhile_cons, if_neg hkeep]

/-- Characters that are dropped can be added at the ends of a tight text, and are dropped again. -/
theorem Tight.trimChars_padded {p : Char → Bool} (blank : ∀ c, p c → isBlank c) (h : Tight cs)
    {before after : List Char} (hbefore : ∀ c ∈ before, p c) (hafter : ∀ c ∈ after, p c) :
    trimChars p (before ++ cs ++ after) = cs := by
  have hends : Starts cs.reverse := by
    obtain ⟨c, hc, hlast⟩ := h.ends
    exact ⟨c, by rwa [List.head?_reverse], hlast⟩
  have hleft : (before ++ cs ++ after).dropWhile p = cs ++ after := by
    rw [List.append_assoc, List.dropWhile_append_of_pos hbefore,
      (h.starts.append after).dropWhile_eq blank]
  have hright : (cs ++ after).reverse.dropWhile p = cs.reverse := by
    rw [List.reverse_append, List.dropWhile_append_of_pos, hends.dropWhile_eq blank]
    intro c hc
    exact hafter c (List.mem_reverse.1 hc)
  rw [trimChars, hleft, hright, List.reverse_reverse]

/-- Trimming finds a tight text again in blank space. -/
theorem Padded.trimChars_eq {s : String} (h : Padded cs s) (tight : Tight cs) :
    trimChars isBlank s.toList = cs := by
  obtain ⟨before, after, text, blankBefore, blankAfter⟩ := h
  rw [text]
  exact tight.trimChars_padded (fun _ hc => hc) blankBefore blankAfter

theorem Padded.mem_or_blank {s : String} (h : Padded cs s) {c : Char} (hc : c ∈ s.toList) :
    c ∈ cs ∨ isBlank c := by
  obtain ⟨before, after, text, blankBefore, blankAfter⟩ := h
  rw [text, List.mem_append, List.mem_append] at hc
  rcases hc with (hc | hc) | hc
  · exact .inr (blankBefore c hc)
  · exact .inl hc
  · exact .inr (blankAfter c hc)

/-- A tight text is not changed when it is trimmed. -/
theorem Tight.trimChars_eq {p : Char → Bool} (blank : ∀ c, p c → isBlank c) (h : Tight cs) :
    trimChars p cs = cs := by
  have hpadded := h.trimChars_padded blank (List.forall_mem_nil _) (List.forall_mem_nil _)
  rwa [List.append_nil, List.nil_append] at hpadded

theorem Tight.trim_eq {s : String} (h : Tight s.toList) : trim s = s := by
  rw [trim, h.trimChars_eq fun _ hc => hc, String.ofList_toList]

theorem tight_trim {s : String} (left : trim s ≠ "") : Tight (trim s).toList := by
  rw [trim, String.toList_ofList]
  refine tight_trimChars fun hempty => left ?_
  rw [trim, hempty]

end RegisterMap.Text
