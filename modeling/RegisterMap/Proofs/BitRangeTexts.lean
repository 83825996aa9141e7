import RegisterMap.Draft.Build
import RegisterMap.Proofs.BitEncodings
import RegisterMap.Proofs.Failure
import RegisterMap.Proofs.NumberTexts

/-!
# Bit ranges that are texts

A field that neither gives both of its bounds nor an offset may give its bits by a text
(`TakesText`). The text is read without looking at its first and its last character: what is between
them has to be two numbers with a colon between them (`GivesBits`). The range is the one from the
second number to the first, and any other text is reported as malformed, under the path of the field
(`bitRange?_of_takesText`).

So a text in brackets is read if and only if it has the form of `[7:4]`. A text without brackets may
be read as well, although it loses a digit at each end.
-/

namespace RegisterMap

open Text

variable {s : String} {r : BitRange} {first last : Char}

/-- The text, without the blank space around it, gives the highest and the lowest bit of the range
with a colon between them, and has one more character at each end. -/
inductive GivesBits (first last : Char) (r : BitRange) (s : String) : Prop
  | intro {high low : String} {msb lsb : Int}
      (text : (trim s).toList = first :: (high.toList ++ ':' :: low.toList ++ [last]))
      (highest : readNumber high = .ok msb) (lowest : readNumber low = .ok lsb)
      (offset : r.offset = lsb) (width : r.width = msb - lsb + 1)

/-- The text, without the blank space around it, begins with an opening bracket and ends with a
closing one. -/
def Bracketed (s : String) : Prop :=
  (trim s).toList.head? = some '[' ∧ (trim s).toList.getLast? = some ']'

/-! ### Reading a text -/

theorem not_mem_colon_of_readNumber {v : Int} (h : readNumber s = .ok v) : ':' ∉ s.toList := by
  intro hcolon
  rcases blank_or_significant_of_readNumber h hcolon with hblank | hmark | hdigit | hsign
  · exact absurd hblank (by decide)
  · exact absurd hmark (by decide)
  · exact absurd hdigit (by decide)
  · exact absurd hsign (by decide)

/-- Two pieces make the text that was divided again. -/
theorem eq_of_pieces_pair {separator : Char} {t high low : String}
    (h : pieces separator t = [high, low]) : t.toList = high.toList ++ separator :: low.toList := by
  have hjoin : [separator].intercalate (t.toList.splitOn separator) = t.toList :=
    List.intercalate_splitOn separator
  have hpieces : t.toList.splitOn separator = [high.toList, low.toList] := by
    change t.toList.splitOnP (· == separator) = _
    simpa [pieces, Function.comp_def] using congrArg (List.map String.toList) h
  rw [← hjoin, hpieces]
  simp

/-- If something is left when the ends are dropped, there were two of them. -/
theorem exists_ends {α : Type} {as inner : List α} (h : (as.drop 1).dropLast = inner)
    (ne : inner ≠ []) : ∃ a b, as = a :: (inner ++ [b]) := by
  cases as with
  | nil => exact absurd h.symm ne
  | cons a as =>
      rw [List.drop_one, List.tail_cons] at h
      have has : as ≠ [] := by
        rintro rfl
        exact ne h.symm
      refine ⟨a, as.getLast has, ?_⟩
      rw [← h, List.dropLast_concat_getLast has]

/-- A text is read as the range that it gives between its first and its last character. -/
theorem Element.bitRangeOfText_eq_ok_iff :
    Element.bitRangeOfText s = .ok r ↔ ∃ first last, GivesBits first last r s := by
  constructor
  · intro h
    simp only [Element.bitRangeOfText] at h
    split at h
    · next high low hpieces =>
      obtain ⟨msb, hhigh, h⟩ := bind_eq_ok_iff.1 h
      obtain ⟨lsb, hlow, h⟩ := bind_eq_ok_iff.1 h
      cases h
      have hinner := eq_of_pieces_pair hpieces
      rw [String.toList_ofList] at hinner
      obtain ⟨first, last, htext⟩ := exists_ends hinner (by simp)
      exact ⟨first, last, .intro htext hhigh hlow rfl rfl⟩
    · cases h
  · rintro ⟨first, last, text, highest, lowest, offset, width⟩
    rename_i high low msb lsb
    have hinner : ((trim s).toList.drop 1).dropLast = high.toList ++ ':' :: low.toList := by
      rw [text, List.drop_one, List.tail_cons, List.dropLast_concat]
    have hr : r = .between lsb msb := by
      cases r
      simp only at offset width
      rw [BitRange.between, offset, width]
    rw [Element.bitRangeOfText, hinner, pieces_pair (not_mem_colon_of_readNumber highest)
      (not_mem_colon_of_readNumber lowest), hr]
    simp only [highest, lowest]
    rfl

/-- What a text in brackets gives, it gives between the brackets. -/
theorem Bracketed.givesBits (h : Bracketed s) (gives : GivesBits first last r s) :
    GivesBits '[' ']' r s := by
  obtain ⟨text, highest, lowest, offset, width⟩ := gives
  obtain ⟨hfirst, hlast⟩ := h
  rw [text] at hfirst hlast
  rw [← List.cons_append, List.getLast?_append_of_ne_nil _ (List.cons_ne_nil _ _)] at hlast
  obtain rfl := Option.some.inj hfirst
  obtain rfl := Option.some.inj hlast
  exact .intro text highest lowest offset width

namespace Element

/-- The bit range of the element is read from a text: one of its bounds is left out, and so is the
offset. -/
structure TakesText (e : Element) (s : String) : Prop where
  unbounded : e.child? "lsb" = none ∨
    (∃ lsb, e.number? "lsb" = .ok (some lsb)) ∧ e.child? "msb" = none
  noOffset : e.child? "bitOffset" = none
  content : e.string? "bitRange" = some s

variable {e : Element}

theorem TakesText.bitRange?_eq (h : e.TakesText s) :
    e.bitRange? = ((bitRangeOfText s).map some).mapError .malformed := by
  have hrest : e.unboundedRange? = ((bitRangeOfText s).map some).mapError .malformed := by
    rw [unboundedRange?, number?_eq_none h.noOffset, ok_bind]
    simp only [h.content]
  rcases h.unbounded with absent | ⟨⟨lsb, lowest⟩, absent⟩
  · rw [← hrest, bitRange?, number?_eq_none absent]
    rfl
  · rw [← hrest, bitRange?, lowest, ok_bind]
    simp only [number?_eq_none absent]
    rfl

/-- The bit range of the element is malformed, and a field made of the element is reported for it,
under the path of the field. -/
inductive Misgiven (e : Element) : Prop
  | intro (cause : Malformed) (read : e.bitRange? = .error (.malformed cause))
      (reported : ∀ parent name path, Draft.requiredName parent .field e = .ok name →
        Draft.pathOf parent name = .ok path → e.derivedFrom? = none →
          (Draft.buildField parent e).result = .error (.schema (some path) (.malformed cause)))

theorem misgiven_of_bitRange? {cause : Malformed} (h : e.bitRange? = .error (.malformed cause)) :
    e.Misgiven := by
  refine .intro cause h fun parent name path hname hpath hplain => ?_
  have hrange : Draft.buildBitRange path e = .error (.schema (some path) (.malformed cause)) := by
    rw [Draft.buildBitRange, Draft.readAt, h]
    rfl
  unfold Draft.buildField
  simp only [hplain, Option.isSome_none, Bool.false_eq_true, if_false]
  refine Logged.bind_eq_error_iff.2 (.inr ⟨name, hname, ?_⟩)
  refine Logged.bind_eq_error_iff.2 (.inr ⟨path, hpath, ?_⟩)
  exact Logged.bind_eq_error_iff.2 (.inl hrange)

/-- A text without the characters at its ends is read as a bit range if and only if it gives the two
bounds of the range with a colon between them; so a text in brackets has to have the form of
`[7:4]`. All other texts are reported as malformed. -/
theorem bitRange?_of_takesText (h : e.TakesText s) :
    (∀ r, e.bitRange? = .ok (some r) ↔ ∃ first last, GivesBits first last r s) ∧
      (Bracketed s → ∀ r, e.bitRange? = .ok (some r) ↔ GivesBits '[' ']' r s) ∧
      ((¬ ∃ first last r, GivesBits first last r s) → e.Misgiven) := by
  have hread : ∀ r, e.bitRange? = .ok (some r) ↔ ∃ first last, GivesBits first last r s := by
    intro r
    rw [h.bitRange?_eq, mapError_eq_ok_iff, ← bitRangeOfText_eq_ok_iff]
    cases bitRangeOfText s <;> simp [Except.map]
  refine ⟨hread, fun bracketed r => ?_, fun none => ?_⟩
  · rw [hread]
    constructor
    · rintro ⟨first, last, gives⟩
      exact bracketed.givesBits gives
    · exact fun gives => ⟨'[', ']', gives⟩
  · cases hresult : bitRangeOfText s with
    | ok r =>
        obtain ⟨first, last, gives⟩ := bitRangeOfText_eq_ok_iff.1 hresult
        exact absurd ⟨first, last, r, gives⟩ none
    | error cause =>
        have hmalformed : e.bitRange? = .error (.malformed cause) := by
          rw [h.bitRange?_eq, hresult]
          rfl
        exact misgiven_of_bitRange? hmalformed

/-- A field that gives its bits by a text. -/
def withBits (text : String) : Element :=
  node "field" [leaf "name" "F", leaf "bitRange" text]

theorem takesText_withBits (text : String) : (withBits text).TakesText text :=
  ⟨.inl rfl, rfl, rfl⟩

theorem bitRange?_of_takesText_twoTexts :
    (withBits " [7:04]").TakesText " [7:04]" ∧ Bracketed " [7:04]" ∧
      (withBits " [7:04]").bitRange? = .ok (some ⟨4, 4⟩) ∧ GivesBits '[' ']' ⟨4, 4⟩ " [7:04]" ∧
      (withBits "[7]").TakesText "[7]" ∧ (withBits "[7]").Misgiven := by
  have hbracketed : Bracketed " [7:04]" := by
    unfold Bracketed
    decide +kernel
  have hread : (withBits " [7:04]").bitRange? = .ok (some ⟨4, 4⟩) := by decide +kernel
  have hrefused : (withBits "[7]").bitRange? = .error (.malformed (.bounds 1)) := by
    decide +kernel
  obtain ⟨-, bracketed, -⟩ := bitRange?_of_takesText (takesText_withBits " [7:04]")
  obtain ⟨read, -, misgiven⟩ := bitRange?_of_takesText (takesText_withBits "[7]")
  refine ⟨takesText_withBits _, hbracketed, hread, (bracketed hbracketed _).1 hread,
    takesText_withBits _, misgiven ?_⟩
  rintro ⟨first, last, r, gives⟩
  have hgiven := (read r).2 ⟨first, last, gives⟩
  rw [hrefused] at hgiven
  cases hgiven

/-- A text without brackets is read as another range than the one that it seems to give. -/
theorem bitRange?_drops_ends : (withBits "17:40").TakesText "17:40" ∧
    (withBits "17:40").bitRange? = .ok (some ⟨4, 4⟩) ∧ ¬ ∃ r, GivesBits '[' ']' r "17:40" := by
  refine ⟨takesText_withBits _, by decide +kernel, ?_⟩
  rintro ⟨r, text, -, -, -, -⟩
  have hfirst : (trim "17:40").toList.head? = some '[' := by rw [text, List.head?_cons]
  exact absurd hfirst (by decide +kernel)

end Element

end RegisterMap
