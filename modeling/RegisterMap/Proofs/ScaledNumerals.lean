import RegisterMap.Malformed
import RegisterMap.Proofs.Digits
import RegisterMap.Proofs.Trimming

/-!
# Scaled numerals

A number is written in one of four notations: in decimal digits, in hexadecimal digits after `0x` or
`0X`, in binary digits after `#`, or in octal digits after a zero (`Spells`). There may be blank
space around it (`Denotes`).

The marks of the notations are told apart by the first two characters, so a notation is recognized
if no other one begins in the same way. What is left is a text of digits. The general reader of
integers would also take a sign or a second mark there; since no digit is one of these characters
(`AsciiDigit.ordinary`), it reads exactly the digits, and a text that denotes a number is read as
this number (`readNumber_eq_ok`).
-/

namespace RegisterMap.Text

/-- The characters are a numeral for the number, in one of the four notations. A decimal numeral
begins with zero only if it is the zero. -/
inductive Spells (n : Nat) : List Char → Prop
  | decimal {cs : List Char} (writes : Writes (AsciiDigit 10) 10 n cs)
      (plain : cs.head? = some '0' → cs = ['0']) : Spells n cs
  | hexadecimal {mark : Char} {cs : List Char} (marked : mark = 'x' ∨ mark = 'X')
      (writes : Writes (AsciiDigit 16) 16 n cs) : Spells n ('0' :: mark :: cs)
  | binary {cs : List Char} (writes : Writes (AsciiDigit 2) 2 n cs) : Spells n ('#' :: cs)
  | octal {cs : List Char} (writes : Writes (AsciiDigit 8) 8 n cs) : Spells n ('0' :: cs)

/-- The text is a numeral for the number with blank space around it. -/
def Denotes (n : Nat) (s : String) : Prop :=
  ∃ cs, Spells n cs ∧ Padded cs s

variable {base n d : Nat} {c : Char} {cs : List Char} {s : String}

/-! ### The characters of numerals -/

/-- The characters that have a meaning of their own in a numeral or in a range of numerals. -/
def specialChars : List Char :=
  ['#', '+', '-', ':', 'x', 'X']

theorem AsciiDigit.ordinary (h : AsciiDigit base c d) (hbase : base ≤ 16) :
    isBlank c = false ∧ c ∉ specialChars :=
  h.all (P := fun c _ => isBlank c = false ∧ c ∉ specialChars) hbase (by decide)

/-- No digit of a number is blank or has another meaning. -/
theorem Writes.ordinary (h : Writes (AsciiDigit base) base n cs) (hbase : base ≤ 16) :
    ∀ c ∈ cs, isBlank c = false ∧ c ∉ specialChars := by
  intro c hc
  obtain ⟨d, hd⟩ := h.forall_digit c hc
  exact hd.ordinary hbase

/-- No digit of a base is the letter of that base: the letter of base two is a hexadecimal digit,
but not a binary one. -/
theorem AsciiDigit.baseLetter?_ne (h : AsciiDigit base c d) (hbase : base ≤ 16) :
    baseLetter? base ≠ some c.toLower := by
  have hall : ∀ base < 17, ∀ d < base, baseLetter? base ≠ some (Nat.digitChar d).toLower ∧
      baseLetter? base ≠ some (Nat.digitChar d).toUpper.toLower := by
    decide +kernel
  have hd := hall base (by omega) d h.1
  rcases h.2 with rfl | rfl
  · exact hd.1
  · exact hd.2

/-- The characters of a numeral are neither blank nor colons. -/
theorem Spells.ordinary (h : Spells n cs) : ∀ c ∈ cs, isBlank c = false ∧ c ≠ ':' := by
  have hdigits {base : Nat} {ds : List Char} (writes : Writes (AsciiDigit base) base n ds)
      (hbase : base ≤ 16) : ∀ c ∈ ds, isBlank c = false ∧ c ≠ ':' := by
    intro c hc
    have hordinary := writes.ordinary hbase c hc
    refine ⟨hordinary.1, ?_⟩
    rintro rfl
    exact hordinary.2 (by decide)
  cases h with
  | decimal writes _ => exact hdigits writes (by decide)
  | hexadecimal marked writes =>
      refine List.forall_mem_cons.2 ⟨by decide, List.forall_mem_cons.2 ⟨?_, ?_⟩⟩
      · rcases marked with rfl | rfl <;> decide
      · exact hdigits writes (by decide)
  | binary writes => exact List.forall_mem_cons.2 ⟨by decide, hdigits writes (by decide)⟩
  | octal writes => exact List.forall_mem_cons.2 ⟨by decide, hdigits writes (by decide)⟩

theorem Spells.ne_nil (h : Spells n cs) : cs ≠ [] := by
  cases h with
  | decimal writes _ => exact writes.ne_nil
  | hexadecimal _ _ => exact List.cons_ne_nil _ _
  | binary _ => exact List.cons_ne_nil _ _
  | octal _ => exact List.cons_ne_nil _ _

theorem Spells.tight (h : Spells n cs) : Tight cs :=
  .of_forall h.ne_nil fun c hc => (h.ordinary c hc).1

/-- No numeral has a colon in it, nor has the blank space around it. -/
theorem Denotes.not_mem_colon (h : Denotes n s) : ':' ∉ s.toList := by
  obtain ⟨cs, spells, padded⟩ := h
  intro hcolon
  rcases padded.mem_or_blank hcolon with hmem | hblank
  · exact (spells.ordinary _ hmem).2 rfl
  · exact absurd hblank (by decide)

/-! ### Recognizing the notation -/

theorem scaleChars_hexadecimal {mark : Char} (marked : mark = 'x' ∨ mark = 'X') :
    scaleChars ('0' :: mark :: cs) = (16, cs) := by
  rcases marked with rfl | rfl <;> rfl

theorem scaleChars_octal (hx : c ≠ 'x') (hX : c ≠ 'X') :
    scaleChars ('0' :: c :: cs) = (8, c :: cs) := by
  rw [scaleChars]
  · exact hx
  · exact hX

theorem scaleChars_decimal (plain : cs.head? = some '0' → cs = ['0'])
    (unmarked : cs.head? ≠ some '#') : scaleChars cs = (10, cs) := by
  rw [scaleChars]
  · rintro _ rfl
    cases plain rfl
  · rintro _ rfl
    cases plain rfl
  · rintro _ rfl
    exact unmarked rfl
  · rintro _ _ rfl
    cases plain rfl

/-! ### Reading the digits -/

theorem isBlank_of_padsNumber (h : padsNumber c) : isBlank c := by
  rw [padsNumber, Bool.and_eq_true] at h
  exact h.1

/-- There is no second mark in front of digits. -/
theorem Writes.dropMark_eq (h : Writes (AsciiDigit base) base n cs) (hbase : base ≤ 16) :
    dropMark base cs = cs := by
  match cs, h with
  | [], _ => rfl
  | [_], _ => rfl
  | z :: l :: cs, h =>
      obtain ⟨d, hd⟩ := h.forall_digit l (by simp)
      refine if_neg fun hmark => ?_
      exact hd.baseLetter?_ne hbase hmark.2

/-- The general reader of integers reads digits as the number that they write. -/
theorem Writes.integer?_eq (h : Writes (AsciiDigit base) base n cs) (hbase : base ≤ 16) :
    integer? base cs = some (n : Int) := by
  have hordinary := h.ordinary hbase
  have htight : Tight cs := .of_forall h.ne_nil fun c hc => (hordinary c hc).1
  rw [integer?, htight.trimChars_eq fun _ => isBlank_of_padsNumber]
  split
  · exact absurd (hordinary '-' List.mem_cons_self).2 (by decide)
  · exact absurd (hordinary '+' List.mem_cons_self).2 (by decide)
  · rw [h.dropMark_eq hbase, h.magnitude?_eq hbase]
    rfl

/-- A numeral is divided into a base and the digits of the number in that base. -/
theorem Spells.scaleChars_writes (h : Spells n cs) : ∃ base ds,
    scaleChars cs = (base, ds) ∧ base ≤ 16 ∧ Writes (AsciiDigit base) base n ds := by
  cases h with
  | decimal writes plain =>
      refine ⟨10, cs, scaleChars_decimal plain ?_, by decide, writes⟩
      intro hmark
      have hordinary := writes.ordinary (by decide) '#' (List.mem_of_mem_head? hmark)
      exact hordinary.2 (by decide)
  | hexadecimal marked writes => exact ⟨16, _, scaleChars_hexadecimal marked, by decide, writes⟩
  | binary writes => exact ⟨2, _, rfl, by decide, writes⟩
  | @octal ds writes =>
      -- Without a digit behind it the zero would be decimal, and no octal digit is an `x`.
      obtain ⟨c, rest, rfl⟩ := List.exists_cons_of_ne_nil writes.ne_nil
      have hordinary := (writes.ordinary (by decide) c List.mem_cons_self).2
      refine ⟨8, _, scaleChars_octal ?_ ?_, by decide, writes⟩
      · rintro rfl
        exact hordinary (by decide)
      · rintro rfl
        exact hordinary (by decide)

/-- A text that denotes a number is read as this number. -/
theorem Denotes.scaled?_eq (h : Denotes n s) : scaled? s = some (n : Int) := by
  obtain ⟨cs, spells, padded⟩ := h
  obtain ⟨base, ds, hscale, hbase, writes⟩ := spells.scaleChars_writes
  have hparts : scale s = { base, digits := String.ofList ds } := by
    rw [scale, padded.trimChars_eq spells.tight, hscale]
  rw [scaled?, hparts, Numeral.value?, String.toList_ofList, writes.integer?_eq hbase]

end RegisterMap.Text

namespace RegisterMap

theorem readNumber_eq_ok {n : Nat} {s : String} (h : Text.Denotes n s) :
    readNumber s = .ok (n : Int) := by
  rw [readNumber, h.scaled?_eq]

end RegisterMap
