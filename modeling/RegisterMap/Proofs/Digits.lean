import Mathlib.Data.Nat.Digits.Defs
import RegisterMap.Dimension
import RegisterMap.Proofs.Success

/-!
# Digits and their values

A numeral lists the digits of a number, the highest one first (`Writes`). Which characters are
digits differs: an index list has the decimal digits of any script (`DecimalDigit`), and a scaled
numeral is written with the digits and letters of ASCII, in either case (`AsciiDigit`).

Numerals are read from left to right. What is known of the number after some digits is multiplied by
the base and the next digit is added, and in the end this gives the number (`foldl_digits`).
-/

namespace RegisterMap.Text

/-- The characters write a number in a base: they are its digits, from the highest to the lowest
one, and there is at least one. Which digit a character is, is said by `digit`. -/
inductive Writes (digit : Char → Nat → Prop) (base n : Nat) (cs : List Char) : Prop
  | intro (ds : List Nat) (ne : cs ≠ []) (digits : List.Forall₂ digit cs ds)
      (value : Nat.ofDigits base ds.reverse = n)

/-- The character is a decimal digit of some script. -/
def DecimalDigit (c : Char) (d : Nat) : Prop :=
  decimal? c = some d

/-- The character is a digit of a base, written as usual in ASCII: letters follow the digits, in
either case. -/
def AsciiDigit (base : Nat) (c : Char) (d : Nat) : Prop :=
  d < base ∧ (c = Nat.digitChar d ∨ c = (Nat.digitChar d).toUpper)

/-- Reading the digits from left to right gives the number that they write. -/
theorem foldl_digits (base : Nat) (ds : List Nat) :
    ds.foldl (fun n d => n * base + d) 0 = Nat.ofDigits base ds.reverse := by
  rw [Nat.ofDigits_eq_foldr, List.foldr_reverse]
  congr 1
  funext n d
  rw [Nat.cast_id]
  ring

/-! ### Decimal digits of any script -/

variable {c : Char} {d : Nat}

/-- A decimal digit is found at its value from the zero of its script. -/
theorem DecimalDigit.exists_zero (h : DecimalDigit c d) :
    ∃ z ∈ zeros, d < 10 ∧ c = Char.ofNat (z + d) := by
  obtain ⟨z, hz, rfl⟩ := Option.map_eq_some_iff.1 h
  have hnear := List.find?_some hz
  rw [Bool.and_eq_true, decide_eq_true_eq, decide_eq_true_eq] at hnear
  refine ⟨z, List.mem_of_find?_eq_some hz, by omega, ?_⟩
  rw [Nat.add_sub_cancel' hnear.1, Char.ofNat_toNat]

/-- No decimal digit is blank, a hyphen or a capital letter. -/
theorem DecimalDigit.plain (h : DecimalDigit c d) :
    isBlank c = false ∧ c ≠ '-' ∧ ¬ ('A' ≤ c ∧ c ≤ 'Z') := by
  have hall : ∀ z ∈ zeros, ∀ d < 10, isBlank (Char.ofNat (z + d)) = false ∧
      Char.ofNat (z + d) ≠ '-' ∧ ¬ ('A' ≤ Char.ofNat (z + d) ∧ Char.ofNat (z + d) ≤ 'Z') := by
    decide +kernel
  obtain ⟨z, hz, hd, rfl⟩ := h.exists_zero
  exact hall z hz d hd

theorem decimalValue_eq {cs : List Char} {ds : List Nat} (h : List.Forall₂ DecimalDigit cs ds) :
    Dimension.decimalValue cs = Nat.ofDigits 10 ds.reverse := by
  have hvalues : cs.map (fun c => (decimal? c).getD 0) = ds.map id :=
    map_eq_map_of_forall₂ h fun c d hd => congrArg (·.getD 0) hd
  rw [List.map_id] at hvalues
  rw [← foldl_digits, ← hvalues, List.foldl_map]
  rfl

/-- Characters write at most one number in decimal digits, the one that is read. -/
theorem Writes.decimalValue_eq {n : Nat} {cs : List Char} (h : Writes DecimalDigit 10 n cs) :
    Dimension.decimalValue cs = n := by
  obtain ⟨ds, -, digits, rfl⟩ := h
  exact Text.decimalValue_eq digits

/-- One or more decimal digits write a number. -/
theorem writes_decimalValue {cs : List Char} (ne : cs ≠ [])
    (h : ∀ c ∈ cs, (decimal? c).isSome) :
    Writes DecimalDigit 10 (Dimension.decimalValue cs) cs := by
  have hdigits : ∀ c ∈ cs, ∃ d, DecimalDigit c d := by
    intro c hc
    exact Option.isSome_iff_exists.1 (h c hc)
  obtain ⟨ds, digits⟩ := exists_forall₂ hdigits
  exact .intro ds ne digits (Text.decimalValue_eq digits).symm

theorem Writes.ne_nil {digit : Char → Nat → Prop} {base n : Nat} {cs : List Char}
    (h : Writes digit base n cs) : cs ≠ [] := by
  obtain ⟨-, ne, -, -⟩ := h
  exact ne

theorem Writes.forall_digit {digit : Char → Nat → Prop} {base n : Nat} {cs : List Char}
    (h : Writes digit base n cs) : ∀ c ∈ cs, ∃ d, digit c d := by
  obtain ⟨ds, -, digits, -⟩ := h
  intro c hc
  obtain ⟨d, -, hd⟩ := exists_mem_right digits hc
  exact ⟨d, hd⟩

/-! ### Digits of ASCII -/

variable {base n : Nat} {cs : List Char}

/-- What holds of the sixteen digits, in either case, holds of any digit of a base up to sixteen. -/
theorem AsciiDigit.all {P : Char → Nat → Prop} (h : AsciiDigit base c d) (hbase : base ≤ 16)
    (hall : ∀ d < 16, P (Nat.digitChar d) d ∧ P (Nat.digitChar d).toUpper d) : P c d := by
  have hd : d < 16 := by
    have hlt := h.1
    omega
  rcases h.2 with rfl | rfl
  · exact (hall d hd).1
  · exact (hall d hd).2

theorem AsciiDigit.digitIn?_eq (h : AsciiDigit base c d) (hbase : base ≤ 16) :
    digitIn? base c = some d := by
  have hvalue : digit? c = some d := h.all (P := fun c d => digit? c = some d) hbase (by decide)
  rw [digitIn?, hvalue, Option.filter_some, if_pos (decide_eq_true h.1)]

theorem continueNumber?_digits {ds : List Nat} (h : List.Forall₂ (AsciiDigit base) cs ds)
    (hbase : base ≤ 16) (n : Nat) :
    continueNumber? base n cs = some (ds.foldl (fun n d => n * base + d) n) := by
  induction h generalizing n with
  | nil => rfl
  | @cons c d cs ds hd _ ih =>
      have hline : c ≠ '_' := hd.all (P := fun c _ => c ≠ '_') hbase (by decide)
      rw [continueNumber?, hd.digitIn?_eq hbase, Option.bind_some, ih, List.foldl_cons]
      intro _ _ heq
      cases heq
      exact absurd rfl hline

/-- The digits of a number are read as that number. -/
theorem Writes.magnitude?_eq (h : Writes (AsciiDigit base) base n cs) (hbase : base ≤ 16) :
    magnitude? base cs = some n := by
  obtain ⟨ds, ne, digits, rfl⟩ := h
  cases digits with
  | nil => exact absurd rfl ne
  | @cons c d cs ds hd digits =>
      rw [magnitude?, hd.digitIn?_eq hbase, Option.bind_some, continueNumber?_digits digits hbase,
        ← foldl_digits, List.foldl_cons, Nat.zero_mul, Nat.zero_add]

end RegisterMap.Text
