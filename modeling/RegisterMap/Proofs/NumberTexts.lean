import RegisterMap.Proofs.IntegerTexts

/-!
# Numbers in texts

A text is divided into the mark of a notation and a body, which is read in the base of the notation
(`Scaled`). The digits of a number, in the notation's base, may be written with zeros in front of
them and with their letters in either case (`DigitsOf`). In each of the four notations they are read
as this number, whatever blank space is around them (`readNumber_decodes`).

The body is read as an integer in general, and so it may have a sign, a second mark, underscores or
digits of other scripts, and numbers below zero are read as well (`readNumber_accepts`). A plain
body, which has only letters and digits of ASCII and no second mark (`Plain`), is made of digits
alone, and is read as the number that they write.
-/

namespace RegisterMap

open Text

namespace Text

/-- The text is the mark of a notation, whose base is given, and a body. In decimal notation there
is no mark, and a lone zero is decimal. -/
inductive Scaled : Nat → List Char → List Char → Prop
  | hexadecimal {mark : Char} {body : List Char} (marked : mark ∈ ['x', 'X']) :
      Scaled 16 body ('0' :: mark :: body)
  | binary {body : List Char} : Scaled 2 body ('#' :: body)
  | octal {c : Char} {body : List Char} (unmarked : c ∉ ['x', 'X']) :
      Scaled 8 (c :: body) ('0' :: c :: body)
  | decimal {body : List Char} (unmarked : body.head? ≠ some '#')
      (plain : body.head? = some '0' → body = ['0']) : Scaled 10 body body

/-- The characters are the digits of the number in a base, with any number of zeros in front of them
and with the letters in either case. -/
def DigitsOf (base n : Nat) (cs : List Char) : Prop :=
  ∃ zeros, cs.map Char.toLower = List.replicate zeros '0' ++ Nat.toDigits base n

/-- The characters are letters and digits of ASCII, and none is the letter of the base. -/
def Plain (base : Nat) (cs : List Char) : Prop :=
  ∀ c ∈ cs, c.isAlphanum ∧ baseLetter? base ≠ some c.toLower

variable {base n : Nat} {v : Int} {c : Char} {cs body : List Char} {s : String}

/-! ### Notations -/

theorem scaled_scaleChars (cs : List Char) : Scaled (scaleChars cs).1 (scaleChars cs).2 cs := by
  unfold scaleChars
  split
  · exact .hexadecimal (by decide)
  · exact .hexadecimal (by decide)
  · exact .binary
  · next hx hX => exact .octal (by simpa using ⟨hx, hX⟩)
  · next hbinary hoctal =>
    refine .decimal (fun hhead => ?_) fun hhead => ?_
    · obtain ⟨rest, rfl⟩ := List.head?_eq_some_iff.1 hhead
      exact hbinary rest rfl
    · obtain ⟨rest, rfl⟩ := List.head?_eq_some_iff.1 hhead
      cases rest with
      | nil => rfl
      | cons c rest => exact absurd rfl (hoctal c rest)

theorem Scaled.scaleChars_eq (h : Scaled base body cs) : scaleChars cs = (base, body) := by
  cases h with
  | hexadecimal marked => exact scaleChars_hexadecimal (by simpa using marked)
  | binary => rfl
  | octal unmarked =>
      rw [List.mem_pair, not_or] at unmarked
      exact scaleChars_octal unmarked.1 unmarked.2
  | decimal unmarked plain => exact scaleChars_decimal plain unmarked

theorem Scaled.base_le (h : Scaled base body cs) : base ≤ 16 := by
  cases h <;> decide

/-- The numbers that are read are the integers in the bodies of the texts. -/
theorem readNumber_eq_ok_iff : readNumber s = .ok v ↔
    ∃ base body, Scaled base body (trim s).toList ∧ WritesInteger base v body := by
  have hscaled : readNumber s = .ok v ↔ scaled? s = some v := by
    unfold readNumber
    cases scaled? s <;> simp
  have hvalue : scaled? s =
      integer? (scaleChars (trim s).toList).1 (scaleChars (trim s).toList).2 := by
    rw [scaled?, Numeral.value?, scale, trim, String.toList_ofList]
    simp only [String.toList_ofList]
  rw [hscaled, hvalue, integer?_eq_some_iff]
  constructor
  · intro h
    exact ⟨_, _, scaled_scaleChars _, h⟩
  · rintro ⟨base, body, hbody, h⟩
    rwa [hbody.scaleChars_eq]

/-- In front of the body are only the characters of marks. -/
theorem Scaled.mark_or_body (h : Scaled base body cs) :
    ∀ c ∈ cs, c = '#' ∨ Significant c ∨ c ∈ body := by
  have hbody : ∀ c ∈ body, c = '#' ∨ Significant c ∨ c ∈ body := fun c hc => .inr (.inr hc)
  have hzero : '0' = '#' ∨ Significant '0' ∨ '0' ∈ body := .inr (.inl (.inl (by decide)))
  cases h with
  | hexadecimal marked =>
      refine List.forall_mem_cons.2 ⟨hzero, List.forall_mem_cons.2 ⟨?_, hbody⟩⟩
      rcases List.mem_pair.1 marked with rfl | rfl <;> exact .inr (.inl (.inl (by decide)))
  | binary => exact List.forall_mem_cons.2 ⟨.inl rfl, hbody⟩
  | octal _ => exact List.forall_mem_cons.2 ⟨hzero, hbody⟩
  | decimal _ _ => exact hbody

/-- What a number is read from consists of blank space, of marks and of what integers consist of. -/
theorem blank_or_significant_of_readNumber (h : readNumber s = .ok v) (hc : c ∈ s.toList) :
    isBlank c ∨ c = '#' ∨ Significant c := by
  obtain ⟨base, body, scaled, written⟩ := readNumber_eq_ok_iff.1 h
  obtain ⟨before, after, htext, hbefore, hafter⟩ := exists_dropped isBlank s.toList
  rw [trim, String.toList_ofList] at scaled
  rw [htext, List.mem_append, List.mem_append] at hc
  rcases hc with (hc | hc) | hc
  · exact .inl (hbefore c hc)
  · rcases scaled.mark_or_body c hc with hmark | hsignificant | hbody
    · exact .inr (.inl hmark)
    · exact .inr (.inr hsignificant)
    · exact (written.padding_or_significant c hbody).imp isBlank_of_padsNumber .inr
  · exact .inl (hafter c hc)

/-! ### Digits -/

/-- The digits of a number, from the highest one on, are those that a base gives. -/
theorem exists_digits_toDigits (hbase : 1 < base) (n : Nat) : ∃ ds,
    List.Forall₂ (fun c d => d < base ∧ c = Nat.digitChar d) (Nat.toDigits base n) ds ∧
      Nat.ofDigits base ds.reverse = n := by
  induction n using Nat.strongRecOn with
  | ind n ih =>
      rw [Nat.toDigits_eq_if hbase]
      split
      · next hn => exact ⟨[n], .cons ⟨hn, rfl⟩ .nil, by simp⟩
      · next hn =>
        obtain ⟨ds, hds, hvalue⟩ := ih (n / base) (Nat.div_lt_self (by omega) hbase)
        have hlast : n % base < base := Nat.mod_lt _ (by omega)
        refine ⟨ds ++ [n % base], List.rel_append hds (.cons ⟨hlast, rfl⟩ .nil), ?_⟩
        rw [List.reverse_append, List.reverse_singleton, List.singleton_append,
          Nat.ofDigits_cons, hvalue, Nat.mod_add_div]

theorem writes_toDigits (hbase : 1 < base) (n : Nat) :
    Writes (AsciiDigit base) base n (Nat.toDigits base n) := by
  obtain ⟨ds, hds, hvalue⟩ := exists_digits_toDigits hbase n
  exact .intro ds Nat.toDigits_ne_nil (hds.imp fun c d hd => ⟨hd.1, .inl hd.2⟩) hvalue

/-- Only the zero has a zero as its first digit. -/
theorem eq_zero_of_head?_toDigits (hbase : 1 < base)
    (h : (Nat.toDigits base n).head? = some '0') : n = 0 := by
  induction n using Nat.strongRecOn with
  | ind n ih =>
      rw [Nat.toDigits_eq_if hbase] at h
      split at h
      · exact Nat.digitChar_eq_zero.1 (Option.some.inj h)
      · next hn =>
        rw [List.head?_append_of_ne_nil _ Nat.toDigits_ne_nil] at h
        have hquotient := ih (n / base) (Nat.div_lt_self (by omega) hbase) h
        rw [Nat.div_eq_zero_iff] at hquotient
        omega

theorem DigitsOf.writes (h : DigitsOf base n cs) (hbase : 1 < base) :
    Writes (AsciiDigit base) base n cs := by
  obtain ⟨zeros, h⟩ := h
  obtain ⟨ds, hds, hvalue⟩ := exists_digits_toDigits hbase n
  have hzeros : ∀ count, List.Forall₂ (fun c d => d < base ∧ c = Nat.digitChar d)
      (List.replicate count '0') (List.replicate count 0) := by
    intro count
    induction count with
    | zero => exact .nil
    | succ count ih => exact .cons ⟨by omega, rfl⟩ ih
  have hall : List.Forall₂ (fun c d => d < base ∧ c = Nat.digitChar d) (cs.map Char.toLower)
      (List.replicate zeros 0 ++ ds) := by
    rw [h]
    exact List.rel_append (hzeros zeros) hds
  rw [List.forall₂_map_left_iff] at hall
  refine .intro _ ?_ (hall.imp fun c d hd => ⟨hd.1, eq_of_toLower hd.2⟩) ?_
  · rintro rfl
    have hlength := congrArg List.length h
    have hpos := Nat.length_toDigits_pos (b := base) (n := n)
    simp at hlength
    omega
  · rw [List.reverse_append, List.reverse_replicate, Nat.ofDigits_append_replicate_zero, hvalue]

/-! ### Plain bodies -/

/-- What holds of the letters and digits of ASCII holds of any such character. -/
theorem of_isAlphanum {P : Char → Prop} (h : c.isAlphanum)
    (hall : ∀ code < 128, (Char.ofNat code).isAlphanum → P (Char.ofNat code)) : P c := by
  have hcode : c.toNat < 128 := by
    delta Char.isAlphanum Char.isAlpha Char.isUpper Char.isLower Char.isDigit at h
    simp only [Bool.or_eq_true, Bool.and_eq_true, decide_eq_true_eq, ge_iff_le,
      UInt32.le_iff_toNat_le] at h
    have hlast : 'z'.val.toNat = 122 := rfl
    have hupper : 'Z'.val.toNat = 90 := rfl
    have hdigit : '9'.val.toNat = 57 := rfl
    change c.val.toNat < 128
    omega
  have hc := hall c.toNat hcode
  rw [Char.ofNat_toNat] at hc
  exact hc h

theorem Plain.isBlank_eq (h : Plain base cs) (hc : c ∈ cs) : isBlank c = false :=
  of_isAlphanum (P := fun c => isBlank c = false) (h c hc).1 (by decide +kernel)

theorem Plain.ne_mark (h : Plain base cs) : ∀ c ∈ ['+', '-', '_'], c ∉ cs := by
  intro c hc hmem
  exact of_isAlphanum (P := (· ∉ ['+', '-', '_'])) (h c hmem).1 (by decide +kernel) hc

theorem Plain.asciiDigit (h : Plain base cs) (hbase : base ≤ 16) (hc : c ∈ cs)
    {d : Nat} (hd : digitIn? base c = some d) : AsciiDigit base c d := by
  have hlt := digitIn?_lt hd
  rw [digitIn?, Option.filter_eq_some_iff] at hd
  refine ⟨hlt, ?_⟩
  exact of_isAlphanum (P := fun c => ∀ d < 16, digit? c = some d →
    c = Nat.digitChar d ∨ c = (Nat.digitChar d).toUpper) (h c hc).1 (by decide +kernel) d
    (by omega) hd.1

theorem Plain.eq_nil_of_pads (h : Plain base body) {part : List Char} (sub : part ⊆ body)
    (pads : ∀ c ∈ part, padsNumber c) : part = [] := by
  refine List.eq_nil_iff_forall_not_mem.2 fun c hc => ?_
  have hblank := isBlank_of_padsNumber (pads c hc)
  rw [h.isBlank_eq (sub hc)] at hblank
  cases hblank

theorem Continues.forall₂ {ds : List Nat} (h : Continues base cs ds) (unlined : '_' ∉ cs) :
    List.Forall₂ (fun c d => digitIn? base c = some d) cs ds := by
  induction h with
  | nil => exact .nil
  | digit value _ ih => exact .cons value (ih fun hline => unlined (List.mem_cons_of_mem _ hline))
  | apart => exact absurd List.mem_cons_self unlined

theorem Grouped.writes (h : Grouped base n body) (plain : Plain base body) (hbase : base ≤ 16) :
    Writes (AsciiDigit base) base n body := by
  obtain ⟨first, rest, value⟩ := h
  rename_i c d cs ds
  have unlined : '_' ∉ cs := fun hline =>
    plain.ne_mark '_' (by decide) (List.mem_cons_of_mem _ hline)
  have digits : List.Forall₂ (fun c d => digitIn? base c = some d) (c :: cs) (d :: ds) :=
    .cons first (rest.forall₂ unlined)
  have within := (List.forall₂_and_left _ _).2 ⟨fun _ hc => hc, digits⟩
  exact .intro _ (List.cons_ne_nil c cs)
    (within.imp fun _ _ hd => plain.asciiDigit hbase hd.1 hd.2) value

/-- A plain integer has neither padding nor a sign nor a second mark: it is made of digits. -/
theorem WritesInteger.writes (h : WritesInteger base v body) (plain : Plain base body)
    (hbase : base ≤ 16) : ∃ n : Nat, Writes (AsciiDigit base) base n body ∧ v = n := by
  obtain ⟨padBefore, signed, marked, grouped, padAfter, rfl⟩ := h
  obtain rfl := plain.eq_nil_of_pads (fun _ hc => by simp [hc]) padBefore
  obtain rfl := plain.eq_nil_of_pads (fun _ hc => by simp [hc]) padAfter
  rw [List.nil_append, List.append_nil] at plain ⊢
  cases signed with
  | plus => exact absurd List.mem_cons_self (plain.ne_mark '+' (by decide))
  | minus => exact absurd List.mem_cons_self (plain.ne_mark '-' (by decide))
  | none =>
      cases marked with
      | letter _ letter => exact absurd letter (plain _ (by simp)).2
      | apart _ letter => exact absurd letter (plain _ (by simp)).2
      | none => exact ⟨_, grouped.writes plain hbase, one_mul _⟩

end Text

/-! ### Numbers -/

/-- A number is decoded from its digits in any of the four notations: in hexadecimal digits behind
`0x` or `0X`, in binary digits behind `#`, in octal digits behind a zero, or in decimal digits
without a zero in front. -/
theorem readNumber_decodes (n : Nat) (s : String) :
    (∀ mark ∈ ['x', 'X'], ∀ cs, DigitsOf 16 n cs → Padded ('0' :: mark :: cs) s →
      readNumber s = .ok (n : Int)) ∧
    (∀ cs, DigitsOf 2 n cs → Padded ('#' :: cs) s → readNumber s = .ok (n : Int)) ∧
    (∀ cs, DigitsOf 8 n cs → Padded ('0' :: cs) s → readNumber s = .ok (n : Int)) ∧
    (Padded (Nat.toDigits 10 n) s → readNumber s = .ok (n : Int)) := by
  refine ⟨fun mark hmark cs digits padded => ?_, fun cs digits padded => ?_,
    fun cs digits padded => ?_, fun padded => ?_⟩
  · exact readNumber_eq_ok
      ⟨_, .hexadecimal (by simpa using hmark) (digits.writes (by decide)), padded⟩
  · exact readNumber_eq_ok ⟨_, .binary (digits.writes (by decide)), padded⟩
  · exact readNumber_eq_ok ⟨_, .octal (digits.writes (by decide)), padded⟩
  · refine readNumber_eq_ok ⟨_, .decimal (writes_toDigits (by decide) n) fun hzero => ?_, padded⟩
    rw [eq_zero_of_head?_toDigits (by decide) hzero, Nat.toDigits_zero]

theorem readNumber_decodes_thirtyOne :
    readNumber " 0X01F " = .ok 31 ∧ readNumber "#011111" = .ok 31 ∧ readNumber "0037" = .ok 31 ∧
      readNumber "31 " = .ok 31 := by
  have none : ∀ c ∈ [], isBlank c := List.forall_mem_nil _
  have one : ∀ c ∈ [' '], isBlank c := List.forall_mem_singleton.2 rfl
  obtain ⟨hexadecimal, -, -, -⟩ := readNumber_decodes 31 " 0X01F "
  obtain ⟨-, binary, -, -⟩ := readNumber_decodes 31 "#011111"
  obtain ⟨-, -, octal, -⟩ := readNumber_decodes 31 "0037"
  obtain ⟨-, -, -, decimal⟩ := readNumber_decodes 31 "31 "
  refine ⟨?_, ?_, ?_, ?_⟩
  · exact hexadecimal 'X' (by decide) ['0', '1', 'F'] ⟨1, by decide⟩ (.intro [' '] [' '] rfl one one)
  · exact binary ['0', '1', '1', '1', '1', '1'] ⟨1, by decide⟩ (.intro [] [] rfl none none)
  · exact octal ['0', '3', '7'] ⟨1, by decide⟩ (.intro [] [] rfl none none)
  · exact decimal (.intro [] [' '] rfl none one)

/-- A text from which a number is read is divided into a notation and an integer in its base. If the
integer is plain, it consists of digits, and the number is the one that they write. A number below
zero is read only where there is a minus sign. -/
theorem readNumber_accepts {s : String} {v : Int} (h : readNumber s = .ok v) :
    ∃ base body, Scaled base body (trim s).toList ∧ WritesInteger base v body ∧
      (Plain base body → ∃ n : Nat, Writes (AsciiDigit base) base n body ∧ v = n) ∧
      (v < 0 → '-' ∈ body) := by
  obtain ⟨base, body, scaled, written⟩ := readNumber_eq_ok_iff.1 h
  refine ⟨base, body, scaled, written, fun plain => written.writes plain scaled.base_le, ?_⟩
  intro negative
  obtain ⟨-, signed, -, -, -, rfl⟩ := written
  cases signed with
  | none => omega
  | plus => omega
  | minus => simp

theorem readNumber_accepts_plain : readNumber " 0x1F" = .ok 31 ∧ Plain 16 ['1', 'F'] ∧
    Scaled 16 ['1', 'F'] (trim " 0x1F").toList ∧
      ∃ n : Nat, Writes (AsciiDigit 16) 16 n ['1', 'F'] ∧ (31 : Int) = n := by
  have hread : readNumber " 0x1F" = .ok 31 := by decide +kernel
  have hplain : Plain 16 ['1', 'F'] := by
    unfold Plain
    rw [List.forall_mem_cons, List.forall_mem_singleton]
    decide
  have hmark : 'x' ∈ ['x', 'X'] := by decide
  have hscaled : Scaled 16 ['1', 'F'] (trim " 0x1F").toList := .hexadecimal hmark
  obtain ⟨base, body, scaled, -, digits, -⟩ := readNumber_accepts hread
  cases hscaled.scaleChars_eq.symm.trans scaled.scaleChars_eq
  exact ⟨hread, hplain, hscaled, digits hplain⟩

/-- A number below zero is read, from a text that is not made of digits in any of the notations. -/
theorem readNumber_accepts_negative : readNumber "-5" = .ok (-5) ∧ ¬ (0 : Int) ≤ -5 ∧
    ¬ ∃ base body n, Scaled base body (trim "-5").toList ∧ Writes (AsciiDigit base) base n body := by
  refine ⟨by decide +kernel, by decide, ?_⟩
  rintro ⟨base, body, n, scaled, writes⟩
  have hdecimal : Scaled 10 ['-', '5'] (trim "-5").toList := .decimal (by decide) (by decide)
  cases hdecimal.scaleChars_eq.symm.trans scaled.scaleChars_eq
  exact (writes.ordinary (by decide) '-' List.mem_cons_self).2 (by decide)

end RegisterMap
