import RegisterMap.Proofs.ScaledNumerals

/-!
# What the reader of integers takes

In a known base, an integer is a sign, a mark of the base and digits, with at most one underscore
between two digits and with padding around all of it (`WritesInteger`). The sign and the mark may be
left out. These texts are read, as the integers that they write, and no others are
(`integer?_eq_some_iff`).

Each part of the reader is compared with its part of the text: what continues a number
(`Continues`), a whole number (`Grouped`), the mark in front of it (`BaseMark`). No part has to look
ahead: a digit is neither an underscore nor the letter of its own base, and the first and the last
character of an integer are no padding.
-/

namespace RegisterMap.Text

/-- The characters continue a number by the given digits, each with at most one underscore in front
of it. -/
inductive Continues (base : Nat) : List Char → List Nat → Prop
  | nil : Continues base [] []
  | digit {c : Char} {d : Nat} {cs : List Char} {ds : List Nat} (value : digitIn? base c = some d)
      (rest : Continues base cs ds) : Continues base (c :: cs) (d :: ds)
  | apart {c : Char} {d : Nat} {cs : List Char} {ds : List Nat} (value : digitIn? base c = some d)
      (rest : Continues base cs ds) : Continues base ('_' :: c :: cs) (d :: ds)

/-- The characters write a number by one or more digits with at most one underscore between each two
of them. -/
inductive Grouped (base n : Nat) : List Char → Prop
  | intro {c : Char} {d : Nat} {cs : List Char} {ds : List Nat} (first : digitIn? base c = some d)
      (rest : Continues base cs ds) (value : Nat.ofDigits base (d :: ds).reverse = n) :
      Grouped base n (c :: cs)

/-- The characters are a mark of the base, or nothing: a zero with the letter of the base, with or
without an underscore behind it. -/
inductive BaseMark (base : Nat) : List Char → Prop
  | none : BaseMark base []
  | letter {z l : Char} (zero : decimal? z = some 0) (letter : baseLetter? base = some l.toLower) :
      BaseMark base [z, l]
  | apart {z l : Char} (zero : decimal? z = some 0) (letter : baseLetter? base = some l.toLower) :
      BaseMark base [z, l, '_']

/-- The characters are a sign, or nothing. -/
inductive Sign : Int → List Char → Prop
  | none : Sign 1 []
  | plus : Sign 1 ['+']
  | minus : Sign (-1) ['-']

/-- The characters write an integer in a base: its sign, a mark of the base and its digits, with or
without padding around them. -/
inductive WritesInteger (base : Nat) (v : Int) : List Char → Prop
  | intro {before sign mark digits after : List Char} {unit : Int} {n : Nat}
      (padBefore : ∀ c ∈ before, padsNumber c) (signed : Sign unit sign)
      (marked : BaseMark base mark) (grouped : Grouped base n digits)
      (padAfter : ∀ c ∈ after, padsNumber c) (value : unit * n = v) :
      WritesInteger base v (before ++ (sign ++ (mark ++ digits)) ++ after)

variable {base n m : Nat} {v : Int} {c : Char} {d : Nat} {cs mark digits : List Char}

/-! ### Characters -/

theorem eq_of_toLower {l : Char} (h : c.toLower = l) : c = l ∨ c = l.toUpper := by
  subst h
  by_cases hupper : c.val ≥ 'A'.val ∧ c.val ≤ 'Z'.val
  · have hcapital : ∀ code ≤ 90, 65 ≤ code →
        Char.ofNat code = (Char.ofNat code).toLower.toUpper := by
      decide +kernel
    simp only [ge_iff_le, UInt32.le_iff_toNat_le] at hupper
    have hc := hcapital c.toNat hupper.2 hupper.1
    rw [Char.ofNat_toNat] at hc
    exact .inr hc
  · left
    delta Char.toLower
    rw [dif_neg hupper]

/-- The character may be a part of an integer: it is a digit of some base, a sign or an
underscore. -/
def Significant (c : Char) : Prop :=
  (digit? c).isSome ∨ c ∈ ['+', '-', '_']

theorem isSome_digit?_of_digitIn? (h : digitIn? base c = some d) : (digit? c).isSome := by
  rw [digitIn?, Option.filter_eq_some_iff] at h
  exact Option.isSome_iff_exists.2 ⟨d, h.1⟩

theorem isSome_digit?_of_decimal? (h : decimal? c = some d) : (digit? c).isSome := by
  unfold digit?
  split
  · rfl
  · split
    · rfl
    · rw [h, Option.isSome_some]

theorem isSome_digit?_of_baseLetter (h : baseLetter? base = some c.toLower) :
    (digit? c).isSome := by
  unfold baseLetter? at h
  split at h
  all_goals
    first
    | cases h
    | rcases eq_of_toLower (Option.some.inj h).symm with rfl | rfl <;> decide

theorem isBlank_of_digit? (h : digit? c = some d) : isBlank c = false := by
  have hletter (hlow : 'A'.toNat ≤ c.toNat) (hhigh : c.toNat ≤ 'z'.toNat) : isBlank c = false := by
    have hA : 'A'.toNat = 65 := rfl
    have hz : 'z'.toNat = 122 := rfl
    simp only [isBlank, Bool.or_eq_false_iff, Bool.and_eq_false_iff, decide_eq_false_iff_not,
      beq_eq_false_iff_ne]
    omega
  unfold digit? at h
  split at h
  · next hc => exact hletter (le_trans (by decide) hc.1) hc.2
  · split at h
    · next hc => exact hletter hc.1 (le_trans hc.2 (by decide))
    · exact (DecimalDigit.plain h).1

theorem Significant.isBlank_eq (h : Significant c) : isBlank c = false := by
  rcases h with h | h
  · obtain ⟨d, hd⟩ := Option.isSome_iff_exists.1 h
    exact isBlank_of_digit? hd
  · rw [List.mem_cons, List.mem_pair] at h
    rcases h with rfl | rfl | rfl <;> decide

/-- The letter of a base is no digit of it. -/
theorem digitIn?_baseLetter (h : baseLetter? base = some c.toLower) : digitIn? base c = none := by
  unfold baseLetter? at h
  split at h
  all_goals
    first
    | cases h
    | rcases eq_of_toLower (Option.some.inj h).symm with rfl | rfl <;> decide

/-! ### Digits and underscores -/

/-- A number is continued by digits with at most one underscore in front of each. -/
theorem continueNumber?_eq_some_iff : continueNumber? base n cs = some m ↔
    ∃ ds, Continues base cs ds ∧ ds.foldl (fun n d => n * base + d) n = m := by
  constructor
  · intro h
    induction n, cs using continueNumber?.induct base with
    | case1 n =>
        cases h
        exact ⟨[], .nil, rfl⟩
    | case2 n c cs ih =>
        rw [continueNumber?, Option.bind_eq_some_iff] at h
        obtain ⟨d, hd, h⟩ := h
        obtain ⟨ds, hds, hvalue⟩ := ih d h
        exact ⟨d :: ds, .apart hd hds, hvalue⟩
    | case3 n c cs alone ih =>
        rw [continueNumber?.eq_3 _ _ _ _ alone, Option.bind_eq_some_iff] at h
        obtain ⟨d, hd, h⟩ := h
        obtain ⟨ds, hds, hvalue⟩ := ih d h
        exact ⟨d :: ds, .digit hd hds, hvalue⟩
  · rintro ⟨ds, hds, rfl⟩
    induction hds generalizing n with
    | nil => rfl
    | @digit c d cs ds value rest ih =>
        rw [continueNumber?.eq_3, value, Option.bind_some, ih, List.foldl_cons]
        rintro _ _ rfl
        cases value
    | @apart c d cs ds value rest ih =>
        rw [continueNumber?, value, Option.bind_some, ih, List.foldl_cons]

/-- A number is written by its digits with at most one underscore between each two of them. -/
theorem magnitude?_eq_some_iff : magnitude? base cs = some n ↔ Grouped base n cs := by
  constructor
  · intro h
    cases cs with
    | nil => cases h
    | cons c cs =>
        obtain ⟨d, hd, h⟩ := Option.bind_eq_some_iff.1 h
        obtain ⟨ds, hds, hvalue⟩ := continueNumber?_eq_some_iff.1 h
        refine .intro hd hds ?_
        rw [← foldl_digits, List.foldl_cons, Nat.zero_mul, Nat.zero_add, hvalue]
  · rintro ⟨first, rest, value⟩
    refine Option.bind_eq_some_iff.2 ⟨_, first, continueNumber?_eq_some_iff.2 ⟨_, rest, ?_⟩⟩
    rw [← value, ← foldl_digits, List.foldl_cons, Nat.zero_mul, Nat.zero_add]

/-! ### Marks of a base -/

theorem exists_baseMark (base : Nat) (cs : List Char) :
    ∃ mark, BaseMark base mark ∧ mark ++ dropMark base cs = cs := by
  unfold dropMark
  split
  · split
    · next hmark =>
      split
      · exact ⟨_, .apart hmark.1 hmark.2, rfl⟩
      · exact ⟨_, .letter hmark.1 hmark.2, rfl⟩
    · exact ⟨[], .none, rfl⟩
  · exact ⟨[], .none, rfl⟩

/-- A mark is told from the digits behind it, and digits are not taken for a mark. -/
theorem BaseMark.dropMark_append (h : BaseMark base mark) (grouped : Grouped base n digits) :
    dropMark base (mark ++ digits) = digits := by
  obtain ⟨first, rest, -⟩ := grouped
  cases h with
  | none =>
      cases rest with
      | nil => rfl
      | digit value _ =>
          refine if_neg fun hmark => ?_
          rw [digitIn?_baseLetter hmark.2] at value
          cases value
      | apart _ _ =>
          refine if_neg fun hmark => absurd hmark.2 ?_
          unfold baseLetter?
          split <;> decide
  | letter zero letter =>
      rw [List.cons_append, List.singleton_append, dropMark, if_pos ⟨zero, letter⟩]
      rintro _ heq
      cases heq
      cases first
  | apart zero letter => exact if_pos ⟨zero, letter⟩

/-! ### Integers -/

/-- What is dropped at the ends of a text is what may be dropped there. -/
theorem exists_dropped (p : Char → Bool) (cs : List Char) : ∃ before after,
    cs = before ++ trimChars p cs ++ after ∧ (∀ c ∈ before, p c) ∧ ∀ c ∈ after, p c := by
  refine ⟨cs.takeWhile p, ((cs.dropWhile p).reverse.takeWhile p).reverse, ?_,
    fun c hc => List.mem_takeWhile_imp hc, fun c hc => List.mem_takeWhile_imp (List.mem_reverse.1 hc)⟩
  rw [trimChars, List.append_assoc, ← List.reverse_append, List.takeWhile_append_dropWhile,
    List.reverse_reverse, List.takeWhile_append_dropWhile]

/-- What continues a number consists of digits and underscores. -/
theorem Continues.significant {ds : List Nat} (h : Continues base cs ds) :
    ∀ c ∈ cs, Significant c := by
  induction h with
  | nil => exact List.forall_mem_nil _
  | digit value _ ih => exact List.forall_mem_cons.2 ⟨.inl (isSome_digit?_of_digitIn? value), ih⟩
  | apart value _ ih =>
      exact List.forall_mem_cons.2 ⟨.inr (by decide),
        List.forall_mem_cons.2 ⟨.inl (isSome_digit?_of_digitIn? value), ih⟩⟩

theorem Grouped.significant (h : Grouped base n digits) : ∀ c ∈ digits, Significant c := by
  obtain ⟨first, rest, -⟩ := h
  exact List.forall_mem_cons.2 ⟨.inl (isSome_digit?_of_digitIn? first), rest.significant⟩

theorem BaseMark.significant (h : BaseMark base mark) : ∀ c ∈ mark, Significant c := by
  cases h with
  | none => exact List.forall_mem_nil _
  | letter zero letter =>
      simp only [List.forall_mem_cons]
      exact ⟨.inl (isSome_digit?_of_decimal? zero), .inl (isSome_digit?_of_baseLetter letter),
        List.forall_mem_nil _⟩
  | apart zero letter =>
      simp only [List.forall_mem_cons]
      exact ⟨.inl (isSome_digit?_of_decimal? zero), .inl (isSome_digit?_of_baseLetter letter),
        .inr (by decide), List.forall_mem_nil _⟩

theorem Sign.significant {unit : Int} {sign : List Char} (h : Sign unit sign) :
    ∀ c ∈ sign, Significant c := by
  cases h with
  | none => exact List.forall_mem_nil _
  | plus => exact List.forall_mem_singleton.2 (.inr (by decide))
  | minus => exact List.forall_mem_singleton.2 (.inr (by decide))

/-- The characters of an integer are significant, except for the padding around it. -/
theorem WritesInteger.padding_or_significant (h : WritesInteger base v cs) :
    ∀ c ∈ cs, padsNumber c ∨ Significant c := by
  obtain ⟨padBefore, signed, marked, grouped, padAfter, -⟩ := h
  simp only [List.forall_mem_append]
  exact ⟨⟨fun c hc => .inl (padBefore c hc), fun c hc => .inr (signed.significant c hc),
    fun c hc => .inr (marked.significant c hc), fun c hc => .inr (grouped.significant c hc)⟩,
    fun c hc => .inl (padAfter c hc)⟩

/-- What is behind the sign starts with a digit: with the zero of the mark if there is one. -/
theorem BaseMark.exists_digit (h : BaseMark base mark) (grouped : Grouped base n digits) :
    ∃ c cs, mark ++ digits = c :: cs ∧ (digit? c).isSome := by
  cases h with
  | none =>
      obtain ⟨first, -, -⟩ := grouped
      exact ⟨_, _, rfl, isSome_digit?_of_digitIn? first⟩
  | letter zero _ => exact ⟨_, _, rfl, isSome_digit?_of_decimal? zero⟩
  | apart zero _ => exact ⟨_, _, rfl, isSome_digit?_of_decimal? zero⟩

theorem writesInteger_of_integer? (h : integer? base cs = some v) : WritesInteger base v cs := by
  obtain ⟨before, after, hcs, hbefore, hafter⟩ := exists_dropped padsNumber cs
  have hwrites {sign unsigned : List Char} {unit : Int} {n : Nat} (signed : Sign unit sign)
      (htrim : trimChars padsNumber cs = sign ++ unsigned)
      (hread : magnitude? base (dropMark base unsigned) = some n) :
      WritesInteger base (unit * n) cs := by
    obtain ⟨mark, marked, hmark⟩ := exists_baseMark base unsigned
    rw [hcs, htrim, ← hmark]
    exact .intro hbefore signed marked (magnitude?_eq_some_iff.1 hread) hafter rfl
  unfold integer? at h
  split at h
  · next htrim =>
    obtain ⟨_, hlifted, rfl⟩ := Option.map_eq_some_iff.1 h
    obtain ⟨n, hread, hn⟩ := Option.bind_eq_some_iff.1 hlifted
    cases hn
    rw [← neg_one_mul]
    exact hwrites .minus htrim hread
  · next htrim =>
    obtain ⟨n, hread, rfl⟩ := Option.map_eq_some_iff.1 h
    rw [← one_mul (Int.ofNat n)]
    exact hwrites .plus htrim hread
  · obtain ⟨n, hread, rfl⟩ := Option.map_eq_some_iff.1 h
    rw [← one_mul (Int.ofNat n)]
    exact hwrites .none rfl hread

theorem WritesInteger.integer?_eq (h : WritesInteger base v cs) : integer? base cs = some v := by
  obtain ⟨padBefore, signed, marked, grouped, padAfter, rfl⟩ := h
  rename_i sign mark digits _ _ n
  obtain ⟨c, cs, hcs, hdigit⟩ := marked.exists_digit grouped
  have htight : Tight (sign ++ (mark ++ digits)) := by
    refine .of_forall (by simp [hcs]) ?_
    simp only [List.forall_mem_append]
    exact ⟨fun c hc => (signed.significant c hc).isBlank_eq,
      fun c hc => (marked.significant c hc).isBlank_eq,
      fun c hc => (grouped.significant c hc).isBlank_eq⟩
  have hread : magnitude? base (dropMark base (mark ++ digits)) = some n := by
    rw [marked.dropMark_append grouped]
    exact magnitude?_eq_some_iff.2 grouped
  rw [integer?, htight.trimChars_padded (fun _ => isBlank_of_padsNumber) padBefore padAfter]
  cases signed with
  | none =>
      rw [List.nil_append, one_mul]
      split
      · next heq =>
        cases hcs.symm.trans heq
        cases hdigit
      · next heq =>
        cases hcs.symm.trans heq
        cases hdigit
      · exact congrArg (Option.map Int.ofNat) hread
  | plus =>
      rw [one_mul]
      exact congrArg (Option.map Int.ofNat) hread
  | minus =>
      rw [neg_one_mul]
      exact Option.map_eq_some_iff.2 ⟨n, Option.bind_eq_some_iff.2 ⟨n, hread, rfl⟩, rfl⟩

/-- The integers that are read are those that the texts write. -/
theorem integer?_eq_some_iff : integer? base cs = some v ↔ WritesInteger base v cs :=
  ⟨writesInteger_of_integer?, WritesInteger.integer?_eq⟩

end RegisterMap.Text
