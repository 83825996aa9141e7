import Mathlib.Data.List.Nodup
import Mathlib.Data.List.TakeDrop
import RegisterMap.Proofs.Digits
import RegisterMap.Proofs.Paths
import RegisterMap.Proofs.Trimming

/-!
# Index tokens

What the index list of an array means is described by the text alone: it is a range of numbers
(`NumberRange`), or else a range of capital letters (`LetterRange`), or else it is divided at its
commas (`Listed`). Together with the length of the array this says which tokens its instances have
(`Labels`), if any.

The tokens that are read are these, and there is one for each instance; an index list that does not
provide them is refused (`tokens_label`). The tokens of a range, or of an array without an index
list, are distinct.
-/

namespace RegisterMap.Dimension

open Text

/-! ### The meaning of an index list -/

/-- The text has two sides and a hyphen between them, with or without blank space around it. -/
inductive Hyphenated (first last : List Char) : List Char → Prop
  | intro {before after : List Char} (hbefore : ∀ c ∈ before, isBlank c)
      (hafter : ∀ c ∈ after, isBlank c) :
      Hyphenated first last (first ++ before ++ '-' :: (after ++ last))

/-- The text is a range from one number to another, in decimal digits of any script. -/
inductive NumberRange (a b : Nat) (cs : List Char) : Prop
  | intro {first last : List Char} (sides : Hyphenated first last cs)
      (lower : Writes DecimalDigit 10 a first) (upper : Writes DecimalDigit 10 b last)

/-- The text is a range from one capital letter of ASCII to another. -/
structure LetterRange (x y : Char) (cs : List Char) : Prop where
  sides : Hyphenated [x] [y] cs
  lower : 'A' ≤ x ∧ x ≤ 'Z'
  upper : 'A' ≤ y ∧ y ≤ 'Z'

/-- The tokens are the pieces of the text between its commas, without the blank space around each of
them. -/
inductive Listed (tokens : List String) (cs : List Char) : Prop
  | intro (pieces : List (List Char)) (ne : pieces ≠ []) (undivided : ∀ piece ∈ pieces, ',' ∉ piece)
      (joined : [','].intercalate pieces = cs)
      (trimmed : tokens = pieces.map fun piece => trim (String.ofList piece))

/-- The numerals of so many numbers in a row. -/
def numeralsFrom (first count : Nat) : List String :=
  (List.range count).map fun i => toString (first + i)

/-- So many letters in a row. -/
def lettersFrom (first : Char) (count : Nat) : List String :=
  (List.range count).map fun i => String.singleton (Char.ofNat (first.toNat + i))

/-- The instances of an array with this dimension have these index tokens. -/
inductive Labels (dim : Dimension) : List String → Prop
  | unindexed (absent : dim.index = none) : Labels dim (numeralsFrom 0 dim.length.toNat)
  | numbers {index : String} {a b : Nat} (given : dim.index = some index)
      (range : NumberRange a b (trim index).toList) (count : (b : Int) - a + 1 = dim.length) :
      Labels dim (numeralsFrom a dim.length.toNat)
  | letters {index : String} {x y : Char} (given : dim.index = some index)
      (range : LetterRange x y (trim index).toList)
      (count : (y.toNat : Int) - x.toNat + 1 = dim.length) :
      Labels dim (lettersFrom x dim.length.toNat)
  | pieces {index : String} {tokens : List String} (given : dim.index = some index)
      (noNumbers : ¬ ∃ a b, NumberRange a b (trim index).toList)
      (noLetters : ¬ ∃ x y, LetterRange x y (trim index).toList)
      (listed : Listed tokens (trim index).toList) (whole : "" ∉ tokens)
      (count : (tokens.length : Int) = dim.length) : Labels dim tokens

/-- The index list does not provide a token for each instance: one of its pieces is blank, or its
tokens are more or fewer than the instances. -/
inductive Mislabels (dim : Dimension) : DimensionFault → Prop
  | blank {index : String} {tokens : List String} (given : dim.index = some index)
      (listed : Listed tokens (trim index).toList) (blank : "" ∈ tokens) :
      Mislabels dim (.malformedIndex index)
  | count {index : String} {tokens : List String} (given : dim.index = some index)
      (denoted : indexTokens index = .ok tokens) (other : (tokens.length : Int) ≠ dim.length) :
      Mislabels dim (.countMismatch index tokens.length dim.length)

/-- The index list is a range, if there is one at all. -/
def Ranged (dim : Dimension) : Prop :=
  ∀ index, dim.index = some index → (∃ a b, NumberRange a b (trim index).toList) ∨
    ∃ x y, LetterRange x y (trim index).toList

/-! ### Hyphens -/

/-- The characters can stand at either side of a hyphen: none is blank or a hyphen. -/
def Solid (cs : List Char) : Prop :=
  ∀ c ∈ cs, isBlank c = false ∧ c ≠ '-'

variable {cs first last : List Char}

theorem Solid.dropWhile_eq (h : Solid cs) : cs.dropWhile isBlank = cs := by
  cases cs with
  | nil => rfl
  | cons c cs => exact Starts.dropWhile_eq (fun _ hc => hc) ⟨c, rfl, (h c List.mem_cons_self).1⟩

theorem Solid.reverse (h : Solid cs) : Solid cs.reverse :=
  fun c hc => h c (List.mem_reverse.1 hc)

/-- Around a hyphen stands what is left of its two sides without the blank space next to it. -/
theorem hyphenated_of_eq_some (h : hyphenated? cs = some (first, last)) :
    Hyphenated first last cs := by
  rw [hyphenated?, List.span_eq_takeWhile_dropWhile] at h
  cases hrest : cs.dropWhile (· != '-') with
  | nil =>
      rw [hrest] at h
      cases h
  | cons c rest =>
      rw [hrest] at h
      cases h
      -- The blank space before the hyphen is the first that is met when reading backwards.
      let front := cs.takeWhile (· != '-')
      have hfront : (front.reverse.dropWhile isBlank).reverse ++
          (front.reverse.takeWhile isBlank).reverse = front := by
        rw [← List.reverse_append, List.takeWhile_append_dropWhile, List.reverse_reverse]
      have hhyphen : c = '-' := by
        have hhead := List.head?_dropWhile_not (· != '-') cs
        rw [hrest] at hhead
        simpa using hhead
      have hcs : cs = front ++ '-' :: (rest.takeWhile isBlank ++ rest.dropWhile isBlank) := by
        rw [List.takeWhile_append_dropWhile, ← hhyphen, ← hrest]
        exact List.takeWhile_append_dropWhile.symm
      have hsides : Hyphenated (front.reverse.dropWhile isBlank).reverse (rest.dropWhile isBlank)
          ((front.reverse.dropWhile isBlank).reverse ++ (front.reverse.takeWhile isBlank).reverse ++
            '-' :: (rest.takeWhile isBlank ++ rest.dropWhile isBlank)) :=
        .intro (fun c hc => List.mem_takeWhile_imp (List.mem_reverse.1 hc))
          fun c hc => List.mem_takeWhile_imp hc
      rwa [hfront, ← hcs] at hsides

/-- Sides of a hyphen in which there is neither blank space nor a hyphen are found. -/
theorem Hyphenated.eq_some (h : Hyphenated first last cs) (hfirst : Solid first)
    (hlast : Solid last) : hyphenated? cs = some (first, last) := by
  obtain ⟨hbefore, hafter⟩ := h
  rename_i before after
  have hfront : ∀ c ∈ first ++ before, (c != '-') = true := by
    intro c hc
    rw [bne_iff_ne]
    rcases List.mem_append.1 hc with hc | hc
    · exact (hfirst c hc).2
    · rintro rfl
      exact absurd (hbefore _ hc) (by decide)
  have hspan : (first ++ before ++ '-' :: (after ++ last)).span (· != '-') =
      (first ++ before, '-' :: (after ++ last)) := by
    rw [List.span_eq_takeWhile_dropWhile, List.takeWhile_append_of_pos hfront,
      List.dropWhile_append_of_pos hfront]
    simp
  have hleft : ((first ++ before).reverse.dropWhile isBlank).reverse = first := by
    rw [List.reverse_append, List.dropWhile_append_of_pos, hfirst.reverse.dropWhile_eq,
      List.reverse_reverse]
    exact fun c hc => hbefore c (List.mem_reverse.1 hc)
  have hright : (after ++ last).dropWhile isBlank = last := by
    rw [List.dropWhile_append_of_pos hafter, hlast.dropWhile_eq]
  rw [hyphenated?, hspan]
  dsimp only
  rw [hleft, hright]

/-! ### Ranges -/

variable {a b : Nat} {x y : Char}

theorem isNumber_iff : (!cs.isEmpty && cs.all fun c => (decimal? c).isSome) = true ↔
    cs ≠ [] ∧ ∀ c ∈ cs, (decimal? c).isSome := by
  simp

theorem solid_of_writes (h : Writes DecimalDigit 10 a cs) : Solid cs := by
  intro c hc
  obtain ⟨d, hd⟩ := h.forall_digit c hc
  exact ⟨hd.plain.1, hd.plain.2.1⟩

theorem numericRange?_eq_some_iff : numericRange? cs = some (a, b) ↔ NumberRange a b cs := by
  constructor
  · intro h
    rw [numericRange?] at h
    split at h
    · next first last hsides =>
      dsimp only at h
      split at h
      · next hnumbers =>
        cases h
        rw [Bool.and_eq_true, isNumber_iff, isNumber_iff] at hnumbers
        obtain ⟨⟨hfirst, lower⟩, hlast, upper⟩ := hnumbers
        exact .intro (hyphenated_of_eq_some hsides) (writes_decimalValue hfirst lower)
          (writes_decimalValue hlast upper)
      · cases h
    · cases h
  · rintro ⟨sides, lower, upper⟩
    rename_i first last
    have hnumber {n : Nat} {ds : List Char} (h : Writes DecimalDigit 10 n ds) :
        (!ds.isEmpty && ds.all fun c => (decimal? c).isSome) = true := by
      refine isNumber_iff.2 ⟨h.ne_nil, fun c hc => ?_⟩
      obtain ⟨d, hd⟩ := h.forall_digit c hc
      exact Option.isSome_iff_exists.2 ⟨d, hd⟩
    rw [numericRange?, sides.eq_some (solid_of_writes lower) (solid_of_writes upper)]
    dsimp only
    rw [if_pos, lower.decimalValue_eq, upper.decimalValue_eq]
    rw [Bool.and_eq_true]
    exact ⟨hnumber lower, hnumber upper⟩

theorem numericRange?_eq_none_iff :
    numericRange? cs = none ↔ ¬ ∃ a b, NumberRange a b cs := by
  rw [Option.eq_none_iff_forall_ne_some, Prod.forall, not_exists]
  simp only [ne_eq, numericRange?_eq_some_iff, not_exists]

theorem solid_capital (h : 'A' ≤ x ∧ x ≤ 'Z') : Solid [x] := by
  have hall : ∀ n ≤ 90, 65 ≤ n → isBlank (Char.ofNat n) = false ∧ Char.ofNat n ≠ '-' := by decide
  intro c hc
  obtain rfl := List.mem_singleton.1 hc
  have hc := hall c.toNat h.2 h.1
  rwa [Char.ofNat_toNat] at hc

theorem letterRange?_eq_some_iff : letterRange? cs = some (x, y) ↔ LetterRange x y cs := by
  constructor
  · intro h
    rw [letterRange?] at h
    split at h
    · next hsides =>
      dsimp only at h
      split at h
      · next hcapitals =>
        cases h
        rw [Bool.and_eq_true, decide_eq_true_eq, decide_eq_true_eq] at hcapitals
        exact ⟨hyphenated_of_eq_some hsides, hcapitals.1, hcapitals.2⟩
      · cases h
    · cases h
  · rintro ⟨sides, lower, upper⟩
    rw [letterRange?, sides.eq_some (solid_capital lower) (solid_capital upper)]
    dsimp only
    rw [if_pos]
    rw [Bool.and_eq_true, decide_eq_true_eq, decide_eq_true_eq]
    exact ⟨lower, upper⟩

theorem letterRange?_eq_none_iff :
    letterRange? cs = none ↔ ¬ ∃ x y, LetterRange x y cs := by
  rw [Option.eq_none_iff_forall_ne_some, Prod.forall, not_exists]
  simp only [ne_eq, letterRange?_eq_some_iff, not_exists]

/-- A range of letters is not a range of numbers. -/
theorem LetterRange.not_numberRange (h : LetterRange x y cs) : ¬ NumberRange a b cs := by
  rintro ⟨sides, lower, upper⟩
  have hsame := (sides.eq_some (solid_of_writes lower) (solid_of_writes upper)).symm.trans
    (h.sides.eq_some (solid_capital h.lower) (solid_capital h.upper))
  obtain ⟨rfl, rfl⟩ := Prod.mk.inj (Option.some.inj hsame)
  obtain ⟨d, hd⟩ := lower.forall_digit x (List.mem_singleton_self x)
  exact hd.plain.2.2 h.lower

/-! ### Reading an index list -/

variable {index : String} {tokens : List String}

theorem indexTokens_of_numbers (range : NumberRange a b (trim index).toList) :
    indexTokens index = .ok (numeralsFrom a (b + 1 - a)) := by
  rw [trim, String.toList_ofList] at range
  rw [indexTokens]
  dsimp only
  rw [numericRange?_eq_some_iff.2 range, numeralsFrom]
  dsimp only
  rw [numerals, List.range'_eq_map_range, List.map_map]
  rfl

theorem indexTokens_of_letters (range : LetterRange x y (trim index).toList) :
    indexTokens index = .ok (lettersFrom x (y.toNat + 1 - x.toNat)) := by
  rw [trim, String.toList_ofList] at range
  have hnone : numericRange? (trimChars isBlank index.toList) = none := by
    rw [numericRange?_eq_none_iff]
    rintro ⟨a, b, numbers⟩
    exact range.not_numberRange numbers
  rw [indexTokens]
  dsimp only
  rw [hnone, letterRange?_eq_some_iff.2 range, lettersFrom]
  dsimp only
  rw [letters, List.range'_eq_map_range, List.map_map]
  rfl

/-- Every text is divided at its commas, in one way. -/
theorem listed_iff : Listed tokens cs ↔
    tokens = (pieces ',' (String.ofList cs)).map trim := by
  constructor
  · rintro ⟨raw, ne, undivided, rfl, rfl⟩
    rw [pieces_join ne undivided, List.map_map]
    rfl
  · intro h
    rw [pieces, String.toList_ofList, List.map_map] at h
    refine .intro (cs.splitOn ',') (List.splitOnP_ne_nil _ _) ?_ (List.intercalate_splitOn ',') h
    intro piece hpiece hcomma
    have hother := eq_false_of_mem_splitOnP hpiece hcomma
    simp at hother

/-- An index list that is no range is divided at its commas, and refused if a piece is blank. -/
theorem indexTokens_of_listed (noNumbers : ¬ ∃ a b, NumberRange a b (trim index).toList)
    (noLetters : ¬ ∃ x y, LetterRange x y (trim index).toList)
    (listed : Listed tokens (trim index).toList) :
    indexTokens index = if "" ∈ tokens then .error (.malformedIndex index) else .ok tokens := by
  rw [trim, String.toList_ofList] at noNumbers noLetters listed
  have hblank : tokens.any (·.isEmpty) ↔ "" ∈ tokens := by simp
  rw [indexTokens]
  dsimp only
  rw [numericRange?_eq_none_iff.2 noNumbers, letterRange?_eq_none_iff.2 noLetters]
  dsimp only
  rw [← listed_iff.1 listed]
  simp only [hblank]

/-! ### As many tokens as instances -/

variable {dim : Dimension}

@[simp] theorem length_numeralsFrom (first count : Nat) :
    (numeralsFrom first count).length = count := by
  rw [numeralsFrom, List.length_map, List.length_range]

@[simp] theorem length_lettersFrom (first : Char) (count : Nat) :
    (lettersFrom first count).length = count := by
  rw [lettersFrom, List.length_map, List.length_range]

/-- The tokens of an index list are taken if there is one for each instance. -/
theorem tokens_of_index (given : dim.index = some index) (found : indexTokens index = .ok tokens) :
    dim.tokens = if (tokens.length : Int) = dim.length then .ok tokens
      else .error (.countMismatch index tokens.length dim.length) := by
  rw [Dimension.tokens, given]
  dsimp only
  rw [found, ok_bind]

/-- The tokens that label the instances are read. -/
theorem Labels.tokens_eq (h : dim.Labels tokens) (repeated : 1 ≤ dim.length) :
    dim.tokens = .ok tokens := by
  cases h with
  | unindexed absent =>
      have hnumbers : (List.range dim.length.toNat).map toString =
          numeralsFrom 0 dim.length.toNat := by
        apply List.map_congr_left
        intro i _
        rw [Nat.zero_add]
      rw [Dimension.tokens, absent]
      dsimp only
      rw [hnumbers]
  | @numbers index a b given range count =>
      have hcount : b + 1 - a = dim.length.toNat := by omega
      have hfound := indexTokens_of_numbers range
      rw [hcount] at hfound
      rw [tokens_of_index given hfound, length_numeralsFrom, if_pos]
      omega
  | @letters index x y given range count =>
      have hcount : y.toNat + 1 - x.toNat = dim.length.toNat := by omega
      have hfound := indexTokens_of_letters range
      rw [hcount] at hfound
      rw [tokens_of_index given hfound, length_lettersFrom, if_pos]
      omega
  | pieces given noNumbers noLetters listed whole count =>
      have hfound := indexTokens_of_listed noNumbers noLetters listed
      rw [if_neg whole] at hfound
      rw [tokens_of_index given hfound, if_pos count]

/-- There are tokens that label the instances, or the index list is refused. -/
theorem labels_or_mislabels (repeated : 1 ≤ dim.length) : (∃ tokens, dim.Labels tokens) ∨
    ∃ fault, dim.tokens = .error fault ∧ dim.Mislabels fault := by
  have hrefused {index : String} {tokens : List String} (given : dim.index = some index)
      (found : indexTokens index = .ok tokens) (other : (tokens.length : Int) ≠ dim.length) :
      ∃ fault, dim.tokens = .error fault ∧ dim.Mislabels fault :=
    ⟨_, by rw [tokens_of_index given found, if_neg other], .count given found other⟩
  cases given : dim.index with
  | none => exact .inl ⟨_, .unindexed given⟩
  | some index =>
      by_cases numbers : ∃ a b, NumberRange a b (trim index).toList
      · obtain ⟨a, b, range⟩ := numbers
        by_cases count : (b : Int) - a + 1 = dim.length
        · exact .inl ⟨_, .numbers given range count⟩
        · refine .inr (hrefused given (indexTokens_of_numbers range) ?_)
          rw [length_numeralsFrom]
          omega
      by_cases letters : ∃ x y, LetterRange x y (trim index).toList
      · obtain ⟨x, y, range⟩ := letters
        by_cases count : (y.toNat : Int) - x.toNat + 1 = dim.length
        · exact .inl ⟨_, .letters given range count⟩
        · refine .inr (hrefused given (indexTokens_of_letters range) ?_)
          rw [length_lettersFrom]
          omega
      obtain ⟨tokens, listed⟩ : ∃ tokens, Listed tokens (trim index).toList :=
        ⟨_, listed_iff.2 rfl⟩
      have hfound := indexTokens_of_listed numbers letters listed
      by_cases whole : "" ∈ tokens
      · rw [if_pos whole] at hfound
        refine .inr ⟨_, ?_, .blank given listed whole⟩
        rw [Dimension.tokens, given]
        dsimp only
        rw [hfound]
        rfl
      · rw [if_neg whole] at hfound
        by_cases count : (tokens.length : Int) = dim.length
        · exact .inl ⟨tokens, .pieces given numbers letters listed whole count⟩
        · exact .inr (hrefused given hfound count)

/-- The instances have one list of tokens at most, the one that is read. -/
theorem tokens_eq_ok_iff (repeated : 1 ≤ dim.length) :
    dim.tokens = .ok tokens ↔ dim.Labels tokens := by
  constructor
  · intro h
    rcases labels_or_mislabels repeated with ⟨labels, hlabels⟩ | ⟨fault, hfault, -⟩
    · obtain rfl := Except.ok.inj ((hlabels.tokens_eq repeated).symm.trans h)
      exact hlabels
    · rw [h] at hfault
      cases hfault
  · exact fun h => h.tokens_eq repeated

/-! ### Distinct tokens -/

theorem toString_injective : Function.Injective (toString : Nat → String) := by
  intro m n h
  have hdigits : Nat.toDigits 10 m = Nat.toDigits 10 n := by
    rwa [Nat.toString_eq_repr, Nat.toString_eq_repr, Nat.repr_eq_ofList_toDigits,
      Nat.repr_eq_ofList_toDigits, String.ofList_inj] at h
  calc
    m = Nat.ofDigitChars 10 (Nat.toDigits 10 m) 0 := Nat.ofDigitChars_ten_toDigits.symm
    _ = Nat.ofDigitChars 10 (Nat.toDigits 10 n) 0 := by rw [hdigits]
    _ = n := Nat.ofDigitChars_ten_toDigits

theorem nodup_numeralsFrom (first count : Nat) : (numeralsFrom first count).Nodup := by
  apply List.Nodup.map _ List.nodup_range
  intro i j h
  have hsame : first + i = first + j := toString_injective h
  omega

theorem nodup_lettersFrom {count : Nat} (h : x.toNat + count ≤ 'Z'.toNat + 1) :
    (lettersFrom x count).Nodup := by
  have hvalue (i : Nat) (hi : i < count) : (Char.ofNat (x.toNat + i)).toNat = x.toNat + i := by
    have hall : ∀ n ≤ 90, (Char.ofNat n).toNat = n := by decide
    have hz : 'Z'.toNat = 90 := rfl
    exact hall _ (by omega)
  apply List.Nodup.map_on _ List.nodup_range
  intro i hi j hj h
  have hsame := congrArg Char.toNat (String.singleton_inj.1 h)
  rw [hvalue i (List.mem_range.1 hi), hvalue j (List.mem_range.1 hj)] at hsame
  omega

/-- The tokens of a range are distinct, and so are those of an array without an index list. -/
theorem Labels.nodup (h : dim.Labels tokens) (repeated : 1 ≤ dim.length) (ranged : dim.Ranged) :
    tokens.Nodup := by
  cases h with
  | unindexed => exact nodup_numeralsFrom ..
  | numbers => exact nodup_numeralsFrom ..
  | @letters index x y given range count =>
      have hy : y.toNat ≤ 'Z'.toNat := range.upper.2
      exact nodup_lettersFrom (by omega)
  | pieces given noNumbers noLetters =>
      rcases ranged _ given with range | range
      · exact absurd range noNumbers
      · exact absurd range noLetters

theorem Labels.length_eq (h : dim.Labels tokens) (repeated : 1 ≤ dim.length) :
    (tokens.length : Int) = dim.length := by
  cases h with
  | unindexed => rw [length_numeralsFrom, Int.toNat_of_nonneg (by omega)]
  | numbers => rw [length_numeralsFrom, Int.toNat_of_nonneg (by omega)]
  | letters => rw [length_lettersFrom, Int.toNat_of_nonneg (by omega)]
  | pieces _ _ _ _ _ count => exact count

/-- The index tokens that are read are those that label the instances: as many as there are
instances, and distinct unless they are listed one by one. If there are none, the index list is
refused. -/
theorem tokens_label {dim : Dimension} (repeated : 1 ≤ dim.length) :
    (∀ tokens, dim.tokens = .ok tokens ↔ dim.Labels tokens) ∧
      (∀ tokens, dim.Labels tokens →
        (tokens.length : Int) = dim.length ∧ (dim.Ranged → tokens.Nodup)) ∧
      ((∃ tokens, dim.Labels tokens) ∨
        ∃ fault, dim.tokens = .error fault ∧ dim.Mislabels fault) := by
  refine ⟨fun _ => tokens_eq_ok_iff repeated, fun tokens h => ?_, labels_or_mislabels repeated⟩
  exact ⟨h.length_eq repeated, h.nodup repeated⟩

/-- A range of numbers in digits of two scripts, with blank space around its hyphen. -/
def twoScripts : Dimension where
  length := 4
  step := 8
  index := some " ٩ - १२ "

/-- Neither the script of the digits nor blank space around the hyphen matters. -/
theorem tokens_label_twoScripts : 1 ≤ twoScripts.length ∧
    twoScripts.Labels ["9", "10", "11", "12"] ∧ ["9", "10", "11", "12"].Nodup := by
  have repeated : 1 ≤ twoScripts.length := by decide
  have hread : twoScripts.tokens.toOption.any (· = ["9", "10", "11", "12"]) := by decide +kernel
  obtain ⟨tokens, htokens, heq⟩ := exists_ok_of_any hread
  obtain rfl := of_decide_eq_true heq
  obtain ⟨hlabels, hlabelled, -⟩ := tokens_label repeated
  have hfour := (hlabels _).1 htokens
  refine ⟨repeated, hfour, (hlabelled _ hfour).2 ?_⟩
  rintro _ ⟨⟩
  exact .inl ⟨9, 12, numericRange?_eq_some_iff.1 (by decide +kernel)⟩

end RegisterMap.Dimension
