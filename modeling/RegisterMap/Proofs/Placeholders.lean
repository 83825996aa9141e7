import Mathlib.Data.List.Infix
import RegisterMap.Dimension

/-!
# Placeholders in templates

A text with placeholders is a sequence of gaps, in which there is no placeholder, with one
placeholder between each two of them. To replace all placeholders by a token is to put the token
between the gaps instead (`Fills`), and that is what is done from left to right (`fills_iff`): two
placeholders cannot overlap, so there is only one way of dividing a text.

If there is a placeholder at all, the token can be read off the filled text (`intercalate_inj`).
-/

namespace RegisterMap

/-- The characters in the place of an index token. -/
def placeholder : List Char :=
  ['%', 's']

/-- The second text is the first one with the token in the place of every placeholder. -/
inductive Fills (token cs filled : List Char) : Prop
  | intro (gaps : List (List Char)) (ne : gaps ≠ [])
      (plain : ∀ gap ∈ gaps, ¬ placeholder <:+: gap)
      (template : placeholder.intercalate gaps = cs)
      (result : token.intercalate gaps = filled)

/-- What stands between the placeholders of a text. -/
def gapsOf : List Char → List (List Char)
  | '%' :: 's' :: cs => [] :: gapsOf cs
  | c :: cs => (gapsOf cs).modifyHead (c :: ·)
  | [] => [[]]

variable {cs ds gap token t u : List Char} {gaps : List (List Char)} {c : Char}

/-! ### Where placeholders are -/

theorem placeholder_prefix_iff : placeholder <+: c :: cs ↔ c = '%' ∧ ['s'] <+: cs := by
  rw [placeholder, List.cons_prefix_cons]
  exact and_congr_left fun _ => eq_comm

theorem placeholder_infix_cons_iff :
    placeholder <:+: c :: cs ↔ (c = '%' ∧ ['s'] <+: cs) ∨ placeholder <:+: cs := by
  rw [List.infix_cons_iff, placeholder_prefix_iff]

/-- A placeholder that begins in one text may end in the next one. -/
theorem placeholder_infix_append_iff : placeholder <:+: cs ++ ds ↔
    placeholder <:+: cs ∨ placeholder <:+: ds ∨ ['%'] <:+ cs ∧ ['s'] <+: ds := by
  rw [List.infix_append_iff]
  refine or_congr_right' fun hleft => or_congr_right' fun hright => ?_
  constructor
  · rintro ⟨front, back, hsplit, hfront, hback⟩
    cases front with
    | nil =>
        obtain rfl : placeholder = back := hsplit
        exact absurd hback.isInfix hright
    | cons c front =>
        obtain ⟨rfl, hrest⟩ := List.cons.inj hsplit
        cases front with
        | nil =>
            obtain rfl : ['s'] = back := hrest
            exact ⟨hfront, hback⟩
        | cons c front =>
            obtain ⟨rfl, hnone⟩ := List.cons.inj hrest
            obtain ⟨rfl, rfl⟩ := List.append_eq_nil_iff.1 hnone.symm
            exact absurd hfront.isInfix hleft
  · rintro ⟨hfront, hback⟩
    exact ⟨['%'], ['s'], rfl, hfront, hback⟩

theorem hasPlaceholder_iff : hasPlaceholder cs ↔ placeholder <:+: cs := by
  induction cs using hasPlaceholder.induct with
  | case1 cs => simp [hasPlaceholder, placeholder_infix_cons_iff]
  | case2 c cs other ih =>
      rw [hasPlaceholder.eq_2 _ _ other, ih, placeholder_infix_cons_iff, or_iff_right]
      rintro ⟨rfl, rest, rfl⟩
      exact other rest rfl rfl
  | case3 => simp [hasPlaceholder, placeholder]

/-! ### The gaps of a text -/

theorem gapsOf_ne_nil (cs : List Char) : gapsOf cs ≠ [] := by
  induction cs using gapsOf.induct with
  | case1 cs => simp [gapsOf]
  | case2 c cs other ih =>
      rw [gapsOf.eq_2 _ _ other]
      simpa using ih
  | case3 => simp [gapsOf]

theorem fillPlaceholders_eq (token cs : List Char) :
    fillPlaceholders token cs = token.intercalate (gapsOf cs) := by
  induction cs using gapsOf.induct with
  | case1 cs ih =>
      obtain ⟨gap, gaps, hgaps⟩ := List.exists_cons_of_ne_nil (gapsOf_ne_nil cs)
      rw [fillPlaceholders, ih, gapsOf, hgaps, List.intercalate_cons_cons, List.nil_append]
  | case2 c cs other ih =>
      obtain ⟨gap, gaps, hgaps⟩ := List.exists_cons_of_ne_nil (gapsOf_ne_nil cs)
      rw [fillPlaceholders.eq_2 _ _ _ other, ih, gapsOf.eq_2 _ _ other, hgaps,
        List.modifyHead_cons]
      cases gaps with
      | nil => simp
      | cons next gaps => simp [List.intercalate_cons_cons]
  | case3 => rfl

@[simp] theorem fillPlaceholders_placeholder (cs : List Char) :
    fillPlaceholders placeholder cs = cs := by
  induction cs using fillPlaceholders.induct with
  | case1 cs ih =>
      rw [fillPlaceholders, ih]
      rfl
  | case2 c cs other ih => rw [fillPlaceholders.eq_2 _ _ _ other, ih]
  | case3 => rfl

theorem intercalate_gapsOf (cs : List Char) : placeholder.intercalate (gapsOf cs) = cs := by
  rw [← fillPlaceholders_eq, fillPlaceholders_placeholder]

theorem prefix_intercalate (token gap : List Char) (gaps : List (List Char)) :
    gap <+: token.intercalate (gap :: gaps) := by
  cases gaps with
  | nil => simp
  | cons next gaps =>
      rw [List.intercalate_cons_cons, List.append_assoc]
      exact List.prefix_append _ _

theorem plain_of_mem_gapsOf : ∀ gap ∈ gapsOf cs, ¬ placeholder <:+: gap := by
  induction cs using gapsOf.induct with
  | case1 cs ih =>
      rw [gapsOf, List.forall_mem_cons]
      exact ⟨by decide, ih⟩
  | case2 c cs other ih =>
      obtain ⟨gap, gaps, hgaps⟩ := List.exists_cons_of_ne_nil (gapsOf_ne_nil cs)
      have hprefix : gap <+: cs := by
        rw [← intercalate_gapsOf cs, hgaps]
        exact prefix_intercalate _ _ _
      rw [hgaps, List.forall_mem_cons] at ih
      rw [gapsOf.eq_2 _ _ other, hgaps, List.modifyHead_cons, List.forall_mem_cons,
        placeholder_infix_cons_iff]
      refine ⟨?_, ih.2⟩
      rintro (⟨rfl, hnext⟩ | hinside)
      · obtain ⟨rest, rfl⟩ := hnext.trans hprefix
        exact other rest rfl rfl
      · exact ih.1 hinside
  | case3 => decide

/-! ### Filling the placeholders -/

/-- A gap is left as it is, unless its end together with what follows is a placeholder. -/
theorem fillPlaceholders_append (plain : ¬ placeholder <:+: gap) (apart : ¬ ['s'] <+: ds) :
    fillPlaceholders token (gap ++ ds) = gap ++ fillPlaceholders token ds := by
  induction gap with
  | nil => rfl
  | cons c gap ih =>
      rw [placeholder_infix_cons_iff, not_or] at plain
      rw [List.cons_append, fillPlaceholders.eq_2, ih plain.2, List.cons_append]
      rintro rest rfl hrest
      cases gap with
      | nil => exact apart ⟨rest, hrest.symm⟩
      | cons d gap =>
          obtain ⟨rfl, -⟩ := List.cons.inj hrest
          exact plain.1 ⟨rfl, gap, rfl⟩

theorem fillPlaceholders_plain (plain : ¬ placeholder <:+: cs) :
    fillPlaceholders token cs = cs := by
  have happend : fillPlaceholders token (cs ++ []) = cs ++ fillPlaceholders token [] :=
    fillPlaceholders_append plain (by decide)
  rwa [List.append_nil, fillPlaceholders, List.append_nil] at happend

/-- There is exactly one way to replace all placeholders of a text. -/
theorem fills_iff {filled : List Char} :
    Fills token cs filled ↔ filled = fillPlaceholders token cs := by
  constructor
  · rintro ⟨gaps, ne, plain, rfl, rfl⟩
    induction gaps with
    | nil => exact absurd rfl ne
    | cons gap gaps ih =>
        rw [List.forall_mem_cons] at plain
        cases gaps with
        | nil =>
            rw [List.intercalate_singleton, List.intercalate_singleton,
              fillPlaceholders_plain plain.1]
        | cons next gaps =>
            rw [List.intercalate_cons_cons, List.intercalate_cons_cons, List.append_assoc,
              List.append_assoc, fillPlaceholders_append plain.1 (by simp [placeholder]),
              ih (List.cons_ne_nil _ _) plain.2]
            rfl
  · rintro rfl
    exact .intro (gapsOf cs) (gapsOf_ne_nil cs) plain_of_mem_gapsOf (intercalate_gapsOf cs)
      (fillPlaceholders_eq token cs).symm

/-! ### The token of a filled text -/

theorem length_intercalate (token gap : List Char) (gaps : List (List Char)) :
    (token.intercalate (gap :: gaps)).length =
      (gap :: gaps).flatten.length + gaps.length * token.length := by
  induction gaps generalizing gap with
  | nil => simp
  | cons next gaps ih =>
      rw [List.intercalate_cons_cons, List.length_append, List.length_append, ih,
        List.flatten_cons (l := gap), List.length_append, List.length_cons, Nat.succ_mul]
      omega

/-- With at least two gaps, the token between them is known. -/
theorem intercalate_inj (two : 2 ≤ gaps.length) (h : t.intercalate gaps = u.intercalate gaps) :
    t = u := by
  cases gaps with
  | nil => cases two
  | cons gap gaps =>
      cases gaps with
      | nil => simp at two
      | cons next gaps =>
          have hlength := congrArg List.length h
          rw [length_intercalate, length_intercalate, Nat.add_left_cancel_iff,
            List.length_cons] at hlength
          have hsame := Nat.eq_of_mul_eq_mul_left (Nat.succ_pos gaps.length) hlength
          rw [List.intercalate_cons_cons, List.intercalate_cons_cons, List.append_assoc,
            List.append_assoc] at h
          exact List.append_inj_left (List.append_cancel_left h) hsame

theorem two_le_length_gapsOf (h : placeholder <:+: cs) : 2 ≤ (gapsOf cs).length := by
  obtain ⟨gap, gaps, hgaps⟩ := List.exists_cons_of_ne_nil (gapsOf_ne_nil cs)
  cases gaps with
  | nil =>
      have hcs := intercalate_gapsOf cs
      rw [hgaps, List.intercalate_singleton] at hcs
      exact absurd (hcs ▸ h) (plain_of_mem_gapsOf gap (hgaps ▸ List.mem_singleton_self gap))
  | cons next gaps =>
      rw [hgaps, List.length_cons, List.length_cons]
      omega

/-- Different tokens in the place of a placeholder make different texts. -/
theorem fillPlaceholders_inj (h : placeholder <:+: cs)
    (heq : fillPlaceholders t cs = fillPlaceholders u cs) : t = u := by
  rw [fillPlaceholders_eq, fillPlaceholders_eq] at heq
  exact intercalate_inj (two_le_length_gapsOf h) heq

/-! ### No placeholder is left -/

/-- The token can be put anywhere without a placeholder coming into being. -/
structure Inert (token : List Char) : Prop where
  ne : token ≠ []
  percent : '%' ∉ token
  start : ¬ ['s'] <+: token

theorem Inert.not_infix (h : Inert token) : ¬ placeholder <:+: token := by
  rintro ⟨front, back, rfl⟩
  exact h.percent (by simp [placeholder])

theorem Inert.not_suffix (h : Inert token) : ¬ ['%'] <:+ token := by
  rintro ⟨front, rfl⟩
  exact h.percent (by simp)

theorem Inert.not_prefix_append (h : Inert token) (ds : List Char) : ¬ ['s'] <+: token ++ ds := by
  cases token with
  | nil => exact absurd rfl h.ne
  | cons c token =>
      intro hprefix
      obtain ⟨hc, -⟩ := List.cons_prefix_cons.1 hprefix
      exact h.start (List.cons_prefix_cons.2 ⟨hc, List.nil_prefix⟩)

/-- Between gaps without a placeholder, an inert token brings none. -/
theorem Inert.not_infix_intercalate (h : Inert token)
    (plain : ∀ gap ∈ gaps, ¬ placeholder <:+: gap) :
    ¬ placeholder <:+: token.intercalate gaps := by
  induction gaps with
  | nil => simp [placeholder]
  | cons gap gaps ih =>
      rw [List.forall_mem_cons] at plain
      cases gaps with
      | nil =>
          rw [List.intercalate_singleton]
          exact plain.1
      | cons next gaps =>
          rw [List.intercalate_cons_cons, List.append_assoc, placeholder_infix_append_iff,
            placeholder_infix_append_iff]
          rintro (hgap | (htoken | hrest | ⟨hend, -⟩) | ⟨-, hstart⟩)
          · exact plain.1 hgap
          · exact h.not_infix htoken
          · exact ih plain.2 hrest
          · exact h.not_suffix hend
          · exact h.not_prefix_append _ hstart

theorem Inert.not_infix_fillPlaceholders (h : Inert token) (cs : List Char) :
    ¬ placeholder <:+: fillPlaceholders token cs := by
  rw [fillPlaceholders_eq]
  exact h.not_infix_intercalate plain_of_mem_gapsOf

end RegisterMap
