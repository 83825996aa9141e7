import RegisterMap.Proofs.Expansion
import RegisterMap.Proofs.IndexTokens
import RegisterMap.Proofs.Names
import RegisterMap.Proofs.Placeholders

/-!
# Names of instances

The name of an instance is the declared name with the index token in it. As the token can be read
off the name, instances have distinct names if and only if their tokens are distinct, and an array
whose tokens are not listed one by one never clashes with itself (`instances_distinct`).

The rule for names has two parts: brackets around a placeholder at the end become an underscore, and
all other placeholders are filled (`Substituted`). A name with brackets at its end is given the
first part only, so it breaks the rule if there is another placeholder in front of the brackets
(`LeavesPlaceholder`), and such a placeholder is left in the names of the instances. All other names
follow the rule, and no placeholder is left in them (`instanceName_substitutes`).
-/

namespace RegisterMap

/-! ### The rule for names -/

/-- The name is made from a template by the rule for names: an underscore and the token replace
brackets with a placeholder at the end, and the token replaces every other placeholder. -/
inductive Substituted (token template name : List Char) : Prop
  | bracketed {front filled : List Char} (brackets : template = front ++ bracketedPlaceholder)
      (rest : Fills token front filled) (result : name = filled ++ '_' :: token)
  | plain (unbracketed : ¬ bracketedPlaceholder <:+ template) (rest : Fills token template name)

/-- There is a placeholder in front of the brackets at the end of the template. -/
def LeavesPlaceholder (template : String) : Prop :=
  ∃ front, template.toList = front ++ bracketedPlaceholder ∧ placeholder <:+: front

section

variable {token front cs name : List Char}

theorem substituted_bracketed_iff : Substituted token (front ++ bracketedPlaceholder) name ↔
    name = fillPlaceholders token front ++ '_' :: token := by
  constructor
  · intro h
    cases h with
    | bracketed brackets rest result =>
        obtain rfl := List.append_cancel_right brackets
        rw [result, fills_iff.1 rest]
    | plain unbracketed => exact absurd (List.suffix_append _ _) unbracketed
  · rintro rfl
    exact .bracketed rfl (fills_iff.2 rfl) rfl

theorem substituted_plain_iff (h : ¬ bracketedPlaceholder <:+ cs) :
    Substituted token cs name ↔ name = fillPlaceholders token cs := by
  constructor
  · intro substituted
    cases substituted with
    | bracketed brackets => exact absurd ⟨_, brackets.symm⟩ h
    | plain _ rest => exact fills_iff.1 rest
  · intro hname
    exact .plain h (fills_iff.2 hname)

end

variable {template token t u : String} {front : List Char}

theorem toList_instanceName_bracketed (h : template.toList = front ++ bracketedPlaceholder) :
    (instanceName template token).toList = front ++ '_' :: token.toList := by
  have hsuffix : bracketedPlaceholder.isSuffixOf template.toList :=
    List.isSuffixOf_iff_suffix.2 ⟨front, h.symm⟩
  rw [instanceName, if_pos hsuffix, String.toList_ofList, h]
  simp [bracketedPlaceholder]

theorem toList_instanceName_plain (h : ¬ bracketedPlaceholder <:+ template.toList) :
    (instanceName template token).toList = fillPlaceholders token.toList template.toList := by
  rw [instanceName, if_neg fun hsuffix => h (List.isSuffixOf_iff_suffix.1 hsuffix),
    String.toList_ofList]

/-- A name with brackets at its end leaves a placeholder if there is one in front of them. -/
theorem leavesPlaceholder_iff (h : template.toList = front ++ bracketedPlaceholder) :
    LeavesPlaceholder template ↔ placeholder <:+: front := by
  constructor
  · rintro ⟨other, hother, hplaced⟩
    obtain rfl := List.append_cancel_right (h.symm.trans hother)
    exact hplaced
  · exact fun hplaced => ⟨front, h, hplaced⟩

theorem not_leavesPlaceholder (h : ¬ bracketedPlaceholder <:+ template.toList) :
    ¬ LeavesPlaceholder template := by
  rintro ⟨front, hfront, -⟩
  exact h ⟨front, hfront.symm⟩

/-- The name of an instance follows the rule, unless the template leaves a placeholder; then only
the placeholder itself would be the right token. -/
theorem substituted_iff :
    Substituted token.toList template.toList (instanceName template token).toList ↔
      (LeavesPlaceholder template → token = "%s") := by
  by_cases hsuffix : bracketedPlaceholder <:+ template.toList
  · obtain ⟨front, hfront⟩ := hsuffix
    rw [toList_instanceName_bracketed hfront.symm, ← hfront, substituted_bracketed_iff,
      leavesPlaceholder_iff hfront.symm, List.append_left_inj]
    constructor
    · intro heq hplaced
      have hfilled : fillPlaceholders placeholder front = fillPlaceholders token.toList front := by
        rwa [fillPlaceholders_placeholder]
      exact String.toList_injective (fillPlaceholders_inj hplaced hfilled).symm
    · intro h
      by_cases hplaced : placeholder <:+: front
      · rw [h hplaced]
        exact (fillPlaceholders_placeholder front).symm
      · exact (fillPlaceholders_plain hplaced).symm
  · rw [toList_instanceName_plain hsuffix, substituted_plain_iff hsuffix]
    exact iff_of_true rfl fun h => absurd h (not_leavesPlaceholder hsuffix)

/-- A placeholder is found in the name of an instance if the template leaves one. -/
theorem placeholder_infix_instanceName_iff (h : Inert token.toList) :
    placeholder <:+: (instanceName template token).toList ↔ LeavesPlaceholder template := by
  by_cases hsuffix : bracketedPlaceholder <:+ template.toList
  · obtain ⟨front, hfront⟩ := hsuffix
    rw [toList_instanceName_bracketed hfront.symm, leavesPlaceholder_iff hfront.symm,
      placeholder_infix_append_iff, placeholder_infix_cons_iff]
    constructor
    · rintro (hplaced | (⟨hline, -⟩ | htoken) | ⟨-, hstart⟩)
      · exact hplaced
      · cases hline
      · exact absurd htoken h.not_infix
      · exact absurd hstart (by simp)
    · exact .inl
  · rw [toList_instanceName_plain hsuffix]
    exact iff_of_false (h.not_infix_fillPlaceholders _) (not_leavesPlaceholder hsuffix)

/-- The token can be read off the name of an instance if the template has a placeholder. -/
theorem instanceName_inj (h : placeholder <:+: template.toList)
    (heq : instanceName template t = instanceName template u) : t = u := by
  apply String.toList_injective
  have hchars := congrArg String.toList heq
  by_cases hsuffix : bracketedPlaceholder <:+ template.toList
  · obtain ⟨front, hfront⟩ := hsuffix
    rw [toList_instanceName_bracketed hfront.symm,
      toList_instanceName_bracketed hfront.symm] at hchars
    exact (List.cons.inj (List.append_cancel_left hchars)).2
  · rw [toList_instanceName_plain hsuffix, toList_instanceName_plain hsuffix] at hchars
    exact fillPlaceholders_inj h hchars

namespace Draft

/-! ### Instances of elements -/

/-- Elements whose instances are named by the declared name and the index token. -/
class LawfulDimensioned (α : Type) [Dimensioned α] : Prop where
  name_instantiate (a : α) (i : Instance) :
    Dimensioned.name (Dimensioned.instantiate a i) = instanceName (Dimensioned.name a) i.token

instance : LawfulDimensioned Field where
  name_instantiate _ _ := rfl

instance : LawfulDimensioned Member where
  name_instantiate := Member.name_instantiate

instance : LawfulDimensioned Peripheral where
  name_instantiate _ _ := rfl

section

variable {α : Type} [Dimensioned α] {parent : NodePath} {a : α} {dim : Dimension}
  {tokens : List String} {is : List (Option Instance)}

/-- The index tokens of an array that has instances are known. -/
theorem exists_tokens_of_copies (repeated : Dimensioned.dim a = some dim)
    (h : copies parent a = .ok is) : ∃ tokens, dim.tokens = .ok tokens :=
  hasTokens_of_copies h dim repeated

/-- An array with more than one instance has a placeholder in its name. -/
theorem placeholder_of_copies (repeated : Dimensioned.dim a = some dim)
    (h : copies parent a = .ok is) (many : 1 < dim.length) :
    placeholder <:+: (Dimensioned.name a).toList := by
  rw [copies, repeated] at h
  obtain ⟨tokens, -, h⟩ := bind_eq_ok_iff.1 h
  by_cases hplace : hasPlaceholder (Dimensioned.name a).toList
  · exact hasPlaceholder_iff.1 hplace
  · rw [if_pos ⟨many, hplace⟩] at h
    cases h

/-- Instances with distinct names can all be claimed, unless a sibling has one of the names. -/
theorem copiesAll_singleton {taken : List String} (h : copies parent a = .ok is)
    (distinct : (is.map fun i => Dimensioned.name (place a i)).Nodup)
    (free : ∀ i ∈ is, Dimensioned.name (place a i) ∉ taken) :
    copiesAll parent taken [a] = .ok [is] := by
  obtain rfl := copies_eq_ok h
  have hnames : ([a].flatMap replacements).map Dimensioned.name =
      (instances a).map fun i => Dimensioned.name (place a i) := by
    rw [List.flatMap_singleton, replacements, List.map_map]
    rfl
  refine copiesAll_eq_ok_iff.2 ⟨List.forall_mem_singleton.2 h, ?_, ?_, rfl⟩
  · rwa [hnames]
  · rw [hnames]
    exact List.forall_mem_map.2 free

variable [LawfulDimensioned α]

/-- The instances of an array are named by its tokens, in order. -/
theorem names_of_copies (repeated : Dimensioned.dim a = some dim)
    (named : dim.tokens = .ok tokens) (h : copies parent a = .ok is) :
    (is.map fun i => Dimensioned.name (place a i)) =
      tokens.map (instanceName (Dimensioned.name a)) := by
  have hfst : tokens.zipIdx.map (·.1) = tokens := List.zipIdx_map_fst 0 tokens
  rw [copies_eq_ok h, instances, repeated]
  dsimp only
  rw [named]
  conv_rhs => rw [← hfst]
  rw [List.map_map, List.map_map]
  exact List.map_congr_left fun e _ => LawfulDimensioned.name_instantiate a _

/-- The names of the instances are distinct if and only if the tokens are. -/
theorem nodup_names_iff (repeated : Dimensioned.dim a = some dim)
    (named : dim.tokens = .ok tokens) (h : copies parent a = .ok is)
    (placed : placeholder <:+: (Dimensioned.name a).toList) :
    (is.map fun i => Dimensioned.name (place a i)).Nodup ↔ tokens.Nodup := by
  rw [names_of_copies repeated named h]
  exact List.nodup_map_iff fun t u => instanceName_inj placed

/-- The names of the instances are distinct if the tokens are not listed one by one. -/
theorem nodup_names_of_ranged (repeated : Dimensioned.dim a = some dim)
    (h : copies parent a = .ok is) (ranged : dim.Ranged) :
    (is.map fun i => Dimensioned.name (place a i)).Nodup := by
  obtain ⟨tokens, named⟩ := exists_tokens_of_copies repeated h
  by_cases many : 1 < dim.length
  · rw [nodup_names_iff repeated named h (placeholder_of_copies repeated h many)]
    have one : 1 ≤ dim.length := by omega
    exact ((Dimension.tokens_eq_ok_iff one).1 named).nodup one ranged
  · have hfew : tokens.length ≤ 1 := by
      rw [Dimension.length_tokens named]
      omega
    rw [names_of_copies repeated named h]
    cases tokens with
    | nil => exact List.nodup_nil
    | cons token tokens =>
        obtain rfl := List.length_eq_zero_iff.1 (Nat.le_zero.1 (Nat.le_of_succ_le_succ hfew))
        exact List.nodup_singleton _

end

/-! ### Instances do not clash -/

/-- Different tokens make different names. So the names of the instances of an array are distinct if
and only if its tokens are, and an array without an index list or with a range in its place clashes
with siblings only, never with itself. -/
theorem instances_distinct :
    (∀ template t u : String, placeholder <:+: template.toList →
      (instanceName template t = instanceName template u ↔ t = u)) ∧
    ∀ (α : Type) [Dimensioned α] [LawfulDimensioned α] (parent : NodePath) (a : α)
      (dim : Dimension) (is : List (Option Instance)),
      Dimensioned.dim a = some dim → copies parent a = .ok is →
        (placeholder <:+: (Dimensioned.name a).toList →
          ∀ tokens, dim.tokens = .ok tokens →
            ((is.map fun i => Dimensioned.name (place a i)).Nodup ↔ tokens.Nodup)) ∧
        (dim.Ranged → ∀ taken, (∀ i ∈ is, Dimensioned.name (place a i) ∉ taken) →
          copiesAll parent taken [a] = .ok [is]) := by
  refine ⟨fun template t u h => ⟨instanceName_inj h, fun heq => by rw [heq]⟩, ?_⟩
  intro α _ _ parent a dim is repeated h
  constructor
  · intro placed tokens named
    exact nodup_names_iff repeated named h placed
  · intro ranged taken free
    exact copiesAll_singleton h (nodup_names_of_ranged repeated h ranged) free

/-- An array of three registers with two placeholders in its name, and a range of letters. -/
def letteredArray : Member :=
  .register { name := "CH%s_%s", dim := some { length := 3, step := 4, index := some "X - Z" }
              offset := some 0 }

/-- The names of the three registers are distinct, and they do not clash beside a sibling. -/
theorem instances_distinct_lettered :
    instanceName "CH%s_%s" "X" ≠ instanceName "CH%s_%s" "XX" ∧
    ∃ is, copies ⟨["D", "P"]⟩ letteredArray = .ok is ∧
      is.map (fun i => Dimensioned.name (place letteredArray i)) = ["CHX_X", "CHY_Y", "CHZ_Z"] ∧
      (is.map fun i => Dimensioned.name (place letteredArray i)).Nodup ∧
      copiesAll ⟨["D", "P"]⟩ ["CHX"] [letteredArray] = .ok [is] := by
  obtain ⟨hdifferent, hinstances⟩ := instances_distinct
  have hcopies : (copies ⟨["D", "P"]⟩ letteredArray).toOption.any fun is =>
      is.map (fun i => Dimensioned.name (place letteredArray i)) =
        ["CHX_X", "CHY_Y", "CHZ_Z"] := by
    decide +kernel
  obtain ⟨is, his, hnames⟩ := exists_ok_of_any hcopies
  replace hnames := of_decide_eq_true hnames
  obtain ⟨tokens, named⟩ := exists_tokens_of_copies rfl his
  have hdistinct := hinstances Member _ letteredArray _ is rfl his
  have ranged : Dimension.Ranged { length := 3, step := 4, index := some "X - Z" } := by
    rintro _ ⟨⟩
    exact .inr ⟨'X', 'Z', Dimension.letterRange?_eq_some_iff.1 (by decide +kernel)⟩
  refine ⟨fun heq => ?_, is, his, hnames, ?_, ?_⟩
  · have hsame := (hdifferent _ _ _ (by decide)).1 heq
    exact absurd hsame (by decide)
  · have htokens : tokens.Nodup :=
      ((Dimension.tokens_eq_ok_iff (by decide)).1 named).nodup (by decide) ranged
    exact (hdistinct.1 (by decide) tokens named).2 htokens
  · apply hdistinct.2 ranged
    intro i hi
    have hmem : Dimensioned.name (place letteredArray i) ∈ ["CHX_X", "CHY_Y", "CHZ_Z"] := by
      rw [← hnames]
      exact List.mem_map_of_mem hi
    have hfree : ∀ name ∈ ["CHX_X", "CHY_Y", "CHZ_Z"], name ∉ ["CHX"] := by decide
    exact hfree _ hmem

/-- The names of instances follow the rule, and no placeholder is left in them, except for templates
with a placeholder in front of the brackets at their end. -/
theorem instanceName_substitutes (template : String) :
    (∀ token : String,
      Substituted token.toList template.toList (instanceName template token).toList ↔
        (LeavesPlaceholder template → token = "%s")) ∧
    ∀ (α : Type) [Dimensioned α] [LawfulDimensioned α] (parent : NodePath) (a : α)
      (dim : Dimension) (tokens : List String) (is : List (Option Instance)),
      Dimensioned.name a = template → Dimensioned.dim a = some dim → dim.tokens = .ok tokens →
        (∀ token ∈ tokens, '%' ∉ token.toList ∧ ¬ ['s'] <+: token.toList) →
        copies parent a = .ok is → ∀ i ∈ is,
          (placeholder <:+: (Dimensioned.name (place a i)).toList ↔
            LeavesPlaceholder template) := by
  refine ⟨fun token => substituted_iff, ?_⟩
  rintro α _ _ parent a dim tokens is rfl repeated named clean h i hi
  have hname : Dimensioned.name (place a i) ∈ tokens.map (instanceName (Dimensioned.name a)) := by
    rw [← names_of_copies repeated named h]
    exact List.mem_map_of_mem hi
  obtain ⟨token, htoken, hname⟩ := List.mem_map.1 hname
  have inert : Inert token.toList :=
    ⟨(Dimension.tight_tokens named token htoken).ne_nil, (clean token htoken).1,
      (clean token htoken).2⟩
  rw [← hname]
  exact placeholder_infix_instanceName_iff inert

/-- Two fields with a placeholder in the middle of their name, and another one in brackets. -/
def bracketedArray : Field where
  name := "F%s[%s]_"
  dim := some { length := 2, step := 4, index := some "A, B" }

/-- No placeholder is left in the names of these fields. -/
theorem instanceName_substitutes_bracketed :
    ∃ is, copies ⟨["D", "P", "R"]⟩ bracketedArray = .ok is ∧
      is.map (fun i => Dimensioned.name (place bracketedArray i)) = ["FA[A]_", "FB[B]_"] ∧
      ∀ i ∈ is, ¬ placeholder <:+: (Dimensioned.name (place bracketedArray i)).toList := by
  have hcopies : (copies ⟨["D", "P", "R"]⟩ bracketedArray).toOption.any fun is =>
      is.map (fun i => Dimensioned.name (place bracketedArray i)) = ["FA[A]_", "FB[B]_"] := by
    decide +kernel
  have hread : (Dimension.tokens { length := 2, step := 4, index := some "A, B" }).toOption.any
      (· = ["A", "B"]) := by
    decide +kernel
  obtain ⟨is, his, hnames⟩ := exists_ok_of_any hcopies
  obtain ⟨tokens, named, heq⟩ := exists_ok_of_any hread
  obtain rfl := of_decide_eq_true heq
  have clean : ∀ token ∈ ["A", "B"], '%' ∉ token.toList ∧ ¬ ['s'] <+: token.toList := by decide
  have filled : ¬ LeavesPlaceholder bracketedArray.name := not_leavesPlaceholder (by decide)
  refine ⟨is, his, of_decide_eq_true hnames, fun i hi hplaceholder => filled ?_⟩
  exact ((instanceName_substitutes bracketedArray.name).2 Field _ _ _ _ is rfl rfl named clean his
    i hi).1 hplaceholder

/-- A placeholder in front of brackets at the end is left in the name, although the token could be
put in its place. -/
theorem instanceName_leaves_placeholder :
    ¬ Substituted "1".toList "R%s[%s]".toList (instanceName "R%s[%s]" "1").toList ∧
      ('%' ∉ "1".toList ∧ ¬ ['s'] <+: "1".toList) ∧
      placeholder <:+: (instanceName "R%s[%s]" "1").toList := by
  have hleaves : LeavesPlaceholder "R%s[%s]" := ⟨"R%s".toList, by decide, by decide⟩
  refine ⟨fun h => ?_, by decide, by decide⟩
  exact absurd (substituted_iff.1 h hleaves) (by decide)

end Draft

end RegisterMap
