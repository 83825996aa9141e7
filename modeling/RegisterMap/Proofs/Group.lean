import RegisterMap.Device.Basic
import RegisterMap.Draft.Basic

/-!
# Elements by position

A position is a list of indices, one for each level on the way down from a peripheral. The position
of a group of siblings leads to the element around them, the position of a member to the member
itself. Equal elements at different places are told apart by their positions.
-/

namespace RegisterMap

namespace Draft.Member

/-- The members of the element at a position below some members. The empty position is that of the
members themselves, and a register has no members. -/
def groupAt? (ms : List Member) : List Nat → Option (List Member)
  | [] => some ms
  | i :: is => ms[i]?.bind fun m => groupAt? m.members is

theorem groupAt?_cons_eq_some_iff {ms ns : List Member} {i : Nat} {is : List Nat} :
    groupAt? ms (i :: is) = some ns ↔ ∃ m, ms[i]? = some m ∧ groupAt? m.members is = some ns :=
  Option.bind_eq_some_iff

theorem groupAt?_append (ms : List Member) (is js : List Nat) :
    groupAt? ms (is ++ js) = (groupAt? ms is).bind (groupAt? · js) := by
  induction is generalizing ms with
  | nil => rfl
  | cons i is ih =>
      rw [List.cons_append, groupAt?, groupAt?, Option.bind_assoc]
      simp only [ih]

/-- The members of one of a group are the group one step further. -/
theorem groupAt?_append_singleton {ms ns : List Member} {is : List Nat} {i : Nat} {m : Member}
    (hns : groupAt? ms is = some ns) (hm : ns[i]? = some m) :
    groupAt? ms (is ++ [i]) = some m.members := by
  rw [groupAt?_append, hns]
  exact groupAt?_cons_eq_some_iff.2 ⟨m, hm, rfl⟩

end Draft.Member

namespace Member

/-- The members of a cluster; a register has none. -/
def members : Member → List Member
  | .register _ => []
  | .cluster _ ms => ms

/-- The address relative to the element around the member. -/
def offset : Member → Int
  | .register r => r.offset
  | .cluster c _ => c.offset

/-- The members of the element at a position below some members. The empty position is that of the
members themselves, and a register has no members. -/
def groupAt? (ms : List Member) : List Nat → Option (List Member)
  | [] => some ms
  | i :: is => ms[i]?.bind fun m => groupAt? m.members is

/-- The member at a position below some members. -/
def memberAt? (ms : List Member) : List Nat → Option Member
  | [] => none
  | [i] => ms[i]?
  | i :: is => ms[i]?.bind fun m => memberAt? m.members is

theorem groupAt?_cons_eq_some_iff {ms ns : List Member} {i : Nat} {is : List Nat} :
    groupAt? ms (i :: is) = some ns ↔ ∃ m, ms[i]? = some m ∧ groupAt? m.members is = some ns :=
  Option.bind_eq_some_iff

theorem memberAt?_cons_eq_some_iff {ms : List Member} {i : Nat} {is : List Nat} {n : Member} :
    memberAt? ms (i :: is) = some n ↔
      ∃ m, ms[i]? = some m ∧ (is = [] ∧ m = n ∨ memberAt? m.members is = some n) := by
  cases is with
  | nil => simp [memberAt?]
  | cons j is => simp [memberAt?, Option.bind_eq_some_iff]

@[simp] theorem memberAt?_nil (is : List Nat) : memberAt? [] is = none := by
  cases is with
  | nil => rfl
  | cons i is => cases is <;> rfl

theorem groupAt?_append (ms : List Member) (is js : List Nat) :
    groupAt? ms (is ++ js) = (groupAt? ms is).bind (groupAt? · js) := by
  induction is generalizing ms with
  | nil => rfl
  | cons i is ih =>
      rw [List.cons_append, groupAt?, groupAt?, Option.bind_assoc]
      simp only [ih]

/-- The members of one of a group are the group one step further. -/
theorem groupAt?_append_singleton {ms ns : List Member} {is : List Nat} {i : Nat} {m : Member}
    (hns : groupAt? ms is = some ns) (hm : ns[i]? = some m) :
    groupAt? ms (is ++ [i]) = some m.members := by
  rw [groupAt?_append, hns]
  exact groupAt?_cons_eq_some_iff.2 ⟨m, hm, rfl⟩

/-- A member is one of the group at the position of the element around it. -/
theorem memberAt?_append_singleton (ms : List Member) (is : List Nat) (i : Nat) :
    memberAt? ms (is ++ [i]) = (groupAt? ms is).bind (·[i]?) := by
  induction is generalizing ms with
  | nil => rfl
  | cons j is ih =>
      have step : memberAt? ms (j :: (is ++ [i])) =
          ms[j]?.bind fun m => memberAt? m.members (is ++ [i]) := by
        cases is <;> rfl
      rw [List.cons_append, step, groupAt?, Option.bind_assoc]
      simp only [ih]

/-- A property of all members at any depth is one of the members at hand and of all those inside of
them. -/
theorem forall_memberAt?_iff {ms : List Member} {P : Member → Prop} :
    (∀ is m, memberAt? ms is = some m → P m) ↔
      ∀ m ∈ ms, P m ∧ ∀ is n, memberAt? m.members is = some n → P n := by
  constructor
  · intro h m hm
    obtain ⟨i, hi⟩ := List.mem_iff_getElem?.1 hm
    refine ⟨h [i] m hi, fun is n hn => ?_⟩
    exact h (i :: is) n (memberAt?_cons_eq_some_iff.2 ⟨m, hi, .inr hn⟩)
  · intro h is n hn
    cases is with
    | nil => cases hn
    | cons i is =>
        obtain ⟨m, hm, hn⟩ := memberAt?_cons_eq_some_iff.1 hn
        obtain ⟨hfirst, hinside⟩ := h m (List.mem_of_getElem? hm)
        rcases hn with ⟨-, rfl⟩ | hn
        · exact hfirst
        · exact hinside is n hn

theorem memberAt?_append_singleton_eq_some_iff {ms : List Member} {is : List Nat} {i : Nat}
    {m : Member} :
    memberAt? ms (is ++ [i]) = some m ↔ ∃ ns, groupAt? ms is = some ns ∧ ns[i]? = some m := by
  rw [memberAt?_append_singleton, Option.bind_eq_some_iff]

/-- Every member belongs to a group. -/
theorem exists_group_of_memberAt? {ms : List Member} {is : List Nat} {m : Member}
    (h : memberAt? ms is = some m) :
    ∃ js i ns, is = js ++ [i] ∧ groupAt? ms js = some ns ∧ ns[i]? = some m := by
  rcases List.eq_nil_or_concat is with rfl | ⟨js, i, rfl⟩
  · cases h
  · rw [List.concat_eq_append] at h ⊢
    obtain ⟨ns, hns, hm⟩ := memberAt?_append_singleton_eq_some_iff.1 h
    exact ⟨js, i, ns, rfl, hns, hm⟩

end Member

end RegisterMap
