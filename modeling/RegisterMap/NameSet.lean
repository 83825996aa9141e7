/-!
# Sets of names

A set of names is kept as its elements in ascending order of their characters, without repetition,
so that equal sets are equal lists and a set is always written in the same order.
-/

namespace RegisterMap

/-- Insert a name into an ascending list, unless it is there already. -/
def insertName (name : String) : List String → List String
  | [] => [name]
  | s :: ss =>
    if name < s then name :: s :: ss
    else if name = s then s :: ss
    else s :: insertName name ss

theorem mem_insertName {name x : String} {ss : List String} :
    x ∈ insertName name ss ↔ x = name ∨ x ∈ ss := by
  induction ss with
  | nil => simp [insertName]
  | cons s ss ih =>
    simp only [insertName]
    split
    · simp
    · split
      · next h => subst h; simp
      · simp only [List.mem_cons, ih]
        constructor
        · rintro (h | h | h) <;> simp [h]
        · rintro (h | h | h) <;> simp [h]

theorem pairwise_insertName {name : String} {ss : List String} (h : ss.Pairwise (· < ·)) :
    (insertName name ss).Pairwise (· < ·) := by
  induction ss with
  | nil => simp [insertName]
  | cons s ss ih =>
    have ⟨hs, hss⟩ := List.pairwise_cons.1 h
    simp only [insertName]
    split
    · next hlt =>
      refine List.pairwise_cons.2 ⟨fun x hx => ?_, h⟩
      rcases List.mem_cons.1 hx with rfl | hx
      · exact hlt
      · exact String.lt_trans hlt (hs x hx)
    · next hge =>
      split
      · exact h
      · next hne =>
        refine List.pairwise_cons.2 ⟨fun x hx => ?_, ih hss⟩
        rcases mem_insertName.1 hx with rfl | hx
        · exact Std.lt_of_le_of_ne (String.not_lt.1 hge) (Ne.symm hne)
        · exact hs x hx

/-- A finite set of names. -/
structure NameSet where
  toList : List String := []
  ascending : toList.Pairwise (· < ·) := by simp
deriving DecidableEq, Repr

namespace NameSet

instance : EmptyCollection NameSet := ⟨⟨[], List.Pairwise.nil⟩⟩

instance : Inhabited NameSet := ⟨∅⟩

instance : Membership String NameSet := ⟨fun s name => name ∈ s.toList⟩

instance (name : String) (s : NameSet) : Decidable (name ∈ s) :=
  inferInstanceAs (Decidable (name ∈ s.toList))

/-- The set with one more name. -/
def insert (s : NameSet) (name : String) : NameSet :=
  ⟨insertName name s.toList, pairwise_insertName s.ascending⟩

/-- The set of the names in a list. -/
def ofList (names : List String) : NameSet :=
  names.foldl insert ∅

/-- The set without one name. -/
def erase (s : NameSet) (name : String) : NameSet :=
  ⟨s.toList.filter (· ≠ name), s.ascending.filter _⟩

@[simp] theorem not_mem_empty (name : String) : name ∉ (∅ : NameSet) := List.not_mem_nil

@[simp] theorem mem_insert {s : NameSet} {x name : String} :
    x ∈ s.insert name ↔ x = name ∨ x ∈ s :=
  mem_insertName

@[simp] theorem mem_erase {s : NameSet} {x name : String} :
    x ∈ s.erase name ↔ x ∈ s ∧ x ≠ name := by
  change x ∈ s.toList.filter (· ≠ name) ↔ x ∈ s.toList ∧ x ≠ name
  simp

theorem mem_foldl_insert {names : List String} {s : NameSet} {x : String} :
    x ∈ names.foldl insert s ↔ x ∈ names ∨ x ∈ s := by
  induction names generalizing s with
  | nil => simp
  | cons name names ih =>
    simp only [List.foldl_cons, ih, mem_insert, List.mem_cons]
    constructor
    · rintro (h | h | h) <;> simp [h]
    · rintro ((h | h) | h) <;> simp [h]

@[simp] theorem mem_ofList {names : List String} {x : String} : x ∈ ofList names ↔ x ∈ names := by
  simp [ofList, mem_foldl_insert]

end NameSet

end RegisterMap
