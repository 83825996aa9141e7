import Mathlib.Data.List.Nodup

/-!
# Looking up distinct keys

In a list of items with distinct keys at most one item fits a key, so it does not matter from which
end the list is searched.
-/

namespace RegisterMap

variable {α κ : Type}

theorem find?_eq_some_of_unique {l : List α} {p : α → Bool} {a : α} (ha : a ∈ l) (hp : p a)
    (unique : ∀ b ∈ l, p b → b = a) : l.find? p = some a := by
  have hsome : (l.find? p).isSome := List.find?_isSome.2 ⟨a, ha, hp⟩
  obtain ⟨b, hb⟩ := Option.isSome_iff_exists.1 hsome
  rw [hb, unique b (List.mem_of_find?_eq_some hb) (List.find?_some hb)]

theorem index_eq_of_key_eq {l : List α} {key : α → κ} (nodup : (l.map key).Nodup) {i j : Nat}
    {a b : α} (ha : l[i]? = some a) (hb : l[j]? = some b) (h : key a = key b) : i = j := by
  have hi : i < (l.map key).length := by
    rw [List.length_map]
    exact (List.getElem?_eq_some_iff.1 ha).1
  refine (List.getElem?_inj hi nodup).1 ?_
  rw [List.getElem?_map, List.getElem?_map, ha, hb, Option.map_some, Option.map_some, h]

/-- The first item with a key is the only one, and is found with its index. -/
theorem find?_zipIdx [BEq κ] [LawfulBEq κ] {l : List α} {key : α → κ} (nodup : (l.map key).Nodup)
    {i : Nat} {a : α} (ha : l[i]? = some a) :
    l.zipIdx.find? (key ·.1 == key a) = some (a, i) := by
  apply find?_eq_some_of_unique
  · exact List.mk_mem_zipIdx_iff_getElem?.2 ha
  · exact beq_self_eq_true _
  · rintro ⟨b, j⟩ hb hkey
    have hb := List.mk_mem_zipIdx_iff_getElem?.1 hb
    obtain rfl := index_eq_of_key_eq nodup hb ha (beq_iff_eq.1 hkey)
    rw [ha] at hb
    cases hb
    rfl

/-- The last item with a key is the only one, and is found with its index. -/
theorem find?_reverse_zipIdx [BEq κ] [LawfulBEq κ] {l : List α} {key : α → κ}
    (nodup : (l.map key).Nodup) {i : Nat} {a : α} (ha : l[i]? = some a) :
    l.zipIdx.reverse.find? (key ·.1 == key a) = some (a, i) := by
  apply find?_eq_some_of_unique
  · exact List.mem_reverse.2 (List.mk_mem_zipIdx_iff_getElem?.2 ha)
  · exact beq_self_eq_true _
  · rintro ⟨b, j⟩ hb hkey
    have hb := List.mk_mem_zipIdx_iff_getElem?.1 (List.mem_reverse.1 hb)
    have hij := index_eq_of_key_eq nodup hb ha (beq_iff_eq.1 hkey)
    subst hij
    rw [ha] at hb
    cases hb
    rfl

/-- An item is found under its key. -/
theorem lookup_map_of_nodup [BEq κ] [LawfulBEq κ] {β : Type} {l : List α} {key : α → κ}
    {f : α → β} (nodup : (l.map key).Nodup) {a : α} (ha : a ∈ l) :
    (l.map fun b => (key b, f b)).lookup (key a) = some (f a) := by
  induction l with
  | nil => cases ha
  | cons b l ih =>
      rw [List.map_cons, List.nodup_cons] at nodup
      rw [List.map_cons, List.lookup_cons]
      rcases List.mem_cons.1 ha with rfl | ha
      · rw [beq_self_eq_true]
      · have hne : key a ≠ key b := fun heq => nodup.1 (heq ▸ List.mem_map_of_mem ha)
        rw [beq_false_of_ne hne]
        exact ih nodup.2 ha

end RegisterMap
