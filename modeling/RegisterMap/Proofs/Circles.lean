import Mathlib.Data.List.Chain
import Mathlib.Data.List.Nodup
import Mathlib.Data.List.Perm.Subperm
import Mathlib.Data.List.TakeWhile
import Mathlib.Logic.Relation
import RegisterMap.Chain

/-!
# Circles of references

A chain that is followed passes each item once, and each of its items refers to the next one. If it
does not end by itself, it comes back to an item that it has passed: the part from that item on is a
circle, of which each item refers to the next and the last one to the first.

What may be met on the way has to be known beforehand. `Chain.Domain` is such a set of items: it is
closed under references, and its items have keys of their own among those that may be entered.
-/

namespace RegisterMap

/-- The items `first`, `others` refer to each other in turn, and the last one to the first. No item
occurs twice. -/
structure Circle {α : Type} (R : α → α → Prop) (first : α) (others : List α) : Prop where
  refers : (first :: others ++ [first]).IsChain R
  nodup : (first :: others).Nodup

namespace Circle

variable {α β : Type} {R : α → α → Prop} {S : β → β → Prop} {first : α} {others : List α}

/-- Going around a circle leads back. -/
theorem transGen (h : Circle R first others) : Relation.TransGen R first first := by
  have along : ∀ (items : List α) (a b : α), (a :: items ++ [b]).IsChain R →
      Relation.TransGen R a b := by
    intro items
    induction items with
    | nil =>
        intro a b hab
        exact .single (List.isChain_pair.1 hab)
    | cons c items ih =>
        intro a b hab
        obtain ⟨hac, hcb⟩ := List.isChain_cons_cons.1 hab
        exact .head hac (ih c b hcb)
  exact along others first first h.refers

/-- Distinct images of the items are in a circle if they refer to each other as the items do. -/
theorem map (h : Circle R first others) (f : α → β)
    (refers : ∀ x ∈ first :: others, ∀ y ∈ first :: others, R x y → S (f x) (f y))
    (distinct : ∀ x ∈ first :: others, ∀ y ∈ first :: others, f x = f y → x = y) :
    Circle S (f first) (others.map f) where
  refers := by
    have himages : (first :: others ++ [first]).IsChain fun x y => S (f x) (f y) := by
      have hmem : ∀ x ∈ first :: others ++ [first], x ∈ first :: others := by simp [or_comm]
      exact h.refers.imp_of_mem_imp fun x y hx hy hxy => refers x (hmem x hx) y (hmem y hy) hxy
    have hmap := (List.isChain_map f).2 himages
    rwa [List.map_append, List.map_cons] at hmap
  nodup := h.nodup.map_on distinct

end Circle

namespace Chain

variable {ε α κ : Type} [DecidableEq κ] {key : α → κ} {next : α → Except ε (Option α)}

/-- How a chain that ends in the given way goes on from its last item. -/
def EndsAt (next : α → Except ε (Option α)) (last : α) : ChainEnd ε α → Prop
  | .finished => next last = .ok none
  | .broken e => next last = .error e
  | .returned again => next last = .ok (some again)

variable (key next)

theorem exists_cons_items_follow (unseen : List κ) (a : α) :
    ∃ rest, (follow key next unseen a).items = a :: rest := by
  have hhead := head?_items_follow key next unseen a
  cases hitems : (follow key next unseen a).items with
  | nil =>
      rw [hitems] at hhead
      cases hhead
  | cons b rest =>
      rw [hitems] at hhead
      cases hhead
      exact ⟨rest, rfl⟩

/-- Each item of a chain refers to the next one. -/
theorem isChain_items_follow (unseen : List κ) (a : α) :
    (follow key next unseen a).items.IsChain fun x y => next x = .ok (some y) := by
  fun_induction follow key next unseen a with
  | case1 => exact .singleton _
  | case2 => exact .singleton _
  | case3 unseen a b hb hunseen rest ih =>
      obtain ⟨tail, htail⟩ := exists_cons_items_follow key next
        (unseen.erase (key b)) b
      have hrest : rest.items = b :: tail := htail
      rw [hrest] at ih ⊢
      exact List.isChain_cons_cons.2 ⟨hb, ih⟩
  | case4 => exact .singleton _

/-- A chain passes no more than the items that may be entered, each of them once. -/
theorem subperm_items_follow (unseen : List κ) (a : α) :
    ((follow key next unseen a).items.map key).Subperm (key a :: unseen) := by
  fun_induction follow key next unseen a with
  | case1 => simp
  | case2 => simp
  | case3 unseen a b hb hunseen rest ih =>
      rw [List.map_cons, List.subperm_cons]
      exact ih.trans (List.perm_cons_erase hunseen).symm.subperm
  | case4 => simp

theorem exists_last_items_follow (unseen : List κ) (a : α) :
    ∃ before last, (follow key next unseen a).items = before ++ [last] ∧
      EndsAt next last (follow key next unseen a).ending := by
  fun_induction follow key next unseen a with
  | case1 unseen a e he => exact ⟨[], a, rfl, he⟩
  | case2 unseen a hnone => exact ⟨[], a, rfl, hnone⟩
  | case3 unseen a b hb hunseen rest ih =>
      obtain ⟨before, last, hitems, hend⟩ := ih
      refine ⟨a :: before, last, ?_, hend⟩
      change a :: rest.items = _
      rw [hitems]
      rfl
  | case4 unseen a b hb hseen => exact ⟨[], a, rfl, hb⟩

variable {key next}

/-- An item to which a chain returns is one that it has passed, if it might have been entered. -/
theorem mem_keys_of_returned (unseen : List κ) (a : α) {again : α}
    (returned : (follow key next unseen a).ending = .returned again)
    (mem : key again ∈ key a :: unseen) :
    key again ∈ (follow key next unseen a).items.map key := by
  fun_induction follow key next unseen a with
  | case1 => cases returned
  | case2 => cases returned
  | case3 unseen a b hb hunseen rest ih =>
      rw [List.map_cons, List.mem_cons]
      rcases List.mem_cons.1 mem with hfirst | hlater
      · exact .inl hfirst
      · have hmem : key again ∈ key b :: unseen.erase (key b) :=
          (List.perm_cons_erase hunseen).mem_iff.1 hlater
        exact .inr (ih returned hmem)
  | case4 unseen a b hb hseen =>
      cases returned
      rcases List.mem_cons.1 mem with hfirst | hlater
      · simp [hfirst]
      · exact absurd hlater hseen

/-- The loop of a chain is the part from the first item with the key, and the item to which it
returns. -/
theorem exists_suffix_of_loop {items : List α} {again : α} (mem : key again ∈ items.map key) :
    ∃ skipped x others, items = skipped ++ x :: others ∧ key x = key again ∧
      loop key items again = x :: others ++ [again] := by
  let notAgain : α → Bool := fun x => key x ≠ key again
  have hloop : loop key items again = items.dropWhile notAgain ++ [again] := rfl
  obtain ⟨skipped, hskipped⟩ := List.dropWhile_suffix (l := items) notAgain
  cases hdrop : items.dropWhile notAgain with
  | nil =>
      obtain ⟨x, hx, hkey⟩ := List.mem_map.1 mem
      have hall := List.dropWhile_eq_nil_iff.1 hdrop x hx
      simp [notAgain, hkey] at hall
  | cons x others =>
      have hkey : key x = key again := by
        have hhead := List.head?_dropWhile_not notAgain items
        rw [hdrop] at hhead
        simpa [notAgain] using hhead
      rw [hdrop] at hskipped hloop
      exact ⟨skipped, x, others, hskipped.symm, hkey, hloop⟩

/-- The items that may be met in following references from `a`: each of them has a key of its own
among those that may be entered, and refers to another one of them if it refers to anything. -/
structure Domain (key : α → κ) (next : α → Except ε (Option α)) (unseen : List κ) (a : α)
    (Known : α → Prop) : Prop where
  start : Known a
  closed : ∀ x y, Known x → next x = .ok (some y) → Known y
  keys : ∀ x, Known x → key x ∈ key a :: unseen
  distinct : ∀ x y, Known x → Known y → key x = key y → x = y
  nodup : (key a :: unseen).Nodup

namespace Domain

variable {unseen : List κ} {a : α} {Known : α → Prop}

theorem known_items (h : Domain key next unseen a Known) :
    ∀ x ∈ (follow key next unseen a).items, Known x := by
  have hchain := isChain_items_follow key next unseen a
  obtain ⟨rest, hrest⟩ := exists_cons_items_follow key next unseen a
  rw [hrest] at hchain ⊢
  exact hchain.induction Known _ (fun x y hxy hx => h.closed x y hx hxy) fun _ => h.start

/-- An item to which a chain returns is the first one of a circle, along which the chain has come
back. -/
theorem exists_circle (h : Domain key next unseen a Known) {again : α}
    (returned : (follow key next unseen a).ending = .returned again) :
    ∃ others, loop key (follow key next unseen a).items again = again :: others ++ [again] ∧
      Circle (fun x y => next x = .ok (some y)) again others ∧
      ∀ x ∈ again :: others, Known x := by
  have hchain := isChain_items_follow key next unseen a
  have hsubperm := subperm_items_follow key next unseen a
  have hknown := h.known_items
  obtain ⟨before, last, hlast, hend⟩ :=
    exists_last_items_follow key next unseen a
  rw [returned] at hend
  have hagain : Known again := h.closed last again (hknown last (by simp [hlast])) hend
  have hpassed := mem_keys_of_returned unseen a returned (h.keys again hagain)
  generalize (follow key next unseen a).items = items at *
  obtain ⟨skipped, x, others, rfl, hkey, hloop⟩ := exists_suffix_of_loop hpassed
  obtain rfl : x = again := h.distinct x again (hknown x (by simp)) hagain hkey
  have hsuffix : x :: others <:+ skipped ++ x :: others := List.suffix_append skipped _
  refine ⟨others, hloop, ⟨?_, ?_⟩, fun y hy => hknown y (hsuffix.subset hy)⟩
  · refine (hchain.suffix hsuffix).append (.singleton x) ?_
    intro y hy z hz
    obtain rfl : x = z := by simpa using hz
    have hy : (skipped ++ x :: others).getLast? = some y := by
      rw [List.getLast?_append, Option.mem_def.1 hy, Option.some_or]
    rw [hlast, List.getLast?_concat, Option.some.injEq] at hy
    rw [← hy]
    exact hend
  · have hkeys : ((skipped ++ x :: others).map key).Nodup := by
      obtain ⟨keys, hperm, hsub⟩ := hsubperm
      exact hperm.nodup_iff.1 (h.nodup.sublist hsub)
    exact (List.Nodup.of_map key hkeys).sublist hsuffix.sublist

end Domain

end Chain

end RegisterMap
