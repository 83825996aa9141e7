/-!
# Following references

Each of several items may refer to one other item. Following the references from an item gives a
chain, which finishes at an item without a reference, breaks off at a reference that cannot be
followed, or returns to an item that it has passed.

`Chain.follow` is told which items are still unseen. The chain enters an unseen item only and
strikes it out, so that no item occurs twice and the chain ends after as many items as there are.
-/

namespace RegisterMap

/-- How a chain of references ends. -/
inductive ChainEnd (ε α : Type) where
  | finished
  | broken (e : ε)
  | returned (again : α)
deriving Repr

/-- The items that are passed in following references, and how that ends. -/
structure Chain (ε α : Type) where
  items : List α
  ending : ChainEnd ε α
deriving Repr

namespace Chain

variable {ε α κ : Type} [DecidableEq κ]

/-- Follow the references from `a`. Items are told apart by their keys; `unseen` holds the keys of
the items that may still be entered. -/
def follow (key : α → κ) (next : α → Except ε (Option α)) (unseen : List κ) (a : α) : Chain ε α :=
  match next a with
  | .error e => ⟨[a], .broken e⟩
  | .ok none => ⟨[a], .finished⟩
  | .ok (some b) =>
    if key b ∈ unseen then
      let rest := follow key next (unseen.erase (key b)) b
      ⟨a :: rest.items, rest.ending⟩
    else ⟨[a], .returned b⟩
termination_by unseen.length
decreasing_by
  rename_i h
  have := List.length_pos_of_mem h
  rw [List.length_erase_of_mem h]
  omega

/-- The part of a chain from the item to which it returns, with that item once more at the end. -/
def loop (key : α → κ) (items : List α) (again : α) : List α :=
  items.dropWhile (fun a => key a ≠ key again) ++ [again]

theorem head?_items_follow (key : α → κ) (next : α → Except ε (Option α)) (unseen : List κ)
    (a : α) : (follow key next unseen a).items.head? = some a := by
  unfold follow
  split
  · rfl
  · rfl
  · split <;> rfl

end Chain

end RegisterMap
