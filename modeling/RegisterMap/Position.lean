/-!
# Positions in a sequence

A position counts from the front of a sequence, or, when it is negative, from its back: `0` is the
first item and `-1` the last. A span selects the items from one position up to another with a
stride; its bounds are clamped to the sequence instead of failing.
-/

namespace RegisterMap

namespace Position

/-- The index that a position denotes in a sequence of `length` items. -/
def index? (length : Nat) (i : Int) : Option Nat :=
  let j := if i < 0 then i + length else i
  if 0 ≤ j ∧ j < length then some j.toNat else none

/-- The item at a position. -/
def item? {α : Type} (items : List α) (i : Int) : Option α :=
  (index? items.length i).bind (items[·]?)

theorem index?_lt {length : Nat} {i : Int} {n : Nat} (h : index? length i = some n) :
    n < length := by
  simp only [index?, Option.ite_none_right_eq_some, Option.some.injEq] at h
  omega

@[simp] theorem index?_natCast {length n : Nat} (h : n < length) :
    index? length (n : Int) = some n := by
  have : ¬ (n : Int) < 0 := by omega
  simp [index?, this, h]

theorem index?_neg {length n : Nat} (h₀ : 0 < n) (h : n ≤ length) :
    index? length (-(n : Int)) = some (length - n) := by
  have h₁ : -(n : Int) < 0 := by omega
  simp only [index?, h₁, if_true]
  rw [if_pos (by omega)]
  congr 1
  omega

end Position

/-- A selection of items: from `start` up to but without `stop`, every `step`-th item. Bounds that
are not given lie at the ends of the sequence, in the direction of the step. -/
structure Span where
  start : Option Int := none
  stop : Option Int := none
  step : Option Int := none
deriving DecidableEq, Repr

namespace Span

/-- Clamp a bound to the interval from `low` to `high`, counting negative bounds from the back. -/
def clamp (length : Nat) (low high i : Int) : Int :=
  let j := if i < 0 then i + length else i
  max low (min high j)

/-- The number of steps from `start` before `stop` is reached. -/
def steps (start stop step : Int) : Nat :=
  if 0 < step then ((stop - start + step - 1) / step).toNat
  else ((start - stop - step - 1) / (-step)).toNat

/-- The indices selected in a sequence of `length` items; there are none for a step of zero. -/
def indices? (s : Span) (length : Nat) : Option (List Nat) :=
  let step := s.step.getD 1
  if step = 0 then none
  else
    let low : Int := if 0 < step then 0 else -1
    let high : Int := if 0 < step then length else length - 1
    let start := (s.start.map (clamp length low high)).getD (if 0 < step then low else high)
    let stop := (s.stop.map (clamp length low high)).getD (if 0 < step then high else low)
    some ((List.range (steps start stop step)).map fun (k : Nat) => (start + k * step).toNat)

/-- The selected items, in the order of selection. -/
def select? {α : Type} (s : Span) (items : List α) : Option (List α) :=
  (s.indices? items.length).map fun is => is.filterMap (items[·]?)

example : select? ⟨none, none, some (-1)⟩ [1, 2, 3] = some [3, 2, 1] := by decide

example : select? ⟨some (-2), none, none⟩ [1, 2, 3] = some [2, 3] := by decide

example : select? ⟨some 2, some 0, some (-1)⟩ [1, 2, 3] = some [3, 2] := by decide

end Span

end RegisterMap
