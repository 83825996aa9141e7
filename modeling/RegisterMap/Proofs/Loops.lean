/-!
# Loops that end

A loop takes steps from one state to the next for as long as there is one. A loop that keeps an
invariant and makes a measure smaller with every step ends, in a state with the invariant that has
no further step.
-/

namespace RegisterMap

/-- The loop with the given step ends in the last state. -/
inductive Ends {σ : Type} (step : σ → Option σ) : σ → σ → Prop
  | done {s : σ} (last : step s = none) : Ends step s s
  | next {s t u : σ} (first : step s = some t) (rest : Ends step t u) : Ends step s u

/-- What every step keeps holds at the end, which is reached if every step makes a measure
smaller. -/
theorem loop_ends {σ : Type} {step : σ → Option σ} {Invariant : σ → Prop} {measure : σ → Nat}
    (keeps : ∀ s t, Invariant s → step s = some t → Invariant t ∧ measure t < measure s) {s : σ}
    (h : Invariant s) : ∃ t, Ends step s t ∧ Invariant t ∧ step t = none := by
  induction hn : measure s using Nat.strongRecOn generalizing s with
  | ind n ih =>
      cases hstep : step s with
      | none => exact ⟨s, .done hstep, h, hstep⟩
      | some t =>
          obtain ⟨ht, hlt⟩ := keeps s t h hstep
          obtain ⟨u, hends, hu, hlast⟩ := ih (measure t) (hn ▸ hlt) ht rfl
          exact ⟨u, .next hstep hends, hu, hlast⟩

end RegisterMap
