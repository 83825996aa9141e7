import RegisterMap.Proofs.Success

/-!
# Computations that fail

A sequence of two steps fails in one of them, and a traversal of a list fails at one of its items.

`FailsWith` says what holds of every failure of a computation. As for results, its rules follow the
way in which the computation is composed.
-/

namespace RegisterMap

variable {ε α β : Type}

theorem bind_eq_error_iff {x : Except ε α} {f : α → Except ε β} {e : ε} :
    (x >>= f) = .error e ↔ x = .error e ∨ ∃ a, x = .ok a ∧ f a = .error e := by
  cases x with
  | error e' => simp [bind, Except.bind]
  | ok a => simp [bind, Except.bind]

/-- A sequence of two steps fails in the first step, or in the second one after a result of the
first. -/
theorem Logged.bind_eq_error_iff {x : Logged α} {f : α → Logged β} {e : Error} :
    (x >>= f).result = .error e ↔
      x.result = .error e ∨ ∃ a, x.result = .ok a ∧ (f a).result = .error e := by
  rw [Logged.result_bind]
  exact RegisterMap.bind_eq_error_iff

theorem exists_mem_of_forM_eq_error {f : α → Except ε Unit} {as : List α} {e : ε}
    (h : as.forM f = .error e) : ∃ a ∈ as, f a = .error e := by
  induction as with
  | nil => cases h
  | cons a as ih =>
      rcases bind_eq_error_iff.1 h with hfirst | ⟨_, -, hrest⟩
      · exact ⟨a, List.mem_cons_self, hfirst⟩
      · obtain ⟨b, hb, he⟩ := ih hrest
        exact ⟨b, List.mem_cons_of_mem a hb, he⟩

theorem exists_mem_of_mapM_eq_error {f : α → Except ε β} {as : List α} {e : ε}
    (h : as.mapM f = .error e) : ∃ a ∈ as, f a = .error e := by
  induction as with
  | nil => cases h
  | cons a as ih =>
      rw [List.mapM_cons] at h
      rcases bind_eq_error_iff.1 h with hfirst | ⟨_, -, hrest⟩
      · exact ⟨a, List.mem_cons_self, hfirst⟩
      · rcases bind_eq_error_iff.1 hrest with hrest | ⟨_, -, hdone⟩
        · obtain ⟨b, hb, he⟩ := ih hrest
          exact ⟨b, List.mem_cons_of_mem a hb, he⟩
        · cases hdone

/-- Every failure of the computation has the property. -/
def FailsWith (Q : ε → Prop) (x : Except ε α) : Prop :=
  ∀ e, x = .error e → Q e

namespace FailsWith

variable {Q : ε → Prop} {x : Except ε α}

theorem of_ok {a : α} : FailsWith Q (.ok a) :=
  nofun

theorem of_eq_ok {a : α} (h : x = .ok a) : FailsWith Q x := by
  rw [h]
  exact of_ok

theorem of_error {e : ε} (h : Q e) : FailsWith Q (.error e : Except ε α) := by
  rintro _ ⟨⟩
  exact h

theorem bind {f : α → Except ε β} (first : FailsWith Q x)
    (second : ∀ a, x = .ok a → FailsWith Q (f a)) : FailsWith Q (x >>= f) := by
  intro e he
  rcases bind_eq_error_iff.1 he with he | ⟨a, ha, he⟩
  · exact first e he
  · exact second a ha e he

theorem map {f : α → β} (h : FailsWith Q x) : FailsWith Q (f <$> x) := by
  cases x with
  | error e => exact of_error (h e rfl)
  | ok a => exact of_ok

theorem mapError {ε' : Type} {Q : ε' → Prop} {f : ε → ε'} (h : FailsWith (fun e => Q (f e)) x) :
    FailsWith Q (x.mapError f) := by
  cases x with
  | error e => exact of_error (h e rfl)
  | ok a => exact of_ok

theorem ite {c : Prop} [Decidable c] {y : Except ε α} (pos : c → FailsWith Q x)
    (neg : ¬ c → FailsWith Q y) : FailsWith Q (if c then x else y) := by
  by_cases hc : c
  · rw [if_pos hc]
    exact pos hc
  · rw [if_neg hc]
    exact neg hc

/-- A check in front of a computation may add a failure of its own. -/
theorem check {c : Prop} [Decidable c] {e : ε} {f : α → Except ε β} {y : Except ε β}
    (fault : c → Q e) (rest : ¬ c → FailsWith Q y) :
    FailsWith Q (if c then .error e >>= f else y) :=
  ite (fun hc => of_error (fault hc)) rest

theorem mapM {f : α → Except ε β} {as : List α} (h : ∀ a ∈ as, FailsWith Q (f a)) :
    FailsWith Q (as.mapM f) := by
  intro e he
  obtain ⟨a, ha, he⟩ := exists_mem_of_mapM_eq_error he
  exact h a ha e he

theorem forM {f : α → Except ε Unit} {as : List α} (h : ∀ a ∈ as, FailsWith Q (f a)) :
    FailsWith Q (as.forM f) := by
  intro e he
  obtain ⟨a, ha, he⟩ := exists_mem_of_forM_eq_error he
  exact h a ha e he

theorem foldrM {f : α → β → Except ε β} {as : List α} {b : β}
    (h : ∀ a ∈ as, ∀ b, FailsWith Q (f a b)) : FailsWith Q (as.foldrM f b) := by
  induction as with
  | nil => exact of_ok
  | cons a as ih =>
      rw [List.forall_mem_cons] at h
      rw [List.foldrM_cons]
      exact bind (ih h.2) fun done _ => h.1 done

variable {Q : Error → Prop}

theorem logged_bind {x : Logged α} {f : α → Logged β} (first : FailsWith Q x.result)
    (second : ∀ a, x.result = .ok a → FailsWith Q (f a).result) :
    FailsWith Q (x >>= f).result := by
  rw [Logged.result_bind]
  exact bind first second

theorem throw_or {c : Prop} [Decidable c] {e : Error} {f : α → Logged β} {y : Logged β}
    (fault : c → Q e) (rest : ¬ c → FailsWith Q y.result) :
    FailsWith Q (if c then throw e >>= f else y).result := by
  by_cases hc : c
  · rw [if_pos hc]
    exact of_error (fault hc)
  · rw [if_neg hc]
    exact rest hc

end FailsWith

end RegisterMap
