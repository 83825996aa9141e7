import Mathlib.Data.List.Forall2
import RegisterMap.Log

/-!
# Computations that succeed

A computation that succeeds has succeeded in each of its steps. The first lemmas of this module take
a successful run apart: a sequence of two steps into its steps, and a traversal of a list into the
results for its items, which stand in the same order as the items.

`Logged.Yields` says what holds of every result of a computation. Its rules follow the way in which
the computation is composed, so a property of the result is proved without a list of all the steps
on the way. Nothing is said about computations that fail.
-/

namespace RegisterMap

variable {ε α β γ : Type}

theorem bind_eq_ok_iff {x : Except ε α} {f : α → Except ε β} {b : β} :
    (x >>= f) = .ok b ↔ ∃ a, x = .ok a ∧ f a = .ok b := by
  cases x with
  | error e => simp [bind, Except.bind]
  | ok a => simp [bind, Except.bind]

theorem ok_bind (a : α) (f : α → Except ε β) : ((.ok a : Except ε α) >>= f) = f a :=
  rfl

/-- A sequence of two steps succeeds if the first one does, and the second one on its result. -/
theorem exists_ok_bind {x : Except ε α} {f : α → Except ε β} {a : α}
    (first : x = .ok a) (rest : ∃ b, f a = .ok b) : ∃ b, (x >>= f) = .ok b := by
  rw [first]
  exact rest

theorem map_eq_ok_iff {x : Except ε α} {f : α → β} {b : β} :
    f <$> x = .ok b ↔ ∃ a, x = .ok a ∧ f a = b := by
  cases x with
  | error e => simp [Functor.map, Except.map]
  | ok a => simp [Functor.map, Except.map]

theorem mapError_eq_ok_iff {ε' : Type} {x : Except ε α} {f : ε → ε'} {a : α} :
    x.mapError f = .ok a ↔ x = .ok a := by
  cases x with
  | error e => simp [Except.mapError]
  | ok b => simp [Except.mapError]

/-- A sequence of two steps succeeds through a result of the first step. -/
theorem Logged.bind_eq_ok_iff {x : Logged α} {f : α → Logged β} {b : β} :
    (x >>= f).result = .ok b ↔ ∃ a, x.result = .ok a ∧ (f a).result = .ok b := by
  rw [Logged.result_bind]
  exact RegisterMap.bind_eq_ok_iff

/-- A computation with a result that passes a test has succeeded. -/
theorem exists_ok_of_any {x : Except ε α} {p : α → Bool} (h : x.toOption.any p) :
    ∃ a, x = .ok a ∧ p a := by
  cases x with
  | error e => cases h
  | ok a => exact ⟨a, rfl, h⟩

theorem forM_eq_ok_iff {f : α → Except ε Unit} {as : List α} :
    as.forM f = .ok () ↔ ∀ a ∈ as, f a = .ok () := by
  induction as with
  | nil => simp [List.forM, pure, Except.pure]
  | cons a as ih =>
      change (f a >>= fun _ => as.forM f) = _ ↔ _
      rw [bind_eq_ok_iff, List.forall_mem_cons, ih]
      constructor
      · rintro ⟨⟨⟩, ha, has⟩
        exact ⟨ha, has⟩
      · rintro ⟨ha, has⟩
        exact ⟨(), ha, has⟩

/-- The first item of a traversal gives the first result, and the others give the rest. -/
theorem cons_eq_ok_iff {x : Except ε β} {y : Except ε (List β)} {bs : List β} :
    (do
      let b ← x
      let rest ← y
      return b :: rest) = .ok bs ↔ ∃ b rest, x = .ok b ∧ y = .ok rest ∧ bs = b :: rest := by
  simp only [bind_eq_ok_iff]
  constructor
  · rintro ⟨b, hb, rest, hrest, h⟩
    cases h
    exact ⟨b, rest, hb, hrest, rfl⟩
  · rintro ⟨b, rest, hb, hrest, rfl⟩
    exact ⟨b, hb, rest, hrest, rfl⟩

/-- The order in which the results are computed makes no difference to success. -/
theorem cons_eq_ok_iff_of_rest_first {x : Except ε β} {y : Except ε (List β)} {bs : List β} :
    (do
      let rest ← y
      let b ← x
      return b :: rest) = .ok bs ↔ ∃ b rest, x = .ok b ∧ y = .ok rest ∧ bs = b :: rest := by
  simp only [bind_eq_ok_iff]
  constructor
  · rintro ⟨rest, hrest, b, hb, h⟩
    cases h
    exact ⟨b, rest, hb, hrest, rfl⟩
  · rintro ⟨b, rest, hb, hrest, rfl⟩
    exact ⟨rest, hrest, b, hb, rfl⟩

/-- The results of a traversal belong to its items one by one. -/
theorem mapM_eq_ok_iff {f : α → Except ε β} {as : List α} {bs : List β} :
    as.mapM f = .ok bs ↔ List.Forall₂ (fun a b => f a = .ok b) as bs := by
  induction as generalizing bs with
  | nil =>
      rw [List.mapM_nil, List.forall₂_nil_left_iff]
      simp [pure, Except.pure, eq_comm]
  | cons a as ih =>
      rw [List.mapM_cons, cons_eq_ok_iff, List.forall₂_cons_left_iff]
      simp only [ih]

theorem mapM_eq_ok_of_forall {f : α → Except ε β} {g : α → β} {as : List α}
    (h : ∀ a ∈ as, f a = .ok (g a)) : as.mapM f = .ok (as.map g) := by
  rw [mapM_eq_ok_iff, List.forall₂_map_right_iff, List.forall₂_same]
  exact h

/-- A traversal from the back puts the results for its items in front of what is there already. -/
theorem foldrM_cons_eq_ok_iff {f : α → Except ε β} {as : List α} {rest bs : List β} :
    as.foldrM (fun a done => do return (← f a) :: done) rest = .ok bs ↔
      ∃ own, List.Forall₂ (fun a b => f a = .ok b) as own ∧ bs = own ++ rest := by
  induction as generalizing bs with
  | nil => simp [pure, Except.pure, eq_comm]
  | cons a as ih =>
      rw [List.foldrM_cons, cons_eq_ok_iff_of_rest_first]
      simp only [ih, List.forall₂_cons_left_iff]
      constructor
      · rintro ⟨b, _, hb, ⟨own, hown, rfl⟩, rfl⟩
        exact ⟨b :: own, ⟨b, own, hb, hown, rfl⟩, rfl⟩
      · rintro ⟨_, ⟨b, own, hb, hown, rfl⟩, rfl⟩
        exact ⟨b, own ++ rest, hb, ⟨own, hown, rfl⟩, rfl⟩

section Pairing

variable {R : α → β → Prop} {as : List α} {bs : List β}

theorem exists_getElem?_left (h : List.Forall₂ R as bs) {i : Nat} {b : β} (hb : bs[i]? = some b) :
    ∃ a, as[i]? = some a ∧ R a b := by
  induction h generalizing i with
  | nil => simp at hb
  | cons r _ ih =>
      cases i with
      | zero =>
          simp only [List.getElem?_cons_zero, Option.some.injEq] at hb
          exact ⟨_, rfl, hb ▸ r⟩
      | succ i => exact ih (by simpa using hb)

theorem exists_mem_left (h : List.Forall₂ R as bs) {b : β} (hb : b ∈ bs) :
    ∃ a ∈ as, R a b := by
  obtain ⟨i, hi⟩ := List.mem_iff_getElem?.1 hb
  obtain ⟨a, ha, r⟩ := exists_getElem?_left h hi
  exact ⟨a, List.mem_iff_getElem?.2 ⟨i, ha⟩, r⟩

theorem exists_mem_right (h : List.Forall₂ R as bs) {a : α} (ha : a ∈ as) :
    ∃ b ∈ bs, R a b := by
  obtain ⟨b, hb, r⟩ := exists_mem_left h.flip ha
  exact ⟨b, hb, r⟩

/-- If paired items have equal images, the lists of images are equal. -/
theorem map_eq_map_of_forall₂ {f : α → γ} {g : β → γ} (h : List.Forall₂ R as bs)
    (hR : ∀ a b, R a b → f a = g b) : as.map f = bs.map g := by
  induction h with
  | nil => rfl
  | cons r _ ih => rw [List.map_cons, List.map_cons, ih, hR _ _ r]

theorem forall₂_trans {S : β → γ → Prop} {T : α → γ → Prop} {cs : List γ}
    (h : List.Forall₂ R as bs) (h' : List.Forall₂ S bs cs)
    (trans : ∀ a b c, R a b → S b c → T a c) : List.Forall₂ T as cs := by
  induction h generalizing cs with
  | nil =>
      cases h'
      exact .nil
  | cons r _ ih =>
      cases h' with
      | cons s h' => exact .cons (trans _ _ _ r s) (ih h')

/-- Items with a partner each make up a list that can be paired. -/
theorem exists_forall₂ (h : ∀ a ∈ as, ∃ b, R a b) : ∃ bs, List.Forall₂ R as bs := by
  induction as with
  | nil => exact ⟨[], .nil⟩
  | cons a as ih =>
      rw [List.forall_mem_cons] at h
      obtain ⟨b, hb⟩ := h.1
      obtain ⟨bs, hbs⟩ := ih h.2
      exact ⟨b :: bs, .cons hb hbs⟩

theorem forall₂_of_getElem? (length : as.length = bs.length)
    (h : ∀ (i : Nat) a, as[i]? = some a → ∃ b, bs[i]? = some b ∧ R a b) :
    List.Forall₂ R as bs := by
  refine List.forall₂_iff_get.2 ⟨length, fun i hi hi' => ?_⟩
  obtain ⟨b, hb, r⟩ := h i _ (List.getElem?_eq_getElem hi)
  obtain ⟨_, rfl⟩ := List.getElem?_eq_some_iff.1 hb
  exact r

theorem forall₂_zipWith {δ : Type} {S : α → γ → Prop} {T : α → δ → Prop} {f : β → γ → δ}
    {cs : List γ} (h : List.Forall₂ R as bs) (h' : List.Forall₂ S as cs)
    (join : ∀ a b c, R a b → S a c → T a (f b c)) : List.Forall₂ T as (bs.zipWith f cs) := by
  induction h generalizing cs with
  | nil => exact .nil
  | cons r _ ih =>
      cases h' with
      | cons s h' => exact .cons (join _ _ _ r s) (ih h')

/-- Pairs that are linked by items in between make up a list of such items. -/
theorem forall₂_comp_iff {S : β → γ → Prop} {cs : List γ} :
    List.Forall₂ (fun a c => ∃ b, R a b ∧ S b c) as cs ↔
      ∃ bs, List.Forall₂ R as bs ∧ List.Forall₂ S bs cs := by
  constructor
  · intro h
    induction h with
    | nil => exact ⟨[], .nil, .nil⟩
    | cons r _ ih =>
        obtain ⟨b, hb, hc⟩ := r
        obtain ⟨bs, hbs, hcs⟩ := ih
        exact ⟨b :: bs, .cons hb hbs, .cons hc hcs⟩
  · rintro ⟨bs, hbs, hcs⟩
    exact forall₂_trans hbs hcs fun a b c hb hc => ⟨b, hb, hc⟩

/-- Items that go through two steps each can go through the first one together. -/
theorem forall₂_bind_iff {f : α → Except ε β} {g : β → Except ε γ} {cs : List γ} :
    List.Forall₂ (fun a c => (f a >>= g) = .ok c) as cs ↔
      ∃ bs, List.Forall₂ (fun a b => f a = .ok b) as bs ∧
        List.Forall₂ (fun b c => g b = .ok c) bs cs := by
  simp only [bind_eq_ok_iff]
  exact forall₂_comp_iff

theorem forall₂_filter {p : α → Bool} {q : β → Bool} (h : List.Forall₂ R as bs)
    (same : ∀ a b, R a b → p a = q b) : List.Forall₂ R (as.filter p) (bs.filter q) :=
  List.rel_filter (fun a b r => Bool.eq_iff_iff.1 (same a b r)) h

theorem map_zipWith_eq_left {f : α → β → γ} {g : γ → α} (hg : ∀ a b, g (f a b) = a)
    (length : as.length = bs.length) : (as.zipWith f bs).map g = as := by
  induction as generalizing bs with
  | nil => rfl
  | cons a as ih =>
      cases bs with
      | nil => cases length
      | cons b bs =>
          rw [List.zipWith_cons_cons, List.map_cons, hg, ih (Nat.succ.inj length)]

end Pairing

namespace Logged

/-- Every result of the computation has the property. -/
def Yields (x : Logged α) (P : α → Prop) : Prop :=
  ∀ a, x.result = .ok a → P a

namespace Yields

variable {x : Logged α} {f : α → Logged β} {P : β → Prop} {Q : α → Prop}

theorem of_pure {b : β} (h : P b) : (pure b : Logged β).Yields P := by
  intro b' hb
  cases hb
  exact h

theorem of_throw {e : Error} : (throw e : Logged β).Yields P := by
  intro b hb
  cases hb

theorem of_ofExcept {x : Except Error α} (h : ∀ a, x = .ok a → Q a) : (ofExcept x).Yields Q :=
  h

theorem bind (first : x.Yields Q) (second : ∀ a, Q a → (f a).Yields P) : (x >>= f).Yields P := by
  intro b hb
  obtain ⟨a, ha, hb⟩ := Logged.bind_eq_ok_iff.1 hb
  exact second a (first a ha) b hb

/-- Whatever the first step gives, the second one has the property. -/
theorem bind_of_forall (second : ∀ a, (f a).Yields P) : (x >>= f).Yields P :=
  bind (Q := fun _ => True) (fun _ _ => trivial) fun a _ => second a

theorem throw_bind {e : Error} : ((throw e : Logged α) >>= f).Yields P :=
  bind (Q := fun _ => False) of_throw fun _ h => h.elim

/-- A check in front of a computation concerns only its failures. -/
theorem throw_or {c : Prop} [Decidable c] {e : Error} {y : Logged β} (h : ¬ c → y.Yields P) :
    (if c then throw e >>= f else y).Yields P := by
  by_cases hc : c
  · rw [if_pos hc]
    exact throw_bind
  · rw [if_neg hc]
    exact h hc

theorem map {g : α → β} (h : x.Yields fun a => P (g a)) : (g <$> x).Yields P :=
  bind h fun _ ha => of_pure ha

end Yields

end Logged

end RegisterMap
