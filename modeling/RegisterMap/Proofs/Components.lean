import Mathlib.Logic.Relation
import RegisterMap.Proofs.Partition

/-!
# Connected names

Uniting the two names of each of several pairs makes one set of all names that are connected by
pairs, whichever names come to represent the sets, in whichever order names are united and found, and
however often the ways to the representatives are shortened.

`Represents` relates a partition to the representatives that finding a name gives. Every step on the
way there goes down in a depth, so no way is longer than there are names. Finding a name keeps the
representatives; uniting two names gives the names of one of the sets a new one.
-/

namespace RegisterMap.DisjointSets

/-! ### Parents -/

theorem lookup_eq_none_iff_not_mem_names {s : DisjointSets} {a : String} :
    s.parents.lookup a = none ↔ a ∉ s.names := by
  rw [← lookup_isSome_iff_mem_names, Bool.not_eq_true, Option.isSome_eq_false_iff,
    Option.isNone_iff_eq_none]

theorem mem_names_of_parent_ne {s : DisjointSets} {a : String} (h : s.parent a ≠ a) :
    a ∈ s.names := by
  by_contra hmem
  rw [parent, lookup_eq_none_iff_not_mem_names.2 hmem] at h
  exact h rfl

@[simp] theorem parent_mention (s : DisjointSets) (name a : String) :
    (s.mention name).parent a = s.parent a := by
  unfold mention
  split
  · rfl
  · simp only [parent, List.lookup_append]
    cases s.parents.lookup a with
    | some b => rfl
    | none =>
        by_cases h : a = name
        · simp [h]
        · have hne : (a == name) = false := beq_eq_false_iff_ne.2 h
          simp [List.lookup_cons, hne]

theorem mem_names_mention {s : DisjointSets} {name a : String} :
    a ∈ (s.mention name).names ↔ a = name ∨ a ∈ s.names := by
  rw [names_mention]
  split
  · next hname => exact ⟨.inr, fun h => h.elim (fun heq => heq ▸ hname) id⟩
  · rw [List.mem_append, List.mem_singleton, or_comm]

theorem parent_point {s : DisjointSets} {name : String} (hname : name ∈ s.names)
    (target a : String) :
    (s.point name target).parent a = if a = name then target else s.parent a := by
  have hlookup : (s.point name target).parents.lookup a =
      (s.parents.lookup a).map fun b => if a = name then target else b := by
    unfold point
    induction s.parents with
    | nil => rfl
    | cons e es ih =>
        obtain ⟨key, value⟩ := e
        by_cases ha : a = key
        · subst ha
          by_cases he : a = name
          · simp [he]
          · simp [he]
        · have hne : (a == key) = false := beq_eq_false_iff_ne.2 ha
          by_cases he : key = name
          · have hne' : (a == name) = false := he ▸ hne
            simp only [List.map_cons, he, if_true, List.lookup_cons, hne', ih]
          · simp only [List.map_cons, he, if_false, List.lookup_cons, hne, ih]
  rw [parent, hlookup]
  split
  · next h =>
    subst h
    cases hsome : s.parents.lookup a with
    | none => exact absurd hname (lookup_eq_none_iff_not_mem_names.1 hsome)
    | some b => rfl
  · cases h : s.parents.lookup a with
    | none => simp [parent, h]
    | some b => simp [parent, h]

/-! ### Representatives -/

/-- Every name has the representative that its parent has, and is deeper than its parent, unless it
represents its set itself. -/
structure Represents (s : DisjointSets) (rep : String → String) (depth : String → Nat) : Prop where
  closed : ∀ a ∈ s.names, s.parent a ∈ s.names
  top : ∀ a, s.parent a = a → rep a = a
  step : ∀ a, s.parent a ≠ a → rep (s.parent a) = rep a ∧ depth (s.parent a) < depth a

theorem countP_lt_countP {α : Type} {l : List α} {p q : α → Bool} (h : ∀ x, p x → q x) {a : α}
    (ha : a ∈ l) (hq : q a) (hp : ¬ p a) : l.countP p < l.countP q := by
  obtain ⟨before, after, rfl⟩ := List.append_of_mem ha
  have hbefore : before.countP p ≤ before.countP q := List.countP_mono_left fun x _ => h x
  have hafter : after.countP p ≤ after.countP q := List.countP_mono_left fun x _ => h x
  simp only [List.countP_append, List.countP_cons, hq, hp, if_true]
  rw [if_neg Bool.false_ne_true]
  omega

namespace Represents

variable {s : DisjointSets} {rep : String → String} {depth : String → Nat}

/-- The representative of a name is its own parent. It is mentioned if the name is, and less deep if
it is another one. -/
theorem parent_rep (h : s.Represents rep depth) (a : String) :
    s.parent (rep a) = rep a ∧ (a ∈ s.names → rep a ∈ s.names) ∧
      (rep a ≠ a → depth (rep a) < depth a) := by
  induction hn : depth a using Nat.strongRecOn generalizing a with
  | ind n ih =>
      by_cases hparent : s.parent a = a
      · rw [h.top a hparent]
        exact ⟨hparent, id, fun hne => absurd rfl hne⟩
      · obtain ⟨hrep, hlt⟩ := h.step a hparent
        obtain ⟨hself, hmem, hdepth⟩ := ih _ (hn ▸ hlt) (s.parent a) rfl
        rw [hrep] at hself hmem hdepth
        refine ⟨hself, fun ha => hmem (h.closed a ha), fun _ => ?_⟩
        by_cases heq : rep a = s.parent a
        · rw [heq]
          exact hn ▸ hlt
        · exact Nat.lt_trans (hdepth heq) (hn ▸ hlt)

theorem rep_rep (h : s.Represents rep depth) (a : String) : rep (rep a) = rep a :=
  h.top _ (h.parent_rep a).1

theorem rep_of_mem_climb (h : s.Represents rep depth) (steps : Nat) (a : String) :
    ∀ x ∈ s.climb steps a, rep x = rep a := by
  induction steps generalizing a with
  | zero => simp [climb]
  | succ steps ih =>
      unfold climb
      split
      · simp
      · next hparent =>
        rw [List.forall_mem_cons]
        refine ⟨rfl, fun x hx => ?_⟩
        rw [ih _ x hx]
        exact (h.step a hparent).1

/-- There are fewer names that are less deep than the parent of a name. -/
theorem countP_parent_lt (h : s.Represents rep depth) {a : String} (hparent : s.parent a ≠ a) :
    s.names.countP (depth · < depth (s.parent a)) < s.names.countP (depth · < depth a) := by
  have hlt := (h.step a hparent).2
  refine countP_lt_countP (fun x hx => ?_) (h.closed a (mem_names_of_parent_ne hparent)) ?_ ?_
  · have hx := of_decide_eq_true hx
    exact decide_eq_true (by omega)
  · exact decide_eq_true hlt
  · simp

/-- The way ends at the representative if it may take as many steps as there are names that are less
deep. -/
theorem getLast?_climb (h : s.Represents rep depth) {steps : Nat} {a : String}
    (enough : s.names.countP (depth · < depth a) ≤ steps) :
    (s.climb steps a).getLast? = some (rep a) := by
  induction steps generalizing a with
  | zero =>
      have hparent : s.parent a = a := by
        by_contra hne
        have := h.countP_parent_lt hne
        omega
      simp [climb, h.top a hparent]
  | succ steps ih =>
      unfold climb
      split
      · next hparent => simp [h.top a hparent]
      · next hparent =>
        have hlt := h.countP_parent_lt hparent
        have hrest := ih (a := s.parent a) (by omega)
        rw [List.getLast?_cons, hrest, Option.getD_some, (h.step a hparent).1]

/-- No way has more steps than there are names. -/
theorem countP_le_length (s : DisjointSets) (depth : String → Nat) (a : String) :
    s.names.countP (depth · < depth a) ≤ s.parents.length := by
  have hlength : s.names.length = s.parents.length := List.length_map _
  exact hlength ▸ List.countP_le_length

theorem root_eq (h : s.Represents rep depth) (a : String) : s.root a = rep a := by
  rw [root, way, h.getLast?_climb (countP_le_length s depth a), Option.getD_some]

/-! ### Operations -/

theorem mention (h : s.Represents rep depth) (name : String) :
    (s.mention name).Represents rep depth where
  closed a ha := by
    rw [parent_mention, mem_names_mention]
    by_cases hparent : s.parent a = a
    · rw [hparent]
      exact mem_names_mention.1 ha
    · exact .inr (h.closed a (mem_names_of_parent_ne hparent))
  top a := by
    rw [parent_mention]
    exact h.top a
  step a := by
    rw [parent_mention]
    exact h.step a

/-- A name may point to its representative directly. -/
theorem point (h : s.Represents rep depth) {name : String} (hname : name ∈ s.names) :
    (s.point name (rep name)).Represents rep depth := by
  obtain ⟨-, hmem, hdepth⟩ := h.parent_rep name
  constructor
  · intro a ha
    rw [names_point] at ha ⊢
    rw [parent_point hname]
    split
    · exact hmem hname
    · exact h.closed a ha
  · intro a
    rw [parent_point hname]
    split
    · next heq =>
      subst heq
      exact id
    · exact h.top a
  · intro a
    rw [parent_point hname]
    split
    · next heq =>
      subst heq
      exact fun hne => ⟨h.rep_rep a, hdepth hne⟩
    · exact h.step a

theorem foldl_point (h : s.Represents rep depth) {root : String} {passed : List String}
    (mem : ∀ x ∈ passed, x ∈ s.names) (reps : ∀ x ∈ passed, rep x = root) :
    (passed.foldl (fun t x => t.point x root) s).Represents rep depth := by
  induction passed generalizing s with
  | nil => exact h
  | cons x passed ih =>
      rw [List.forall_mem_cons] at mem reps
      rw [List.foldl_cons]
      refine ih ?_ (fun y hy => ?_) reps.2
      · rw [← reps.1]
        exact h.point mem.1
      · rw [names_point]
        exact mem.2 y hy

theorem mem_names_of_mem_climb (h : s.Represents rep depth) {steps : Nat} {a : String}
    (ha : a ∈ s.names) : ∀ x ∈ s.climb steps a, x ∈ s.names := by
  induction steps generalizing a with
  | zero => simpa [climb] using ha
  | succ steps ih =>
      unfold climb
      split
      · simpa using ha
      · exact List.forall_mem_cons.2 ⟨ha, ih (h.closed a ha)⟩

/-- Finding a name gives its representative, and keeps all representatives. -/
theorem find (h : s.Represents rep depth) (name : String) :
    (s.find name).1 = rep name ∧ (s.find name).2.Represents rep depth := by
  have hmention := h.mention name
  have hname : name ∈ (s.mention name).names := mem_names_mention.2 (.inl rfl)
  refine ⟨hmention.root_eq name, ?_⟩
  refine hmention.foldl_point (fun x hx => hmention.mem_names_of_mem_climb hname x hx) ?_
  intro x hx
  rw [hmention.root_eq name]
  exact hmention.rep_of_mem_climb _ name x hx

/-- The representatives after the set of `b` is added to the set of `a`. -/
def merge (rep : String → String) (a b x : String) : String :=
  if rep x = rep b then rep a else rep x

theorem union (h : s.Represents rep depth) (a b : String) :
    ∃ depth', (s.union a b).Represents (merge rep a b) depth' := by
  obtain ⟨hrootA, hfindA⟩ := h.find a
  obtain ⟨hrootB, hfindB⟩ := hfindA.find b
  have hmem {x : String} (hx : x = a ∨ x = b) : rep x ∈ ((s.find a).2.find b).2.names := by
    refine (hfindB.parent_rep x).2.1 ?_
    rw [names_find, mem_names_mention, names_find, mem_names_mention]
    exact hx.elim (fun ha => .inr (.inl ha)) .inl
  simp only [DisjointSets.union, hrootA, hrootB]
  generalize ((s.find a).2.find b).2 = t at hfindB hmem
  by_cases heq : rep a = rep b
  · rw [if_pos heq]
    have hmerge : merge rep a b = rep := by
      funext x
      unfold merge
      split
      · next hx => rw [heq, hx]
      · rfl
    rw [hmerge]
    exact ⟨depth, hfindB⟩
  · rw [if_neg heq]
    have htop : rep (rep a) ≠ rep b := by rwa [hfindB.rep_rep]
    -- What was in the set of `b` comes below the representative of `a`.
    refine ⟨fun x => if rep x = rep b then depth x + depth (rep a) + 1 else depth x, ?_, ?_, ?_⟩
    · intro x hx
      rw [names_point] at hx ⊢
      rw [parent_point (hmem (.inr rfl))]
      split
      · exact hmem (.inl rfl)
      · exact hfindB.closed x hx
    · intro x hx
      rw [parent_point (hmem (.inr rfl))] at hx
      split at hx
      · next hxb => exact absurd (hx.trans hxb) heq
      · next hxb =>
        have hself := hfindB.top x hx
        rw [merge, hself, if_neg hxb]
    · intro x hx
      rw [parent_point (hmem (.inr rfl))] at hx ⊢
      split
      · next hxb =>
        subst hxb
        have hself := hfindB.rep_rep b
        refine ⟨?_, ?_⟩
        · rw [merge, merge, if_neg htop, if_pos hself, hfindB.rep_rep]
        · rw [if_pos hself]
          omega
      · next hxb =>
        rw [if_neg hxb] at hx
        obtain ⟨hrep, hlt⟩ := hfindB.step x hx
        refine ⟨by rw [merge, merge, hrep], ?_⟩
        rw [hrep]
        split
        · omega
        · exact hlt

end Represents

/-! ### Connected names -/

/-- Uniting two names connects whatever is connected to one of them with what is connected to the
other one. -/
theorem merge_eq_iff {rep : String → String} {R : String → String → Prop}
    (h : ∀ x y, rep x = rep y ↔ Relation.EqvGen R x y) (a b x y : String) :
    Represents.merge rep a b x = Represents.merge rep a b y ↔
      Relation.EqvGen (fun x y => R x y ∨ x = a ∧ y = b) x y := by
  have old {x y : String} (hxy : rep x = rep y) :
      Relation.EqvGen (fun x y => R x y ∨ x = a ∧ y = b) x y :=
    Relation.EqvGen.mono (fun _ _ => .inl) _ _ ((h x y).1 hxy)
  have new : Relation.EqvGen (fun x y => R x y ∨ x = a ∧ y = b) a b := .rel _ _ (.inr ⟨rfl, rfl⟩)
  constructor
  · intro hmerge
    unfold Represents.merge at hmerge
    split at hmerge
    · next hx =>
      split at hmerge
      · next hy => exact old (hx.trans hy.symm)
      · exact ((old hx).trans _ _ _ (new.symm _ _)).trans _ _ _ (old hmerge)
    · split at hmerge
      · next hy => exact ((old hmerge).trans _ _ _ new).trans _ _ _ (old hy.symm)
      · exact old hmerge
  · intro hgen
    induction hgen with
    | rel x y hxy =>
        rcases hxy with hxy | ⟨rfl, rfl⟩
        · rw [Represents.merge, Represents.merge, (h x y).2 (.rel _ _ hxy)]
        · rw [Represents.merge, Represents.merge, if_pos rfl]
          split
          · rfl
          · rfl
    | refl => rfl
    | symm _ _ _ ih => exact ih.symm
    | trans _ _ _ _ _ ih ih' => exact ih.trans ih'

theorem exists_represents_foldl_apply (ops : List Operation) {s : DisjointSets}
    {rep : String → String} {depth : String → Nat} {R : String → String → Prop}
    (h : s.Represents rep depth) (hR : ∀ x y, rep x = rep y ↔ Relation.EqvGen R x y) :
    ∃ rep' depth', (ops.foldl apply s).Represents rep' depth' ∧
      ∀ x y, rep' x = rep' y ↔ Relation.EqvGen (fun x y => R x y ∨ .union x y ∈ ops) x y := by
  induction ops generalizing s rep depth R with
  | nil => exact ⟨rep, depth, h, by simpa using hR⟩
  | cons op ops ih =>
      cases op with
      | find name =>
          obtain ⟨rep', depth', hfold, hiff⟩ := ih (h.find name).2 hR
          exact ⟨rep', depth', hfold, by simpa using hiff⟩
      | union a b =>
          obtain ⟨depth', hunion⟩ := h.union a b
          obtain ⟨rep', depth'', hfold, hiff⟩ := ih hunion (merge_eq_iff hR a b)
          refine ⟨rep', depth'', hfold, fun x y => ?_⟩
          rw [hiff]
          have hsame : (fun x y => (R x y ∨ x = a ∧ y = b) ∨ .union x y ∈ ops) =
              fun x y => R x y ∨ .union x y ∈ Operation.union a b :: ops := by
            funext x y
            rw [List.mem_cons, Operation.union.injEq, or_assoc]
          rw [hsame]

/-- The representatives after finding and uniting names are equal for names that are connected by
the pairs that were united. -/
theorem exists_represents (ops : List Operation) :
    ∃ rep depth, (ops.foldl apply (∅ : DisjointSets)).Represents rep depth ∧
      ∀ x y, rep x = rep y ↔ Relation.EqvGen (fun x y => .union x y ∈ ops) x y := by
  have hempty : (∅ : DisjointSets).Represents id fun _ => 0 :=
    { closed := nofun, top := fun _ _ => rfl, step := fun _ h => absurd rfl h }
  have hnone : ∀ x y : String, id x = id y ↔ Relation.EqvGen (fun _ _ => False) x y := by
    intro x y
    constructor
    · rintro rfl
      exact .refl x
    · intro hgen
      induction hgen with
      | rel _ _ h => exact h.elim
      | refl => rfl
      | symm _ _ _ ih => exact ih.symm
      | trans _ _ _ _ _ ih ih' => exact ih.trans ih'
  simpa using exists_represents_foldl_apply ops hempty hnone

/-- A name is mentioned after operations that mention it. -/
theorem mem_names_foldl_apply (ops : List Operation) (s : DisjointSets) (a : String) :
    a ∈ (ops.foldl apply s).names ↔ (∃ op ∈ ops, a ∈ op.names) ∨ a ∈ s.names := by
  have happly (s : DisjointSets) (op : Operation) :
      a ∈ (s.apply op).names ↔ a ∈ op.names ∨ a ∈ s.names := by
    cases op with
    | find name =>
        rw [apply, names_find, mem_names_mention, Operation.names, List.mem_singleton]
    | union b c =>
        rw [apply, names_union, mem_names_mention, mem_names_mention, Operation.names,
          List.mem_cons, List.mem_singleton]
        tauto
  induction ops generalizing s with
  | nil => simp
  | cons op ops ih =>
      refine (ih (s.apply op)).trans ?_
      rw [happly, List.exists_mem_cons_iff]
      exact or_left_comm.trans or_assoc.symm

/-! ### Groups -/

theorem mem_addToGroup {root name r x : String} {gs : List (String × List String)} :
    (∃ g ∈ addToGroup root name gs, g.1 = r ∧ x ∈ g.2) ↔
      (∃ g ∈ gs, g.1 = r ∧ x ∈ g.2) ∨ (r = root ∧ x = name) := by
  induction gs with
  | nil => simp [addToGroup, eq_comm]
  | cons g gs ih =>
      unfold addToGroup
      split
      · next hg =>
        simp only [List.exists_mem_cons_iff, List.mem_append, List.mem_singleton, hg]
        constructor
        · rintro (⟨hr, hx | hx⟩ | h)
          · exact .inl (.inl ⟨hr, hx⟩)
          · exact .inr ⟨hr.symm, hx⟩
          · exact .inl (.inr h)
        · rintro ((⟨hr, hx⟩ | h) | ⟨hr, hx⟩)
          · exact .inl ⟨hr, .inl hx⟩
          · exact .inr h
          · exact .inl ⟨hr.symm, .inr hx⟩
      · rw [List.exists_mem_cons_iff, ih, List.exists_mem_cons_iff, or_assoc]

theorem nodup_keys_addToGroup {root name : String} {gs : List (String × List String)}
    (h : (gs.map (·.1)).Nodup) : ((addToGroup root name gs).map (·.1)).Nodup := by
  have hkeys (gs : List (String × List String)) : ∀ k ∈ (addToGroup root name gs).map (·.1),
      k = root ∨ k ∈ gs.map (·.1) := by
    induction gs with
    | nil => simp [addToGroup]
    | cons g gs ih =>
        unfold addToGroup
        split
        · next hg => simp [hg]
        · rw [List.map_cons, List.forall_mem_cons]
          refine ⟨.inr (by simp), fun k hk => (ih k hk).imp_right fun hmem => ?_⟩
          exact List.mem_cons_of_mem _ hmem
  induction gs with
  | nil => simp [addToGroup]
  | cons g gs ih =>
      rw [List.map_cons, List.nodup_cons] at h
      unfold addToGroup
      split
      · next hg => simpa [← hg] using h
      · next hg =>
        rw [List.map_cons, List.nodup_cons]
        refine ⟨fun hmem => ?_, ih h.2⟩
        rcases hkeys gs _ hmem with hroot | hold
        · exact hg hroot
        · exact h.1 hold

/-- There is one group for each representative, made up of the names that it represents. -/
theorem Represents.groups_spec {s : DisjointSets} {rep : String → String}
    {depth : String → Nat} (h : s.Represents rep depth) :
    (s.groups.1.map (·.1)).Nodup ∧
      ∀ r x, (∃ g ∈ s.groups.1, g.1 = r ∧ x ∈ g.2) ↔ x ∈ s.names ∧ rep x = r := by
  -- The names that are gone through are in the group of their representative.
  have collect (mentioned done : List String) (gs : List (String × List String))
      (t : DisjointSets) (ht : t.Represents rep depth) (keys : (gs.map (·.1)).Nodup)
      (hgs : ∀ r x, (∃ g ∈ gs, g.1 = r ∧ x ∈ g.2) ↔ x ∈ done ∧ rep x = r) :
      ∃ gs', (mentioned.foldl (fun state name =>
          (addToGroup (state.2.find name).1 name state.1, (state.2.find name).2)) (gs, t)).1 = gs' ∧
        (gs'.map (·.1)).Nodup ∧
        ∀ r x, (∃ g ∈ gs', g.1 = r ∧ x ∈ g.2) ↔ (x ∈ done ∨ x ∈ mentioned) ∧ rep x = r := by
    induction mentioned generalizing done gs t with
    | nil => exact ⟨gs, rfl, keys, by simpa using hgs⟩
    | cons name mentioned ih =>
        obtain ⟨hroot, hfind⟩ := ht.find name
        have hstep : ∀ r x, (∃ g ∈ addToGroup (t.find name).1 name gs, g.1 = r ∧ x ∈ g.2) ↔
            x ∈ name :: done ∧ rep x = r := by
          intro r x
          rw [mem_addToGroup, hgs, hroot, List.mem_cons]
          constructor
          · rintro (⟨hx, hr⟩ | ⟨rfl, rfl⟩)
            · exact ⟨.inr hx, hr⟩
            · exact ⟨.inl rfl, rfl⟩
          · rintro ⟨rfl | hx, hr⟩
            · exact .inr ⟨hr.symm, rfl⟩
            · exact .inl ⟨hx, hr⟩
        obtain ⟨gs', hgs', keys', hall⟩ :=
          ih (name :: done) _ _ hfind (nodup_keys_addToGroup keys) hstep
        refine ⟨gs', hgs', keys', fun r x => ?_⟩
        rw [hall, List.mem_cons, List.mem_cons]
        tauto
  obtain ⟨gs, hgs, keys, hall⟩ := collect s.names [] [] s h List.nodup_nil (by simp)
  have hgroups : s.groups.1 = gs := hgs
  simp only [List.not_mem_nil, false_or] at hall
  rw [hgroups]
  exact ⟨keys, hall⟩

/-- Names are in one group if they have the same representative. -/
theorem Represents.mem_groups_iff {s : DisjointSets} {rep : String → String}
    {depth : String → Nat} (h : s.Represents rep depth) {a b : String} :
    (∃ g ∈ s.groups.1, a ∈ g.2 ∧ b ∈ g.2) ↔ a ∈ s.names ∧ b ∈ s.names ∧ rep a = rep b := by
  obtain ⟨keys, hall⟩ := h.groups_spec
  constructor
  · rintro ⟨g, hg, ha, hb⟩
    obtain ⟨hamem, harep⟩ := (hall g.1 a).1 ⟨g, hg, rfl, ha⟩
    obtain ⟨hbmem, hbrep⟩ := (hall g.1 b).1 ⟨g, hg, rfl, hb⟩
    exact ⟨hamem, hbmem, harep.trans hbrep.symm⟩
  · rintro ⟨ha, hb, hrep⟩
    obtain ⟨g, hg, hgrep, ha⟩ := (hall (rep a) a).2 ⟨ha, rfl⟩
    obtain ⟨g', hg', hgrep', hb⟩ := (hall (rep a) b).2 ⟨hb, hrep.symm⟩
    obtain rfl := List.inj_on_of_nodup_map keys hg hg' (hgrep.trans hgrep'.symm)
    exact ⟨g, hg, ha, hb⟩

/-- Names that are connected are the same one, or they are in pairs. -/
theorem mentioned_of_eqvGen {pairs : List (String × String)} {a b : String}
    (h : Relation.EqvGen (fun x y => (x, y) ∈ pairs) a b) :
    a = b ∨ (∃ l ∈ pairs, a = l.1 ∨ a = l.2) ∧ ∃ l ∈ pairs, b = l.1 ∨ b = l.2 := by
  induction h with
  | rel x y hxy => exact .inr ⟨⟨(x, y), hxy, .inl rfl⟩, (x, y), hxy, .inr rfl⟩
  | refl => exact .inl rfl
  | symm x y _ ih => exact ih.imp Eq.symm And.symm
  | trans x y z _ _ ih ih' =>
      rcases ih with rfl | ⟨hx, hy⟩
      · exact ih'
      · rcases ih' with rfl | ⟨-, hz⟩
        · exact .inr ⟨hx, hy⟩
        · exact .inr ⟨hx, hz⟩

/-- Two different names are in one group if and only if they are connected. -/
theorem mem_groups_foldl_union_iff {pairs : List (String × String)} {a b : String} (hne : a ≠ b) :
    (∃ g ∈ (pairs.foldl (fun s l => s.union l.1 l.2) (∅ : DisjointSets)).groups.1,
        a ∈ g.2 ∧ b ∈ g.2) ↔ Relation.EqvGen (fun x y => (x, y) ∈ pairs) a b := by
  rw [foldl_union_eq]
  obtain ⟨rep, depth, hrepresents, hiff⟩ :=
    exists_represents (pairs.map fun l => Operation.union l.1 l.2)
  have hunion (x y : String) :
      .union x y ∈ pairs.map (fun l => Operation.union l.1 l.2) ↔ (x, y) ∈ pairs := by
    simp
  have hmention (x : String) :
      x ∈ ((pairs.map fun l => Operation.union l.1 l.2).foldl apply ∅).names ↔
        ∃ l ∈ pairs, x = l.1 ∨ x = l.2 := by
    rw [mem_names_foldl_apply]
    simp [Operation.names, names, EmptyCollection.emptyCollection]
  simp only [hunion] at hiff
  rw [hrepresents.mem_groups_iff, hiff, hmention, hmention]
  refine ⟨fun h => h.2.2, fun h => ?_⟩
  obtain ⟨ha, hb⟩ := (mentioned_of_eqvGen h).resolve_left hne
  exact ⟨ha, hb, h⟩

end RegisterMap.DisjointSets
