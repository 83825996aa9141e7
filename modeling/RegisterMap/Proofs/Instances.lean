import Mathlib.Data.List.Nodup
import RegisterMap.Draft.Expansion
import RegisterMap.Proofs.Success

/-!
# What arrays expand to

Where an element stands decides only whether it can be expanded. What it expands to is said by a
recursion on the element alone: in the place of each array there are its instances, and inside of
each of them everything is expanded in the same way (`Member.expandedAll`).

A device can be expanded if and only if each of its peripherals can be, and no name occurs twice
among the peripherals afterwards (`Device.expand_eq_ok_iff`).
-/

namespace RegisterMap.Draft

section

variable {α : Type} [Dimensioned α]

/-- The instances of an element, or the element itself if it has no dimension. -/
def instances (a : α) : List (Option Instance) :=
  match Dimensioned.dim a with
  | none => [none]
  | some dim =>
    (dim.tokens.toOption.getD []).zipIdx.map fun e => some { token := e.1, shift := e.2 * dim.step }

/-- The elements that stand in the place of an element when it is expanded. -/
def replacements (a : α) : List α :=
  (instances a).map (place a)

variable {parent : NodePath} {a : α} {as : List α}

theorem replacements_eq_singleton (plain : Dimensioned.dim a = none) : replacements a = [a] := by
  rw [replacements, instances, plain]
  rfl

theorem copies_eq_ok {is : List (Option Instance)} (h : copies parent a = .ok is) :
    is = instances a := by
  cases hdim : Dimensioned.dim a with
  | none =>
      rw [copies, hdim] at h
      rw [instances, hdim]
      cases h
      rfl
  | some dim =>
      rw [copies, hdim] at h
      rw [instances, hdim]
      obtain ⟨tokens, htokens, h⟩ := bind_eq_ok_iff.1 h
      split at h
      · cases h
      · dsimp only
        rw [mapError_eq_ok_iff.1 htokens]
        have hall := map_eq_map_of_forall₂ (f := fun e : String × Nat =>
          some { token := e.1, shift := e.2 * dim.step : Instance }) (g := id)
          (mapM_eq_ok_iff.1 h) ?_
        · rw [List.map_id] at hall
          exact hall.symm
        · intro e i he
          obtain ⟨_, -, he⟩ := bind_eq_ok_iff.1 he
          cases he
          rfl

theorem claimNames_eq_ok_iff {taken names taken' : List String} :
    claimNames parent taken names = .ok taken' ↔
      names.Nodup ∧ (∀ name ∈ names, name ∉ taken) ∧ taken' = names.reverse ++ taken := by
  induction names generalizing taken with
  | nil => simp [claimNames, eq_comm]
  | cons name names ih =>
      by_cases h : name ∈ taken
      · simp [claimNames, h]
      · rw [claimNames, if_neg (by simpa using h), ih, List.nodup_cons, List.forall_mem_cons,
          List.reverse_cons, List.append_assoc, List.singleton_append]
        simp only [List.mem_cons, not_or]
        constructor
        · rintro ⟨hnodup, hnew, rfl⟩
          exact ⟨⟨fun hmem => (hnew name hmem).1 rfl, hnodup⟩, ⟨h, fun x hx => (hnew x hx).2⟩, rfl⟩
        · rintro ⟨⟨hname, hnodup⟩, ⟨-, hnew⟩, rfl⟩
          exact ⟨hnodup, fun x hx => ⟨fun heq => hname (heq ▸ hx), hnew x hx⟩, rfl⟩

/-- Siblings have instances if each of them has, and if no two elements in their place have a name
in common or one that is taken. -/
theorem copiesAll_eq_ok_iff {taken : List String} {iss : List (List (Option Instance))} :
    copiesAll parent taken as = .ok iss ↔
      (∀ a ∈ as, copies parent a = .ok (instances a)) ∧
        ((as.flatMap replacements).map Dimensioned.name).Nodup ∧
        (∀ name ∈ (as.flatMap replacements).map Dimensioned.name, name ∉ taken) ∧
        iss = as.map instances := by
  induction as generalizing taken iss with
  | nil => simp [copiesAll, eq_comm]
  | cons a as ih =>
      have hnames (is : List (Option Instance)) (h : is = instances a) :
          (is.map fun i => Dimensioned.name (place a i)) =
            (replacements a).map Dimensioned.name := by
        rw [h, replacements, List.map_map]
        rfl
      rw [copiesAll, List.flatMap_cons, List.map_append, List.nodup_append, List.forall_mem_cons,
        List.forall_mem_append, List.map_cons]
      constructor
      · intro h
        obtain ⟨is, his, h⟩ := bind_eq_ok_iff.1 h
        obtain ⟨taken', hclaim, h⟩ := bind_eq_ok_iff.1 h
        obtain ⟨rest, hrest, h⟩ := bind_eq_ok_iff.1 h
        cases h
        have hinstances := copies_eq_ok his
        rw [hnames is hinstances, claimNames_eq_ok_iff] at hclaim
        obtain ⟨hnodup, hnew, rfl⟩ := hclaim
        obtain ⟨hall, hnodup', hnew', rfl⟩ := ih.1 hrest
        simp only [List.mem_append, List.mem_reverse, not_or] at hnew'
        refine ⟨⟨hinstances ▸ his, hall⟩, ⟨hnodup, hnodup', ?_⟩, ⟨hnew, ?_⟩, by rw [hinstances]⟩
        · intro x hx y hy heq
          exact (hnew' y hy).1 (heq ▸ hx)
        · exact fun x hx => (hnew' x hx).2
      · rintro ⟨⟨his, hall⟩, ⟨hnodup, hnodup', hdisjoint⟩, ⟨hnew, hnew'⟩, rfl⟩
        rw [← hnames _ rfl] at hnodup hnew hdisjoint
        rw [bind_eq_ok_iff]
        refine ⟨_, his, ?_⟩
        rw [bind_eq_ok_iff]
        refine ⟨_, claimNames_eq_ok_iff.2 ⟨hnodup, hnew, rfl⟩, ?_⟩
        rw [bind_eq_ok_iff]
        refine ⟨_, ih.2 ⟨hall, hnodup', fun x hx => ?_, rfl⟩, rfl⟩
        rw [List.mem_append, List.mem_reverse, not_or]
        exact ⟨fun hmem => hdisjoint x hmem x hx rfl, hnew' x hx⟩

theorem flatMap_zip_instances (as : List α) :
    ((as.zip (as.map instances)).flatMap fun e => e.2.map (place e.1)) =
      as.flatMap replacements := by
  induction as with
  | nil => rfl
  | cons a as ih =>
      rw [List.map_cons, List.zip_cons_cons, List.flatMap_cons, List.flatMap_cons, ih]
      rfl

end

/-! ### Inside of an element -/

/-- The register with the arrays among its fields expanded. -/
def Register.expanded (r : Register) : Register :=
  { r with fields := r.fields.map (List.flatMap replacements) }

mutual

/-- The member with the arrays inside of it expanded. -/
def Member.expanded : Member → Member
  | .register r => .register r.expanded
  | .cluster c ms => .cluster c (Member.expandedAll ms)

/-- The members with all arrays expanded. -/
def Member.expandedAll : List Member → List Member
  | [] => []
  | m :: ms => (instances m).map (place (Member.expanded m)) ++ Member.expandedAll ms

end

theorem Member.expandedAll_eq_flatMap (ms : List Member) :
    Member.expandedAll ms = ms.flatMap fun m => (instances m).map (place m.expanded) := by
  induction ms with
  | nil => rfl
  | cons m ms ih => rw [Member.expandedAll, List.flatMap_cons, ih]

/-- The peripheral with the arrays inside of it expanded. -/
def Peripheral.expanded (p : Peripheral) : Peripheral :=
  { p with members := p.members.map Member.expandedAll }

theorem expandFields_eq_ok {path : NodePath} {fs fs' : List Field}
    (h : expandFields path fs = .ok fs') : fs' = fs.flatMap replacements := by
  obtain ⟨is, his, h⟩ := bind_eq_ok_iff.1 h
  cases h
  obtain ⟨-, -, -, rfl⟩ := copiesAll_eq_ok_iff.1 his
  exact flatMap_zip_instances fs

namespace Member

/-- The instances of the first member come before what the others are expanded to. -/
theorem expandInsideAll_cons_eq_ok {path : NodePath} {iss : List (List (Option Instance))}
    {m : Member} {ms ms' : List Member} (h : expandInsideAll path iss (m :: ms) = .ok ms') :
    ∃ own rest, List.Forall₂ (fun i n => ∃ inside,
        expandInside (path.child (place m i).name) m = .ok inside ∧ n = place inside i)
        (iss.headD []) own ∧
      expandInsideAll path iss.tail ms = .ok rest ∧ ms' = own ++ rest := by
  unfold expandInsideAll at h
  obtain ⟨rest, hrest, h⟩ := bind_eq_ok_iff.1 h
  have split : (fun i done => do
      let inside ← expandInside (path.child (place m i).name) m
      return place inside i :: done) = fun i (done : List Member) => do
        return (← (place · i) <$> expandInside (path.child (place m i).name) m) :: done := by
    simp
  rw [split] at h
  obtain ⟨own, hown, rfl⟩ := foldrM_cons_eq_ok_iff.1 h
  refine ⟨own, rest, hown.imp fun i n hi => ?_, hrest, rfl⟩
  obtain ⟨inside, hinside, rfl⟩ := map_eq_ok_iff.1 hi
  exact ⟨inside, hinside, rfl⟩

mutual

theorem expandInside_eq_ok (path : NodePath) :
    ∀ (m : Member) {m' : Member}, m.expandInside path = .ok m' → m' = m.expanded
  | .register r, m', h => by
      unfold expandInside at h
      rw [expanded, Register.expanded]
      split at h
      · next hnone =>
        cases h
        rw [hnone, Option.map_none, ← hnone]
      · next fs hfs =>
        obtain ⟨fs', hfs', h⟩ := bind_eq_ok_iff.1 h
        cases h
        rw [hfs, Option.map_some, expandFields_eq_ok hfs']
  | .cluster c ms, m', h => by
      obtain ⟨is, his, h⟩ := bind_eq_ok_iff.1 h
      obtain ⟨ms', hms', h⟩ := bind_eq_ok_iff.1 h
      cases h
      obtain ⟨-, -, -, rfl⟩ := copiesAll_eq_ok_iff.1 his
      rw [expanded, expandInsideAll_eq_ok path ms hms']

theorem expandInsideAll_eq_ok (path : NodePath) :
    ∀ (ms : List Member) {ms' : List Member},
      expandInsideAll path (ms.map instances) ms = .ok ms' → ms' = expandedAll ms
  | [], ms', h => by
      cases h
      rfl
  | m :: ms, ms', h => by
      obtain ⟨own, rest, hown, hrest, rfl⟩ := expandInsideAll_cons_eq_ok h
      rw [expandedAll, expandInsideAll_eq_ok path ms hrest]
      congr 1
      have hplaced := map_eq_map_of_forall₂ (f := place m.expanded) (g := id) hown ?_
      · rw [List.map_id] at hplaced
        exact hplaced.symm
      · rintro i n ⟨inside, hinside, rfl⟩
        rw [expandInside_eq_ok _ m hinside]
        rfl

end

end Member

theorem Peripheral.expandInside_eq_ok {path : NodePath} {p p' : Peripheral}
    (h : p.expandInside path = .ok p') : p' = p.expanded := by
  unfold Peripheral.expandInside at h
  rw [Peripheral.expanded]
  split at h
  · next hnone =>
    cases h
    rw [hnone, Option.map_none, ← hnone]
  · next ms hms =>
    obtain ⟨ms', hms', h⟩ := bind_eq_ok_iff.1 h
    cases h
    obtain ⟨is, his, hms'⟩ := bind_eq_ok_iff.1 hms'
    obtain ⟨-, -, -, rfl⟩ := copiesAll_eq_ok_iff.1 his
    rw [hms, Option.map_some, Member.expandInsideAll_eq_ok path ms hms']

/-! ### Devices -/

/-- A peripheral inside of the element at `parent` can be expanded: it has instances, and in each of
them everything can be expanded. -/
structure Peripheral.Expandable (parent : NodePath) (p : Peripheral) : Prop where
  copies : copies parent p = .ok (instances p)
  inside : ∀ q ∈ replacements p, q.expandInside (parent.child q.name) = .ok q.expanded

/-- The peripherals that stand in the place of a peripheral, with everything in them expanded. -/
def Peripheral.expansion (p : Peripheral) : List Peripheral :=
  (replacements p).map Peripheral.expanded

theorem Device.expand_eq_ok_iff {d d' : Device} :
    d.expand.result = .ok d' ↔ (∀ p ∈ d.peripherals, p.Expandable d.path) ∧
      ((d.peripherals.flatMap Peripheral.expansion).map (·.name)).Nodup ∧
      d' = { d with peripherals := d.peripherals.flatMap Peripheral.expansion } := by
  have hmap : d.peripherals.flatMap Peripheral.expansion =
      (d.peripherals.flatMap replacements).map Peripheral.expanded :=
    (List.map_flatMap ..).symm
  have hnames : (d.peripherals.flatMap Peripheral.expansion).map (·.name) =
      (d.peripherals.flatMap replacements).map Dimensioned.name := by
    rw [hmap, List.map_map]
    rfl
  rw [hnames, hmap]
  constructor
  · intro h
    obtain ⟨is, his, h⟩ := Logged.bind_eq_ok_iff.1 h
    obtain ⟨ps, hps, h⟩ := Logged.bind_eq_ok_iff.1 h
    cases h
    obtain ⟨hcopies, hnodup, -, rfl⟩ := copiesAll_eq_ok_iff.1 his
    obtain ⟨own, hown, rfl⟩ := foldrM_cons_eq_ok_iff.1 hps
    rw [flatMap_zip_instances] at hown
    have hinside : own = (d.peripherals.flatMap replacements).map Peripheral.expanded := by
      have hall := map_eq_map_of_forall₂ (f := Peripheral.expanded) (g := id) hown fun _ _ hq =>
        (Peripheral.expandInside_eq_ok hq).symm
      rw [hall, List.map_id]
    refine ⟨fun p hp => ⟨hcopies p hp, fun q hq => ?_⟩, hnodup, by rw [List.append_nil, hinside]⟩
    obtain ⟨r, -, hr⟩ := exists_mem_right hown (List.mem_flatMap.2 ⟨p, hp, hq⟩)
    rw [Peripheral.expandInside_eq_ok hr] at hr
    exact hr
  · rintro ⟨hall, hnodup, rfl⟩
    rw [Device.expand, Logged.bind_eq_ok_iff]
    refine ⟨_, copiesAll_eq_ok_iff.2 ⟨fun p hp => (hall p hp).copies, hnodup,
      fun _ _ => List.not_mem_nil, rfl⟩, ?_⟩
    rw [Logged.bind_eq_ok_iff]
    refine ⟨(d.peripherals.flatMap replacements).map Peripheral.expanded, ?_, rfl⟩
    refine foldrM_cons_eq_ok_iff.2 ⟨_, ?_, (List.append_nil _).symm⟩
    rw [flatMap_zip_instances, List.forall₂_map_right_iff, List.forall₂_same]
    intro q hq
    obtain ⟨p, hp, hq⟩ := List.mem_flatMap.1 hq
    exact (hall p hp).inside q hq

end RegisterMap.Draft
