import RegisterMap.Proofs.Building
import RegisterMap.Proofs.Instances
import RegisterMap.Proofs.Resolvability
import RegisterMap.Proofs.Separation
import RegisterMap.Proofs.Stages

/-!
# Excluded peripherals

Peripherals are removed in the middle of a run, after derivations are resolved and before alternates
are linked. The result is the same as if they were removed from the device in the end, unless a
peripheral that stays is declared to be another view of one that is removed (`parse_excluding`).

The alternates of a peripheral are connected to it by a graph in which each peripheral has at most
one arrow. If no arrow leads from a peripheral that stays to one that is removed, every way through
the removed ones comes back to where it left the others, so removing them separates nothing.
-/

namespace RegisterMap

/-! ### Ways through what is removed -/

section

variable {α : Type} {r : α → α → Prop} {gone : α → Prop}

/-- The arrows from `x` lead to `y` through items that are removed, up to the first one that is
not. -/
inductive LeadsOut (r : α → α → Prop) (gone : α → Prop) : α → α → Prop
  | here {x : α} (stays : ¬ gone x) : LeadsOut r gone x x
  | step {x y z : α} (removed : gone x) (arrow : r x y) (rest : LeadsOut r gone y z) :
      LeadsOut r gone x z

theorem leadsOut_iff_of_stays {x y : α} (stays : ¬ gone x) : LeadsOut r gone x y ↔ y = x := by
  constructor
  · intro h
    cases h with
    | here => rfl
    | step removed => exact absurd removed stays
  · rintro rfl
    exact .here stays

theorem leadsOut_iff_of_removed (functional : ∀ x y z, r x y → r x z → y = z) {x y z : α}
    (removed : gone x) (arrow : r x y) : LeadsOut r gone x z ↔ LeadsOut r gone y z := by
  constructor
  · intro h
    cases h with
    | here stays => exact absurd removed stays
    | step _ arrow' rest => exact functional x _ _ arrow' arrow ▸ rest
  · exact .step removed arrow

/-- Items that stay are connected by arrows between them as soon as they are connected at all, if
each item has at most one arrow and none leads from an item that stays to one that is removed. -/
theorem eqvGen_between_remaining (functional : ∀ x y z, r x y → r x z → y = z)
    (closed : ∀ x y, r x y → ¬ gone x → ¬ gone y) {x y : α} (hx : ¬ gone x) (hy : ¬ gone y)
    (h : Relation.EqvGen r x y) : Relation.EqvGen (fun x y => r x y ∧ ¬ gone x) x y := by
  let Among := Relation.EqvGen fun x y => r x y ∧ ¬ gone x
  -- Connected items lead out to items that are connected among those that stay.
  let Meets (x a : α) : Prop := ∃ b, LeadsOut r gone x b ∧ Among b a
  have hmeets : ∀ x y, Relation.EqvGen r x y → ∀ a, Meets x a ↔ Meets y a := by
    intro x y h
    induction h with
    | rel x y arrow =>
        intro a
        by_cases removed : gone x
        · exact exists_congr fun b =>
            and_congr_left' (leadsOut_iff_of_removed functional removed arrow)
        · have hxy : Among x y := .rel x y ⟨arrow, removed⟩
          simp only [Meets, leadsOut_iff_of_stays removed,
            leadsOut_iff_of_stays (closed x y arrow removed), exists_eq_left]
          exact ⟨fun h => .trans y x a (.symm x y hxy) h, fun h => .trans x y a hxy h⟩
    | refl x => exact fun _ => Iff.rfl
    | symm x y _ ih => exact fun a => (ih a).symm
    | trans x y z _ _ ih ih' => exact fun a => (ih a).trans (ih' a)
  obtain ⟨b, hb, hxb⟩ := (hmeets x y h x).1 ⟨x, .here hx, .refl x⟩
  rw [leadsOut_iff_of_stays hy] at hb
  subst hb
  exact hxb.symm

/-- Arrows between items that stay connect them with nothing else. -/
theorem gone_iff_of_eqvGen (closed : ∀ x y, r x y → ¬ gone x → ¬ gone y) {x y : α}
    (h : Relation.EqvGen (fun x y => r x y ∧ ¬ gone x) x y) : gone x ↔ gone y := by
  induction h with
  | rel x y arrow => exact iff_of_false arrow.2 (closed x y arrow.1 arrow.2)
  | refl x => exact Iff.rfl
  | symm x y _ ih => exact ih.symm
  | trans x y z _ _ ih ih' => exact ih.trans ih'

end

/-- The set without the names that fail a test. -/
def NameSet.filter (s : NameSet) (keep : String → Bool) : NameSet :=
  ⟨s.toList.filter keep, s.ascending.filter _⟩

@[simp] theorem NameSet.mem_filter {s : NameSet} {keep : String → Bool} {x : String} :
    x ∈ s.filter keep ↔ x ∈ s ∧ keep x := by
  change x ∈ s.toList.filter keep ↔ x ∈ s.toList ∧ keep x
  exact List.mem_filter

/-- The peripheral without the alternates that are removed. -/
def Draft.Peripheral.forget (removed : String → Bool) (p : Draft.Peripheral) : Draft.Peripheral :=
  { p with alternates := p.alternates.filter (!removed ·) }

/-- The peripheral without the alternates that are removed. -/
def Peripheral.forget (removed : String → Bool) (p : Peripheral) : Peripheral :=
  { p with alternates := p.alternates.filter (!removed ·) }

/-! ### Drafts -/

namespace Draft.Device

variable {d : Device} {excluded : List String}

/-- The name is that of a peripheral that is removed. -/
def Removes (d : Device) (excluded : List String) (name : String) : Prop :=
  ∃ p ∈ d.peripherals, p.name = name ∧ p.isNamedIn excluded

theorem without_nil (d : Device) : d.without [] = d := by
  have hkept : d.peripherals.filter (!·.isNamedIn []) = d.peripherals := by
    refine List.filter_eq_self.2 fun p _ => ?_
    cases harray : p.arrayName <;> simp [Peripheral.isNamedIn, harray]
  rw [without, hkept]

theorem removes_name_iff (names : (d.peripherals.map (·.name)).Nodup) {p : Peripheral}
    (hp : p ∈ d.peripherals) : d.Removes excluded p.name ↔ p.isNamedIn excluded := by
  constructor
  · rintro ⟨q, hq, hname, hnamed⟩
    exact List.inj_on_of_nodup_map names hq hp hname ▸ hnamed
  · intro hnamed
    exact ⟨p, hp, rfl, hnamed⟩

theorem mem_without_iff (names : (d.peripherals.map (·.name)).Nodup) {p : Peripheral} :
    p ∈ (d.without excluded).peripherals ↔
      p ∈ d.peripherals ∧ ¬ d.Removes excluded p.name := by
  change p ∈ d.peripherals.filter _ ↔ _
  rw [List.mem_filter]
  refine and_congr_right fun hp => ?_
  rw [removes_name_iff names hp]
  simp

theorem alternateOf_without_iff (names : (d.peripherals.map (·.name)).Nodup) {x y : String} :
    (d.without excluded).AlternateOf x y ↔ d.AlternateOf x y ∧ ¬ d.Removes excluded x := by
  constructor
  · rintro ⟨p, hp, rfl, hgiven⟩
    obtain ⟨hp, stays⟩ := (mem_without_iff names).1 hp
    exact ⟨⟨p, hp, rfl, hgiven⟩, stays⟩
  · rintro ⟨⟨p, hp, rfl, hgiven⟩, stays⟩
    exact ⟨p, (mem_without_iff names).2 ⟨hp, stays⟩, rfl, hgiven⟩

/-- A peripheral that stays is declared to be another view of one that is removed. -/
def RefersToRemoved (d : Device) (excluded : List String) : Prop :=
  ∃ x y, d.AlternateOf x y ∧ ¬ d.Removes excluded x ∧ d.Removes excluded y

/-- The alternates that exist still do so, unless one that stays is declared to be another view of
one that is removed. -/
theorem alternatesExist_without_iff (names : (d.peripherals.map (·.name)).Nodup)
    (exist : d.AlternatesExist) :
    (d.without excluded).AlternatesExist ↔ ¬ d.RefersToRemoved excluded := by
  constructor
  · rintro h ⟨x, y, ⟨p, hp, rfl, hgiven⟩, stays, q, hq, rfl, hnamed⟩
    obtain ⟨t, ht, hname⟩ := h p ((mem_without_iff names).2 ⟨hp, stays⟩) q.name hgiven
    obtain ⟨ht, hstays⟩ := (mem_without_iff names).1 ht
    exact hstays (hname ▸ ⟨q, hq, rfl, hnamed⟩)
  · intro h p hp name hgiven
    obtain ⟨hp, stays⟩ := (mem_without_iff names).1 hp
    obtain ⟨q, hq, rfl⟩ := exist p hp name hgiven
    refine ⟨q, (mem_without_iff names).2 ⟨hq, fun removed => h ?_⟩, rfl⟩
    exact ⟨p.name, q.name, ⟨p, hp, rfl, hgiven⟩, stays, removed⟩

/-- Peripherals that stay are linked as before, except to those that are removed. -/
theorem Links.without (names : (d.peripherals.map (·.name)).Nodup)
    (separate : ¬ d.RefersToRemoved excluded) {removed : String → Bool}
    (hremoved : ∀ x, removed x ↔ d.Removes excluded x) {p p' : Peripheral} (links : d.Links p p')
    (stays : ¬ d.Removes excluded p.name) :
    (d.without excluded).Links p (p'.forget removed) := by
  have hfilter : (d.without excluded).AlternateOf =
      fun x y => d.AlternateOf x y ∧ ¬ d.Removes excluded x := by
    funext x y
    exact propext (alternateOf_without_iff names)
  have functional : ∀ x y z, d.AlternateOf x y → d.AlternateOf x z → y = z := by
    rintro x y z ⟨p, hp, rfl, hy⟩ ⟨q, hq, hname, hz⟩
    rw [List.inj_on_of_nodup_map names hq hp hname, hy] at hz
    exact Option.some.inj hz
  have closed : ∀ x y, d.AlternateOf x y → ¬ d.Removes excluded x → ¬ d.Removes excluded y :=
    fun x y harrow hx hy => separate ⟨x, y, harrow, hx, hy⟩
  refine ⟨?_, fun x => ?_⟩
  · obtain ⟨q, hq, hp'⟩ := links.inside
    refine ⟨q, hq, ?_⟩
    rw [hp']
    rfl
  · rw [hfilter]
    change x ∈ p'.alternates.filter _ ↔ _
    rw [NameSet.mem_filter, links.mem]
    constructor
    · rintro ⟨⟨hne, hconnected⟩, hkept⟩
      have hx : ¬ d.Removes excluded x := by
        intro hx
        simp [(hremoved x).2 hx] at hkept
      exact ⟨hne, eqvGen_between_remaining functional closed stays hx hconnected⟩
    · rintro ⟨hne, hconnected⟩
      have hx : ¬ d.Removes excluded x := fun hx =>
        stays ((gone_iff_of_eqvGen closed hconnected).2 hx)
      have hkept : removed x = false := by
        rw [← Bool.not_eq_true, hremoved]
        exact hx
      refine ⟨⟨hne, Relation.EqvGen.mono (fun _ _ arrow => arrow.1) _ _ hconnected⟩, ?_⟩
      rw [hkept, Bool.not_false]

end Draft.Device

/-! ### Forgotten alternates -/

namespace Draft.Peripheral

variable {removed : String → Bool} {p q : Peripheral}

theorem Placeable.forget {tolerant : Bool} {path : NodePath} (h : p.Placeable tolerant path) :
    (p.forget removed).Placeable tolerant path :=
  ⟨h.baseAddress, h.offsets, h.registers, h.groups, h.lengths⟩

theorem ClearOf.forget (h : p.ClearOf q) (stays : removed q.name = false) :
    (p.forget removed).ClearOf (q.forget removed) := by
  intro hne hunlinked
  refine h hne fun hmem => hunlinked ?_
  refine NameSet.mem_filter.2 ⟨hmem, ?_⟩
  change (!removed q.name) = true
  rw [stays, Bool.not_false]

end Draft.Peripheral

namespace Peripheral

theorem ofDraft_forget {path : NodePath} {dp : Draft.Peripheral} {p : Peripheral}
    (removed : String → Bool) (h : ofDraft path dp = .ok p) :
    ofDraft path (dp.forget removed) = .ok (p.forget removed) := by
  obtain ⟨address, haddress, h⟩ := bind_eq_ok_iff.1 h
  obtain ⟨members, hmembers, h⟩ := bind_eq_ok_iff.1 h
  obtain ⟨_, hnames, h⟩ := bind_eq_ok_iff.1 h
  cases h
  refine bind_eq_ok_iff.2 ⟨address, haddress, ?_⟩
  refine bind_eq_ok_iff.2 ⟨members, hmembers, ?_⟩
  exact bind_eq_ok_iff.2 ⟨(), hnames, rfl⟩

theorem withAliases_forget {regions : List BitBand.ConfiguredRegion} {p p' : Peripheral}
    (removed : String → Bool) (h : p.withAliases regions = .ok p') :
    (p.forget removed).withAliases regions = .ok (p'.forget removed) := by
  obtain ⟨members, hmembers, h⟩ := bind_eq_ok_iff.1 h
  cases h
  exact bind_eq_ok_iff.2 ⟨members, hmembers, rfl⟩

theorem publish_forget {regions : List BitBand.ConfiguredRegion} {path : NodePath}
    {dp : Draft.Peripheral} {p : Peripheral} (removed : String → Bool)
    (h : publish regions path dp = .ok p) :
    publish regions path (dp.forget removed) = .ok (p.forget removed) := by
  obtain ⟨made, hmade, h⟩ := bind_eq_ok_iff.1 h
  exact bind_eq_ok_iff.2 ⟨_, ofDraft_forget removed hmade, withAliases_forget removed h⟩

theorem alternate_publish {regions : List BitBand.ConfiguredRegion} {path : NodePath}
    {dp : Draft.Peripheral} {p : Peripheral} (h : publish regions path dp = .ok p) :
    p.alternate = dp.alternate := by
  obtain ⟨made, hmade, h⟩ := bind_eq_ok_iff.1 h
  obtain ⟨_, -, hmade⟩ := bind_eq_ok_iff.1 hmade
  obtain ⟨_, -, hmade⟩ := bind_eq_ok_iff.1 hmade
  obtain ⟨_, -, hmade⟩ := bind_eq_ok_iff.1 hmade
  cases hmade
  obtain ⟨_, -, h⟩ := bind_eq_ok_iff.1 h
  cases h
  rfl

end Peripheral

/-- The stages after exclusion give the peripherals that stay as they give them without exclusion,
apart from the alternates that are removed. -/
theorem finish_without {tolerant : Bool} {regions : List BitBand.ConfiguredRegion}
    {draft : Draft.Device} {excluded : List String} {linked : List Draft.Peripheral}
    {ps : List Peripheral} {removed : String → Bool}
    (names : (draft.peripherals.map (·.name)).Nodup)
    (unlinked : ∀ dp ∈ draft.peripherals, dp.Unlinked) (exist : draft.AlternatesExist)
    (hlinks : List.Forall₂ draft.Links draft.peripherals linked)
    (hps : List.Forall₂ (draft.Finishes tolerant regions) linked ps)
    (clear : tolerant = false → ∀ p ∈ linked, ∀ q ∈ linked, p.placeAll.ClearOf q.placeAll)
    (hremoved : ∀ x, removed x ↔ draft.Removes excluded x)
    (separate : ¬ draft.RefersToRemoved excluded) :
    finish tolerant regions (draft.without excluded) =
      .ok (.assemble draft ((ps.filter (!removed ·.name)).map (·.forget removed))) := by
  have namesKept := Draft.Device.nodup_names_without names excluded
  have hkept : List.Forall₂ draft.Links (draft.without excluded).peripherals
      (linked.filter (!removed ·.name)) := by
    have hmem : List.Forall₂ (fun dp dp' => dp ∈ draft.peripherals ∧ draft.Links dp dp')
        draft.peripherals linked := (List.forall₂_and_left _ _).2 ⟨fun _ hdp => hdp, hlinks⟩
    refine (forall₂_filter hmem fun dp dp' h => ?_).imp fun _ _ h => h.2
    rw [Bool.not_inj_iff, Bool.eq_iff_iff, h.2.name, hremoved]
    exact (Draft.Device.removes_name_iff names h.1).symm
  have hstays : ∀ dp ∈ linked.filter (!removed ·.name), removed dp.name = false := by
    intro dp hdp
    simpa using (List.mem_filter.1 hdp).2
  refine (finish_eq_ok_iff namesKept fun dp hdp => unlinked dp (List.mem_of_mem_filter hdp)).2 ⟨
    (Draft.Device.alternatesExist_without_iff names exist).2 separate,
    (linked.filter (!removed ·.name)).map (·.forget removed), _, ?_, ?_, ?_, rfl⟩
  · rw [List.forall₂_map_right_iff]
    have hmem := (List.forall₂_and_left _ _).2
      ⟨fun dp (hdp : dp ∈ (draft.without excluded).peripherals) => hdp, hkept⟩
    refine hmem.imp fun dp dp' h => h.2.without names separate hremoved ?_
    exact ((Draft.Device.mem_without_iff names).1 h.1).2
  · rw [List.forall₂_map_left_iff, List.forall₂_map_right_iff]
    refine (forall₂_filter hps fun dp p h => ?_).imp fun dp p h => ?_
    · rw [Peripheral.name_publish h.publishes]
      rfl
    · exact ⟨h.placeable.forget, Peripheral.publish_forget removed h.publishes⟩
  · intro strict p hp q hq
    obtain ⟨p₀, hp₀, rfl⟩ := List.mem_map.1 hp
    obtain ⟨q₀, hq₀, rfl⟩ := List.mem_map.1 hq
    have hclear := clear strict p₀ (List.mem_of_mem_filter hp₀) q₀ (List.mem_of_mem_filter hq₀)
    exact hclear.forget (hstays q₀ hq₀)

/-! ### Names of arrays -/

namespace Draft

/-- A peripheral stands for the same elements as before, but is derived. -/
structure Peripheral.SameArray (p q : Peripheral) : Prop where
  name : q.name = p.name
  dim : q.dim = p.dim
  arrayName : q.arrayName = p.arrayName

theorem Device.sameArray_resolveDerivations {d d' : Device} (settled : d.Settled)
    (h : d.resolveDerivations.result = .ok d') :
    List.Forall₂ Peripheral.SameArray d.peripherals d'.peripherals := by
  obtain ⟨middle, f, -, hps, -, rfl⟩ := resolveDerivations_eq_ok settled h
  refine forall₂_trans hps (S := Peripheral.SameArray) ?_ ?_
  · refine forall₂_of_getElem? List.length_mapIdx.symm fun i p hp => ?_
    refine ⟨{ p with members := p.members.map (Member.mapRegistersAll f [i] 0) }, ?_, rfl, rfl, rfl⟩
    rw [getElem?_mapRegisters, hp, Option.map_some]
  · intro p q r hq hr
    have harray : q.arrayName = p.arrayName :=
      hq.own (·.arrayName) (fun _ _ => rfl) (fun _ _ => rfl)
    exact ⟨hr.name.trans hq.name, hr.dim.trans hq.dim, hr.arrayName.trans harray⟩

theorem names_replacements_congr {p q : Peripheral} (h : p.SameArray q) :
    (replacements q).map (·.name) = (replacements p).map (·.name) := by
  have hinstances : instances q = instances p := by
    have hdim : Dimensioned.dim q = Dimensioned.dim p := h.dim
    rw [instances, instances, hdim]
  rw [replacements, hinstances, replacements, List.map_map, List.map_map]
  refine List.map_congr_left fun i _ => ?_
  cases i with
  | none => exact h.name
  | some i => exact congrArg (instanceName · i.token) h.name

theorem Peripheral.names_expansion (p : Peripheral) :
    p.expansion.map (·.name) = (replacements p).map (·.name) := by
  rw [expansion, List.map_map]
  rfl

/-- What stands in the place of a peripheral is removed under its own name and under that of the
peripheral. -/
theorem Peripheral.isNamedIn_iff_of_mem_expansion {p q : Peripheral} (own : p.arrayName = none)
    (h : q ∈ p.expansion) {names : List String} :
    q.isNamedIn names ↔ q.name ∈ names ∨ p.name ∈ names := by
  obtain ⟨r, hr, rfl⟩ := List.mem_map.1 h
  obtain ⟨i, -, rfl⟩ := List.mem_map.1 hr
  cases i with
  | none =>
      change (names.contains p.name || p.arrayName.any names.contains) = true ↔
        p.name ∈ names ∨ p.name ∈ names
      rw [own]
      simp
  | some i =>
      change (names.contains (instanceName p.name i.token) || names.contains p.name) = true ↔
        instanceName p.name i.token ∈ names ∨ p.name ∈ names
      simp

/-- The name, or that of a peripheral of the document in whose place the one of this name stands, is
among those that are excluded. -/
def Device.excludes (d : Device) (excluded : List String) (name : String) : Bool :=
  excluded.contains name || d.peripherals.any fun p =>
    excluded.contains p.name && ((replacements p).map (·.name)).contains name

/-- Without arrays, peripherals are excluded under their own names only. -/
theorem Device.excludes_eq_contains {d : Device} (plain : ∀ p ∈ d.peripherals, p.dim = none)
    (excluded : List String) : d.excludes excluded = excluded.contains := by
  funext name
  refine Bool.or_eq_left_iff_imp.2 fun h => ?_
  obtain ⟨p, hp, h⟩ := List.any_eq_true.1 h
  obtain ⟨hname, h⟩ := Bool.and_eq_true_iff.1 h
  rw [replacements_eq_singleton (plain p hp), List.map_singleton, List.contains_iff_mem,
    List.mem_singleton] at h
  rw [h, hname]

/-- Whether a peripheral of an expanded draft is removed can be told from its name and the
document. -/
theorem Device.isNamedIn_eq_excludes {d derived expanded : Device} (settled : d.Settled)
    (own : ∀ p ∈ d.peripherals, p.arrayName = none)
    (hderived : d.resolveDerivations.result = .ok derived)
    (hexpanded : derived.expand.result = .ok expanded) {q : Peripheral}
    (hq : q ∈ expanded.peripherals) (excluded : List String) :
    q.isNamedIn excluded = d.excludes excluded q.name := by
  have hsame := sameArray_resolveDerivations settled hderived
  obtain ⟨-, names, rfl⟩ := expand_eq_ok_iff.1 hexpanded
  have hown {p p' : Peripheral} (hp : p ∈ d.peripherals) (same : p.SameArray p') :
      p'.arrayName = none := same.arrayName.trans (own p hp)
  have hexcludes : d.excludes excluded q.name ↔ q.name ∈ excluded ∨
      ∃ p ∈ d.peripherals, p.name ∈ excluded ∧ q.name ∈ (replacements p).map (·.name) := by
    simp only [excludes, Bool.or_eq_true, List.contains_iff_mem, List.any_eq_true,
      Bool.and_eq_true]
  rw [Bool.eq_iff_iff, hexcludes]
  constructor
  · intro hnamed
    obtain ⟨p', hp', hmem⟩ := List.mem_flatMap.1 hq
    obtain ⟨p, hp, same⟩ := exists_mem_left hsame hp'
    refine ((Peripheral.isNamedIn_iff_of_mem_expansion (hown hp same) hmem).1 hnamed).imp_right ?_
    intro harray
    refine ⟨p, hp, same.name ▸ harray, ?_⟩
    rw [← names_replacements_congr same, ← p'.names_expansion]
    exact List.mem_map_of_mem hmem
  · rintro (hname | ⟨p, hp, harray, hname⟩)
    · simp [Peripheral.isNamedIn, hname]
    · obtain ⟨p', hp', same⟩ := exists_mem_right hsame hp
      rw [← names_replacements_congr same, ← p'.names_expansion] at hname
      obtain ⟨q', hq', heq⟩ := List.mem_map.1 hname
      -- Names are distinct after expansion, so `q` itself stands in the place of `p`.
      obtain rfl := List.inj_on_of_nodup_map names (List.mem_flatMap_of_mem hp' hq') hq heq
      refine (Peripheral.isNamedIn_iff_of_mem_expansion (hown hp same) hq').2 (.inr ?_)
      exact same.name ▸ harray

end Draft

/-! ### Runs -/

/-- A peripheral that stays is declared to be another view of one that is removed. -/
def Device.RefersToRemoved (d : Device) (removed : String → Bool) : Prop :=
  ∃ p ∈ d.peripherals, ∃ q ∈ d.peripherals,
    ¬ removed p.name ∧ removed q.name ∧ p.alternate = some q.name

/-- The device without the peripherals of some names, which are no alternates anymore, and with the
interrupts of the other peripherals only. -/
def Device.without (d : Device) (removed : String → Bool) : Device :=
  let names := (d.peripherals.filter (removed ·.name)).map (·.name)
  let ps := (d.peripherals.filter (!removed ·.name)).map (·.forget names.contains)
  { d with peripherals := ps, interrupts := Interrupt.firstOfEach (ps.flatMap (·.interrupts)) }

/-- Peripherals have the names and the declared alternates of their drafts. -/
theorem given_of_finishes {tolerant : Bool} {regions : List BitBand.ConfiguredRegion}
    {draft : Draft.Device} {linked : List Draft.Peripheral} {ps : List Peripheral}
    (hlinks : List.Forall₂ draft.Links draft.peripherals linked)
    (hps : List.Forall₂ (draft.Finishes tolerant regions) linked ps) :
    List.Forall₂ (fun dp p => p.name = dp.name ∧ p.alternate = dp.alternate)
      draft.peripherals ps := by
  refine forall₂_trans hlinks hps fun dp dp' p links finishes => ⟨?_, ?_⟩
  · exact (Peripheral.name_publish finishes.publishes).trans links.name
  · obtain ⟨q, hq, hdp'⟩ := links.inside
    have hsame : q.alternate = dp.alternate :=
      congrArg (·.alternate) (Draft.Peripheral.toHeader_linkInside hq)
    rw [Peripheral.alternate_publish finishes.publishes, hdp']
    exact hsame

variable {draft : Draft.Device} {ps : List Peripheral} {gone : String → Bool}
  {excluded : List String}

theorem removes_iff_of_gone (hgone : ∀ dp ∈ draft.peripherals, gone dp.name = dp.isNamedIn excluded)
    {x : String} : draft.Removes excluded x ↔
      x ∈ (draft.peripherals.map (·.name)).filter gone := by
  rw [List.mem_filter, List.mem_map]
  constructor
  · rintro ⟨dp, hdp, rfl, hnamed⟩
    exact ⟨⟨dp, hdp, rfl⟩, (hgone dp hdp).trans hnamed⟩
  · rintro ⟨⟨dp, hdp, rfl⟩, hx⟩
    exact ⟨dp, hdp, rfl, (hgone dp hdp).symm.trans hx⟩

theorem Device.refersToRemoved_assemble_iff
    (names : (draft.peripherals.map (·.name)).Nodup)
    (given : List.Forall₂ (fun dp p => p.name = dp.name ∧ p.alternate = dp.alternate)
      draft.peripherals ps)
    (hgone : ∀ dp ∈ draft.peripherals, gone dp.name = dp.isNamedIn excluded) :
    (Device.assemble draft ps).RefersToRemoved gone ↔ draft.RefersToRemoved excluded := by
  have hremoves {dp : Draft.Peripheral} (hdp : dp ∈ draft.peripherals) :
      draft.Removes excluded dp.name ↔ gone dp.name := by
    rw [Draft.Device.removes_name_iff names hdp, hgone dp hdp]
  constructor
  · rintro ⟨p, hp, q, hq, hstays, hremoved, halternate⟩
    obtain ⟨dp, hdp, hname, hgiven⟩ := exists_mem_left given hp
    obtain ⟨dq, hdq, hname', -⟩ := exists_mem_left given hq
    rw [hname, ← hremoves hdp] at hstays
    rw [hname', ← hremoves hdq] at hremoved
    exact ⟨dp.name, dq.name, ⟨dp, hdp, rfl, by rw [← hgiven, halternate, hname']⟩, hstays,
      hremoved⟩
  · rintro ⟨_, _, ⟨dp, hdp, rfl, halternate⟩, hstays, dq, hdq, rfl, hnamed⟩
    obtain ⟨p, hp, hname, hgiven⟩ := exists_mem_right given hdp
    obtain ⟨q, hq, hname', -⟩ := exists_mem_right given hdq
    refine ⟨p, hp, q, hq, ?_, ?_, ?_⟩
    · rw [hname, ← hremoves hdp]
      exact hstays
    · rw [hname', hgone dq hdq]
      exact hnamed
    · rw [hgiven, halternate, hname']

/-- Excluding peripherals of an expanded draft fails for a missing reference if one that stays
refers to one that is removed, and otherwise gives the device without those that are removed. -/
theorem finish_excluding {tolerant : Bool} {regions : List BitBand.ConfiguredRegion} {d : Device}
    (names : (draft.peripherals.map (·.name)).Nodup)
    (unlinked : ∀ dp ∈ draft.peripherals, dp.Unlinked) (hd : finish tolerant regions draft = .ok d)
    (hgone : ∀ dp ∈ draft.peripherals, gone dp.name = dp.isNamedIn excluded) :
    (d.RefersToRemoved gone → ∃ path name role,
      finish tolerant regions (draft.without excluded) =
        .error (.missingReference path name role)) ∧
    (¬ d.RefersToRemoved gone →
      finish tolerant regions (draft.without excluded) = .ok (d.without gone)) := by
  obtain ⟨exist, linked, ps, hlinks, hps, clear, rfl⟩ := (finish_eq_ok_iff names unlinked).1 hd
  have given := given_of_finishes hlinks hps
  rw [Device.refersToRemoved_assemble_iff names given hgone,
    ← not_iff_comm.1 (Draft.Device.alternatesExist_without_iff names exist).symm]
  have namesKept := Draft.Device.nodup_names_without names excluded
  constructor
  · intro missing
    obtain ⟨p, -, name, -, herror⟩ := Draft.Device.resolveAlternates_eq_error namesKept
      (fun dp hdp => unlinked dp (List.mem_of_mem_filter hdp)) missing
    refine ⟨(draft.without excluded).path.child p.name, name, .alternate .peripheral, ?_⟩
    rw [finish, herror]
    rfl
  · intro hexist
    have separate := (Draft.Device.alternatesExist_without_iff names exist).1 (not_not.1 hexist)
    let removed := ((ps.filter (gone ·.name)).map (·.name)).contains
    have hnames : ps.map (·.name) = draft.peripherals.map (·.name) :=
      (map_eq_map_of_forall₂ given fun dp p h => h.1.symm).symm
    have hremoved : ∀ x, removed x ↔ draft.Removes excluded x := by
      intro x
      rw [removes_iff_of_gone hgone, ← hnames, List.filter_map, List.contains_iff_mem]
      rfl
    have hkept : ps.filter (!removed ·.name) = ps.filter (!gone ·.name) := by
      refine List.filter_congr fun p hp => ?_
      obtain ⟨dp, hdp, hname, -⟩ := exists_mem_left given hp
      rw [Bool.not_inj_iff, Bool.eq_iff_iff, hremoved, hname,
        Draft.Device.removes_name_iff names hdp, hgone dp hdp]
    rw [finish_without names unlinked exist hlinks hps clear hremoved separate, hkept]
    rfl

/-- Excluding peripherals fails for a missing reference if and only if a peripheral that stays is
declared to be another view of one that is removed. Otherwise it gives the device without the
excluded peripherals. -/
theorem parse_excluding {source : Source} {config : Config} {root : Element} {draft : Draft.Device}
    {d : Device} (whole : config.excluded = []) (hd : (parse source config).result = .ok d)
    (hroot : source.read = .ok root) (hdraft : (Draft.buildDevice root).result = .ok draft)
    (excluded : List String) :
    ((∃ path name role, (parse source { config with excluded }).result =
        .error (.missingReference path name role)) ↔
      d.RefersToRemoved (draft.excludes excluded)) ∧
    (¬ d.RefersToRemoved (draft.excludes excluded) →
      (parse source { config with excluded }).result =
        .ok (d.without (draft.excludes excluded))) := by
  obtain ⟨regions, _, _, hregions, hread, hbuilt, hcomplete⟩ := parse_eq_ok_iff.1 hd
  obtain rfl := Except.ok.inj (hroot.symm.trans hread)
  obtain rfl := Except.ok.inj (hdraft.symm.trans hbuilt)
  obtain ⟨derived, expanded, hderived, hexpanded, names, unlinked, hfinish⟩ :=
    exists_expanded_of_complete (Draft.unlinked_buildDevice root draft hdraft) hcomplete
  have hrun : (parse source { config with excluded }).result =
      finish config.tolerateOverlaps regions (expanded.without excluded) := by
    have hregions' : ({ config with excluded } : Config).regions = .ok regions := hregions
    rw [parse_eq hregions' hroot, hdraft, ok_bind, complete, hderived, ok_bind, hexpanded, ok_bind]
  rw [whole, expanded.without_nil] at hfinish
  have settled := Draft.settled_buildDevice root draft hdraft
  have own := Draft.arrayName_buildDevice root draft hdraft
  obtain ⟨missing, kept⟩ := finish_excluding names unlinked hfinish fun p hp =>
    (Draft.Device.isNamedIn_eq_excludes settled own hderived hexpanded hp excluded).symm
  rw [hrun]
  refine ⟨⟨fun ⟨path, name, role, herror⟩ => ?_, missing⟩, kept⟩
  by_contra separate
  cases (kept separate).symm.trans herror

/-- Of two views of a peripheral, the one that refers to the other can be excluded. -/
theorem parse_excluding_twoViews :
    ∃ d draft, (parse (.text (String.join twoViewsLines)) {}).result = .ok d ∧
      (Draft.buildDevice twoViewsRoot).result = .ok draft ∧
      (∃ path name role,
        (parse (.text (String.join twoViewsLines)) { excluded := ["P"] }).result =
          .error (.missingReference path name role)) ∧
      (parse (.text (String.join twoViewsLines)) { excluded := ["Q"] }).result =
        .ok (d.without (draft.excludes ["Q"])) := by
  have hbuilt : (Draft.buildDevice twoViewsRoot).result.toOption.any
      (·.peripherals.all (·.dim.isNone)) := by
    decide +kernel
  obtain ⟨d, hd, -, hgiven⟩ := parse_twoViews
  obtain ⟨draft, hdraft, hplain⟩ := exists_ok_of_any hbuilt
  have plain : ∀ p ∈ draft.peripherals, p.dim = none := by
    simpa using hplain
  have hexcludes := Draft.Device.excludes_eq_contains plain
  have member {x : String × Option String} (hx : x ∈ [("P", none), ("Q", some "P")]) :
      ∃ p ∈ d.peripherals, (p.name, p.alternate) = x := by
    rwa [← hgiven, List.mem_map] at hx
  refine ⟨d, draft, hd, hdraft, ?_, ?_⟩
  · refine (parse_excluding rfl hd read_twoViews hdraft ["P"]).1.2 ?_
    obtain ⟨p, hp, hnamed⟩ := member (x := ("P", none)) (by simp)
    obtain ⟨q, hq, hnamed'⟩ := member (x := ("Q", some "P")) (by simp)
    obtain ⟨hpname, -⟩ := Prod.mk.inj hnamed
    obtain ⟨hqname, hqalternate⟩ := Prod.mk.inj hnamed'
    refine ⟨q, hq, p, hp, ?_, ?_, ?_⟩
    · simp [hqname, hexcludes]
    · simp [hpname, hexcludes]
    · rw [hpname, hqalternate]
  · refine (parse_excluding rfl hd read_twoViews hdraft ["Q"]).2 ?_
    rintro ⟨p, hp, q, -, -, removed, halternate⟩
    have hmem : (p.name, p.alternate) ∈ [("P", none), ("Q", some "P")] := by
      rw [← hgiven]
      exact List.mem_map_of_mem (f := fun p => (p.name, p.alternate)) hp
    rw [halternate] at hmem
    -- Only `P` is referred to, and it is not excluded.
    have hq : p.name = "Q" ∧ q.name = "P" := by simpa using hmem
    simp [hq.2, hexcludes] at removed

end RegisterMap
