import RegisterMap.Draft.Build
import RegisterMap.Proofs.Success

/-!
# Built drafts

The peripherals of a draft are built from their elements one by one; only their names are compared
with each other (`buildPeripherals_eq_ok_iff`). Everything else in the draft is read from the rest
of the document.
-/

namespace RegisterMap

/-- The elements of peripherals in the root element of a document. -/
def Element.peripherals (root : Element) : List Element :=
  ((root.child? "peripherals").map (·.childrenTagged "peripheral")).getD []

namespace Draft

theorem buildPeripherals_eq_ok_iff {parent : NodePath} {built : List Peripheral}
    {es : List Element} {ps : List Peripheral} :
    (buildPeripherals parent built es).result = .ok ps ↔
      ∃ own, List.Forall₂ (fun e p => (buildPeripheral parent e).result = .ok p) es own ∧
        (own.map (·.name)).Nodup ∧ (∀ p ∈ own, p.name ∉ built.map (·.name)) ∧
        ps = built ++ own := by
  induction es generalizing built with
  | nil =>
      rw [buildPeripherals, Logged.result_pure]
      simp [eq_comm]
  | cons e es ih =>
      rw [buildPeripherals, Logged.bind_eq_ok_iff]
      constructor
      · rintro ⟨p, hp, h⟩
        split at h
        · cases h
        · next hnew =>
          obtain ⟨own, hown, hnodup, hothers, rfl⟩ := ih.1 h
          have hothers' : ∀ q ∈ own, q.name ∉ built.map (·.name) ∧ q.name ≠ p.name := by
            simpa using hothers
          refine ⟨p :: own, .cons hp hown, ?_, ?_, by simp⟩
          · rw [List.map_cons, List.nodup_cons]
            refine ⟨fun hmem => ?_, hnodup⟩
            obtain ⟨q, hq, hname⟩ := List.mem_map.1 hmem
            exact (hothers' q hq).2 hname
          · rw [List.forall_mem_cons]
            exact ⟨by simpa using hnew, fun q hq => (hothers' q hq).1⟩
      · rintro ⟨own, hown, hnodup, hothers, rfl⟩
        obtain ⟨p, rest, hp, hrest, rfl⟩ := List.forall₂_cons_left_iff.1 hown
        rw [List.map_cons, List.nodup_cons] at hnodup
        rw [List.forall_mem_cons] at hothers
        refine ⟨p, hp, ?_⟩
        rw [if_neg (by simpa using hothers.1)]
        refine ih.2 ⟨rest, hrest, hnodup.2, fun q hq => ?_, by simp⟩
        have hne : q.name ≠ p.name := fun heq => hnodup.1 (heq ▸ List.mem_map_of_mem hq)
        simpa [hne] using hothers.2 q hq

/-- The device with the attributes of `head` and the peripherals that elements describe. -/
def buildOn (head : Device) (es : List Element) : Except Error Device := do
  let ps ← (buildPeripherals head.path [] es).result
  return { head with peripherals := ps.map (Peripheral.withDefaults head.props) }

theorem result_buildDevice {root : Element} {head : Device} (tag : root.tag = "device")
    (hhead : buildDeviceHead root = .ok head) :
    (buildDevice root).result = buildOn head root.peripherals := by
  unfold buildDevice
  rw [if_neg (not_not.2 tag), Logged.result_bind]
  change (buildDeviceHead root >>= _) = _
  rw [hhead, ok_bind]
  dsimp only
  rw [Logged.result_bind]
  rfl

theorem exists_head_of_buildDevice {root : Element} {d : Device}
    (h : (buildDevice root).result = .ok d) :
    root.tag = "device" ∧ ∃ head, buildDeviceHead root = .ok head := by
  unfold buildDevice at h
  split at h
  · cases h
  · next htag =>
    obtain ⟨head, hhead, -⟩ := Logged.bind_eq_ok_iff.1 h
    exact ⟨not_not.1 htag, head, hhead⟩

theorem given_of_requiredName {parent : NodePath} {kind : ElementKind} {e : Element}
    {name : String} (h : requiredName parent kind e = .ok name) :
    (e.string? "name").map Text.trim = some name := by
  unfold requiredName at h
  split at h
  · next given hgiven =>
    split at h
    · cases h
    · cases h
      rw [hgiven, Option.map_some]
  · cases h

/-- A peripheral that is built has the name that its element gives, and is no instance of an
array. -/
theorem given_buildPeripheral (parent : NodePath) (e : Element) :
    (buildPeripheral parent e).Yields fun p =>
      (e.string? "name").map Text.trim = some p.name ∧ p.arrayName = none := by
  unfold buildPeripheral
  refine .bind (.of_ofExcept fun _ => given_of_requiredName) fun name hname =>
    .bind_of_forall fun path => ?_
  refine .bind_of_forall fun base => .throw_or fun _ => .bind_of_forall fun blocks => ?_
  refine .bind_of_forall fun interrupts => ?_
  cases e.child? "registers" with
  | none =>
      refine .bind_of_forall fun members => ?_
      exact .bind_of_forall fun _ => .bind_of_forall fun _ => .of_pure ⟨hname, rfl⟩
  | some registers =>
      refine .bind_of_forall fun members => ?_
      exact .bind_of_forall fun _ => .bind_of_forall fun _ => .of_pure ⟨hname, rfl⟩

/-- Whatever holds of each peripheral as it is built, and does not depend on the properties in
effect around it, holds of all peripherals of the draft. -/
theorem forall_peripherals_buildDevice {P : Peripheral → Prop} (root : Element)
    (build : ∀ parent, ∀ e ∈ root.peripherals, (buildPeripheral parent e).Yields P)
    (withDefaults : ∀ p defaults, P p → P (p.withDefaults defaults)) :
    (buildDevice root).Yields fun d => ∀ p ∈ d.peripherals, P p := by
  intro d h
  obtain ⟨htag, head, hhead⟩ := exists_head_of_buildDevice h
  rw [result_buildDevice htag hhead] at h
  obtain ⟨ps, hps, h⟩ := bind_eq_ok_iff.1 h
  cases h
  obtain ⟨own, hown, -, -, rfl⟩ := buildPeripherals_eq_ok_iff.1 hps
  intro p hp
  obtain ⟨q, hq, rfl⟩ := List.mem_map.1 hp
  obtain ⟨e, he, hbuilt⟩ := exists_mem_left hown hq
  exact withDefaults q _ (build head.path e he q hbuilt)

theorem arrayName_buildDevice (root : Element) :
    (buildDevice root).Yields fun d => ∀ p ∈ d.peripherals, p.arrayName = none :=
  forall_peripherals_buildDevice root
    (fun parent e _ p hp => (given_buildPeripheral parent e p hp).2) fun _ _ h => h

end Draft

end RegisterMap
