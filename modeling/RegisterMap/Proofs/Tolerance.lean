import RegisterMap.Proofs.Escapes
import RegisterMap.Proofs.Occupancy
import RegisterMap.Proofs.Topics

/-!
# Tolerating overlaps

A run that tolerates overlaps does the same as a strict one, except that it notes an overlap where
the strict one stops, and goes on. `Logged.Tolerates` is this relation between two computations. It
is kept when both are continued in the same way, as long as the continuation cannot fail after an
overlap has been passed over; and what follows the comparison of addresses cannot fail, since a
placed draft always makes a device (`parse_tolerates`).
-/

namespace RegisterMap

/-- The error does not say that two elements share an address. -/
def Error.IsClear (e : Error) : Prop :=
  ∀ o, e ≠ .overlap o

/-- The second computation does what the first one does, except that it notes an overlap and goes on
to succeed where the first one stops at this overlap. -/
structure Logged.Tolerates {α : Type} (strict tolerant : Logged α) : Prop where
  same : (∀ o, strict.result ≠ .error (.overlap o)) → tolerant = strict
  noted : ∀ o, strict.result = .error (.overlap o) →
    (∃ a, tolerant.result = .ok a) ∧ .overlap o ∈ tolerant.events

namespace Logged.Tolerates

variable {α β : Type} {x y : Logged α} {f g : α → Logged β}

/-- A computation that does not stop at overlaps has nothing to tolerate. -/
theorem of_clear (clear : FailsWith Error.IsClear x.result) : Tolerates x x where
  same _ := rfl
  noted o ho := absurd rfl (clear _ ho o)

/-- Both computations can be continued if the tolerant one goes on to succeed after an overlap. -/
theorem bind (first : Tolerates x y) (rest : ∀ a, y.result = .ok a → Tolerates (f a) (g a))
    (finish : ∀ o a, x.result = .error (.overlap o) → y.result = .ok a →
      ∃ b, (g a).result = .ok b) : Tolerates (x >>= f) (y >>= g) := by
  obtain ⟨events, result⟩ := x
  cases result with
  | ok a =>
      obtain rfl := first.same nofun
      have hrest := rest a rfl
      constructor
      · intro clear
        change Logged.mk _ _ = Logged.mk _ _
        rw [hrest.same clear]
      · intro o ho
        obtain ⟨hok, hmem⟩ := hrest.noted o ho
        exact ⟨hok, List.mem_append_right events hmem⟩
  | error e =>
      constructor
      · intro clear
        obtain rfl := first.same fun o ho => clear o (by cases ho; rfl)
        rfl
      · rintro o ⟨⟩
        obtain ⟨⟨a, ha⟩, hmem⟩ := first.noted o rfl
        obtain ⟨b, hb⟩ := finish o a rfl ha
        refine ⟨⟨b, Logged.bind_eq_ok_iff.2 ⟨a, ha, hb⟩⟩, ?_⟩
        obtain ⟨events', result'⟩ := y
        cases ha
        exact List.mem_append_left _ hmem

/-- Both computations may start with the same steps, if these do not stop at overlaps. -/
theorem bind_clear (clear : FailsWith Error.IsClear x.result)
    (rest : ∀ a, x.result = .ok a → Tolerates (f a) (g a)) : Tolerates (x >>= f) (x >>= g) :=
  bind (of_clear clear) rest fun o _ ho _ => absurd rfl (clear _ ho o)

end Logged.Tolerates

open Logged

namespace Draft

/-! ### Addresses -/

theorem isClear_size (path : NodePath) (r : Register) : FailsWith Error.IsClear (r.size path) := by
  unfold Register.size
  split
  · exact .of_error nofun
  · exact .ite (fun _ => .of_error nofun) fun _ => .of_ok

theorem isClear_check (path : NodePath) (r : Register) :
    FailsWith Error.IsClear (r.check path) := by
  refine .bind (isClear_size path r) fun size _ => .check (fun _ => nofun) fun _ => .forM ?_
  intro f _
  split
  · exact .of_error nofun
  · exact .ite (fun _ => .of_ok) fun _ => .of_error nofun

theorem tolerates_checkExtents (extents : List Extent) :
    Tolerates (checkExtents false extents) (checkExtents true extents) := by
  unfold checkExtents
  by_cases long : extents.any Extent.isTooLong
  · rw [if_pos long, if_pos long]
    exact .of_clear (.of_error nofun)
  · rw [if_neg long, if_neg long]
    dsimp only
    cases Extent.conflictsAmong extents with
    | nil => exact .of_clear .of_ok
    | cons o os =>
        refine ⟨fun clear => absurd rfl (clear o), ?_⟩
        rintro _ ⟨⟩
        exact ⟨⟨(), rfl⟩, List.mem_cons_self⟩

/-- All extents can be measured. -/
def Measurable (groups : List (List Extent)) : Prop :=
  ∀ extents ∈ groups, ∀ x ∈ extents, x.range.length < 2 ^ 63

theorem exists_ok_checkGroups {groups : List (List Extent)} (measurable : Measurable groups) :
    ∃ u, (checkGroups true groups).result = .ok u := by
  refine ⟨(), checkGroups_eq_ok_iff.2 fun extents hextents => ?_⟩
  refine checkExtents_eq_ok_iff.2 ⟨fun x hx long => ?_, nofun⟩
  have hshort := measurable extents hextents x hx
  have hlong : 0x7FFFFFFFFFFFFFFF < x.range.length := of_decide_eq_true long
  omega

theorem tolerates_checkGroups {groups : List (List Extent)} (measurable : Measurable groups) :
    Tolerates (checkGroups false groups) (checkGroups true groups) := by
  induction groups with
  | nil => exact .of_clear .of_ok
  | cons extents groups ih =>
      have hrest : Measurable groups := fun e he => measurable e (List.mem_cons_of_mem _ he)
      exact .bind (tolerates_checkExtents extents) (fun _ _ => ih hrest) fun _ _ _ _ =>
        exists_ok_checkGroups hrest

theorem Device.tolerates_resolveAddresses {d : Device}
    (measurable : Measurable d.placeAll.extentGroups) :
    Tolerates (d.resolveAddresses false) (d.resolveAddresses true) := by
  refine .bind_clear (.forM fun p _ => .ite (fun _ => .of_ok) fun _ => .of_error nofun) ?_
  intro _ _
  refine .bind_clear (.forM fun e _ => .ite (fun _ => .of_ok) fun _ => .of_error nofun) ?_
  intro _ _
  refine .bind_clear (.forM fun e _ => ?_) fun _ _ => ?_
  · split
    · exact isClear_check _ _
    · exact .of_ok
  refine .bind (tolerates_checkGroups measurable) (fun _ _ => .of_clear .of_ok) ?_
  exact fun _ _ _ _ => ⟨_, rfl⟩

/-! ### Runs -/

variable {config : Config} {root : Element}

theorem Elementary.isClear {α : Type} {x : Except Error α}
    (h : FailsWith (Elementary config root) x) : FailsWith Error.IsClear x :=
  fun e he => (h e he).clear

/-- Up to the comparison of addresses, only the exclusions make a difference to a run. -/
theorem Reaches.linked_of_excluded_eq {d : Device} (h : Reaches config root .linked d)
    (config' : Config) (same : config'.excluded = config.excluded) :
    Reaches config' root .linked d := by
  rw [reaches_linked_iff, linkedDraft, same]
  exact reaches_linked_iff.1 h

theorem tolerates_resolve (measurable : ∀ linked, Reaches config root .linked linked →
      Measurable linked.placeAll.extentGroups)
    {built : Device} (build : (buildDevice root).result = .ok built) :
    Tolerates (resolve { config with tolerateOverlaps := false } built)
      (resolve { config with tolerateOverlaps := true } built) := by
  have hbuilt : Reaches { config with tolerateOverlaps := true } root .built built := .build build
  refine .bind_clear (Elementary.isClear hbuilt.elementary_resolveDerivations) ?_
  intro derived hderived
  have hreaches := Reaches.derive hbuilt hderived
  refine .bind_clear (Elementary.isClear hreaches.elementary_expand) fun expanded hexpanded => ?_
  refine .bind_clear .of_ok fun reduced hreduced => ?_
  have halternates : FailsWith (Elementary config root) reduced.resolveAlternates.result :=
    reduced.elementary_resolveAlternates
  refine .bind_clear (Elementary.isClear halternates) fun linked hlinked => ?_
  have hreaches := Reaches.link (.exclude (.expand hreaches hexpanded) hreduced) hlinked
  -- Whatever has been placed makes a device, even if some of its elements share addresses.
  have finish (placed : Device) (h : (linked.resolveAddresses true).result = .ok placed) :
      ∃ d, (RegisterMap.Device.ofDraft placed).result = .ok d :=
    (Reaches.place hreaches h).exists_ofDraft
  have hmeasurable := measurable linked (hreaches.linked_of_excluded_eq config rfl)
  refine .bind (Device.tolerates_resolveAddresses hmeasurable) ?_ fun _ placed _ => finish placed
  intro placed hplaced
  obtain ⟨d, hd⟩ := finish placed hplaced
  exact .of_clear (.of_eq_ok hd)

/-- A strict run notes no overlaps. -/
theorem notes_resolve_strict {config : Config} (strict : config.tolerateOverlaps = false)
    (built : Device) : Notes (fun e => ∀ o, e ≠ .overlap o) (resolve config built) := by
  have clear (topic : Topic) (ne : topic ≠ .addresses) (e : Event) (h : e.topic = topic) :
      ∀ o, e ≠ .overlap o := by
    rintro o rfl
    exact ne h.symm
  refine .bind (built.notes_resolveDerivations.imp (clear _ nofun)) fun derived _ => ?_
  refine .bind (derived.notes_expand.imp (clear _ nofun)) fun expanded _ => ?_
  refine .bind ((expanded.notes_exclude _).imp (clear _ nofun)) fun reduced _ => ?_
  refine .bind (reduced.notes_resolveAlternates.imp (clear _ nofun)) fun linked _ => ?_
  rw [strict]
  refine .bind (linked.notes_resolveAddresses nofun fun _ => nofun) fun placed _ => ?_
  refine (Device.notes_ofDraft placed).imp fun e h => ?_
  cases h with
  | shared | conflicting => exact nofun

end Draft

theorem tolerates_parse {source : Source} {config : Config} (plain : config.enableBitBand = false)
    (measurable : ∀ root linked, source.read = .ok root →
      Draft.Reaches config root .linked linked → Draft.Measurable linked.placeAll.extentGroups) :
    Tolerates (parse source { config with tolerateOverlaps := false })
      (parse source { config with tolerateOverlaps := true }) := by
  have hregions : FailsWith Error.IsClear config.regions := by
    rw [Config.regions_of_plain plain]
    exact .of_ok
  have hread : FailsWith Error.IsClear source.read := by
    intro e he
    rw [source.fails_read e he]
    exact nofun
  refine .bind_clear hregions fun regions _ => .bind_clear hread fun root hroot => ?_
  have hbuild : FailsWith (Draft.Elementary config root) (Draft.buildDevice root).result :=
    Draft.elementary_buildDevice
  refine .bind_clear (Draft.Elementary.isClear hbuild) fun built hbuilt => ?_
  have hresolve : Tolerates (resolve { config with tolerateOverlaps := false } built)
      (resolve { config with tolerateOverlaps := true } built) :=
    Draft.tolerates_resolve (fun linked => measurable root linked hroot) hbuilt
  refine .bind hresolve (fun d _ => ?_) fun _ d _ _ => ?_
  · dsimp only
    rw [plain, if_neg Bool.false_ne_true]
    exact .of_clear .of_ok
  · dsimp only
    rw [plain, if_neg Bool.false_ne_true]
    exact ⟨d, rfl⟩

theorem notes_parse_strict {source : Source} {config : Config}
    (plain : config.enableBitBand = false) (strict : config.tolerateOverlaps = false) :
    Notes (fun e => ∀ o, e ≠ .overlap o) (parse source config) := by
  refine .bind .of_ofExcept fun regions _ => .bind .of_ofExcept fun root _ => ?_
  refine .bind ((Draft.notes_buildDevice root).imp ?_) fun built _ => ?_
  · rintro _ h o rfl
    cases h
  refine .bind (Draft.notes_resolve_strict strict built) fun d _ => ?_
  rw [plain, if_neg Bool.false_ne_true]
  exact .of_pure

/-- Without bit-banding, and if all ranges of addresses can be measured, tolerating overlaps changes
a run only where it would fail with an overlap: then the run gives a device instead, and warns with
the message of the error. Where a strict run gives a device, a tolerant one gives the same and warns
of no overlap; where a strict run fails in another way, a tolerant one fails in the same way. -/
theorem parse_tolerates {source : Source} {config : Config} (plain : config.enableBitBand = false)
    (measurable : ∀ root linked, source.read = .ok root →
      Draft.Reaches config root .linked linked →
      ∀ extents ∈ linked.placeAll.extentGroups, ∀ x ∈ extents, x.range.length < 2 ^ 63) :
    let strict := parse source { config with tolerateOverlaps := false }
    let tolerant := parse source { config with tolerateOverlaps := true }
    (∀ d, strict.result = .ok d →
      tolerant.result = .ok d ∧ ∀ e ∈ tolerant.events, ∀ o, e ≠ .overlap o) ∧
    (∀ o, strict.result = .error (.overlap o) → (∃ d, tolerant.result = .ok d) ∧
      ∃ e ∈ tolerant.events, e.level = .warning ∧ (Error.overlap o).message? = some e.message) ∧
    (∀ e, strict.result = .error e → (∀ o, e ≠ .overlap o) → tolerant.result = .error e) := by
  intro strict tolerant
  have tolerates : Tolerates strict tolerant := tolerates_parse plain measurable
  refine ⟨fun d hd => ?_, fun o ho => ?_, fun e he hclear => ?_⟩
  · have hsame : tolerant = strict := tolerates.same fun o ho => by
      rw [hd] at ho
      cases ho
    rw [hsame]
    exact ⟨hd, notes_parse_strict plain rfl⟩
  · obtain ⟨hok, hmem⟩ := tolerates.noted o ho
    exact ⟨hok, _, hmem, rfl, rfl⟩
  · have hsame : tolerant = strict := tolerates.same fun o ho => by
      rw [he] at ho
      cases ho
      exact hclear o rfl
    rw [hsame]
    exact he

/-- A strict run fails on the document with a gap. A tolerant one gives a device and a warning. -/
theorem parse_tolerates_gap : ∃ d,
    (parse (.text (String.join gapLines)) {}).result = .error (.overlap gapOverlap) ∧
    (parse (.text (String.join gapLines)) { tolerateOverlaps := true }).result = .ok d ∧
    ∃ e ∈ (parse (.text (String.join gapLines)) { tolerateOverlaps := true }).events,
      e.level = .warning ∧ (Error.overlap gapOverlap).message? = some e.message := by
  obtain ⟨linked, placed, -, -, -, hlinked, hplaced, -, hshort, -⟩ := exists_placed_gap
  have measurable : ∀ root linked, (Source.text (String.join gapLines)).read = .ok root →
      Draft.Reaches {} root .linked linked →
      ∀ extents ∈ linked.placeAll.extentGroups, ∀ x ∈ extents, x.range.length < 2 ^ 63 := by
    intro root linked' hroot hreaches
    cases hroot.symm.trans read_gap
    rw [Draft.reaches_linked_iff, hlinked] at hreaches
    cases hreaches
    rw [← Draft.Device.resolveAddresses_eq_ok hplaced]
    exact hshort
  obtain ⟨-, hnoted, -⟩ := parse_tolerates rfl measurable
  obtain ⟨⟨d, hd⟩, hwarned⟩ := hnoted gapOverlap parse_gap_strict
  exact ⟨d, parse_gap_strict, hd, hwarned⟩

end RegisterMap
