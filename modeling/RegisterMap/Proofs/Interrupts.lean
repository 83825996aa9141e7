import RegisterMap.Proofs.Resolvability
import RegisterMap.Proofs.Stages
import RegisterMap.Proofs.Topics

/-!
# The interrupts of a device

Several peripherals may define an interrupt of the same name. The device has one entry for each
name, in the order in which the names first occur, and it is the first definition
(`Interrupt.firstOfEach`). Every later definition is noted once, compared with the first one
(`events_collectInterrupts`), and nothing else in a run notes an event of this kind.

An interrupt names the peripheral that defines it. Each pass keeps this: interrupts are not taken
over from a base, and an instance of an array becomes the owner of the interrupts that it is given
(`Peripheral.OwnsInterrupts`).
-/

namespace RegisterMap

/-! ### First definitions -/

theorem eraseDups_filter {α : Type} [BEq α] [LawfulBEq α] (p : α → Bool) :
    ∀ as : List α, (as.filter p).eraseDups = as.eraseDups.filter p
  | [] => rfl
  | a :: as => by
      have ih := eraseDups_filter p (as.filter fun b => !b == a)
      rw [List.eraseDups_cons]
      cases ha : p a with
      | true => rw [List.filter_cons_of_pos ha, List.filter_cons_of_pos ha, List.eraseDups_cons,
          List.filter_comm, ih]
      | false =>
          have hrest : (as.filter fun b => !b == a).filter p = as.filter p := by
            rw [List.filter_filter]
            refine List.filter_congr fun b _ => ?_
            by_cases hb : b = a
            · rw [hb, ha, Bool.false_and]
            · simp [hb]
          rw [List.filter_cons_of_neg (by simp [ha]), List.filter_cons_of_neg (by simp [ha]), ← ih,
            hrest]
termination_by as => as.length
decreasing_by exact Nat.lt_succ_of_le (List.length_filter_le _ _)

theorem Logged.events_bind {α β : Type} {x : Logged α} {f : α → Logged β} {a : α}
    (first : x.result = .ok a) : (x >>= f).events = x.events ++ (f a).events := by
  obtain ⟨events, result⟩ := x
  cases first
  rfl

/-- Collecting goes on with what is collected so far. -/
theorem collectInterrupts_append (known is js : List Interrupt) :
    collectInterrupts known (is ++ js) =
      collectInterrupts known is >>= (collectInterrupts · js) := by
  induction is generalizing known with
  | nil => rfl
  | cons i is ih =>
      rw [List.cons_append, collectInterrupts, collectInterrupts]
      cases known.find? (·.name == i.name) with
      | none => exact ih _
      | some first =>
          have hresult := collectInterrupts_eq known is
          have hrest := ih known
          generalize collectInterrupts known is = x at hresult hrest
          obtain ⟨events, result⟩ := x
          cases hresult
          dsimp only
          rw [hrest]
          rfl

namespace Interrupt

theorem names_firstOfEach (is : List Interrupt) :
    (firstOfEach is).map (·.name) = (is.map (·.name)).eraseDups := by
  induction is with
  | nil => rfl
  | cons i is ih =>
      rw [firstOfEach, List.map_cons, List.map_cons, List.eraseDups_cons, eraseDups_filter, ← ih,
        List.filter_map]
      congr 2
      refine List.filter_congr fun j _ => ?_
      exact decide_not

/-- A name is looked up among the first definitions as among all. -/
theorem find?_firstOfEach (is : List Interrupt) (name : String) :
    (firstOfEach is).find? (·.name == name) = is.find? (·.name == name) := by
  induction is with
  | nil => rfl
  | cons i is ih =>
      rw [firstOfEach, List.find?_cons, List.find?_cons, List.find?_filter, ← ih]
      split
      · rfl
      · next hne =>
        congr 1
        funext j
        have hother : j.name = name → j.name ≠ i.name := by
          rintro hj heq
          simp [← heq, hj] at hne
        exact Bool.eq_iff_iff.2 (by simpa using hother)

theorem find?_of_mem_firstOfEach {is : List Interrupt} {i : Interrupt} (hi : i ∈ firstOfEach is) :
    is.find? (·.name == i.name) = some i := by
  induction is with
  | nil => cases hi
  | cons j is ih =>
      rw [firstOfEach, List.mem_cons, List.mem_filter] at hi
      rcases hi with rfl | ⟨hi, hne⟩
      · exact List.find?_cons_of_pos (beq_self_eq_true i.name)
      · have hne : i.name ≠ j.name := of_decide_eq_true hne
        rw [List.find?_cons_of_neg (by simpa using hne.symm), ih hi]

/-- The definitions of which the name is defined before, in order. Each is paired with the first
definition of this name. -/
def laterDefinitions (is : List Interrupt) : List (Interrupt × Interrupt) :=
  is.zipIdx.filterMap fun (i, k) => ((is.take k).find? (·.name == i.name)).map (·, i)

theorem laterDefinitions_concat (is : List Interrupt) (i : Interrupt) :
    laterDefinitions (is ++ [i]) =
      laterDefinitions is ++ ((is.find? (·.name == i.name)).map (·, i)).toList := by
  rw [laterDefinitions, List.zipIdx_append, List.filterMap_append]
  congr 1
  · refine List.filterMap_congr fun e he => ?_
    have hlt : e.2 < is.length := by
      have := List.snd_lt_of_mem_zipIdx he
      omega
    dsimp only
    rw [List.take_append_of_le_length hlt.le]
  · rw [List.zipIdx_singleton, Nat.zero_add, List.filterMap_cons, List.filterMap_nil]
    dsimp only
    rw [List.take_left]
    cases is.find? (·.name == i.name) <;> rfl

theorem find?_of_mem_laterDefinitions {is : List Interrupt} {e : Interrupt × Interrupt}
    (he : e ∈ laterDefinitions is) : is.find? (·.name == e.2.name) = some e.1 := by
  obtain ⟨⟨i, k⟩, -, he⟩ := List.mem_filterMap.1 he
  obtain ⟨first, hfirst, rfl⟩ := Option.map_eq_some_iff.1 he
  rw [← List.take_append_drop k is, List.find?_append, hfirst, Option.some_or]

/-- One more definition is a first one if there is none of the same name yet. -/
theorem firstOfEach_concat (is : List Interrupt) (i : Interrupt) : firstOfEach (is ++ [i]) =
    firstOfEach is ++ if (is.find? (·.name == i.name)).isSome then [] else [i] := by
  have hlast : (collectInterrupts [] (is ++ [i])).result =
      (collectInterrupts (firstOfEach is) [i]).result := by
    rw [collectInterrupts_append, Logged.result_bind, result_collectInterrupts, ok_bind]
  rw [result_collectInterrupts, collectInterrupts, find?_firstOfEach] at hlast
  cases hfind : is.find? (·.name == i.name) with
  | none =>
      rw [hfind] at hlast
      exact Except.ok.inj hlast
  | some first =>
      rw [hfind] at hlast
      rw [Option.isSome_some, if_pos rfl, List.append_nil]
      exact Except.ok.inj hlast

/-- Each definition is either a first or a later one. -/
theorem perm_firstOfEach_append (is : List Interrupt) :
    is.Perm (firstOfEach is ++ (laterDefinitions is).map (·.2)) := by
  induction is using List.reverseRecOn with
  | nil => exact .refl _
  | append_singleton is i ih =>
      rw [firstOfEach_concat, laterDefinitions_concat, List.map_append]
      cases is.find? (·.name == i.name) with
      | none =>
          rw [Option.isSome_none, if_neg Bool.false_ne_true, Option.map_none, Option.toList_none,
            List.map_nil, List.append_nil, List.append_assoc]
          refine (ih.append_right [i]).trans ?_
          rw [List.append_assoc]
          exact List.perm_append_comm.append_left _
      | some first =>
          rw [Option.isSome_some, if_pos rfl, List.append_nil, ← List.append_assoc]
          exact ih.append_right [i]

theorem level_repetition (first later : Interrupt) :
    (first.repetition later).level = if later.value = first.value then .debug else .warning := by
  unfold repetition
  by_cases same : first.value = later.value
  · rw [if_pos same, if_pos same.symm]
    rfl
  · rw [if_neg same, if_neg (Ne.symm same)]
    rfl

end Interrupt

/-- Each later definition is noted once, in order. -/
theorem events_collectInterrupts (is : List Interrupt) : (collectInterrupts [] is).events =
    (Interrupt.laterDefinitions is).map fun e => e.1.repetition e.2 := by
  induction is using List.reverseRecOn with
  | nil => rfl
  | append_singleton is i ih =>
      have hlast : (collectInterrupts [] (is ++ [i])).events = (collectInterrupts [] is).events ++
          (collectInterrupts (Interrupt.firstOfEach is) [i]).events := by
        rw [collectInterrupts_append, Logged.events_bind (result_collectInterrupts is)]
      rw [hlast, ih, Interrupt.laterDefinitions_concat, List.map_append, collectInterrupts,
        Interrupt.find?_firstOfEach]
      cases is.find? (·.name == i.name) <;> rfl

/-! ### Events of a run -/

instance : DecidablePred Event.RepeatsInterrupt
  | .sharedInterrupt _ _ _ => .isTrue (.shared _ _ _)
  | .conflictingInterrupt _ _ _ _ _ => .isTrue (.conflicting _ _ _ _ _)
  | .skippedValue .. | .built .. | .derived .. | .unknownExclusion .. | .expanded .. | .linked ..
  | .overlap .. | .placed .. | .unusedRegion .. | .aliased .. => .isFalse nofun

namespace Logged

/-- The computation notes nothing about interrupts that are defined more than once. -/
abbrev Quiet {α : Type} : Logged α → Prop :=
  Notes fun e => ¬ e.RepeatsInterrupt

variable {α β : Type} {x : Logged α} {f : α → Logged β}

/-- The events about interrupts that are defined more than once. -/
def repetitions (x : Logged α) : List Event :=
  x.events.filter fun e => e.RepeatsInterrupt

theorem Quiet.repetitions_eq (h : x.Quiet) : x.repetitions = [] :=
  List.filter_eq_nil_iff.2 fun e he => by simpa using h e he

theorem NotesOn.quiet {topic : Topic} (h : x.NotesOn topic) (other : topic ≠ .addresses) :
    x.Quiet :=
  h.imp fun e he repeats => other (by cases repeats <;> exact he.symm)

theorem repetitions_bind {a : α} (first : x.result = .ok a) :
    (x >>= f).repetitions = x.repetitions ++ (f a).repetitions := by
  rw [repetitions, events_bind first, List.filter_append]
  rfl

/-- Nothing is added by what happens before. -/
theorem repetitions_bind_left {a : α} (quiet : x.Quiet) (first : x.result = .ok a) :
    (x >>= f).repetitions = (f a).repetitions := by
  rw [repetitions_bind first, quiet.repetitions_eq, List.nil_append]

/-- Nothing is added by what happens afterwards. -/
theorem repetitions_bind_right {a : α} (first : x.result = .ok a) (quiet : (f a).Quiet) :
    (x >>= f).repetitions = x.repetitions := by
  rw [repetitions_bind first, quiet.repetitions_eq, List.append_nil]

end Logged

open Logged

/-- Making a device notes each later definition of an interrupt in it. -/
theorem Device.repetitions_ofDraft {draft : Draft.Device} {d : Device}
    (h : (Device.ofDraft draft).result = .ok d) : (Device.ofDraft draft).repetitions =
      (Interrupt.laterDefinitions (d.peripherals.flatMap (·.interrupts))).map
        fun e => e.1.repetition e.2 := by
  obtain ⟨ps, hps, h⟩ := Logged.bind_eq_ok_iff.1 h
  obtain ⟨is, his, h⟩ := Logged.bind_eq_ok_iff.1 h
  cases h
  rw [Device.ofDraft, repetitions_bind_left .of_ofExcept hps, repetitions_bind_right his,
    ← events_collectInterrupts]
  · exact List.filter_eq_self.2 fun e he => decide_eq_true (notes_collectInterrupts _ _ e he)
  · exact .of_pure

theorem repetitions_resolve {config : Config} {draft : Draft.Device} {d : Device}
    (h : (resolve config draft).result = .ok d) : (resolve config draft).repetitions =
      (Interrupt.laterDefinitions (d.peripherals.flatMap (·.interrupts))).map
        fun e => e.1.repetition e.2 := by
  obtain ⟨derived, hderived, h⟩ := Logged.bind_eq_ok_iff.1 h
  obtain ⟨expanded, hexpanded, h⟩ := Logged.bind_eq_ok_iff.1 h
  obtain ⟨reduced, hreduced, h⟩ := Logged.bind_eq_ok_iff.1 h
  obtain ⟨linked, hlinked, h⟩ := Logged.bind_eq_ok_iff.1 h
  obtain ⟨placed, hplaced, h⟩ := Logged.bind_eq_ok_iff.1 h
  rw [resolve, repetitions_bind_left (draft.notes_resolveDerivations.quiet nofun) hderived,
    repetitions_bind_left (derived.notes_expand.quiet nofun) hexpanded,
    repetitions_bind_left ((expanded.notes_exclude _).quiet nofun) hreduced,
    repetitions_bind_left (reduced.notes_resolveAlternates.quiet nofun) hlinked,
    repetitions_bind_left (linked.notes_resolveAddresses (fun _ _ => nofun) fun _ => nofun) hplaced,
    Device.repetitions_ofDraft h]

/-- A run that gives a device notes each later definition of an interrupt in it. -/
theorem repetitions_parse {source : Source} {config : Config} {d : Device}
    (h : (parse source config).result = .ok d) : (parse source config).repetitions =
      (Interrupt.laterDefinitions (d.peripherals.flatMap (·.interrupts))).map
        fun e => e.1.repetition e.2 := by
  obtain ⟨regions, hregions, h⟩ := Logged.bind_eq_ok_iff.1 h
  obtain ⟨root, hroot, h⟩ := Logged.bind_eq_ok_iff.1 h
  obtain ⟨built, hbuilt, h⟩ := Logged.bind_eq_ok_iff.1 h
  obtain ⟨plain, hplain, h⟩ := Logged.bind_eq_ok_iff.1 h
  have hsame : d.peripherals.flatMap (·.interrupts) = plain.peripherals.flatMap (·.interrupts) := by
    split at h
    · obtain ⟨ps, hps, rfl⟩ := Device.withAliases_eq_ok_iff.1 h
      exact Peripheral.flatMap_interrupts_withAliases hps
    · cases h
      rfl
  have quiet : (if config.enableBitBand then plain.withAliases regions else pure plain).Quiet :=
    .ite ((Device.notes_withAliases _ _).quiet nofun) .of_pure
  rw [parse, repetitions_bind_left .of_ofExcept hregions, repetitions_bind_left .of_ofExcept hroot,
    repetitions_bind_left ((Draft.notes_buildDevice root).quiet nofun) hbuilt,
    repetitions_bind_right hplain quiet, hsame, repetitions_resolve hplain]

/-! ### Owners -/

namespace Draft

/-- The interrupts of the peripheral name it as the one that defines them. -/
def Peripheral.OwnsInterrupts (p : Peripheral) : Prop :=
  ∀ i ∈ p.interrupts, i.peripheral = p.name

theorem peripheral_buildInterrupt {path : NodePath} {peripheral : String} {e : Element}
    {i : Interrupt} (h : buildInterrupt path peripheral e = .ok i) : i.peripheral = peripheral := by
  obtain ⟨value, -, h⟩ := bind_eq_ok_iff.1 h
  split at h
  · cases h
    rfl
  · cases h

theorem ownsInterrupts_buildPeripheral (parent : NodePath) (e : Element) :
    (buildPeripheral parent e).Yields Peripheral.OwnsInterrupts := by
  unfold buildPeripheral
  refine .bind_of_forall fun name => .bind_of_forall fun path => .bind_of_forall fun base => ?_
  refine .throw_or fun _ => .bind_of_forall fun blocks => ?_
  refine .bind (Q := fun is => ∀ i ∈ is, i.peripheral = name) ?_ fun is his => ?_
  · refine .of_ofExcept fun is his i hi => ?_
    obtain ⟨e, -, he⟩ := exists_mem_left (mapM_eq_ok_iff.1 his) hi
    exact peripheral_buildInterrupt he
  cases e.child? "registers" with
  | none =>
      refine .bind_of_forall fun members => ?_
      exact .bind_of_forall fun _ => .bind_of_forall fun _ => .of_pure his
  | some registers =>
      refine .bind_of_forall fun members => ?_
      exact .bind_of_forall fun _ => .bind_of_forall fun _ => .of_pure his

theorem ownsInterrupts_buildDevice (root : Element) :
    (buildDevice root).Yields fun d => ∀ p ∈ d.peripherals, p.OwnsInterrupts :=
  forall_peripherals_buildDevice root (fun parent e _ => ownsInterrupts_buildPeripheral parent e)
    fun _ _ h => h

theorem Device.ownsInterrupts_resolveDerivations {d d' : Device} (settled : d.Settled)
    (owns : ∀ p ∈ d.peripherals, p.OwnsInterrupts) (h : d.resolveDerivations.result = .ok d') :
    ∀ p ∈ d'.peripherals, p.OwnsInterrupts := by
  obtain ⟨middle, f, -, hderives, -, rfl⟩ := resolveDerivations_eq_ok settled h
  intro p' hp' i hi
  obtain ⟨j, hj, rfl⟩ := List.mem_mapIdx.1 hp'
  obtain ⟨p, hp, derives⟩ := exists_mem_left hderives (List.getElem_mem hj)
  rw [derives.interrupts] at hi
  exact (owns p hp i hi).trans derives.name.symm

/-- An instance of an array becomes the owner of the interrupts that it is given. -/
theorem Peripheral.ownsInterrupts_place {p : Peripheral} (owns : p.OwnsInterrupts)
    (i : Option Instance) : (place p i).OwnsInterrupts := by
  cases i with
  | none => exact owns
  | some i => exact List.forall_mem_map.2 fun _ _ => rfl

theorem Device.ownsInterrupts_expand {d d' : Device}
    (owns : ∀ p ∈ d.peripherals, p.OwnsInterrupts) (h : d.expand.result = .ok d') :
    ∀ p ∈ d'.peripherals, p.OwnsInterrupts := by
  obtain ⟨-, -, rfl⟩ := expand_eq_ok_iff.1 h
  intro p' hp'
  obtain ⟨p, hp, hp'⟩ := List.mem_flatMap.1 hp'
  obtain ⟨q, hq, rfl⟩ := List.mem_map.1 hp'
  obtain ⟨i, -, rfl⟩ := List.mem_map.1 hq
  exact Peripheral.ownsInterrupts_place (owns p hp) i

end Draft

/-- Every interrupt of a peripheral names this peripheral, or instance, as its owner. -/
theorem ownsInterrupts_of_complete {config : Config} {regions : List BitBand.ConfiguredRegion}
    {root : Element} {built : Draft.Device} {d : Device}
    (hbuilt : (Draft.buildDevice root).result = .ok built)
    (h : complete config regions built = .ok d) :
    ∀ p ∈ d.peripherals, ∀ i ∈ p.interrupts, i.peripheral = p.name := by
  obtain ⟨derived, expanded, hderived, hexpanded, names, unlinked, hfinish⟩ :=
    exists_expanded_of_complete (Draft.unlinked_buildDevice root built hbuilt) h
  have settled := Draft.settled_buildDevice root built hbuilt
  have owns : ∀ dp ∈ expanded.peripherals, dp.OwnsInterrupts :=
    Draft.Device.ownsInterrupts_expand (Draft.Device.ownsInterrupts_resolveDerivations settled
      (Draft.ownsInterrupts_buildDevice root built hbuilt) hderived) hexpanded
  intro p hp i hi
  obtain ⟨dp, hdp, linked, links, publishes⟩ :=
    exists_links_of_mem (Draft.Device.nodup_names_without names _)
      (fun dp hdp => unlinked dp (List.mem_of_mem_filter hdp)) hfinish hp
  have hinterrupts : p.interrupts = dp.interrupts :=
    (Peripheral.interrupts_publish publishes).trans links.interrupts
  have hname : p.name = dp.name := (Peripheral.name_publish publishes).trans links.name
  rw [hname]
  exact owns dp (List.mem_of_mem_filter hdp) i (hinterrupts ▸ hi)

/-! ### The interrupts of a device -/

/-- The interrupts of a device are the first definitions of the interrupts in its peripherals, in
order, one for each name; and every interrupt names the peripheral that defines it. Each definition
that is left out is noted exactly once, compared with the first definition of the same name: as a
warning if their values differ, and for debugging otherwise. -/
theorem parse_collects_interrupts {source : Source} {config : Config} {d : Device}
    (h : (parse source config).result = .ok d) :
    let given := d.peripherals.flatMap (·.interrupts)
    let later := Interrupt.laterDefinitions given
    (∀ p ∈ d.peripherals, ∀ i ∈ p.interrupts, i.peripheral = p.name) ∧
    d.interrupts.map (·.name) = (given.map (·.name)).eraseDups ∧
    (∀ i ∈ d.interrupts, given.find? (·.name == i.name) = some i) ∧
    given.Perm (d.interrupts ++ later.map (·.2)) ∧
    (parse source config).repetitions = later.map (fun e => e.1.repetition e.2) ∧
    ∀ e ∈ later, given.find? (·.name == e.2.name) = some e.1 ∧
      (e.1.repetition e.2).level = if e.2.value = e.1.value then .debug else .warning := by
  intro given later
  obtain ⟨regions, root, built, -, -, hbuilt, hcomplete⟩ := parse_eq_ok_iff.1 h
  have hinterrupts : d.interrupts = Interrupt.firstOfEach given := by
    obtain ⟨_, hpublish⟩ := exists_publish_of_complete hcomplete
    obtain ⟨ps, -, -, rfl⟩ := Device.publish_eq_ok_iff.1 hpublish
    rfl
  rw [hinterrupts]
  refine ⟨ownsInterrupts_of_complete hbuilt hcomplete, Interrupt.names_firstOfEach given,
    fun i => Interrupt.find?_of_mem_firstOfEach, Interrupt.perm_firstOfEach_append given,
    repetitions_parse h, fun e he => ⟨Interrupt.find?_of_mem_laterDefinitions he, ?_⟩⟩
  exact Interrupt.level_repetition e.1 e.2

open Element in
/-- An array of two peripherals with an interrupt, a peripheral that defines it otherwise, and one
that is derived from the last. -/
def interruptRoot : Element :=
  node "device" [leaf "name" "D", node "peripherals" [
    node "peripheral" [leaf "dim" "2", leaf "dimIncrement" "16", leaf "name" "P%s",
      leaf "baseAddress" "0", node "interrupt" [leaf "name" "I", leaf "value" "1"]],
    node "peripheral" [leaf "name" "Q", leaf "baseAddress" "64",
      node "interrupt" [leaf "name" "I", leaf "value" "2"],
      node "interrupt" [leaf "name" "J", leaf "value" "5"]],
    { node "peripheral" [leaf "name" "R", leaf "baseAddress" "128"] with
      attributes := [("derivedFrom", "Q")] }]]

/-- The lines of the document with these elements. -/
def interruptLines : List String := [
  "<device><name>D</name><peripherals>",
  "<peripheral><dim>2</dim><dimIncrement>16</dimIncrement><name>P%s</name>",
  "<baseAddress>0</baseAddress>",
  "<interrupt><name>I</name><value>1</value></interrupt></peripheral>",
  "<peripheral><name>Q</name><baseAddress>64</baseAddress>",
  "<interrupt><name>I</name><value>2</value></interrupt>",
  "<interrupt><name>J</name><value>5</value></interrupt></peripheral>",
  "<peripheral derivedFrom=\"Q\"><name>R</name><baseAddress>128</baseAddress></peripheral>",
  "</peripherals></device>"]

set_option maxRecDepth 10000 in
theorem read_interrupt : (Source.text (String.join interruptLines)).read = .ok interruptRoot := by
  have hlines : interruptLines = List.map String.ofList [_, _, _, _, _, _, _, _, _] := rfl
  change Markup.readText (String.join interruptLines) = .ok interruptRoot
  refine Markup.readText_join hlines ?_ ?_ ?_
  · decide +kernel
  · rfl
  · decide +kernel

/-- The two instances agree on the interrupt, and the other peripheral does not. The derived
peripheral has none. -/
theorem parse_collects_interrupts_conflicting :
    ∃ d, (parse (.text (String.join interruptLines)) {}).result = .ok d ∧
      d.peripherals.flatMap (·.interrupts) = [⟨"I", 1, none, "P0"⟩, ⟨"I", 1, none, "P1"⟩,
        ⟨"I", 2, none, "Q"⟩, ⟨"J", 5, none, "Q"⟩] ∧
      d.interrupts.map (·.name) = ["I", "J"] ∧
      (parse (.text (String.join interruptLines)) {}).repetitions =
        [.sharedInterrupt "I" "P0" "P1", .conflictingInterrupt "I" "Q" 2 "P0" 1] := by
  have hparsed : (parse (.text (String.join interruptLines)) {}).result.toOption.any fun d =>
      d.peripherals.flatMap (·.interrupts) = [⟨"I", 1, none, "P0"⟩, ⟨"I", 1, none, "P1"⟩,
        ⟨"I", 2, none, "Q"⟩, ⟨"J", 5, none, "Q"⟩] := by
    rw [result_parse read_interrupt rfl]
    decide +kernel
  obtain ⟨d, hd, h⟩ := exists_ok_of_any hparsed
  have hgiven := of_decide_eq_true h
  obtain ⟨-, hnames, -, -, hnoted, -⟩ := parse_collects_interrupts hd
  rw [hgiven] at hnames hnoted
  refine ⟨d, hd, hgiven, hnames.trans ?_, hnoted.trans ?_⟩
  · decide +kernel
  · decide +kernel

end RegisterMap
