import RegisterMap.Parse

/-!
# What is noted on the way

Each pass of a run notes events of one topic. `Logged.Notes` says what holds of everything that a
computation notes, whether it succeeds or fails. Its rules follow the way in which the computation
is composed: only `Logged.note` and `Logged.noteAll` add events, and everything that is computed
without them is passed over.
-/

namespace RegisterMap

namespace Logged

variable {α β : Type}

/-- Every event that the computation notes has the property. -/
def Notes (P : Event → Prop) (x : Logged α) : Prop :=
  ∀ e ∈ x.events, P e

namespace Notes

variable {P Q : Event → Prop} {x : Logged α} {f : α → Logged β}

theorem of_pure {a : α} : Notes P (pure a : Logged α) :=
  List.forall_mem_nil _

theorem of_throw {e : Error} : Notes P (throw e : Logged α) :=
  List.forall_mem_nil _

theorem of_ofExcept {x : Except Error α} : Notes P (ofExcept x) :=
  List.forall_mem_nil _

theorem of_note {e : Event} (h : P e) : Notes P (note e) :=
  List.forall_mem_singleton.2 h

theorem of_noteAll {es : List Event} (h : ∀ e ∈ es, P e) : Notes P (noteAll es) :=
  h

theorem bind (first : Notes P x) (second : ∀ a, x.result = .ok a → Notes P (f a)) :
    Notes P (x >>= f) := by
  obtain ⟨events, result⟩ := x
  cases result with
  | error e => exact first
  | ok a => exact List.forall_mem_append.2 ⟨first, second a rfl⟩

theorem map {g : α → β} (h : Notes P x) : Notes P (g <$> x) :=
  bind h fun _ _ => of_pure

theorem ite {c : Prop} [Decidable c] {y : Logged α} (pos : Notes P x) (neg : Notes P y) :
    Notes P (if c then x else y) := by
  by_cases hc : c
  · rw [if_pos hc]
    exact pos
  · rw [if_neg hc]
    exact neg

/-- A check in front of a computation notes nothing. -/
theorem throw_or {c : Prop} [Decidable c] {e : Error} {g : α → Logged β} {y : Logged β}
    (h : Notes P y) : Notes P (if c then throw e >>= g else y) :=
  ite (bind of_throw nofun) h

theorem imp (h : Notes P x) (weaken : ∀ e, P e → Q e) : Notes Q x :=
  fun e he => weaken e (h e he)

end Notes

/-- Every event that the computation notes is of a topic. -/
abbrev NotesOn (topic : Topic) : Logged α → Prop :=
  Notes fun e => e.topic = topic

end Logged

open Logged

namespace Draft

/-! ### Building -/

theorem notes_buildEnums (path : NodePath) (built : List (String × Int)) (es : List Element) :
    NotesOn .building (buildEnums path built es) := by
  induction es generalizing built with
  | nil => exact .of_pure
  | cons e es ih =>
      unfold buildEnums
      split
      · exact .bind (.of_note rfl) fun _ _ => ih built
      · exact .of_throw
      · exact ih built
      · split
        · exact .of_throw
        · exact .ite .of_throw (.ite .of_throw (ih _))

theorem notes_buildField (parent : NodePath) (e : Element) :
    NotesOn .building (buildField parent e) := by
  refine .bind .of_ofExcept fun name _ => .bind .of_ofExcept fun path _ => .throw_or ?_
  refine .bind .of_ofExcept fun range _ => ?_
  cases e.child? "enumeratedValues" with
  | none =>
      exact .bind .of_pure fun _ _ => .bind .of_ofExcept fun _ _ => .bind .of_ofExcept fun _ _ =>
        .of_pure
  | some values =>
      exact .bind (notes_buildEnums _ _ _) fun _ _ => .bind .of_ofExcept fun _ _ =>
        .bind .of_ofExcept fun _ _ => .of_pure

theorem notes_buildFields (parent : NodePath) (built : List Field) (es : List Element) :
    NotesOn .building (buildFields parent built es) := by
  induction es generalizing built with
  | nil => exact .of_pure
  | cons e es ih => exact .bind (notes_buildField parent e) fun _ _ => .throw_or (ih _)

theorem notes_buildRegister (parent : NodePath) (e : Element) :
    NotesOn .building (buildRegister parent e) := by
  refine .bind .of_ofExcept fun name _ => .bind .of_ofExcept fun path _ => ?_
  refine .bind .of_ofExcept fun offset _ => .throw_or ?_
  cases e.child? "fields" with
  | none =>
      exact .bind .of_pure fun _ _ => .bind .of_ofExcept fun _ _ => .bind .of_ofExcept fun _ _ =>
        .of_pure
  | some fields =>
      exact .bind (.map (notes_buildFields path [] _)) fun _ _ => .bind .of_ofExcept fun _ _ =>
        .bind .of_ofExcept fun _ _ => .of_pure

mutual

theorem notes_buildMember (parent : NodePath) :
    ∀ e : Element, NotesOn .building (buildMember parent e)
  | ⟨tag, line, attributes, text, children⟩ => by
      unfold buildMember
      split
      · exact .bind (notes_buildRegister parent _) fun _ _ => .of_pure
      · exact .bind .of_ofExcept fun _ _ => .bind (notes_buildMembers _ [] children) fun _ _ =>
          .of_pure
      · exact .of_pure

theorem notes_buildMembers (parent : NodePath) (built : List Member) :
    ∀ es : List Element, NotesOn .building (buildMembers parent built es)
  | [] => .of_pure
  | e :: es => by
      unfold buildMembers
      refine .bind (notes_buildMember parent e) fun found _ => ?_
      cases found with
      | none => exact notes_buildMembers parent built es
      | some m => exact .throw_or (notes_buildMembers parent _ es)

end

theorem notes_buildPeripheral (parent : NodePath) (e : Element) :
    NotesOn .building (buildPeripheral parent e) := by
  refine .bind .of_ofExcept fun name _ => .bind .of_ofExcept fun path _ => ?_
  refine .bind .of_ofExcept fun base _ => .throw_or (.bind .of_ofExcept fun blocks _ => ?_)
  refine .bind .of_ofExcept fun interrupts _ => ?_
  cases e.child? "registers" with
  | none =>
      exact .bind .of_pure fun _ _ => .bind .of_ofExcept fun _ _ => .bind .of_ofExcept fun _ _ =>
        .of_pure
  | some registers =>
      exact .bind (.map (notes_buildMembers path [] _)) fun _ _ => .bind .of_ofExcept fun _ _ =>
        .bind .of_ofExcept fun _ _ => .of_pure

theorem notes_buildPeripherals (parent : NodePath) (built : List Peripheral) (es : List Element) :
    NotesOn .building (buildPeripherals parent built es) := by
  induction es generalizing built with
  | nil => exact .of_pure
  | cons e es ih => exact .bind (notes_buildPeripheral parent e) fun _ _ => .throw_or (ih _)

/-- Building a draft notes events about building only. -/
theorem notes_buildDevice (root : Element) : NotesOn .building (buildDevice root) := by
  refine .throw_or (.bind .of_ofExcept fun head _ => ?_)
  exact .bind (notes_buildPeripherals _ [] _) fun _ _ => .bind (.of_note rfl) fun _ _ => .of_pure

/-! ### The other passes -/

namespace Device

theorem notes_resolveDerivations (d : Device) : NotesOn .derivation d.resolveDerivations :=
  .bind .of_ofExcept fun _ _ => .bind .of_ofExcept fun _ _ => .bind (.of_note rfl) fun _ _ =>
    .of_pure

theorem notes_expand (d : Device) : NotesOn .arrays d.expand :=
  .bind .of_ofExcept fun _ _ => .bind .of_ofExcept fun _ _ => .bind (.of_note rfl) fun _ _ =>
    .of_pure

theorem notes_exclude (d : Device) (names : List String) : NotesOn .derivation (d.exclude names) :=
  .bind (.of_noteAll (List.forall_mem_map.2 fun _ _ => rfl)) fun _ _ => .of_pure

theorem notes_resolveAlternates (d : Device) : NotesOn .alternates d.resolveAlternates :=
  .bind .of_ofExcept fun _ _ => .bind .of_ofExcept fun _ _ => .bind (.of_note rfl) fun _ _ =>
    .of_pure

end Device

theorem notes_checkGroups {P : Event → Prop} {tolerant : Bool}
    (overlap : tolerant = true → ∀ o, P (.overlap o)) (groups : List (List Extent)) :
    Notes P (checkGroups tolerant groups) := by
  induction groups with
  | nil => exact .of_pure
  | cons extents groups ih =>
      refine .bind ?_ fun _ _ => ih
      unfold checkExtents
      refine .ite .of_throw ?_
      dsimp only
      split
      · next tolerates => exact .of_noteAll (List.forall_mem_map.2 fun o _ => overlap tolerates o)
      · split
        · exact .of_pure
        · exact .of_throw

/-- Placing elements notes overlaps, if these are tolerated, and the number of elements. -/
theorem Device.notes_resolveAddresses {P : Event → Prop} {tolerant : Bool}
    (overlap : tolerant = true → ∀ o, P (.overlap o)) (placed : ∀ n, P (.placed n)) (d : Device) :
    Notes P (d.resolveAddresses tolerant) :=
  .bind .of_ofExcept fun _ _ => .bind .of_ofExcept fun _ _ => .bind .of_ofExcept fun _ _ =>
    .bind (notes_checkGroups overlap _) fun _ _ => .bind (.of_note (placed _)) fun _ _ => .of_pure

end Draft

/-! ### Publication -/

/-- The event is about an interrupt that is defined more than once. -/
inductive Event.RepeatsInterrupt : Event → Prop
  | shared (name first second : String) : RepeatsInterrupt (.sharedInterrupt name first second)
  | conflicting (name peripheral : String) (value : Int) (first : String) (firstValue : Int) :
      RepeatsInterrupt (.conflictingInterrupt name peripheral value first firstValue)

theorem Interrupt.repeats_repetition (first later : Interrupt) :
    (first.repetition later).RepeatsInterrupt := by
  unfold Interrupt.repetition
  split
  · exact .shared _ _ _
  · exact .conflicting _ _ _ _ _

theorem notes_collectInterrupts (known is : List Interrupt) :
    Notes Event.RepeatsInterrupt (collectInterrupts known is) := by
  induction is generalizing known with
  | nil => exact .of_pure
  | cons i is ih =>
      unfold collectInterrupts
      split
      · exact ih _
      · exact .bind (.of_note (Interrupt.repeats_repetition _ _)) fun _ _ => ih known

/-- Making a device notes only interrupts that are defined more than once. -/
theorem Device.notes_ofDraft (draft : Draft.Device) :
    Notes Event.RepeatsInterrupt (Device.ofDraft draft) :=
  .bind .of_ofExcept fun _ _ => .bind (notes_collectInterrupts _ _) fun _ _ => .of_pure

theorem Device.notes_withAliases (regions : List BitBand.ConfiguredRegion) (d : Device) :
    NotesOn .bitBand (d.withAliases regions) :=
  .bind .of_ofExcept fun _ _ => .bind (.of_noteAll (List.forall_mem_map.2 fun _ _ => rfl))
    fun _ _ => .bind (.of_note rfl) fun _ _ => .of_pure

end RegisterMap
