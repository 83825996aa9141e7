import RegisterMap.Proofs.Document
import RegisterMap.Proofs.PeripheralDerivation
import RegisterMap.Proofs.Shape
import RegisterMap.Proofs.Stages

/-!
# The passes of a run

A run takes the draft of a document through a fixed sequence of passes, each of which may fail.
`Reaches` follows the draft through the passes that succeed. What holds of every draft at a stage is
shown by a lemma about the pass that leads there and what holds at the stage before it.
-/

namespace RegisterMap.Draft

/-- How far a run has taken the draft of a device. -/
inductive Stage where
  | built
  | derived
  | expanded
  | reduced
  | linked
  | placed
deriving DecidableEq, Repr

/-- In a run on the document with the given root element, the draft is `d` at a stage. -/
inductive Reaches (config : Config) (root : Element) : Stage → Device → Prop
  | build {d : Device} (pass : (buildDevice root).result = .ok d) : Reaches config root .built d
  | derive {d d' : Device} (before : Reaches config root .built d)
      (pass : d.resolveDerivations.result = .ok d') : Reaches config root .derived d'
  | expand {d d' : Device} (before : Reaches config root .derived d)
      (pass : d.expand.result = .ok d') : Reaches config root .expanded d'
  | exclude {d d' : Device} (before : Reaches config root .expanded d)
      (pass : (d.exclude config.excluded).result = .ok d') : Reaches config root .reduced d'
  | link {d d' : Device} (before : Reaches config root .reduced d)
      (pass : d.resolveAlternates.result = .ok d') : Reaches config root .linked d'
  | place {d d' : Device} (before : Reaches config root .linked d)
      (pass : (d.resolveAddresses config.tolerateOverlaps).result = .ok d') :
      Reaches config root .placed d'

variable {config : Config} {root : Element} {d : Device}

theorem Reaches.settled (h : Reaches config root .built d) : d.Settled := by
  cases h with
  | build built => exact settled_buildDevice root d built

/-- The draft that a run places, if it gets so far. -/
def linkedDraft (config : Config) (root : Element) : Except Error Device := do
  let built ← (buildDevice root).result
  let derived ← built.resolveDerivations.result
  let expanded ← derived.expand.result
  let reduced ← (expanded.exclude config.excluded).result
  reduced.resolveAlternates.result

theorem reaches_linked_iff : Reaches config root .linked d ↔ linkedDraft config root = .ok d := by
  simp only [linkedDraft, bind_eq_ok_iff]
  constructor
  · intro h
    cases h with
    | link before hlinked =>
      cases before with
      | exclude before hreduced =>
        cases before with
        | expand before hexpanded =>
          cases before with
          | derive before hderived =>
            cases before with
            | build hbuilt =>
              exact ⟨_, hbuilt, _, hderived, _, hexpanded, _, hreduced, hlinked⟩
  · rintro ⟨_, hbuilt, _, hderived, _, hexpanded, _, hreduced, hlinked⟩
    exact .link (.exclude (.expand (.derive (.build hbuilt) hderived) hexpanded) hreduced) hlinked

/-- Without bit-banding, a document is parsed by placing the draft that comes of its tree. -/
theorem result_parse_eq_linkedDraft {source : Source} (hroot : source.read = .ok root)
    (plain : config.enableBitBand = false) :
    (parse source config).result = (do
      let linked ← linkedDraft config root
      let placed ← (linked.resolveAddresses config.tolerateOverlaps).result
      (RegisterMap.Device.ofDraft placed).result) := by
  rw [result_parse hroot plain]
  unfold resolve linkedDraft
  simp only [Logged.result_bind, bind_assoc]

/-- An element that is left when peripherals are removed was there before. -/
theorem Device.mem_elements_without {names : List String} {m : Member}
    (hm : m ∈ (d.without names).elements) : m ∈ d.elements := by
  obtain ⟨p, hp, rfl⟩ := List.mem_map.1 hm
  exact List.mem_map_of_mem (List.mem_of_mem_filter hp)

end RegisterMap.Draft
