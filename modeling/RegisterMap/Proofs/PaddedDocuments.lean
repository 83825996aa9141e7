import RegisterMap.Proofs.Document
import RegisterMap.Proofs.Padding
import RegisterMap.Proofs.TrimmedAlternates

/-!
# Documents that differ by blank space around names and references

Blank space around names and around the references of derivations has no influence on the device
that a document gives, and neither has blank space around references to alternates if these are
trimmed in the end. But such a reference is compared with the names of siblings as it is written. So
blank space around it, unless it is in a peripheral that is excluded, makes it a reference to an
element that does not exist (`parse_ignores_padding`).
-/

namespace RegisterMap

variable {source source' : Source} {root root' : Element}

/-- If two root elements have the same tidied form and a draft is built from one of them, a draft is
built from the other one that differs at most by blank space around references to alternates. -/
theorem exists_built_of_tidied {alternates : Bool} {draft : Draft.Device}
    (same : root.tidied alternates = root'.tidied alternates)
    (built : (Draft.buildDevice root).result = .ok draft) :
    ∃ draft', (Draft.buildDevice root').result = .ok draft' ∧
      draft'.mapAlternates (Element.tidyText alternates) =
        draft.mapAlternates (Element.tidyText alternates) := by
  have hagrees := Draft.agrees_buildDevice alternates root
  rw [built, same] at hagrees
  have htidied := (hagrees _).2 rfl
  exact map_eq_ok_iff.1 ((Draft.agrees_buildDevice alternates root' _).1 htidied)

/-- A document gives the same device if blank space is added to names and to the references of
derivations, or taken away from them, and if the blank space around references to alternates is taken
away. If there is still such blank space, either it makes no difference or a reference to an
alternate is reported as missing. -/
theorem parse_ignores_padding (config : Config) (hroot : source.read = .ok root)
    (hroot' : source'.read = .ok root') {d : Device} (hd : (parse source config).result = .ok d) :
    (root.tidied false = root'.tidied false → (parse source' config).result = .ok d) ∧
    (root.tidied true = root'.tidied true →
      (root'.tidied true = root'.tidied false → (parse source' config).result = .ok d) ∧
      ((parse source' config).result = .ok d ∨ ∃ path name kind, (parse source' config).result =
        .error (.missingReference path name (.alternate kind)))) := by
  obtain ⟨regions, root₀, draft, hregions, hroot₀, built, hcomplete⟩ := parse_eq_ok_iff.1 hd
  obtain rfl := Except.ok.inj (hroot.symm.trans hroot₀)
  have hrun {draft' : Draft.Device} (built' : (Draft.buildDevice root').result = .ok draft') :
      (parse source' config).result = complete config regions draft' := by
    rw [parse_eq hregions hroot', built', ok_bind]
  refine ⟨fun same => ?_, fun same => ?_⟩
  · obtain ⟨draft', built', hsame⟩ := exists_built_of_tidied same built
    change draft'.mapAlternates id = draft.mapAlternates id at hsame
    rw [Draft.Device.mapAlternates_id, Draft.Device.mapAlternates_id] at hsame
    rw [hrun built', hsame, hcomplete]
  · obtain ⟨draft', built', hsame⟩ := exists_built_of_tidied same built
    change draft'.mapAlternates Text.trim = draft.mapAlternates Text.trim at hsame
    have htrimmed := complete_mapAlternates_trim built hcomplete
    rw [← hsame] at htrimmed
    rw [hrun built']
    refine ⟨fun plain => ?_, complete_of_mapAlternates_trim built' htrimmed⟩
    -- Without blank space around references to alternates, trimming them changes nothing.
    have hagrees := Draft.agrees_buildDevice true root'
    rw [plain, built'] at hagrees
    have hagrees' := Draft.agrees_buildDevice false root'
    rw [built'] at hagrees'
    have huntouched := (hagrees _).1 ((hagrees' (draft'.mapAlternates id)).2 rfl)
    have htrim := Except.ok.inj huntouched
    change draft'.mapAlternates Text.trim = draft'.mapAlternates id at htrim
    rw [htrim, Draft.Device.mapAlternates_id] at htrimmed
    exact htrimmed

/-! ### A document with two views of an address -/

/-- The lines of a document with a register and another view of it that is derived from it, with
given texts for the name and the references. -/
def twoNamesLines (name base alternate : String) : List String := [
  "<device><name>D</name><size>8</size><resetValue>0</resetValue><peripherals>",
  "<peripheral><name>P</name><baseAddress>0</baseAddress><registers>",
  "<register><name>", name, "</name><addressOffset>0</addressOffset></register>",
  "<register derivedFrom=\"", base, "\"><name>B</name>",
  "<alternateRegister>", alternate, "</alternateRegister></register>",
  "</registers></peripheral></peripherals></device>"]

open Element in
/-- The root element of the document. -/
def twoNamesRoot (name base alternate : String) : Element :=
  node "device" [leaf "name" "D", leaf "size" "8", leaf "resetValue" "0", node "peripherals" [
    node "peripheral" [leaf "name" "P", leaf "baseAddress" "0", node "registers" [
      node "register" [leaf "name" name, leaf "addressOffset" "0"],
      { node "register" [leaf "name" "B", leaf "alternateRegister" alternate] with
        attributes := [("derivedFrom", base)] }]]]]

theorem read_twoNames : (Source.text (String.join (twoNamesLines "A" "A" "A"))).read =
    .ok (twoNamesRoot "A" "A" "A") := by
  have hlines : twoNamesLines "A" "A" "A" =
      List.map String.ofList [_, _, _, _, _, _, _, _, _, _, _, _] := rfl
  change Markup.readText (String.join (twoNamesLines "A" "A" "A")) = _
  refine Markup.readText_join hlines ?_ ?_ ?_
  · decide +kernel
  · rfl
  · decide +kernel

theorem read_twoNames_padded : (Source.text (String.join (twoNamesLines "\tA " "A " "A"))).read =
    .ok (twoNamesRoot "\tA " "A " "A") := by
  have hlines : twoNamesLines "\tA " "A " "A" =
      List.map String.ofList [_, _, _, _, _, _, _, _, _, _, _, _] := rfl
  change Markup.readText (String.join (twoNamesLines "\tA " "A " "A")) = _
  refine Markup.readText_join hlines ?_ ?_ ?_
  · decide +kernel
  · rfl
  · decide +kernel

theorem read_twoNames_paddedAlternate :
    (Source.text (String.join (twoNamesLines "A" "A" "A "))).read =
      .ok (twoNamesRoot "A" "A" "A ") := by
  have hlines : twoNamesLines "A" "A" "A " =
      List.map String.ofList [_, _, _, _, _, _, _, _, _, _, _, _] := rfl
  change Markup.readText (String.join (twoNamesLines "A" "A" "A ")) = _
  refine Markup.readText_join hlines ?_ ?_ ?_
  · decide +kernel
  · rfl
  · decide +kernel

/-- The names and addresses of all registers, with the names of their alternates. -/
def Device.views (d : Device) : List (String × Int × List String) :=
  (d.peripherals.flatMap fun p => Member.registersAll p.members).map fun r =>
    (r.name, r.address, r.alternates.toList)

/-- The document describes a device with two registers at one address. -/
theorem parse_twoNames : ∃ d,
    (parse (.text (String.join (twoNamesLines "A" "A" "A"))) { tolerateOverlaps := true }).result =
      .ok d ∧ d.views = [("A", 0, ["B"]), ("B", 0, ["A"])] := by
  have hparsed : (Draft.buildDevice (twoNamesRoot "A" "A" "A") >>=
      resolve { tolerateOverlaps := true }).result.toOption.any
        fun d => d.views = [("A", 0, ["B"]), ("B", 0, ["A"])] := by
    decide +kernel
  obtain ⟨d, hd, h⟩ := exists_ok_of_any hparsed
  exact ⟨d, (result_parse read_twoNames rfl).trans hd, of_decide_eq_true h⟩

/-- Blank space around the name and around the reference of the derivation makes no difference. Where
there is some around the reference to an alternate, nothing else can be reported. -/
theorem parse_ignores_padding_twoNames : ∃ d,
    (parse (.text (String.join (twoNamesLines "\tA " "A " "A")))
      { tolerateOverlaps := true }).result = .ok d ∧
    d.views = [("A", 0, ["B"]), ("B", 0, ["A"])] ∧
    ((parse (.text (String.join (twoNamesLines "A" "A" "A ")))
        { tolerateOverlaps := true }).result = .ok d ∨
      ∃ path name kind, (parse (.text (String.join (twoNamesLines "A" "A" "A ")))
        { tolerateOverlaps := true }).result =
          .error (.missingReference path name (.alternate kind))) := by
  obtain ⟨d, hd, hviews⟩ := parse_twoNames
  have hnames : (twoNamesRoot "A" "A" "A").tidied false =
      (twoNamesRoot "\tA " "A " "A").tidied false := by
    decide +kernel
  have halternates : (twoNamesRoot "A" "A" "A").tidied true =
      (twoNamesRoot "A" "A" "A ").tidied true := by
    decide +kernel
  have hpadded := (parse_ignores_padding _ read_twoNames read_twoNames_padded hd).1 hnames
  have hreported := ((parse_ignores_padding _ read_twoNames read_twoNames_paddedAlternate hd).2
    halternates).2
  exact ⟨d, hpadded, hviews, hreported⟩

/-- The text of an alternate may not be padded. -/
theorem parse_refuses_padded_alternate :
    (∃ d, (parse (.text (String.join (twoNamesLines "A" "A" "A")))
      { tolerateOverlaps := true }).result = .ok d) ∧
    (twoNamesRoot "A" "A" "A").tidied true = (twoNamesRoot "A" "A" "A ").tidied true ∧
    (parse (.text (String.join (twoNamesLines "A" "A" "A ")))
        { tolerateOverlaps := true }).result.mapError Error.message? =
      .error (some "D/P/B: element 'A ' referenced in 'alternateRegister' was not found") := by
  obtain ⟨d, hd, -⟩ := parse_twoNames
  refine ⟨⟨d, hd⟩, by decide +kernel, ?_⟩
  rw [result_parse read_twoNames_paddedAlternate rfl]
  decide +kernel

end RegisterMap
