import RegisterMap.Proofs.Building
import RegisterMap.Proofs.Itemwise
import RegisterMap.Proofs.Lines

/-!
# The order of peripherals

Documents that differ in the order of their peripherals describe the same device, apart from that
order (`parse_reorders`): every stage of a run, from the elements of the document on, treats each
peripheral for itself.
-/

namespace RegisterMap

/-! ### Documents -/

namespace Element

/-- The second root element is the first one with the elements inside of its element for peripherals
in another order. -/
inductive Reorders : Element → Element → Prop
  | intro (root : Element) {ps : Element} {before after es : List Element}
      (first : ∀ e ∈ before, e.tag ≠ "peripherals") (tag : ps.tag = "peripherals")
      (perm : es.Perm ps.children) :
      Reorders { root with children := before ++ ps :: after }
        { root with children := before ++ { ps with children := es } :: after }

namespace Reorders

variable {root root' : Element}

theorem symm (h : Reorders root root') : Reorders root' root := by
  obtain ⟨root, first, tag, perm⟩ := h
  next ps before after es =>
  cases ps
  exact .intro root first tag perm.symm

theorem tag_eq (h : Reorders root root') : root'.tag = root.tag := by
  cases h
  rfl

theorem child?_eq (h : Reorders root root') {tag : String} (other : tag ≠ "peripherals") :
    root'.child? tag = root.child? tag := by
  obtain ⟨root, -, hps, -⟩ := h
  next ps before after es =>
  have hother : (ps.tag == tag) = false := by
    rw [hps]
    exact beq_false_of_ne other.symm
  simp only [child?, List.find?_append, List.find?_cons, hother]

theorem peripherals_perm (h : Reorders root root') :
    root'.peripherals.Perm root.peripherals := by
  obtain ⟨root, first, tag, perm⟩ := h
  next ps before after es =>
  have hbefore : before.find? (·.tag == "peripherals") = none := by
    simpa using first
  simp only [peripherals, child?, List.find?_append, hbefore, Option.none_or, List.find?_cons, tag,
    beq_self_eq_true, Option.map_some, Option.getD_some]
  exact perm.filter _

end Reorders

theorem peripherals_unnumbered (root : Element) :
    root.unnumbered.peripherals = root.peripherals.map unnumbered := by
  unfold peripherals
  rw [child?_unnumbered]
  cases root.child? "peripherals" with
  | none => rfl
  | some ps => exact childrenTagged_unnumbered ps _

end Element

namespace Draft

theorem buildDeviceHead_eq_of_reorders {root root' : Element} (h : root.Reorders root') :
    buildDeviceHead root' = buildDeviceHead root := by
  have string (tag : String) (other : tag ≠ "peripherals") :
      root'.string? tag = root.string? tag := by
    rw [Element.string?, h.child?_eq other, Element.string?]
  have number (tag : String) (other : tag ≠ "peripherals") :
      root'.number? tag = root.number? tag := by
    rw [Element.number?, h.child?_eq other, Element.number?]
  have word {α : Type} [Vocabulary α] (tag : String) (other : tag ≠ "peripherals") :
      root'.word? (α := α) tag = root.word? tag := by
    rw [Element.word?, h.child?_eq other, Element.word?]
  simp (disch := decide) only [buildDeviceHead, description, Element.properties, string, number,
    word]

/-! ### Building -/

theorem buildOn_unnumbered (head : Device) (es : List Element) :
    buildOn head (es.map Element.unnumbered) = buildOn head es := by
  have hall (built : List Peripheral) :
      buildPeripherals head.path built (es.map Element.unnumbered) =
        buildPeripherals head.path built es := by
    induction es generalizing built with
    | nil => rfl
    | cons e es ih => simp only [List.map_cons, buildPeripherals, buildPeripheral_unnumbered, ih]
  rw [buildOn, hall, buildOn]

theorem exists_itemwise_buildOn {head : Device} {es : List Element} {d : Device}
    (h : buildOn head es = .ok d) :
    ∃ block, Itemwise (buildOn head) id head.withPeripherals es block ∧
      ∀ e ∈ es, ∀ p ∈ block e, (e.string? "name").map Text.trim = some p.name := by
  obtain ⟨ps, hps, h⟩ := bind_eq_ok_iff.1 h
  cases h
  obtain ⟨own, hown, names, -⟩ := buildPeripherals_eq_ok_iff.1 hps
  let R (e : Element) (p : Peripheral) : Prop :=
    ∃ q, (buildPeripheral head.path e).result = .ok q ∧ p = q.withDefaults head.props
  have unique : Relator.RightUnique R := by
    rintro e p p' ⟨q, hq, rfl⟩ ⟨q', hq', rfl⟩
    rw [hq] at hq'
    cases hq'
    rfl
  have hstep : ∀ es' : List Element, es'.Perm es → ∃ ps, List.Forall₂ R es' ps ∧
      buildOn head es' = .ok (head.withPeripherals ps) := by
    intro es' hperm
    obtain ⟨own', hown', hpermOwn⟩ := List.perm_comp_forall₂ hperm hown
    have hbuilt : (buildPeripherals head.path [] es').result = .ok own' :=
      buildPeripherals_eq_ok_iff.2 ⟨own', hown', (hpermOwn.map _).nodup_iff.2 names,
        fun _ _ => List.not_mem_nil, rfl⟩
    refine ⟨own'.map (Peripheral.withDefaults head.props), ?_, ?_⟩
    · rw [List.forall₂_map_right_iff]
      exact hown'.imp fun e p hp => ⟨p, hp, rfl⟩
    · rw [buildOn, hbuilt]
      rfl
  obtain ⟨block, hblock, hR⟩ := exists_itemwise unique hstep
  refine ⟨block, hblock, fun e he p hp => ?_⟩
  obtain ⟨q, hq, rfl⟩ := hR e he p hp
  exact (given_buildPeripheral head.path e q hq).1

end Draft

/-! ### Runs -/

/-- The devices agree in everything but the order of their peripherals, and perhaps the interrupts
that are collected in that order. Each of them has its peripherals in the order of the elements that
declare them. -/
structure Device.SameUpToOrder (es es' : List Element) (d d' : Device) : Prop where
  attributes : d' = { d with peripherals := d'.peripherals, interrupts := d'.interrupts }
  names : (d.peripherals.map (·.name)).Nodup
  perm : d'.peripherals.Perm d.peripherals
  blocks : ∃ block : Element → List Peripheral,
    (∀ e ∈ es, ∀ p ∈ block e, ∃ name, e.string? "name" = some name ∧
      p.StandsFor (Text.trim name)) ∧
    d.peripherals = es.flatMap block ∧ d'.peripherals = es'.flatMap block

variable {source source' : Source} {config : Config} {root root' : Element}

theorem exists_parse_of_reorders {d : Device} (hroot : source.read = .ok root)
    (hroot' : source'.read = .ok root') (h : root.unnumbered.Reorders root'.unnumbered)
    (hd : (parse source config).result = .ok d) :
    ∃ d', (parse source' config).result = .ok d' ∧
      Device.SameUpToOrder root.unnumbered.peripherals root'.unnumbered.peripherals d d' := by
  obtain ⟨regions, _, draft, hregions, hread, hdraft, hcomplete⟩ := parse_eq_ok_iff.1 hd
  obtain rfl : root = _ := Except.ok.inj (hroot.symm.trans hread)
  have settled := Draft.settled_buildDevice root draft hdraft
  have unlinked := Draft.unlinked_buildDevice root draft hdraft
  -- The attributes of the device are read from what the documents have in common.
  obtain ⟨htag, head, hhead⟩ := Draft.exists_head_of_buildDevice hdraft
  have htag' : root'.tag = "device" := by
    rw [← Element.tag_unnumbered, h.tag_eq, Element.tag_unnumbered, htag]
  have hhead' : Draft.buildDeviceHead root' = .ok head := by
    rw [← Draft.buildDeviceHead_unnumbered, Draft.buildDeviceHead_eq_of_reorders h,
      Draft.buildDeviceHead_unnumbered, hhead]
  have hbuilt (root : Element) (htag : root.tag = "device")
      (hhead : Draft.buildDeviceHead root = .ok head) :
      (Draft.buildDevice root).result = Draft.buildOn head root.unnumbered.peripherals := by
    rw [Element.peripherals_unnumbered, Draft.buildOn_unnumbered]
    exact Draft.result_buildDevice htag hhead
  rw [hbuilt root htag hhead] at hdraft
  obtain ⟨build, hbuild, namesBuild⟩ := Draft.exists_itemwise_buildOn hdraft
  obtain rfl := hbuild.eq_after hdraft
  obtain ⟨make, hmake, namesMake⟩ := exists_itemwise_complete settled unlinked hcomplete
  let block (e : Element) : List Peripheral := (build e).flatMap make
  have hrun : Itemwise (fun es => Draft.buildOn head es >>= complete config regions) id
      (Device.assemble head) root.unnumbered.peripherals block := hbuild.bind hmake
  obtain rfl := hrun.eq_after (bind_eq_ok_iff.2 ⟨_, hdraft, hcomplete⟩)
  refine ⟨Device.assemble head (root'.unnumbered.peripherals.flatMap block), ?_, ?_⟩
  · rw [parse_eq hregions hroot', hbuilt root' htag' hhead']
    exact hrun _ h.peripherals_perm
  · refine ⟨rfl, nodup_names_of_complete hcomplete, h.peripherals_perm.flatMap_right block, block,
      fun e he p hp => ?_, rfl, rfl⟩
    obtain ⟨dp, hdp, hp⟩ := List.mem_flatMap.1 hp
    obtain ⟨name, hname, heq⟩ := Option.map_eq_some_iff.1 (namesBuild e he dp hdp)
    refine ⟨name, hname, ?_⟩
    rw [heq]
    exact namesMake dp (List.mem_flatMap_of_mem he hdp) p hp

/-- Whether a document can be parsed does not depend on the order of its peripherals, and neither
does the device, apart from that order. -/
theorem parse_reorders (config : Config) (hroot : source.read = .ok root)
    (hroot' : source'.read = .ok root') (h : root.unnumbered.Reorders root'.unnumbered) :
    ((∃ d, (parse source config).result = .ok d) ↔
        ∃ d', (parse source' config).result = .ok d') ∧
      ∀ d d', (parse source config).result = .ok d → (parse source' config).result = .ok d' →
        Device.SameUpToOrder root.unnumbered.peripherals root'.unnumbered.peripherals d d' := by
  refine ⟨⟨?_, ?_⟩, fun d d' hd hd' => ?_⟩
  · rintro ⟨d, hd⟩
    obtain ⟨d', hd', -⟩ := exists_parse_of_reorders hroot hroot' h hd
    exact ⟨d', hd'⟩
  · rintro ⟨d', hd'⟩
    obtain ⟨d, hd, -⟩ := exists_parse_of_reorders hroot' hroot h.symm hd'
    exact ⟨d, hd⟩
  · obtain ⟨d'', hd'', same⟩ := exists_parse_of_reorders hroot hroot' h hd
    rw [hd'] at hd''
    cases hd''
    exact same

/-! ### A document in two orders -/

/-- The lines of a document in which a peripheral stands before the one from which it is derived. -/
def derivedFirstLines : List String := [
  "<device><name>D</name><peripherals>",
  "<peripheral derivedFrom=\"Q\"><name>P</name><baseAddress>1</baseAddress></peripheral>\n",
  "<peripheral><name>Q</name><baseAddress>0</baseAddress></peripheral>\n",
  "</peripherals></device>"]

/-- The lines of the same document with the peripherals in the other order. -/
def derivedLastLines : List String := [
  "<device><name>D</name><peripherals>",
  "<peripheral><name>Q</name><baseAddress>0</baseAddress></peripheral>\n",
  "<peripheral derivedFrom=\"Q\"><name>P</name><baseAddress>1</baseAddress></peripheral>\n",
  "</peripherals></device>"]

/-- The element of the derived peripheral, on a line. -/
def derivedOn (line : Nat) : Element :=
  ⟨"peripheral", line, [("derivedFrom", "Q")], none,
    [⟨"name", line, [], some "P", []⟩, ⟨"baseAddress", line, [], some "1", []⟩]⟩

/-- The element of the peripheral from which it is derived, on a line. -/
def baseOn (line : Nat) : Element :=
  ⟨"peripheral", line, [], none,
    [⟨"name", line, [], some "Q", []⟩, ⟨"baseAddress", line, [], some "0", []⟩]⟩

open Element in
/-- The root element of a document with some peripherals. -/
def rootOf (es : List Element) : Element :=
  node "device" [leaf "name" "D", node "peripherals" es]

theorem read_derivedFirst : (Source.text (String.join derivedFirstLines)).read =
    .ok (rootOf [derivedOn 1, baseOn 2]) := by
  have hlines : derivedFirstLines = List.map String.ofList [_, _, _, _] := rfl
  change Markup.readText (String.join derivedFirstLines) = _
  refine Markup.readText_join hlines ?_ ?_ ?_
  · decide +kernel
  · rfl
  · decide +kernel

theorem read_derivedLast : (Source.text (String.join derivedLastLines)).read =
    .ok (rootOf [baseOn 1, derivedOn 2]) := by
  have hlines : derivedLastLines = List.map String.ofList [_, _, _, _] := rfl
  change Markup.readText (String.join derivedLastLines) = _
  refine Markup.readText_join hlines ?_ ?_ ?_
  · decide +kernel
  · rfl
  · decide +kernel

theorem rootOf_reorders {es es' : List Element}
    (h : (es'.map Element.unnumbered).Perm (es.map Element.unnumbered)) :
    (rootOf es).unnumbered.Reorders (rootOf es').unnumbered := by
  have hunnumbered (es : List Element) : (rootOf es).unnumbered =
      ⟨"device", 0, [], none, [⟨"name", 0, [], some "D", []⟩] ++
        ⟨"peripherals", 0, [], none, es.map Element.unnumbered⟩ :: []⟩ := by
    rw [← Element.unnumberedAll_eq_map]
    rfl
  have hfirst : ∀ e ∈ [(⟨"name", 0, [], some "D", []⟩ : Element)], e.tag ≠ "peripherals" := by
    simp
  rw [hunnumbered, hunnumbered]
  exact .intro ⟨"device", 0, [], none, []⟩ hfirst rfl h

/-- The derived peripheral is the same before and after the one from which it is derived, although
the elements stand on other lines. -/
theorem parse_reorders_derived :
    ∃ d d', (parse (.text (String.join derivedFirstLines)) {}).result = .ok d ∧
      (parse (.text (String.join derivedLastLines)) {}).result = .ok d' ∧
      d.peripherals.map (·.name) = ["P", "Q"] ∧
      Device.SameUpToOrder [derivedOn 0, baseOn 0] [baseOn 0, derivedOn 0] d d' := by
  have hfirst : ∃ d, (parse (.text (String.join derivedFirstLines)) {}).result = .ok d ∧
      d.peripherals.map (·.name) == ["P", "Q"] := by
    rw [result_parse read_derivedFirst rfl]
    apply exists_ok_of_any
    decide +kernel
  obtain ⟨d, hd, hnames⟩ := hfirst
  obtain ⟨hiff, hsame⟩ := parse_reorders {} read_derivedFirst read_derivedLast
    (rootOf_reorders (.swap (derivedOn 0) (baseOn 0) []))
  obtain ⟨d', hd'⟩ := hiff.1 ⟨d, hd⟩
  exact ⟨d, d', hd, hd', eq_of_beq hnames, hsame d d' hd hd'⟩

end RegisterMap
