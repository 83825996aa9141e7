import RegisterMap.Proofs.AlternateTexts
import RegisterMap.Proofs.Alternates
import RegisterMap.Proofs.Names
import RegisterMap.Proofs.SiblingGroups
import RegisterMap.Proofs.Stages

/-!
# Trimmed references to alternates

An element is linked to the sibling whose name is the text of its reference, and no name begins or
ends with blank space. So no reference in a draft that can be linked does
(`Device.tightAlternate_of_resolveAlternates`), and neither does a template from which an array makes
such references.

If a draft makes a device, it makes the same one when its references are trimmed
(`complete_mapAlternates_trim`): arrays are expanded to the same elements, apart from peripherals
that are excluded. If it makes a device only when they are trimmed, one of them is reported as
missing (`complete_of_mapAlternates_trim`).
-/

namespace RegisterMap

/-! ### Templates -/

namespace Text

variable {token cs : List Char}

theorem fillPlaceholders_ne_nil (htoken : token ≠ []) (ne : cs ≠ []) :
    fillPlaceholders token cs ≠ [] := by
  unfold fillPlaceholders
  split
  · exact List.append_ne_nil_of_left_ne_nil htoken _
  · exact List.cons_ne_nil _ _
  · exact absurd rfl ne

/-- Blank space at the beginning of a template is kept. -/
theorem starts_of_fillPlaceholders (h : Starts (fillPlaceholders token cs)) (ne : cs ≠ []) :
    Starts cs := by
  unfold fillPlaceholders at h
  split at h
  · exact ⟨'%', rfl, by decide⟩
  · exact h
  · exact absurd rfl ne

/-- Blank space at the end of a template is kept. -/
theorem ends_of_fillPlaceholders (htoken : token ≠ []) (h : Ends (fillPlaceholders token cs))
    (ne : cs ≠ []) : Ends cs := by
  induction cs using fillPlaceholders.induct with
  | case1 cs ih =>
      by_cases hempty : cs = []
      · rw [hempty]
        exact ⟨'s', rfl, by decide⟩
      · rw [fillPlaceholders] at h
        have hrest := h.of_append token (fillPlaceholders_ne_nil htoken hempty)
        exact (ih hrest hempty).append ['%', 's']
  | case2 c cs other ih =>
      rw [fillPlaceholders.eq_2 _ _ _ other] at h
      by_cases hempty : cs = []
      · rw [hempty] at h ⊢
        exact h
      · have hrest := Ends.of_append [c] h (fillPlaceholders_ne_nil htoken hempty)
        exact (ih hrest hempty).append [c]
  | case3 => exact absurd rfl ne

/-- A template is tight if one of its instances is. -/
theorem tight_of_instanceName {template token : String}
    (h : Tight (instanceName template token).toList) (htoken : Tight token.toList) :
    Tight template.toList := by
  unfold instanceName at h
  dsimp only at h
  split at h
  · next hsuffix =>
    obtain ⟨front, hfront⟩ := List.isSuffixOf_iff_suffix.1 hsuffix
    have htake : template.toList.take (template.toList.length - 4) = front := by
      simp [← hfront, bracketedPlaceholder]
    rw [String.toList_ofList, htake] at h
    rw [← hfront]
    refine ⟨?_, Ends.append ⟨']', rfl, by decide⟩ front⟩
    cases front with
    | nil => exact ⟨'[', rfl, by decide⟩
    | cons c front => exact h.starts
  · have hne : template.toList ≠ [] := by
      intro hempty
      rw [hempty, fillPlaceholders] at h
      exact h.ne_nil rfl
    rw [String.toList_ofList] at h
    exact ⟨starts_of_fillPlaceholders h.starts hne,
      ends_of_fillPlaceholders htoken.ne_nil h.ends hne⟩

end Text

theorem exists_map_iff {ε α β : Type} {x : Except ε α} {f : α → β} :
    (∃ b, f <$> x = .ok b) ↔ ∃ a, x = .ok a := by
  simp only [map_eq_ok_iff, exists_comm (α := β), exists_and_left, exists_eq', and_true]

namespace Draft

/-! ### Tight references -/

/-- The text by which the element refers to an alternate is trimmed, if it refers to one. -/
def Header.TightAlternate (h : Header) : Prop :=
  ∀ text, h.alternate = some text → Text.Tight text.toList

/-- The text by which the member refers to an alternate is trimmed. -/
abbrev Member.TightAlternate (m : Member) : Prop :=
  m.header.TightAlternate

namespace Header

variable {h : Header}

theorem TightAlternate.mapAlternate_trim (tight : h.TightAlternate) :
    h.mapAlternate Text.trim = h := by
  have hsame : h.alternate.map Text.trim = h.alternate := by
    cases hgiven : h.alternate with
    | none => rfl
    | some text => rw [Option.map_some, (tight text hgiven).trim_eq]
  rw [mapAlternate, hsame]

theorem TightAlternate.of_instantiate {i : Instance} (tight : (h.instantiate i).TightAlternate)
    (htoken : Text.Tight i.token.toList) : h.TightAlternate := by
  intro text hgiven
  refine Text.tight_of_instanceName (tight _ ?_) htoken
  rw [instantiate, hgiven]
  rfl

end Header

/-! ### Expansion -/

namespace Member

variable {m : Member}

theorem dim_mapAlternates (f : String → String) (m : Member) :
    Dimensioned.dim (m.mapAlternates f) = Dimensioned.dim m := by
  cases m <;> rfl

theorem instances_mapAlternates (f : String → String) (m : Member) :
    instances (m.mapAlternates f) = instances m := by
  unfold instances
  rw [dim_mapAlternates]

theorem members_place (m : Member) (i : Option Instance) : (place m i).members = m.members := by
  cases i <;> cases m <;> rfl

/-- The reference of a member is trimmed if that of an instance is. -/
theorem tightAlternate_of_place {i : Option Instance} (hi : i ∈ instances m)
    (tight : (place m.expanded i).TightAlternate) : m.TightAlternate := by
  cases i with
  | none => cases m <;> exact tight
  | some i => cases m <;> exact tight.of_instantiate (tight_of_mem_instances hi)

mutual

/-- A member is expanded to the same if the references to alternates are trimmed before, as long as
its own and those that it is expanded to are trimmed anyway. -/
theorem expanded_mapAlternates_trim : ∀ m : Member, m.TightAlternate →
    EachAll TightAlternate m.expanded.members → (m.mapAlternates Text.trim).expanded = m.expanded
  | .register r, own, _ => by
      have hheader := Header.TightAlternate.mapAlternate_trim (h := r.toHeader) own
      rw [mapAlternates, Register.mapAlternate, hheader]
  | .cluster c ms, own, inside => by
      have hheader := Header.TightAlternate.mapAlternate_trim (h := c.toHeader) own
      rw [mapAlternates, Cluster.mapAlternate, hheader, expanded,
        expandedAll_mapAlternates_trim ms inside, expanded]

theorem expandedAll_mapAlternates_trim : ∀ ms : List Member,
    EachAll TightAlternate (expandedAll ms) →
      expandedAll (mapAlternatesAll Text.trim ms) = expandedAll ms
  | [], _ => rfl
  | m :: ms, tight => by
      rw [expandedAll, eachAll_iff, List.forall_mem_append, List.forall_mem_map] at tight
      rw [mapAlternatesAll, expandedAll, expandedAll, instances_mapAlternates,
        expandedAll_mapAlternates_trim ms (eachAll_iff.2 tight.2)]
      congr 1
      refine List.map_congr_left fun i hi => ?_
      obtain ⟨own, inside⟩ := each_iff.1 (tight.1 i hi)
      rw [members_place] at inside
      rw [expanded_mapAlternates_trim m (tightAlternate_of_place hi own) inside]

end

theorem copies_mapAlternates (f : String → String) (path : NodePath) (m : Member) :
    copies path (m.mapAlternates f) = copies path m := by
  cases m <;> rfl

theorem name_place_mapAlternates (f : String → String) (m : Member) (i : Option Instance) :
    (place (m.mapAlternates f) i).name = (place m i).name := by
  cases i <;> cases m <;> rfl

theorem copiesAll_mapAlternates (f : String → String) (path : NodePath) (taken : List String)
    (ms : List Member) :
    copiesAll path taken (mapAlternatesAll f ms) = copiesAll path taken ms := by
  induction ms generalizing taken with
  | nil => rfl
  | cons m ms ih =>
      have hname (i : Option Instance) : Dimensioned.name (place (m.mapAlternates f) i) =
          Dimensioned.name (place m i) := name_place_mapAlternates f m i
      simp only [mapAlternatesAll, copiesAll, copies_mapAlternates, hname, ih]

/-- Members can be expanded if and only if each instance of the first one can be, and the others
can. -/
theorem exists_expandInsideAll_cons_iff {path : NodePath} {iss : List (List (Option Instance))}
    {m : Member} {ms : List Member} : (∃ ms', expandInsideAll path iss (m :: ms) = .ok ms') ↔
      (∀ i ∈ iss.headD [], ∃ m', expandInside (path.child (place m i).name) m = .ok m') ∧
        ∃ rest, expandInsideAll path iss.tail ms = .ok rest := by
  constructor
  · rintro ⟨ms', h⟩
    obtain ⟨own, rest, hown, hrest, -⟩ := expandInsideAll_cons_eq_ok h
    refine ⟨fun i hi => ?_, rest, hrest⟩
    obtain ⟨_, -, inside, hinside, -⟩ := exists_mem_right hown hi
    exact ⟨inside, hinside⟩
  · rintro ⟨own, rest, hrest⟩
    unfold expandInsideAll
    rw [hrest, ok_bind]
    generalize iss.headD [] = is at own
    induction is with
    | nil => exact ⟨rest, rfl⟩
    | cons i is ih =>
        rw [List.forall_mem_cons] at own
        obtain ⟨⟨m', hm'⟩, hothers⟩ := own
        obtain ⟨done, hdone⟩ := ih hothers
        refine ⟨place m' i :: done, ?_⟩
        rw [List.foldrM_cons, hdone, ok_bind, hm']
        rfl

theorem exists_expandAll_iff {path : NodePath} {ms : List Member} :
    (∃ ms', expandAll path ms = .ok ms') ↔ ∃ iss, copiesAll path [] ms = .ok iss ∧
      ∃ ms', expandInsideAll path iss ms = .ok ms' := by
  unfold expandAll
  simp only [bind_eq_ok_iff]
  exact ⟨fun ⟨ms', iss, hiss, h⟩ => ⟨iss, hiss, ms', h⟩,
    fun ⟨iss, hiss, ms', h⟩ => ⟨ms', iss, hiss, h⟩⟩

mutual

/-- Whether a member can be expanded does not depend on the texts of its references. -/
theorem exists_expandInside_mapAlternates_iff (f : String → String) (path : NodePath) :
    ∀ m : Member, (∃ n, (m.mapAlternates f).expandInside path = .ok n) ↔
      ∃ n, m.expandInside path = .ok n
  | .register ⟨_, _, none⟩ => iff_of_true ⟨_, rfl⟩ ⟨_, rfl⟩
  | .register ⟨header, offset, some fs⟩ => by
      unfold expandInside mapAlternates
      simp only [Register.mapAlternate, bind_pure_comp, exists_map_iff]
  | .cluster c ms => by
      rw [mapAlternates, expandInside_cluster, expandInside_cluster, exists_map_iff,
        exists_map_iff, exists_expandAll_iff, exists_expandAll_iff, copiesAll_mapAlternates]
      exact exists_congr fun iss => and_congr_right fun _ =>
        exists_expandInsideAll_mapAlternates_iff f path iss ms

theorem exists_expandInsideAll_mapAlternates_iff (f : String → String) (path : NodePath)
    (iss : List (List (Option Instance))) : ∀ ms : List Member,
      (∃ ns, expandInsideAll path iss (mapAlternatesAll f ms) = .ok ns) ↔
        ∃ ns, expandInsideAll path iss ms = .ok ns
  | [] => Iff.rfl
  | m :: ms => by
      rw [mapAlternatesAll, exists_expandInsideAll_cons_iff, exists_expandInsideAll_cons_iff,
        exists_expandInsideAll_mapAlternates_iff f path iss.tail ms]
      refine and_congr_left fun _ => forall₂_congr fun i _ => ?_
      rw [name_place_mapAlternates]
      exact exists_expandInside_mapAlternates_iff f _ m

end

theorem exists_expandAll_mapAlternates_iff (f : String → String) (path : NodePath)
    (ms : List Member) : (∃ ns, expandAll path (mapAlternatesAll f ms) = .ok ns) ↔
      ∃ ns, expandAll path ms = .ok ns := by
  simp only [exists_expandAll_iff, copiesAll_mapAlternates,
    exists_expandInsideAll_mapAlternates_iff]

end Member

namespace Peripheral

variable {p : Peripheral}

theorem exists_expandInside_iff {path : NodePath} : (∃ q, p.expandInside path = .ok q) ↔
    ∀ ms ∈ p.members, ∃ ms', Member.expandAll path ms = .ok ms' := by
  unfold expandInside
  cases p.members with
  | none => exact iff_of_true ⟨p, rfl⟩ fun ms hms => by cases hms
  | some ms =>
      simp only [bind_pure_comp, exists_map_iff, Option.mem_some_iff, forall_eq']

theorem members_place (p : Peripheral) (i : Option Instance) : (place p i).members = p.members := by
  cases i <;> rfl

theorem name_place_mapAlternates (f : String → String) (p : Peripheral) (i : Option Instance) :
    (place (p.mapAlternates f) i).name = (place p i).name := by
  cases i <;> rfl

theorem isNamedIn_place_mapAlternates (f : String → String) (names : List String) (p : Peripheral)
    (i : Option Instance) :
    (place (p.mapAlternates f) i).isNamedIn names = (place p i).isNamedIn names := by
  cases i <;> rfl

theorem expanded_place (p : Peripheral) (i : Option Instance) :
    (place p i).expanded = place p.expanded i := by
  cases i <;> rfl

theorem expandable_iff {parent : NodePath} : p.Expandable parent ↔
    copies parent p = .ok (instances p) ∧ ∀ i ∈ instances p,
      ∃ q, (place p i).expandInside (parent.child (place p i).name) = .ok q := by
  have hexpanded (q : Peripheral) (path : NodePath) :
      q.expandInside path = .ok q.expanded ↔ ∃ q', q.expandInside path = .ok q' := by
    constructor
    · exact fun h => ⟨_, h⟩
    · rintro ⟨q', h⟩
      rw [h, expandInside_eq_ok h]
  constructor
  · intro h
    exact ⟨h.copies, fun i hi => (hexpanded _ _).1 (h.inside _ (List.mem_map_of_mem hi))⟩
  · rintro ⟨hcopies, hinside⟩
    refine ⟨hcopies, fun q hq => ?_⟩
    obtain ⟨i, hi, rfl⟩ := List.mem_map.1 hq
    exact (hexpanded _ _).2 (hinside i hi)

/-- Whether a peripheral can be expanded does not depend on the texts of its references. -/
theorem expandable_mapAlternates_iff (f : String → String) {parent : NodePath} :
    (p.mapAlternates f).Expandable parent ↔ p.Expandable parent := by
  rw [expandable_iff, expandable_iff]
  refine and_congr_right fun _ => forall₂_congr fun i _ => ?_
  rw [name_place_mapAlternates, exists_expandInside_iff, exists_expandInside_iff, members_place,
    members_place]
  simp [mapAlternates, Member.exists_expandAll_mapAlternates_iff]

/-- An instance of a peripheral is expanded to the same if the references to alternates are trimmed
before, as long as those that it is expanded to are trimmed anyway. -/
theorem expanded_place_mapAlternates_trim {i : Option Instance} (hi : i ∈ instances p)
    (tight : (place p i).expanded.asMember.Each Member.TightAlternate) :
    (place (p.mapAlternates Text.trim) i).expanded = (place p i).expanded := by
  obtain ⟨own, inside⟩ := Member.each_iff.1 tight
  rw [asMember_expanded, asMember_place, Member.expanded_place] at own
  have hheader := Header.TightAlternate.mapAlternate_trim (h := p.toHeader)
    (Member.tightAlternate_of_place (m := p.asMember) hi own)
  change Member.EachAll _ ((place p i).expanded.memberList) at inside
  have hmembers : (p.members.map (Member.mapAlternatesAll Text.trim)).map Member.expandedAll =
      p.members.map Member.expandedAll := by
    rw [memberList, expanded, members_place] at inside
    cases hms : p.members with
    | none => rfl
    | some ms =>
        rw [hms] at inside
        simp only [Option.map_some, Member.expandedAll_mapAlternates_trim ms inside]
  rw [expanded_place, expanded_place, mapAlternates, hheader, expanded, hmembers]
  rfl

end Peripheral

namespace Device

variable {d e e' : Device}

/-- Whether a device can be expanded does not depend on the texts of its references. -/
theorem exists_expand_mapAlternates_iff (f : String → String) :
    (∃ e, (d.mapAlternates f).expand.result = .ok e) ↔ ∃ e, d.expand.result = .ok e := by
  have hnames (p : Peripheral) : (p.mapAlternates f).expansion.map (·.name) =
      p.expansion.map (·.name) := by
    simp only [Peripheral.expansion, replacements, List.map_map]
    exact List.map_congr_left fun i _ => p.name_place_mapAlternates f i
  simp only [expand_eq_ok_iff, exists_and_left, exists_eq, and_true]
  simp only [mapAlternates, List.forall_mem_map, List.flatMap_map, List.map_flatMap, hnames,
    Peripheral.expandable_mapAlternates_iff]
  rfl

/-- A device is expanded to the same if the references to alternates are trimmed before, apart from
peripherals that are excluded, as long as those in the others are trimmed anyway. -/
theorem without_expand_mapAlternates_trim {excluded : List String} (h : d.expand.result = .ok e)
    (h' : (d.mapAlternates Text.trim).expand.result = .ok e')
    (tight : Member.EachAll Member.TightAlternate (e.without excluded).elements) :
    e'.without excluded = e.without excluded := by
  obtain ⟨-, -, rfl⟩ := expand_eq_ok_iff.1 h
  obtain ⟨-, -, rfl⟩ := expand_eq_ok_iff.1 h'
  have hkept : ∀ p ∈ d.peripherals,
      (p.mapAlternates Text.trim).expansion.filter (!·.isNamedIn excluded) =
        p.expansion.filter (!·.isNamedIn excluded) := by
    intro p hp
    have hfilter (i : Option Instance) :
        (!(place (p.mapAlternates Text.trim) i).expanded.isNamedIn excluded) =
          !(place p i).expanded.isNamedIn excluded :=
      congrArg not (p.isNamedIn_place_mapAlternates Text.trim excluded i)
    simp only [Peripheral.expansion, replacements, List.map_map, List.filter_map,
      Function.comp_def, hfilter]
    refine List.map_congr_left fun i hi => ?_
    obtain ⟨hi, hstays⟩ := List.mem_filter.1 hi
    have hmem : (place p i).expanded ∈ p.expansion :=
      List.mem_map_of_mem (List.mem_map_of_mem hi)
    have hq : (place p i).expanded ∈
        (d.peripherals.flatMap Peripheral.expansion).filter (!·.isNamedIn excluded) :=
      List.mem_filter.2 ⟨List.mem_flatMap.2 ⟨p, hp, hmem⟩, hstays⟩
    exact Peripheral.expanded_place_mapAlternates_trim hi
      (Member.eachAll_iff.1 tight _ (List.mem_map_of_mem hq))
  have hperipherals : ((d.mapAlternates Text.trim).peripherals.flatMap
      Peripheral.expansion).filter (!·.isNamedIn excluded) =
        (d.peripherals.flatMap Peripheral.expansion).filter (!·.isNamedIn excluded) := by
    rw [mapAlternates, List.flatMap_map, List.filter_flatMap, List.filter_flatMap]
    exact List.flatMap_congr hkept
  exact congrArg (fun ps => { d with peripherals := ps }) hperipherals

end Device

/-! ### Linking -/

/-- Siblings that can be linked refer to their alternates by trimmed texts, as their names are. -/
theorem tightAlternate_of_linkSiblings {path : NodePath} {siblings : List Sibling}
    {headers : List Header} (h : linkSiblings path siblings = .ok headers)
    (named : ∀ s ∈ siblings, IsName s.header.name) :
    ∀ s ∈ siblings, s.header.TightAlternate := by
  intro s hs text hgiven
  obtain ⟨pairs, hpairs, -⟩ := bind_eq_ok_iff.1 h
  obtain ⟨t, ht, rfl, -⟩ := alternatesExist_of_links hpairs s hs text hgiven
  exact (named t ht).tight

namespace Member

theorem eachAll_tightAlternate_of_linkSiblings {path : NodePath} {ms : List Member}
    {headers : List Header} (h : linkSiblings path (ms.map asSibling) = .ok headers)
    (named : EachAll WellNamed ms) (inside : ∀ m ∈ ms, EachAll TightAlternate m.members) :
    EachAll TightAlternate ms := by
  have own := tightAlternate_of_linkSiblings h
    (List.forall_mem_map.2 fun m hm => (EachAll.own named m hm).name)
  rw [List.forall_mem_map] at own
  exact eachAll_iff.2 fun m hm => each_iff.2 ⟨own m hm, inside m hm⟩

mutual

theorem tightAlternate_of_linkInside (path : NodePath) : ∀ (m : Member) {m' : Member},
    m.linkInside path = .ok m' → m.Each WellNamed → EachAll TightAlternate m.members
  | .register _, _, _, _ => trivial
  | .cluster c ms, m', h, named => by
      obtain ⟨headers, hheaders, h⟩ := bind_eq_ok_iff.1 h
      obtain ⟨inside, hinside, -⟩ := bind_eq_ok_iff.1 h
      exact eachAll_tightAlternate_of_linkSiblings hheaders named.2
        (tightAlternate_of_linkInsideAll path ms hinside named.2)

theorem tightAlternate_of_linkInsideAll (path : NodePath) :
    ∀ (ms : List Member) {ms' : List Member}, linkInsideAll path ms = .ok ms' →
      EachAll WellNamed ms → ∀ m ∈ ms, EachAll TightAlternate m.members
  | [], _, _, _ => List.forall_mem_nil _
  | m :: ms, ms', h, named => by
      obtain ⟨rest, hrest, h⟩ := bind_eq_ok_iff.1 h
      obtain ⟨first, hfirst, -⟩ := bind_eq_ok_iff.1 h
      exact List.forall_mem_cons.2 ⟨tightAlternate_of_linkInside _ m hfirst named.1,
        tightAlternate_of_linkInsideAll path ms hrest named.2⟩

end

end Member

theorem Peripheral.tightAlternate_of_linkInside {path : NodePath} {p p' : Peripheral}
    (h : p.linkInside path = .ok p') (named : Member.EachAll Member.WellNamed p.memberList) :
    Member.EachAll Member.TightAlternate p.memberList := by
  obtain ⟨headers, hheaders, hrest⟩ := bind_eq_ok_iff.1 (linkAll_memberList h)
  obtain ⟨inside, hinside, -⟩ := bind_eq_ok_iff.1 hrest
  exact Member.eachAll_tightAlternate_of_linkSiblings hheaders named
    (Member.tightAlternate_of_linkInsideAll path p.memberList hinside named)

/-- All references to alternates in a draft that can be linked are trimmed. -/
theorem Device.tightAlternate_of_resolveAlternates {d d' : Device}
    (h : d.resolveAlternates.result = .ok d') (named : d.WellNamed) :
    Member.EachAll Member.TightAlternate d.elements := by
  obtain ⟨headers, hheaders, h⟩ := Logged.bind_eq_ok_iff.1 h
  obtain ⟨ps, hps, -⟩ := Logged.bind_eq_ok_iff.1 h
  obtain ⟨inside, hinside, -⟩ := foldrM_cons_eq_ok_iff.1 hps
  have hnamed : ∀ p ∈ d.peripherals, p.asMember.Each Member.WellNamed :=
    List.forall_mem_map.1 (Member.eachAll_iff.1 named)
  have own := tightAlternate_of_linkSiblings hheaders
    (List.forall_mem_map.2 fun p hp => (hnamed p hp).1.name)
  rw [List.forall_mem_map] at own
  refine Member.eachAll_iff.2 (List.forall_mem_map.2 fun p hp => ⟨own p hp, ?_⟩)
  obtain ⟨q, -, hq⟩ := exists_mem_right hinside hp
  exact Peripheral.tightAlternate_of_linkInside hq (hnamed p hp).2

/-- A draft cannot be linked only because of a reference to an alternate. -/
theorem Device.missingReference_of_resolveAlternates {d : Device} {e : Error}
    (h : d.resolveAlternates.result = .error e) :
    ∃ path name kind, e = .missingReference path name (.alternate kind) := by
  obtain ⟨g, -, hrejects⟩ := d.failsWith_resolveAlternates e h
  obtain ⟨s, -, name, -, rfl⟩ := linkSiblings_eq_error hrejects
  exact ⟨_, name, s.kind, rfl⟩

end Draft

/-! ### Runs -/

section

variable {config : Config} {root : Element} {regions : List BitBand.ConfiguredRegion}
  {draft : Draft.Device} {d : Device}

/-- If what is left of an expanded draft can be linked, the same is left of it when the references
to alternates are trimmed before. -/
theorem without_expand_eq_of_linked (built : (Draft.buildDevice root).result = .ok draft)
    {derived expanded expanded' linked : Draft.Device}
    (hderived : draft.resolveDerivations.result = .ok derived)
    (hexpanded : derived.expand.result = .ok expanded)
    (hexpanded' : (derived.mapAlternates Text.trim).expand.result = .ok expanded')
    (hlinked : (expanded.without config.excluded).resolveAlternates.result = .ok linked) :
    expanded'.without config.excluded = expanded.without config.excluded := by
  have reached : Draft.Reaches config root .reduced (expanded.without config.excluded) :=
    .exclude (.expand (.derive (.build built) hderived) hexpanded)
      (Draft.Device.result_exclude expanded config.excluded)
  exact Draft.Device.without_expand_mapAlternates_trim hexpanded hexpanded'
    (Draft.Device.tightAlternate_of_resolveAlternates hlinked reached.wellNamed)

/-- A draft that makes a device makes the same one if its references to alternates are trimmed. -/
theorem complete_mapAlternates_trim (built : (Draft.buildDevice root).result = .ok draft)
    (h : complete config regions draft = .ok d) :
    complete config regions (draft.mapAlternates Text.trim) = .ok d := by
  obtain ⟨derived, hderived, h⟩ := bind_eq_ok_iff.1 h
  obtain ⟨expanded, hexpanded, h⟩ := bind_eq_ok_iff.1 h
  obtain ⟨linked, hlinked, -⟩ := bind_eq_ok_iff.1 h
  obtain ⟨expanded', hexpanded'⟩ :=
    (Draft.Device.exists_expand_mapAlternates_iff Text.trim).2 ⟨expanded, hexpanded⟩
  rw [← without_expand_eq_of_linked built hderived hexpanded hexpanded' hlinked] at h
  refine bind_eq_ok_iff.2 ⟨derived.mapAlternates Text.trim, ?_,
    bind_eq_ok_iff.2 ⟨expanded', hexpanded', h⟩⟩
  rw [draft.result_resolveDerivations_mapAlternates, hderived]
  rfl

/-- A draft that would make a device if its references to alternates were trimmed makes the same one
as it is, or one of these references is reported. -/
theorem complete_of_mapAlternates_trim (built : (Draft.buildDevice root).result = .ok draft)
    (h : complete config regions (draft.mapAlternates Text.trim) = .ok d) :
    complete config regions draft = .ok d ∨ ∃ path name kind,
      complete config regions draft = .error (.missingReference path name (.alternate kind)) := by
  obtain ⟨derived', hderived', h⟩ := bind_eq_ok_iff.1 h
  rw [draft.result_resolveDerivations_mapAlternates, map_eq_ok_iff] at hderived'
  obtain ⟨derived, hderived, rfl⟩ := hderived'
  obtain ⟨expanded', hexpanded', h⟩ := bind_eq_ok_iff.1 h
  obtain ⟨expanded, hexpanded⟩ :=
    (Draft.Device.exists_expand_mapAlternates_iff Text.trim).1 ⟨expanded', hexpanded'⟩
  have hcomplete : complete config regions draft =
      finish config.tolerateOverlaps regions (expanded.without config.excluded) := by
    rw [complete, hderived, ok_bind, hexpanded, ok_bind]
  rw [hcomplete]
  cases hlinked : (expanded.without config.excluded).resolveAlternates.result with
  | ok linked =>
      rw [without_expand_eq_of_linked built hderived hexpanded hexpanded' hlinked] at h
      exact .inl h
  | error e =>
      obtain ⟨path, name, kind, rfl⟩ :=
        Draft.Device.missingReference_of_resolveAlternates hlinked
      refine .inr ⟨path, name, kind, ?_⟩
      rw [finish, hlinked]
      rfl

end

end RegisterMap
