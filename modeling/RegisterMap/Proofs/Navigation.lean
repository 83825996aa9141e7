import RegisterMap.Proofs.Elements
import RegisterMap.Proofs.Lookup

/-!
# Finding elements by path

`Node.Leads` says which names lead from an element down to another one, each being the name of an
element inside of the one before. As siblings have distinct names, this is what following the names
gives (`Node.Orderly.follow?_eq_some_iff`). As long as no name contains a separator, the names on
the way to an element are the rest of its path, so finding an element inverts taking its path
(`find_inverts_paths`). As long as no name contains a dot either, a dotted reference is read back
into the names that it is made of.
-/

namespace RegisterMap

namespace Node

/-- The names lead from an element down to another one. -/
inductive Leads : Node → List String → Node → Prop
  | here {n : Node} : Leads n [] n
  | inside {n c e : Node} {names : List String} (mem : c ∈ n.inside) (rest : Leads c names e) :
      Leads n (c.name :: names) e

variable {n c e : Node} {name : String} {names : List String}

theorem get?_children?_eq_some_iff (distinct : (n.inside.map Node.name).Nodup) :
    n.children?.bind (·.get? name) = some c ↔ c ∈ n.inside ∧ c.name = name := by
  cases hchildren : n.children? with
  | none =>
      have hempty : n.inside = [] := by rw [inside, hchildren]; rfl
      rw [hempty]
      simp
  | some m =>
      rw [Option.bind_some, NameMap.get?, entries_of_children? hchildren]
      constructor
      · intro h
        obtain ⟨before, after, hsplit, -⟩ := List.lookup_eq_some_iff.1 h
        have hmem : (name, c) ∈ n.inside.map fun c => (c.name, c) := by
          rw [hsplit]
          exact List.mem_append_right before List.mem_cons_self
        obtain ⟨b, hb, heq⟩ := List.mem_map.1 hmem
        cases heq
        exact ⟨hb, rfl⟩
      · rintro ⟨hc, rfl⟩
        exact lookup_map_of_nodup distinct hc

/-- Following names leads to the element to which they lead. -/
theorem Orderly.follow?_eq_some_iff (h : n.Orderly) :
    n.follow? names = some e ↔ n.Leads names e := by
  induction names generalizing n with
  | nil =>
      rw [follow?, Option.some.injEq]
      constructor
      · rintro rfl
        exact .here
      · rintro ⟨⟩
        rfl
  | cons name names ih =>
      rw [follow?]
      constructor
      · intro hfollow
        split at hfollow
        · next c hc =>
          obtain ⟨hinside, rfl⟩ := (get?_children?_eq_some_iff h.names).1 hc
          exact .inside hinside ((ih (h.of_mem_inside hinside)).1 hfollow)
        · cases hfollow
      · intro leads
        cases leads with
        | inside hc rest =>
            rw [(get?_children?_eq_some_iff h.names).2 ⟨hc, rfl⟩]
            exact (ih (h.of_mem_inside hc)).2 rest

/-- What is below an element are the elements to which at least one name leads. -/
theorem mem_below_iff_leads : e ∈ n.below ↔ ∃ names, names ≠ [] ∧ n.Leads names e := by
  have step : Hereditary fun n => e ∈ n.below ↔ ∃ names, names ≠ [] ∧ n.Leads names e := by
    intro n ih
    rw [mem_below_iff]
    constructor
    · rintro ⟨c, hc, rfl | he⟩
      · exact ⟨_, List.cons_ne_nil _ _, .inside hc .here⟩
      · obtain ⟨names, -, leads⟩ := (ih c hc).1 he
        exact ⟨_, List.cons_ne_nil _ _, .inside hc leads⟩
    · rintro ⟨_, hne, leads⟩
      cases leads with
      | here => exact absurd rfl hne
      | @inside _ c _ names hc rest =>
          refine ⟨c, hc, ?_⟩
          cases names with
          | nil => cases rest; exact .inl rfl
          | cons name names => exact .inr ((ih c hc).2 ⟨_, List.cons_ne_nil _ _, rest⟩)
  exact step.all n

/-- Without separators in names, the names that lead to an element continue the path. -/
theorem Leads.path_eq (leads : n.Leads names e) (h : n.Orderly)
    (plain : ∀ c ∈ n.below, NodePath.separator ∉ c.name.toList) :
    e.path.parts = n.path.parts ++ names := by
  induction leads with
  | here => rw [List.append_nil]
  | @inside n c e names hc rest ih =>
      have hbelow : c ∈ n.below := mem_below_iff.2 ⟨c, hc, .inl rfl⟩
      have hinside (b : Node) (hb : b ∈ c.below) : b ∈ n.below :=
        mem_below_iff.2 ⟨c, hc, .inr hb⟩
      rw [ih (h.of_mem_inside hc) fun b hb => plain b (hinside b hb), (h.inside c hc).path_eq,
        NodePath.parts_child, NodePath.split_eq_singleton (plain c hbelow), List.append_assoc,
        List.singleton_append]

/-- The names on the way to an element are the names of elements. -/
theorem Leads.exists_name (leads : n.Leads names e) :
    ∀ name ∈ names, ∃ c ∈ n.below, c.name = name := by
  induction leads with
  | here => exact List.forall_mem_nil _
  | @inside n c e names hc rest ih =>
      refine List.forall_mem_cons.2 ⟨⟨c, mem_below_iff.2 ⟨c, hc, .inl rfl⟩, rfl⟩, ?_⟩
      intro name hname
      obtain ⟨b, hb, heq⟩ := ih name hname
      exact ⟨b, mem_below_iff.2 ⟨c, hc, .inr hb⟩, heq⟩

/-- Everything below an element is directly inside of it or of something below it. -/
theorem exists_around (h : e ∈ n.below) : ∃ a, (a = n ∨ a ∈ n.below) ∧ e ∈ a.inside := by
  have step : Hereditary fun n => e ∈ n.below → ∃ a, (a = n ∨ a ∈ n.below) ∧ e ∈ a.inside := by
    intro n ih h
    obtain ⟨c, hc, rfl | h⟩ := mem_below_iff.1 h
    · exact ⟨n, .inl rfl, hc⟩
    · obtain ⟨a, ha, he⟩ := ih c hc h
      exact ⟨a, .inr (mem_below_iff.2 ⟨c, hc, ha⟩), he⟩
  exact step.all n h

theorem Orderly.isName (h : n.Orderly) (hc : c ∈ n.below) : IsName c.name := by
  obtain ⟨a, ha, hc⟩ := exists_around hc
  have orderly : a.Orderly := by
    rcases ha with rfl | ha
    · exact h
    · exact h.below a ha
  exact (orderly.inside c hc).isName

/-- Everything inside of an element has a path of its own. -/
theorem path?_of_mem_below (h : c ∈ n.below) : c.path? = some c.path := by
  have member (m : Member) : m.node.path? = some m.node.path := by cases m <;> rfl
  obtain ⟨a, -, hc⟩ := exists_around h
  cases a with
  | device d =>
      obtain ⟨p, -, rfl⟩ := List.mem_map.1 (inside_device d ▸ hc)
      rfl
  | peripheral p =>
      obtain ⟨m, -, rfl⟩ := List.mem_map.1 (inside_peripheral p ▸ hc)
      exact member m
  | cluster c ms =>
      obtain ⟨m, -, rfl⟩ := List.mem_map.1 (inside_cluster c ms ▸ hc)
      exact member m
  | register r =>
      obtain ⟨f, -, rfl⟩ := List.mem_map.1 (inside_register r ▸ hc)
      rfl
  | field f => cases hc

end Node

/-! ### Dotted references -/

theorem NodePath.ofReference_intercalate {names : List String} (ne : names ≠ [])
    (isName : ∀ name ∈ names, IsName name)
    (plain : ∀ name ∈ names, separator ∉ name.toList ∧ '.' ∉ name.toList) :
    ofReference (String.intercalate "." names) = .ok ⟨names⟩ := by
  have htrim : names.map Text.trim = names := by
    rw [List.map_congr_left fun name hname => (isName name hname).tight.trim_eq, List.map_id']
  have hnonempty : ¬ names.any (·.isEmpty) := by
    intro hany
    obtain ⟨name, hname, hempty⟩ := List.any_eq_true.1 hany
    rw [String.isEmpty_iff] at hempty
    exact (isName name hname).tight.ne_nil (by rw [hempty]; rfl)
  have hparts : (names.map Argument.text).flatMap Argument.parts = names := by
    rw [List.flatMap_map]
    change names.flatMap split = names
    rw [List.flatMap_congr fun name hname => split_eq_singleton (plain name hname).1,
      List.flatMap_singleton']
  have hblank : "" ∉ names := fun hmem => hnonempty (List.any_eq_true.2 ⟨"", hmem, rfl⟩)
  unfold ofReference
  rw [Text.pieces_eq_of_toList String.toList_intercalate ne fun name hname => (plain name hname).2,
    htrim]
  dsimp only
  rw [if_neg hnonempty, ofArguments_eq, hparts, if_neg hblank]

/-! ### Devices -/

namespace Device

variable {d : Device}

/-- The path of an element starts with the name of the device, and the names that lead to it
follow. -/
theorem parts_eq_of_leads (orderly : (Node.device d).Orderly)
    (plain : ∀ n ∈ Node.device d :: d.nodes, NodePath.separator ∉ n.name.toList)
    {names : List String} {n : Node} (leads : (Node.device d).Leads names n) :
    n.path.parts = d.name :: names := by
  rw [List.forall_mem_cons] at plain
  have hname : NodePath.split d.name = [d.name] := NodePath.split_eq_singleton plain.1
  rw [leads.path_eq orderly plain.2]
  change NodePath.split d.name ++ names = _
  rw [hname, List.singleton_append]

theorem findNamed_eq_ok_iff (orderly : (Node.device d).Orderly) {text : String}
    {names : List String} {n : Node} :
    d.findNamed text names = .ok n ↔ names ≠ [] ∧ (Node.device d).Leads names n := by
  rw [← orderly.follow?_eq_some_iff, findNamed]
  cases names with
  | nil => simp
  | cons name names =>
      cases hfollow : (Node.device d).follow? (name :: names) <;> simp

theorem findNamed_eq_error {text : String} {names : List String} {e : Error}
    (h : d.findNamed text names = .error e) : e = .unknownName text := by
  unfold findNamed at h
  split at h
  · cases h
    rfl
  · split at h
    · cases h
    · cases h
      rfl

/-- Finding an element inverts taking its path, among the paths that start with the device. -/
theorem find_eq_ok_iff (orderly : (Node.device d).Orderly)
    (plain : ∀ n ∈ Node.device d :: d.nodes, NodePath.separator ∉ n.name.toList) {p : NodePath}
    (start : p.parts.head? = some d.name) {n : Node} :
    d.find p = .ok n ↔ n ∈ d.nodes ∧ n.path? = some p := by
  obtain ⟨names, hp⟩ := List.head?_eq_some_iff.1 start
  have hpath (q : NodePath) : q.parts = d.name :: names ↔ q = p := by
    rw [← hp]
    exact ⟨fun h => by cases q; cases p; exact congrArg _ h, congrArg _⟩
  rw [find, if_pos start, findNamed_eq_ok_iff orderly, hp, List.tail_cons]
  constructor
  · rintro ⟨ne, leads⟩
    have hn : n ∈ d.nodes := Node.mem_below_iff_leads.2 ⟨names, ne, leads⟩
    refine ⟨hn, ?_⟩
    rw [Node.path?_of_mem_below hn, (hpath _).1 (parts_eq_of_leads orderly plain leads)]
  · rintro ⟨hn, hnpath⟩
    obtain ⟨names', ne, leads⟩ := Node.mem_below_iff_leads.1 hn
    have hparts := parts_eq_of_leads orderly plain leads
    rw [Node.path?_of_mem_below hn, Option.some.injEq, ← hpath, hparts, List.cons.injEq] at hnpath
    obtain rfl := hnpath.2
    exact ⟨ne, leads⟩

/-- A dotted reference is found where its names lead. -/
theorem findReference_intercalate (orderly : (Node.device d).Orderly)
    (plain : ∀ n ∈ d.nodes, NodePath.separator ∉ n.name.toList ∧ '.' ∉ n.name.toList)
    {names : List String} (ne : names ≠ []) {n : Node} (leads : (Node.device d).Leads names n) :
    d.findReference (String.intercalate "." names) = .ok n := by
  have hreference : NodePath.ofReference (String.intercalate "." names) = .ok ⟨names⟩ := by
    refine NodePath.ofReference_intercalate ne (fun name hname => ?_) fun name hname => ?_
    · obtain ⟨c, hc, rfl⟩ := leads.exists_name name hname
      exact orderly.isName hc
    · obtain ⟨c, hc, rfl⟩ := leads.exists_name name hname
      exact plain c hc
  rw [findReference, hreference]
  exact (findNamed_eq_ok_iff orderly).2 ⟨ne, leads⟩

end Device

/-- In a device that a run gives, in which no name contains a separator: among the paths that start
with the name of the device, finding an element gives the one with the path, and fails if there is
none. If no name contains a dot either, the names that lead from the device to an element, joined
by dots, are a reference to it. -/
theorem find_inverts_paths {source : Source} {config : Config} {d : Device}
    (h : (parse source config).result = .ok d)
    (plain : ∀ n ∈ Node.device d :: d.nodes, NodePath.separator ∉ n.name.toList) :
    (∀ p : NodePath, p.parts.head? = some d.name →
      (∀ n, d.find p = .ok n ↔ n ∈ d.nodes ∧ n.path? = some p) ∧
      ((∀ n ∈ d.nodes, n.path? ≠ some p) → d.find p = .error (.unknownName (toString p)))) ∧
    ((∀ n ∈ d.nodes, '.' ∉ n.name.toList) → ∀ n ∈ d.nodes,
      (∃ names, (Node.device d).Leads names n) ∧
      ∀ names, (Node.device d).Leads names n →
        d.findReference (String.intercalate "." names) = .ok n) := by
  have orderly := orderly_of_parse h
  refine ⟨fun p start => ⟨fun n => Device.find_eq_ok_iff orderly plain start, fun missing => ?_⟩,
    fun undotted n hn => ?_⟩
  · cases hfind : d.find p with
    | ok n =>
        obtain ⟨hn, hpath⟩ := (Device.find_eq_ok_iff orderly plain start).1 hfind
        exact absurd hpath (missing n hn)
    | error e => rw [Device.findNamed_eq_error hfind]
  · obtain ⟨names, ne, leads⟩ := Node.mem_below_iff_leads.1 hn
    rw [List.forall_mem_cons] at plain
    refine ⟨⟨names, leads⟩, fun names' leads' => ?_⟩
    refine Device.findReference_intercalate orderly (fun c hc => ⟨plain.2 c hc, undotted c hc⟩) ?_
      leads'
    rintro rfl
    cases leads'
    -- No names lead to the device itself, which is not inside of anything.
    cases Node.path?_of_mem_below hn

/-- In the device with a peripheral of its own name, a field in this peripheral is found by its path
and by a dotted reference, and nothing is found at the path of the device. -/
theorem find_inverts_paths_namesake : ∃ d,
    (parse (.text (String.join namesakeLines)) { tolerateOverlaps := true }).result = .ok d ∧
      (∀ n ∈ Node.device d :: d.nodes, NodePath.separator ∉ n.name.toList) ∧
      (∃ n ∈ d.nodes, n.path.parts = ["D", "D", "C_1", "S", "F0"] ∧
        d.find ⟨["D", "D", "C_1", "S", "F0"]⟩ = .ok n ∧
        d.findReference "D.C_1.S.F0" = .ok n) ∧
      d.find ⟨["D"]⟩ = .error (.unknownName "D") := by
  obtain ⟨d, hd, hname, -, hplain, n, hn, hpath⟩ := parse_namesake
  have plain : ∀ n ∈ Node.device d :: d.nodes, NodePath.separator ∉ n.name.toList := by
    refine List.forall_mem_cons.2 ⟨?_, fun n hn => (hplain n hn).1⟩
    change NodePath.separator ∉ d.name.toList
    rw [hname]
    decide
  obtain ⟨hpaths, hreferences⟩ := find_inverts_paths hd plain
  have start (names : List String) : (NodePath.mk ("D" :: names)).parts.head? = some d.name := by
    rw [hname]
    rfl
  have hparts {names : List String} {n : Node} (leads : (Node.device d).Leads names n) :
      n.path.parts = "D" :: names := by
    rw [Device.parts_eq_of_leads (orderly_of_parse hd) plain leads, hname]
  refine ⟨d, hd, plain, ⟨n, hn, hpath, ?_, ?_⟩, (hpaths _ (start [])).2 fun c hc hcpath => ?_⟩
  · refine ((hpaths _ (start _)).1 n).2 ⟨hn, ?_⟩
    rw [Node.path?_of_mem_below hn, ← hpath]
  · obtain ⟨⟨names, leads⟩, hfound⟩ := hreferences (fun c hc => (hplain c hc).2) n hn
    have hnames := hparts leads
    rw [hpath, List.cons.injEq] at hnames
    have hdotted : String.intercalate "." names = "D.C_1.S.F0" := by
      rw [← hnames.2]
      decide +kernel
    exact hdotted ▸ hfound names leads
  · obtain ⟨names, ne, leads⟩ := Node.mem_below_iff_leads.1 hc
    have hnames := hparts leads
    rw [Node.path?_of_mem_below hc, Option.some.injEq] at hcpath
    rw [hcpath, List.cons.injEq] at hnames
    exact ne hnames.2.symm

end RegisterMap
