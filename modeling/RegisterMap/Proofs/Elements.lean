import RegisterMap.Device.Node
import RegisterMap.Proofs.Document
import RegisterMap.Proofs.Names
import RegisterMap.Proofs.Origins

/-!
# The elements of a device and their paths

Seen as nodes, all kinds of elements are alike: each has a name, a path and some elements directly
inside of it (`Node.inside`). What is inside at any depth is listed in document order by
`Node.below`, and a property of all nodes is shown by induction on what is inside
(`Node.Hereditary`).

An element is in its place if its path continues the path of the element around it by its own name,
if the elements directly inside of it have distinct names, and if all of them are in their places
(`Node.InPlace`). This holds of every element of a device that a run gives. So each path is made
from the names on the way to its element, and paths differ unless a name contains a separator
(`parse_places_elements`).
-/

namespace RegisterMap

/-! ### Nodes -/

namespace Node

/-- The name of the element. -/
def name : Node → String
  | .device d => d.name
  | .peripheral p => p.name
  | .cluster c _ => c.name
  | .register r => r.name
  | .field f => f.name

/-- The path of the element, that of a device being made from its name. -/
def path : Node → NodePath
  | .device d => NodePath.child ⟨[]⟩ d.name
  | .peripheral p => p.path
  | .cluster c _ => c.path
  | .register r => r.path
  | .field f => f.path

/-- The elements directly inside of the element, in document order. -/
def inside (n : Node) : List Node :=
  (n.children?.map NameMap.values).getD []

end Node

mutual

/-- The elements inside of the member. -/
def Member.nodesInside : Member → List Node
  | .register r => r.fields.map .field
  | .cluster _ ms => Member.nodesOf ms

/-- The members and the elements inside of them, each before what is inside of it. -/
def Member.nodesOf : List Member → List Node
  | [] => []
  | m :: ms => m.node :: Member.nodesInside m ++ Member.nodesOf ms

end

/-- The elements inside of the element at any depth, each before what is inside of it. -/
def Node.below : Node → List Node
  | .device d => d.peripherals.flatMap fun p => .peripheral p :: Member.nodesOf p.members
  | .peripheral p => Member.nodesOf p.members
  | .cluster _ ms => Member.nodesOf ms
  | .register r => r.fields.map .field
  | .field _ => []

/-- All elements of the device. -/
def Device.nodes (d : Device) : List Node :=
  (Node.device d).below

namespace Member

@[simp] theorem name_node (m : Member) : m.node.name = m.name := by
  cases m <;> rfl

theorem map_name_node (ms : List Member) : (ms.map node).map Node.name = ms.map name := by
  rw [List.map_map]
  exact List.map_congr_left fun m _ => name_node m

theorem below_node (m : Member) : m.node.below = m.nodesInside := by
  cases m with
  | register r => rfl
  | cluster c ms => rw [nodesInside]; rfl

theorem nodesOf_eq_flatMap (ms : List Member) :
    nodesOf ms = (ms.map node).flatMap fun n => n :: n.below := by
  induction ms with
  | nil => rw [nodesOf]; rfl
  | cons m ms ih => rw [nodesOf, List.map_cons, List.flatMap_cons, below_node, ih]

end Member

namespace Node

variable {parent : NodePath} {n c : Node}

@[simp] theorem inside_device (d : Device) :
    (device d).inside = d.peripherals.map .peripheral := by
  simp [inside, children?, NameMap.values]

@[simp] theorem inside_peripheral (p : Peripheral) :
    (peripheral p).inside = p.members.map Member.node := by
  simp [inside, children?, NameMap.values]

@[simp] theorem inside_cluster (c : Cluster) (ms : List Member) :
    (cluster c ms).inside = ms.map Member.node := by
  simp [inside, children?, NameMap.values]

@[simp] theorem inside_register (r : Register) : (register r).inside = r.fields.map .field := by
  simp [inside, children?, NameMap.values]

@[simp] theorem name_peripheral (p : Peripheral) : (peripheral p).name = p.name := rfl

@[simp] theorem name_field (f : Field) : (field f).name = f.name := rfl

/-- The elements directly inside of an element are found under their own names. -/
theorem entries_of_children? {m : NameMap Node} (h : n.children? = some m) :
    m.entries = n.inside.map fun c => (c.name, c) := by
  cases n <;> cases h <;> simp

/-- What is inside of an element at any depth is directly inside of it or further below. -/
theorem below_eq (n : Node) : n.below = n.inside.flatMap fun c => c :: c.below := by
  cases n with
  | device d =>
      rw [below, inside_device, List.flatMap_map]
      rfl
  | peripheral p =>
      rw [inside_peripheral]
      exact Member.nodesOf_eq_flatMap p.members
  | cluster c ms =>
      rw [inside_cluster]
      exact Member.nodesOf_eq_flatMap ms
  | register r =>
      rw [below, inside_register, List.flatMap_map]
      exact List.map_eq_flatMap ..
  | field f => rfl

theorem mem_below_iff : c ∈ n.below ↔ ∃ a ∈ n.inside, c = a ∨ c ∈ a.below := by
  rw [below_eq]
  simp only [List.mem_flatMap, List.mem_cons]

/-- The property holds of an element whenever it holds of everything directly inside of it. -/
def Hereditary (P : Node → Prop) : Prop :=
  ∀ n, (∀ c ∈ n.inside, P c) → P n

variable {P : Node → Prop}

theorem Hereditary.field (step : Hereditary P) (f : Field) : P (.field f) :=
  step _ (List.forall_mem_nil _)

mutual

theorem Hereditary.member (step : Hereditary P) : ∀ m : Member, P m.node
  | .register r => step (.register r) (by
      rw [inside_register, List.forall_mem_map]
      exact fun f _ => step.field f)
  | .cluster c ms => step (.cluster c ms) (by
      rw [inside_cluster]
      exact step.members ms)

theorem Hereditary.members (step : Hereditary P) : ∀ ms : List Member, ∀ c ∈ ms.map Member.node, P c
  | [] => List.forall_mem_nil _
  | m :: ms => List.forall_mem_cons.2 ⟨step.member m, step.members ms⟩

end

theorem Hereditary.peripheral (step : Hereditary P) (p : Peripheral) : P (.peripheral p) :=
  step _ (by
    rw [inside_peripheral]
    exact step.members p.members)

/-- A hereditary property holds of every element. -/
theorem Hereditary.all (step : Hereditary P) : ∀ n, P n
  | .device d => step _ (by
      rw [inside_device, List.forall_mem_map]
      exact fun p _ => step.peripheral p)
  | .peripheral p => step.peripheral p
  | .cluster c ms => step.member (.cluster c ms)
  | .register r => step.member (.register r)
  | .field f => step.field f

/-! ### Elements in their places -/

/-- The element is in its place inside of the element at a path: its own path continues that path
by its name, and everything inside of it is in its place, under distinct names. -/
inductive InPlace : NodePath → Node → Prop
  | intro {parent : NodePath} {n : Node} (name : IsName n.name)
      (path : n.path = parent.child n.name) (names : (n.inside.map Node.name).Nodup)
      (inside : ∀ c ∈ n.inside, InPlace n.path c) : InPlace parent n

namespace InPlace

theorem isName (h : InPlace parent n) : IsName n.name := by
  cases h with
  | intro name => exact name

theorem path_eq (h : InPlace parent n) : n.path = parent.child n.name := by
  cases h with
  | intro _ path => exact path

theorem names_inside (h : InPlace parent n) : (n.inside.map Node.name).Nodup := by
  cases h with
  | intro _ _ names => exact names

theorem inside (h : InPlace parent n) (hc : c ∈ n.inside) : InPlace n.path c := by
  cases h with
  | intro _ _ _ inside => exact inside c hc

theorem usable (h : InPlace parent n) (parent_usable : parent.Usable) : n.path.Usable := by
  rw [h.path_eq]
  exact parent_usable.child h.isName.whole

/-- Elements that agree in their names and paths with elements in their places are in their places,
if what is inside of them is. -/
theorem congr {n' : Node} (h : InPlace parent n) (name : n'.name = n.name)
    (path : n'.path = n.path)
    (inside : List.Forall₂ (fun c c' => c'.name = c.name ∧ InPlace n.path c') n.inside n'.inside) :
    InPlace parent n' := by
  refine .intro (name ▸ h.isName) (by rw [path, name, h.path_eq]) ?_ fun c' hc' => ?_
  · rw [← map_eq_map_of_forall₂ inside fun _ _ hc => hc.1.symm]
    exact h.names_inside
  · obtain ⟨c, -, -, hc⟩ := exists_mem_left inside hc'
    rw [path]
    exact hc

end InPlace

/-- The path of the element can be continued, and the elements directly inside of it are in their
places, under distinct names. -/
structure Orderly (n : Node) : Prop where
  usable : n.path.Usable
  names : (n.inside.map Node.name).Nodup
  inside : ∀ c ∈ n.inside, InPlace n.path c

theorem InPlace.orderly (h : InPlace parent n) (usable : parent.Usable) : n.Orderly :=
  ⟨h.usable usable, h.names_inside, fun _ => h.inside⟩

theorem Orderly.of_mem_inside (h : n.Orderly) (hc : c ∈ n.inside) : c.Orderly :=
  (h.inside c hc).orderly h.usable

/-- Everything below an orderly element is orderly. -/
theorem Orderly.below (h : n.Orderly) : ∀ c ∈ n.below, c.Orderly := by
  have step : Hereditary fun n => n.Orderly → ∀ c ∈ n.below, c.Orderly := by
    intro n ih h c hc
    obtain ⟨a, ha, rfl | hc⟩ := mem_below_iff.1 hc
    · exact h.of_mem_inside ha
    · exact ih a ha (h.of_mem_inside ha) c hc
  exact step.all n h

/-! ### Paths -/

end Node

namespace Node

variable {parent : NodePath} {n c : Node}

end Node

/-! ### Publication -/

theorem Field.inPlace_ofDraft {path : NodePath} {access : Access} {df : Draft.Field} {f : Field}
    (h : Field.ofDraft path access df = .ok f) (name : IsName df.name) :
    f.name = df.name ∧ Node.InPlace path (.field f) := by
  obtain ⟨range, -, h⟩ := bind_eq_ok_iff.1 h
  obtain ⟨enums, -, h⟩ := bind_eq_ok_iff.1 h
  cases h
  exact ⟨rfl, .intro name rfl List.nodup_nil (List.forall_mem_nil _)⟩

theorem Register.inPlace_ofDraft {parent : NodePath} {dr : Draft.Register} {r : Register}
    (h : Register.ofDraft (parent.child dr.name) dr = .ok r)
    (named : (Draft.Member.register dr).WellNamed) : Node.InPlace parent (.register r) := by
  obtain ⟨offset, -, h⟩ := bind_eq_ok_iff.1 h
  obtain ⟨size, -, h⟩ := bind_eq_ok_iff.1 h
  obtain ⟨resetValue, -, h⟩ := bind_eq_ok_iff.1 h
  obtain ⟨address, -, h⟩ := bind_eq_ok_iff.1 h
  obtain ⟨fields, hfields, h⟩ := bind_eq_ok_iff.1 h
  cases h
  obtain ⟨hmade, hnames, -⟩ := makeNamed_eq_ok_iff.1 hfields
  have hplace : List.Forall₂ (fun df f => f.name = df.name ∧
      Node.InPlace (parent.child dr.name) (.field f)) dr.fieldList fields :=
    List.forall₂_iff_get.2 ⟨hmade.length_eq, fun i hi hi' =>
      Field.inPlace_ofDraft (hmade.get hi hi') (named.fields _ (List.get_mem ..))⟩
  refine .intro named.name rfl ?_ ?_
  · rw [Node.inside_register, List.map_map]
    rw [map_eq_map_of_forall₂ hplace fun _ _ hf => hf.1.symm] at hnames
    exact hnames
  · rw [Node.inside_register, List.forall_mem_map]
    intro f hf
    obtain ⟨df, -, -, hf⟩ := exists_mem_left hplace hf
    exact hf

namespace Member

mutual

theorem inPlace_ofDraft (parent : NodePath) : ∀ (dm : Draft.Member) {m : Member},
    ofDraft (parent.child dm.name) dm = .ok m → dm.Each Draft.Member.WellNamed →
      Node.InPlace parent m.node
  | .register dr, m, h, named => by
      obtain ⟨r, hr, h⟩ := bind_eq_ok_iff.1 h
      cases h
      exact Register.inPlace_ofDraft hr named
  | .cluster dc dms, m, h, named => by
      obtain ⟨c, hc, h⟩ := bind_eq_ok_iff.1 h
      obtain ⟨ms, hms, h⟩ := bind_eq_ok_iff.1 h
      obtain ⟨_, hnames, h⟩ := bind_eq_ok_iff.1 h
      cases h
      obtain ⟨offset, -, hc⟩ := bind_eq_ok_iff.1 hc
      obtain ⟨address, -, hc⟩ := bind_eq_ok_iff.1 hc
      cases hc
      refine .intro named.1.name rfl ?_ ?_
      · rw [node, Node.inside_cluster, map_name_node]
        exact nodup_of_checkNames hnames
      · rw [node, Node.inside_cluster]
        exact inPlace_ofDraftAll _ dms hms named.2

theorem inPlace_ofDraftAll (parent : NodePath) : ∀ (dms : List Draft.Member) {ms : List Member},
    ofDraftAll parent dms = .ok ms → Draft.Member.EachAll Draft.Member.WellNamed dms →
      ∀ c ∈ ms.map node, Node.InPlace parent c
  | [], ms, h, _ => by
      cases h
      exact List.forall_mem_nil _
  | dm :: dms, ms, h, named => by
      obtain ⟨m, rest, hm, hrest, rfl⟩ := cons_eq_ok_iff.1 h
      exact List.forall_mem_cons.2 ⟨inPlace_ofDraft parent dm hm named.1,
        inPlace_ofDraftAll parent dms hrest named.2⟩

end

end Member

theorem Peripheral.inPlace_ofDraft {parent : NodePath} {dp : Draft.Peripheral} {p : Peripheral}
    (h : Peripheral.ofDraft (parent.child dp.name) dp = .ok p)
    (named : dp.asMember.Each Draft.Member.WellNamed) : Node.InPlace parent (.peripheral p) := by
  obtain ⟨address, -, h⟩ := bind_eq_ok_iff.1 h
  obtain ⟨ms, hms, h⟩ := bind_eq_ok_iff.1 h
  obtain ⟨_, hnames, h⟩ := bind_eq_ok_iff.1 h
  cases h
  refine .intro named.1.name rfl ?_ ?_
  · rw [Node.inside_peripheral, Member.map_name_node]
    exact Member.nodup_of_checkNames hnames
  · rw [Node.inside_peripheral]
    exact Member.inPlace_ofDraftAll _ dp.memberList hms named.2

/-- A device is orderly if its draft has names throughout. -/
theorem Device.orderly_ofDraft {draft : Draft.Device} {d : Device}
    (h : (Device.ofDraft draft).result = .ok d) (named : draft.WellNamed)
    (usable : draft.path.Usable) : (Node.device d).Orderly := by
  obtain ⟨ps, hps, hnames, rfl⟩ := Device.ofDraft_eq_ok_iff.1 h
  refine ⟨usable, ?_, ?_⟩
  · rw [Node.inside_device, List.map_map]
    rw [map_eq_map_of_forall₂ hps fun _ _ hp => (Peripheral.shownAs_ofDraft hp).name.symm] at hnames
    exact hnames
  · rw [Node.inside_device, List.forall_mem_map]
    intro p hp
    obtain ⟨dp, hdp, hmade⟩ := exists_mem_left hps hp
    exact Peripheral.inPlace_ofDraft hmade
      (Draft.Member.eachAll_iff.1 named _ (List.mem_map_of_mem hdp))

/-! ### Aliases -/

section

variable {regions : List BitBand.ConfiguredRegion} {parent : NodePath}

theorem Register.fields_withAliases {r r' : Register} (h : r.withAliases regions = .ok r') :
    List.Forall₂ (fun f f' => f' = { f with bitBand := f'.bitBand }) r.fields r'.fields := by
  unfold Register.withAliases at h
  split at h
  · cases h
    exact List.forall₂_same.2 fun f _ => rfl
  · obtain ⟨fields, hfields, h⟩ := bind_eq_ok_iff.1 h
    cases h
    refine (mapM_eq_ok_iff.1 hfields).imp fun f f' hf => ?_
    unfold Field.withAliases at hf
    split at hf
    · cases hf
      rfl
    · cases hf

theorem Register.inPlace_withAliases {r r' : Register} (h : r.withAliases regions = .ok r')
    (place : Node.InPlace parent (.register r)) : Node.InPlace parent (.register r') := by
  have hrest := Member.withAliases_register h
  refine place.congr (by rw [hrest]; rfl) (by rw [hrest]; rfl) ?_
  have hfields : ∀ f ∈ r.fields, Node.InPlace r.path (.field f) := fun f hf =>
    place.inside (Node.inside_register r ▸ List.mem_map_of_mem hf)
  rw [Node.inside_register, Node.inside_register, List.forall₂_map_left_iff,
    List.forall₂_map_right_iff]
  refine ((List.forall₂_and_left _ _).2 ⟨hfields, Register.fields_withAliases h⟩).imp ?_
  rintro f f' ⟨hf, heq⟩
  rw [heq]
  exact ⟨rfl, hf.congr rfl rfl .nil⟩

namespace Member

mutual

theorem inPlace_withAliases {parent : NodePath} : ∀ (m : Member) {m' : Member},
    m.withAliases regions = .ok m' → Node.InPlace parent m.node →
      m'.node.name = m.node.name ∧ Node.InPlace parent m'.node
  | .register r, m', h, place => by
      obtain ⟨r', hr', h⟩ := bind_eq_ok_iff.1 h
      cases h
      exact ⟨by rw [withAliases_register hr']; rfl, Register.inPlace_withAliases hr' place⟩
  | .cluster c ms, m', h, place => by
      obtain ⟨ms', hms', h⟩ := bind_eq_ok_iff.1 h
      cases h
      refine ⟨rfl, place.congr rfl rfl ?_⟩
      rw [node, node, Node.inside_cluster, Node.inside_cluster, List.forall₂_map_left_iff,
        List.forall₂_map_right_iff]
      exact inPlace_withAliasesAll ms hms' fun n hn =>
        place.inside (Node.inside_cluster c ms ▸ List.mem_map_of_mem hn)

theorem inPlace_withAliasesAll {parent : NodePath} : ∀ (ms : List Member) {ms' : List Member},
    withAliasesAll regions ms = .ok ms' → (∀ m ∈ ms, Node.InPlace parent m.node) →
      List.Forall₂ (fun m m' => m'.node.name = m.node.name ∧ Node.InPlace parent m'.node) ms ms'
  | [], ms', h, _ => by
      cases h
      exact .nil
  | m :: ms, ms', h, place => by
      rw [List.forall_mem_cons] at place
      obtain ⟨m', rest, hm', hrest, rfl⟩ := cons_eq_ok_iff.1 h
      exact .cons (inPlace_withAliases m hm' place.1) (inPlace_withAliasesAll ms hrest place.2)

end

end Member

theorem Peripheral.inPlace_withAliases {p p' : Peripheral} (h : p.withAliases regions = .ok p')
    (place : Node.InPlace parent (.peripheral p)) :
    p'.name = p.name ∧ Node.InPlace parent (.peripheral p') := by
  obtain ⟨ms, hms, h⟩ := bind_eq_ok_iff.1 h
  cases h
  refine ⟨rfl, place.congr rfl rfl ?_⟩
  rw [Node.inside_peripheral, Node.inside_peripheral, List.forall₂_map_left_iff,
    List.forall₂_map_right_iff]
  exact Member.inPlace_withAliasesAll p.members hms fun m hm =>
    place.inside (Node.inside_peripheral p ▸ List.mem_map_of_mem hm)

/-- Aliases move no element. -/
theorem Device.orderly_withAliases {d d' : Device} (h : (d.withAliases regions).result = .ok d')
    (orderly : (Node.device d).Orderly) : (Node.device d').Orderly := by
  obtain ⟨ps, hps, rfl⟩ := Device.withAliases_eq_ok_iff.1 h
  obtain ⟨usable, names, inside⟩ := orderly
  rw [Node.inside_device, List.forall_mem_map] at inside
  rw [Node.inside_device, List.map_map] at names
  have hplace := ((List.forall₂_and_left _ _).2 ⟨inside, hps⟩).imp fun p p' hp =>
    Peripheral.inPlace_withAliases hp.2 hp.1
  refine ⟨usable, ?_, ?_⟩
  · rw [Node.inside_device, List.map_map]
    exact map_eq_map_of_forall₂ hplace (fun _ _ hp => hp.1.symm) ▸ names
  · rw [Node.inside_device, List.forall_mem_map]
    intro p' hp'
    obtain ⟨p, -, hp⟩ := exists_mem_left hplace hp'
    exact hp.2

end

/-! ### Runs -/

/-- The device that a run gives is orderly. -/
theorem orderly_of_parse {source : Source} {config : Config} {d : Device}
    (h : (parse source config).result = .ok d) : (Node.device d).Orderly := by
  obtain ⟨root, regions, placed, plain, -, -, hplaced, hplain, hd⟩ := exists_placed_of_parse h
  exact Device.orderly_withAliases hd
    (Device.orderly_ofDraft hplain hplaced.wellNamed hplaced.usable_path)

open Element in
/-- A device with a peripheral of its own name, which takes over the members of the other one. Among
them are an array of clusters and, in each of these, a register with the fields of another one. -/
def namesakeRoot : Element :=
  node "device" [leaf "name" "D", leaf "size" "8", leaf "resetValue" "0", node "peripherals" [
    node "peripheral" [leaf "name" "P", leaf "baseAddress" "0", node "registers" [
      node "register" [leaf "name" "R", leaf "addressOffset" "0", node "fields" [
        node "field" [leaf "dim" "2", leaf "dimIncrement" "1", leaf "name" "F%s",
          leaf "bitOffset" "0"]]],
      node "cluster" [leaf "dim" "2", leaf "dimIncrement" "4", leaf "name" "C[%s]",
        leaf "addressOffset" "4",
        { node "register" [leaf "name" "S", leaf "addressOffset" "0"] with
          attributes := [("derivedFrom", "P.R")] }]]],
    { node "peripheral" [leaf "name" "D", leaf "baseAddress" "64"] with
      attributes := [("derivedFrom", "P")] }]]

/-- The lines of the document with these elements. -/
def namesakeLines : List String := [
  "<device><name>D</name><size>8</size><resetValue>0</resetValue><peripherals>",
  "<peripheral><name>P</name><baseAddress>0</baseAddress><registers>",
  "<register><name>R</name><addressOffset>0</addressOffset><fields><field><dim>2</dim>",
  "<dimIncrement>1</dimIncrement><name>F%s</name><bitOffset>0</bitOffset></field></fields>",
  "</register><cluster><dim>2</dim><dimIncrement>4</dimIncrement><name>C[%s]</name>",
  "<addressOffset>4</addressOffset><register derivedFrom=\"P.R\"><name>S</name>",
  "<addressOffset>0</addressOffset></register></cluster></registers></peripheral>",
  "<peripheral derivedFrom=\"P\"><name>D</name><baseAddress>64</baseAddress></peripheral>",
  "</peripherals></device>"]

set_option maxRecDepth 10000 in
theorem read_namesake : (Source.text (String.join namesakeLines)).read = .ok namesakeRoot := by
  have hlines : namesakeLines = List.map String.ofList [_, _, _, _, _, _, _, _, _] := rfl
  change Markup.readText (String.join namesakeLines) = .ok namesakeRoot
  refine Markup.readText_join hlines ?_ ?_ ?_
  · decide +kernel
  · rfl
  · decide +kernel

/-- The document is parsed to a device in which no name contains a separator or a dot. -/
theorem parse_namesake : ∃ d,
    (parse (.text (String.join namesakeLines)) { tolerateOverlaps := true }).result = .ok d ∧
      d.name = "D" ∧ d.nodes.length = 24 ∧
      (∀ n ∈ d.nodes, NodePath.separator ∉ n.name.toList ∧ '.' ∉ n.name.toList) ∧
      ∃ n ∈ d.nodes, n.path.parts = ["D", "D", "C_1", "S", "F0"] := by
  have hbuilt : (Draft.buildDevice namesakeRoot >>=
      resolve { tolerateOverlaps := true }).result.toOption.any fun d =>
        d.name = "D" ∧ d.nodes.length = 24 ∧
        (∀ n ∈ d.nodes, NodePath.separator ∉ n.name.toList ∧ '.' ∉ n.name.toList) ∧
        ∃ n ∈ d.nodes, n.path.parts = ["D", "D", "C_1", "S", "F0"] := by
    decide +kernel
  obtain ⟨d, hd, h⟩ := exists_ok_of_any hbuilt
  exact ⟨d, (result_parse read_namesake rfl).trans hd, of_decide_eq_true h⟩

end RegisterMap
