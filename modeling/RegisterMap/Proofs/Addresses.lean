import RegisterMap.Device.Node
import RegisterMap.Proofs.Completeness
import RegisterMap.Proofs.Exclusion

/-!
# Absolute addresses

In a draft in which everything is derived but nothing is expanded yet, an element of the device is
chosen by a way: from a peripheral through clusters, with the index of one of its instances for each
element on the way (`Step`, `Member.Way`).

The address of what is chosen is the sum of what each step adds to it, the offset of the element and
the distance of its instance from the first one (`parse_sums_addresses`).
-/

namespace RegisterMap

/-! ### Ways through a draft -/

namespace Draft

/-- One step on the way to an element of the device: into one of the instances of an element of the
draft. The offset of a peripheral is its base address. -/
structure Step where
  element : Member
  /-- The index of the instance, which is zero if the element is not an array. -/
  index : Nat
  /-- The name of the instance. -/
  name : String

namespace Step

/-- The element has an instance with the index and the name. -/
inductive Valid : Step → Prop
  | plain {m : Member} (single : m.header.dim = none) : Valid ⟨m, 0, m.name⟩
  | array {m : Member} {dim : Dimension} {tokens : List String} {index : Nat} {token : String}
      (repeated : m.header.dim = some dim) (named : dim.tokens = .ok tokens)
      (token_index : tokens[index]? = some token) : Valid ⟨m, index, instanceName m.name token⟩

/-- The distance between the instances of the element. -/
def stride (s : Step) : Int :=
  (s.element.header.dim.map (·.step)).getD 0

/-- What the step adds to the address. -/
def advance (s : Step) : Int :=
  s.element.offset.getD 0 + s.index * s.stride

/-- Neither the element nor the instance of it has one of the names. -/
def Kept (excluded : List String) (s : Step) : Prop :=
  s.name ∉ excluded ∧ s.element.name ∉ excluded

end Step

/-- A way that starts at one of the members and goes on to a member of what has been reached. -/
inductive Member.Way : List Member → List Step → Prop
  | nil {ms : List Member} : Way ms []
  | cons {ms : List Member} {s : Step} {ss : List Step} (mem : s.element ∈ ms) (valid : s.Valid)
      (rest : Way s.element.members ss) : Way ms (s :: ss)

/-- A way through the device that starts at a peripheral which is not excluded. -/
structure Device.Route (d : Device) (excluded : List String) (ss : List Step) : Prop where
  way : Member.Way d.elements ss
  kept : ∀ s ∈ ss.head?, s.Kept excluded

namespace Member

theorem Way.of_isPrefix {ms : List Member} {ss ss' : List Step} (h : Way ms ss)
    (part : ss' <+: ss) : Way ms ss' := by
  induction h generalizing ss' with
  | nil =>
      rw [List.prefix_nil.1 part]
      exact .nil
  | @cons ms s ss mem valid rest ih =>
      cases ss' with
      | nil => exact .nil
      | cons s' ss' =>
          obtain ⟨rfl, hrest⟩ := List.cons_prefix_cons.1 part
          exact .cons mem valid (ih hrest)

/-- What holds for some members and for everything inside of them holds on every way. -/
theorem Way.forall {P : Member → Prop} {ms : List Member} {ss : List Step} (h : Way ms ss)
    (all : EachAll P ms) : ∀ s ∈ ss, P s.element := by
  induction h with
  | nil => exact List.forall_mem_nil _
  | cons mem valid rest ih =>
      obtain ⟨own, inside⟩ := each_iff.1 (eachAll_iff.1 all _ mem)
      exact List.forall_mem_cons.2 ⟨own, ih inside⟩

end Member

theorem Device.Route.of_isPrefix {d : Device} {excluded : List String} {ss ss' : List Step}
    (h : d.Route excluded ss) (part : ss' <+: ss) : d.Route excluded ss' := by
  refine ⟨h.way.of_isPrefix part, fun s hs => ?_⟩
  cases ss' with
  | nil => cases hs
  | cons s' ss' =>
      obtain ⟨rest, rfl⟩ := part
      exact h.kept s hs

/-! ### Steps and instances -/

/-- In the expanded draft, the step leads to the member. -/
structure Step.Shows (s : Step) (n : Member) : Prop where
  name : n.name = s.name
  offset : n.offset = s.element.offset.map (· + s.index * s.stride)
  kind : n.kind = s.element.kind
  members : n.members = Member.expandedAll s.element.members

theorem Step.shows_plain (m : Member) : Shows ⟨m, 0, m.name⟩ (place m.expanded none) := by
  have hoffset : m.offset = m.offset.map (· + ((0 : Nat) : Int) * stride ⟨m, 0, m.name⟩) := by
    simp
  cases m with
  | register r => exact ⟨rfl, hoffset, rfl, rfl⟩
  | cluster c ms => exact ⟨rfl, hoffset, rfl, rfl⟩

theorem Step.shows_array {m : Member} {dim : Dimension} (repeated : m.header.dim = some dim)
    (index : Nat) (token : String) : Shows ⟨m, index, instanceName m.name token⟩
      (place m.expanded (some ⟨token, index * dim.step⟩)) := by
  have hstride : stride ⟨m, index, instanceName m.name token⟩ = dim.step := by
    simp [stride, repeated]
  refine ⟨?_, ?_, ?_, ?_⟩
  · cases m <;> rfl
  · rw [hstride]
    cases m <;> rfl
  · cases m <;> rfl
  · cases m <;> rfl

/-- A step leads to one of the instances of its element. -/
theorem Step.Valid.exists_instance {s : Step} (h : s.Valid) :
    ∃ i ∈ instances s.element, s.Shows (place s.element.expanded i) := by
  cases h with
  | @plain m single =>
      have hdim : Dimensioned.dim m = none := single
      refine ⟨none, ?_, shows_plain m⟩
      rw [instances, hdim]
      exact List.mem_singleton_self _
  | @array m dim tokens index token repeated named hindex =>
      have hdim : Dimensioned.dim m = some dim := repeated
      refine ⟨_, ?_, shows_array repeated index token⟩
      rw [instances, hdim]
      dsimp only
      rw [named]
      exact List.mem_map.2 ⟨(token, index), List.mk_mem_zipIdx_iff_getElem?.2 hindex, rfl⟩

/-- Every instance of an element is reached in one step. -/
theorem exists_step {m : Member} {i : Option Instance} (hi : i ∈ instances m) :
    ∃ s : Step, s.element = m ∧ s.Valid ∧ s.Shows (place m.expanded i) := by
  cases hdim : Dimensioned.dim m with
  | none =>
      rw [instances, hdim] at hi
      obtain rfl := List.mem_singleton.1 hi
      exact ⟨_, rfl, .plain hdim, Step.shows_plain m⟩
  | some dim =>
      rw [instances, hdim] at hi
      obtain ⟨⟨token, index⟩, htoken, rfl⟩ := List.mem_map.1 hi
      have hindex := List.mk_mem_zipIdx_iff_getElem?.1 htoken
      cases htokens : dim.tokens with
      | error e =>
          rw [htokens] at hindex
          cases hindex
      | ok tokens =>
          rw [htokens] at hindex
          exact ⟨_, rfl, .array hdim htokens hindex, Step.shows_array hdim index token⟩

end Draft

/-! ### Elements of a device -/

/-- The absolute address of the member. -/
def Member.address : Member → Int
  | .register r => r.address
  | .cluster c _ => c.address

namespace Node

/-- The absolute address of the element; neither a device nor a field has one. -/
def address? : Node → Option Int
  | .peripheral p => some p.address
  | .cluster c _ => some c.address
  | .register r => some r.address
  | .device _ | .field _ => none

/-- The members of a peripheral or cluster. -/
def members : Node → List Member
  | .peripheral p => p.members
  | .cluster _ ms => ms
  | .device _ | .register _ | .field _ => []

theorem address?_node (m : Member) : m.node.address? = some m.address := by
  cases m <;> rfl

theorem members_node (m : Member) : m.node.members = m.members := by
  cases m <;> rfl

theorem follow?_cons {n child : Node} {entries : List (String × Node)} {name : String}
    (inside : n.children? = some ⟨entries⟩) (found : entries.lookup name = some child)
    (names : List String) : n.follow? (name :: names) = child.follow? names := by
  have hchild : n.children?.bind (·.get? name) = some child := by
    rw [inside]
    exact found
  rw [follow?, hchild]

/-- A name leads to the member that has it. -/
theorem follow?_member {n : Node} (distinct : (n.members.map Member.name).Nodup) {m : Member}
    (hm : m ∈ n.members) (names : List String) :
    n.follow? (m.name :: names) = m.node.follow? names := by
  have inside : n.children? = some ⟨n.members.map fun m => (m.name, m.node)⟩ := by
    cases n with
    | peripheral p => rfl
    | cluster c ms => rfl
    | device d => cases hm
    | register r => cases hm
    | field f => cases hm
  exact follow?_cons inside (lookup_map_of_nodup distinct hm) names

end Node

/-! ### Placed members -/

namespace Draft.Member

/-- A member of a device is made from a member of an expanded draft inside of an element at the
address `base`. -/
structure StandsAt (base : Int) (dm : Member) (m : RegisterMap.Member) : Prop where
  name : m.name = dm.name
  kind : dm.kind = .register ↔ ∃ r, m = .register r
  address : dm.offset.map (base + ·) = some m.address
  distinct : (m.members.map RegisterMap.Member.name).Nodup

mutual

/-- The member of a device is made from the draft, and so is everything inside of it. -/
def Placed (base : Int) : Member → RegisterMap.Member → Prop
  | .register r, m => StandsAt base (.register r) m
  | .cluster c dms, m => StandsAt base (.cluster c dms) m ∧ PlacedAll m.address dms m.members

/-- The members of a device are made from the drafts one by one. -/
def PlacedAll (base : Int) : List Member → List RegisterMap.Member → Prop
  | [], [] => True
  | dm :: dms, m :: ms => Placed base dm m ∧ PlacedAll base dms ms
  | [], _ :: _ => False
  | _ :: _, [] => False

end

theorem placedAll_iff {base : Int} {dms : List Member} {ms : List RegisterMap.Member} :
    PlacedAll base dms ms ↔ List.Forall₂ (Placed base) dms ms := by
  induction dms generalizing ms with
  | nil => cases ms <;> simp [PlacedAll]
  | cons dm dms ih => cases ms <;> simp [PlacedAll, ih]

variable {base : Int} {dm : Member} {m : RegisterMap.Member}

theorem Placed.standsAt (h : Placed base dm m) : StandsAt base dm m := by
  cases dm with
  | register r => exact h
  | cluster c dms => exact h.1

theorem Placed.members (h : Placed base dm m) : PlacedAll m.address dm.members m.members := by
  cases dm with
  | register r =>
      obtain ⟨r', rfl⟩ := h.kind.1 rfl
      trivial
  | cluster c dms => exact h.2

theorem cluster_kind_iff {c : Cluster} {dms : List Member} {c' : RegisterMap.Cluster}
    {ms : List RegisterMap.Member} :
    (cluster c dms).kind = .register ↔ ∃ r, RegisterMap.Member.cluster c' ms = .register r := by
  refine iff_of_false nofun ?_
  rintro ⟨r, h⟩
  cases h

theorem offset_placeAt (base : Int) (dm : Member) : (placeAt base dm).offset = dm.offset := by
  cases dm <;> rfl

/-- What is shown of a placed member is its name and its address. -/
theorem ShownAs.standsAt {placed : Member} (shown : (placeAt base placed).ShownAs m)
    (resembles : dm.Resembles placed) (kind : dm.kind = .register ↔ ∃ r, m = .register r)
    (distinct : (m.members.map RegisterMap.Member.name).Nodup) : StandsAt base dm m := by
  refine ⟨?_, kind, ?_, distinct⟩
  · rw [shown.name, name_placeAt, resembles.name]
  · have hoffset := shown.offset
    rw [offset_placeAt, resembles.offset] at hoffset
    have hstart : m.range.start = (placeAt base placed).start := congrArg (·.start) shown.range
    rw [start_placeAt, resembles.offset, hoffset] at hstart
    rw [hoffset, Option.map_some]
    cases m <;> exact congrArg some hstart.symm

open RegisterMap.Member in
mutual

theorem placed_of_alike {regions : List BitBand.ConfiguredRegion} (path : NodePath) (base : Int) :
    ∀ (dm : Member) {placed : Member} {made m : RegisterMap.Member}, dm.Alike Resembles placed →
      ofDraft path (placeAt base placed) = .ok made → made.withAliases regions = .ok m →
      Placed base dm m
  | .register r, placed, made, m, alike, hmade, haliases => by
      have hshown := shownAs_withAliases (shownAs_of_ofDraft hmade) haliases
      cases placed with
      | cluster c' dms' => exact alike.elim
      | register r' =>
          obtain ⟨_, -, hmade⟩ := bind_eq_ok_iff.1 hmade
          cases hmade
          obtain ⟨_, -, haliases⟩ := bind_eq_ok_iff.1 haliases
          cases haliases
          exact hshown.standsAt alike (iff_of_true rfl ⟨_, rfl⟩) List.nodup_nil
  | .cluster c dms, placed, made, m, alike, hmade, haliases => by
      have hshown := shownAs_withAliases (shownAs_of_ofDraft hmade) haliases
      cases placed with
      | register r' => exact alike.elim
      | cluster c' dms' =>
          obtain ⟨_, hhead, hmade⟩ := bind_eq_ok_iff.1 hmade
          obtain ⟨_, -, hhead⟩ := bind_eq_ok_iff.1 hhead
          obtain ⟨_, haddress, hhead⟩ := bind_eq_ok_iff.1 hhead
          obtain ⟨ms, hms, hmade⟩ := bind_eq_ok_iff.1 hmade
          obtain ⟨_, hnames, hmade⟩ := bind_eq_ok_iff.1 hmade
          cases hmade
          cases hhead
          cases haddress
          obtain ⟨ms', hms', haliases⟩ := bind_eq_ok_iff.1 haliases
          cases haliases
          have hdistinct : (ms'.map RegisterMap.Member.name).Nodup := by
            rw [RegisterMap.Member.names_withAliasesAll hms']
            exact nodup_of_checkNames hnames
          exact ⟨hshown.standsAt alike.1 cluster_kind_iff hdistinct,
            placedAll_of_alikeAll path _ dms alike.2 hms hms'⟩

/-- What is made from the drafts of members that resemble those of an expanded draft, once they have
been placed. -/
theorem placedAll_of_alikeAll {regions : List BitBand.ConfiguredRegion} (path : NodePath)
    (base : Int) : ∀ (dms : List Member) {placed : List Member} {made ms : List RegisterMap.Member},
      AlikeAll Resembles dms placed → ofDraftAll path (placeAllAt base placed) = .ok made →
      withAliasesAll regions made = .ok ms → PlacedAll base dms ms
  | [], placed, made, ms, alike, hmade, haliases => by
      cases placed with
      | cons => exact alike.elim
      | nil =>
          cases hmade
          cases haliases
          trivial
  | dm :: dms, placed, made, ms, alike, hmade, haliases => by
      cases placed with
      | nil => exact alike.elim
      | cons dm' dms' =>
          obtain ⟨m, hm, hmade⟩ := bind_eq_ok_iff.1 hmade
          obtain ⟨rest, hrest, hmade⟩ := bind_eq_ok_iff.1 hmade
          cases hmade
          obtain ⟨m', hm', haliases⟩ := bind_eq_ok_iff.1 haliases
          obtain ⟨rest', hrest', haliases⟩ := bind_eq_ok_iff.1 haliases
          cases haliases
          exact ⟨placed_of_alike _ base dm alike.1 hm hm',
            placedAll_of_alikeAll path base dms alike.2 hrest hrest'⟩

end

end Draft.Member

/-- The peripheral is made from a peripheral of an expanded draft, with everything in it. -/
structure Peripheral.PlacedFrom (dp : Draft.Peripheral) (p : Peripheral) : Prop where
  name : p.name = dp.name
  baseAddress : dp.baseAddress = some p.address
  distinct : (p.members.map Member.name).Nodup
  members : Draft.Member.PlacedAll p.address dp.memberList p.members

theorem Peripheral.placedFrom_of_alike {regions : List BitBand.ConfiguredRegion}
    {path : NodePath} {dp placed : Draft.Peripheral} {p : Peripheral}
    (alike : dp.asMember.Alike Draft.Member.Resembles placed.asMember)
    (based : placed.baseAddress.isSome)
    (h : publish regions path placed.placeAll = .ok p) : PlacedFrom dp p := by
  obtain ⟨made, hmade, haliases⟩ := bind_eq_ok_iff.1 h
  obtain ⟨address, haddress, hmade⟩ := bind_eq_ok_iff.1 hmade
  obtain ⟨ms, hms, hmade⟩ := bind_eq_ok_iff.1 hmade
  obtain ⟨_, hnames, hmade⟩ := bind_eq_ok_iff.1 hmade
  cases hmade
  cases haddress
  obtain ⟨ms', hms', haliases⟩ := bind_eq_ok_iff.1 haliases
  cases haliases
  rw [placed.memberList_placeAll, ← Draft.Member.placeAllAt_eq_map] at hms
  obtain ⟨base, hbase⟩ := Option.isSome_iff_exists.1 based
  have hoffset : placed.baseAddress = dp.baseAddress := alike.1.offset
  refine ⟨alike.1.name, ?_, ?_, Draft.Member.placedAll_of_alikeAll path _ _ alike.2 hms hms'⟩
  · rw [← hoffset, hbase]
    rfl
  · rw [Member.names_withAliasesAll hms']
    exact Member.nodup_of_checkNames hnames

/-- The peripherals of a device are made from those of the expanded draft that are not excluded, and
their names are distinct. -/
theorem placedFrom_of_finish {tolerant : Bool} {regions : List BitBand.ConfiguredRegion}
    {draft : Draft.Device} {d : Device} (h : finish tolerant regions draft = .ok d) :
    List.Forall₂ Peripheral.PlacedFrom draft.peripherals d.peripherals ∧
      (d.peripherals.map (·.name)).Nodup := by
  obtain ⟨linked, hlinked, h⟩ := bind_eq_ok_iff.1 h
  obtain ⟨placed, hplaced, h⟩ := bind_eq_ok_iff.1 h
  refine ⟨?_, Device.nodup_names_of_publish h⟩
  obtain ⟨ps, hps, -, rfl⟩ := Device.publish_eq_ok_iff.1 h
  obtain ⟨halike, -⟩ := Draft.Device.alikeAll_resolveAlternates hlinked
  have hbased : ∀ dp ∈ linked.peripherals, dp.baseAddress.isSome := by
    obtain ⟨⟨⟩, hchecked, -⟩ := Logged.bind_eq_ok_iff.1 hplaced
    exact Draft.Device.checkBaseAddresses_eq_ok_iff.1 hchecked
  obtain rfl := Draft.Device.resolveAddresses_eq_ok hplaced
  have halike := Draft.Member.alikeAll_iff.1 halike
  unfold Draft.Device.elements at halike
  rw [List.forall₂_map_left_iff, List.forall₂_map_right_iff] at halike
  unfold Draft.Device.placeAll at hps
  rw [List.forall₂_map_left_iff] at hps
  refine forall₂_trans halike ((List.forall₂_and_left _ _).2 ⟨hbased, hps⟩) ?_
  exact fun dp linked p alike made =>
    Peripheral.placedFrom_of_alike alike made.1 made.2

/-! ### What ways lead to -/

section

open Draft.Member (Way PlacedAll expandedAll)

/-- A step adds to the base what the member to which it leads stands away from it. -/
theorem Draft.Step.Shows.address_eq {s : Draft.Step} {n : Draft.Member} (h : s.Shows n)
    {base address : Int} (stands : n.offset.map (base + ·) = some address) :
    address = base + s.advance := by
  rw [h.offset, Option.map_map] at stands
  unfold Draft.Step.advance
  cases hoffset : s.element.offset with
  | none =>
      rw [hoffset] at stands
      cases stands
  | some offset =>
      rw [hoffset, Option.map_some] at stands
      rw [Option.getD_some, ← Option.some.inj stands]
      rfl

/-- A way leads to an element of the device, and its steps add up to the distance. -/
theorem exists_node_of_way {dms : List Draft.Member} {ss : List Draft.Step}
    (way : Way dms ss) {n : Node} {base : Int} (address : n.address? = some base)
    (distinct : (n.members.map Member.name).Nodup)
    (placed : PlacedAll base (expandedAll dms) n.members) :
    ∃ n', n.follow? (ss.map (·.name)) = some n' ∧
      n'.address? = some (base + (ss.map (·.advance)).sum) ∧
      ∀ s ∈ ss.getLast?, s.element.kind = .register ↔ ∃ r, n' = .register r := by
  induction way generalizing n base with
  | nil => exact ⟨n, rfl, by simpa using address, nofun⟩
  | @cons dms s ss mem valid rest ih =>
      obtain ⟨i, hi, shows⟩ := valid.exists_instance
      obtain ⟨m, hm, hplaced⟩ := exists_mem_right (Draft.Member.placedAll_iff.1 placed)
        (Draft.Member.mem_expandedAll_iff.2 ⟨s.element, mem, i, hi, rfl⟩)
      have hstands := hplaced.standsAt
      have hinside := hplaced.members
      rw [shows.members, ← Node.members_node] at hinside
      have hdistinct := hstands.distinct
      rw [← Node.members_node] at hdistinct
      obtain ⟨n', hn', haddress, hkind⟩ := ih (Node.address?_node m) hdistinct hinside
      refine ⟨n', ?_, ?_, ?_⟩
      · rw [List.map_cons, ← shows.name, ← hstands.name, Node.follow?_member distinct hm]
        exact hn'
      · rw [haddress, shows.address_eq hstands.address, List.map_cons, List.sum_cons, Int.add_assoc]
      · cases ss with
        | cons t ts => exact hkind
        | nil =>
            obtain rfl := Option.some.inj hn'
            rintro s ⟨⟩
            rw [List.getLast_singleton, ← shows.kind, hstands.kind]
            cases m <;> simp [Member.node]

/-- Every register inside of an element of the device is at the end of a way. -/
theorem exists_way_of_mem {dms : List Draft.Member} {n : Node} {base : Int}
    (distinct : (n.members.map Member.name).Nodup)
    (placed : PlacedAll base (expandedAll dms) n.members) {m : Member} (hm : m ∈ n.members)
    {r : Register}
    (inside : ∀ {dms : List Draft.Member} {base : Int} {dm : Draft.Member},
      dm.Placed base m → dm.members = expandedAll dms →
        ∃ ss, Way dms ss ∧ m.node.follow? (ss.map (·.name)) = some (.register r)) :
    ∃ ss, Way dms ss ∧ n.follow? (ss.map (·.name)) = some (.register r) := by
  obtain ⟨dm, hdm, hplaced⟩ := exists_mem_left (Draft.Member.placedAll_iff.1 placed) hm
  obtain ⟨dm, mem, i, hi, rfl⟩ := Draft.Member.mem_expandedAll_iff.1 hdm
  obtain ⟨s, rfl, valid, shows⟩ := Draft.exists_step hi
  obtain ⟨ss, rest, hss⟩ := inside hplaced shows.members
  refine ⟨s :: ss, .cons mem valid rest, ?_⟩
  rw [List.map_cons, ← shows.name, ← hplaced.standsAt.name, Node.follow?_member distinct hm]
  exact hss

end

namespace Member

mutual

/-- What holds for registers, and for clusters if it holds for the members in them, holds for all
members. -/
theorem induction {P : Member → Prop} (register : ∀ r, P (.register r))
    (cluster : ∀ c ms, (∀ m ∈ ms, P m) → P (.cluster c ms)) : ∀ m, P m
  | .register r => register r
  | .cluster c ms => cluster c ms (inductionAll register cluster ms)

theorem inductionAll {P : Member → Prop} (register : ∀ r, P (.register r))
    (cluster : ∀ c ms, (∀ m ∈ ms, P m) → P (.cluster c ms)) : ∀ ms : List Member, ∀ m ∈ ms, P m
  | [] => List.forall_mem_nil _
  | m :: ms => List.forall_mem_cons.2
      ⟨induction register cluster m, inductionAll register cluster ms⟩

end

theorem mem_registersAll_iff {ms : List Member} {r : Register} :
    r ∈ registersAll ms ↔ ∃ m ∈ ms, r ∈ m.registers := by
  induction ms with
  | nil => simp [registersAll]
  | cons m ms ih => rw [registersAll, List.mem_append, ih, List.exists_mem_cons_iff]

theorem registersAll_append (ms ns : List Member) :
    registersAll (ms ++ ns) = registersAll ms ++ registersAll ns := by
  induction ms with
  | nil => rfl
  | cons m ms ih => rw [List.cons_append, registersAll, ih, registersAll, List.append_assoc]

theorem exists_way (m : Member) {r : Register} (hr : r ∈ m.registers) :
    ∀ {dms : List Draft.Member} {base : Int} {dm : Draft.Member}, dm.Placed base m →
      dm.members = Draft.Member.expandedAll dms → ∃ ss, Draft.Member.Way dms ss ∧
        m.node.follow? (ss.map (·.name)) = some (.register r) := by
  induction m using Member.induction with
  | register r' =>
      intros
      obtain rfl := List.mem_singleton.1 hr
      exact ⟨[], .nil, rfl⟩
  | cluster c ms ih =>
      intro dms base dm placed expanded
      obtain ⟨m, hm, hr⟩ := mem_registersAll_iff.1 hr
      have hinside := placed.members
      rw [expanded] at hinside
      exact exists_way_of_mem (n := .cluster c ms) placed.standsAt.distinct hinside hm (ih m hm hr)

end Member

/-- The registers are found in the order in which they stand in the tree. -/
theorem registersOf_eq_registersAll (ms : List Member) :
    registersOf ms = Member.registersAll ms := by
  induction ms using registersOf.induct with
  | case1 => simp [registersOf, Member.registersAll]
  | case2 r work ih => rw [registersOf, ih, Member.registersAll, Member.registers]; rfl
  | case3 c ms work ih =>
      rw [registersOf, ih, Member.registersAll_append, Member.registersAll, Member.registers]

/-! ### Devices -/

section

variable {derived expanded : Draft.Device} {excluded : List String}

theorem Draft.Peripheral.asMember_expanded_place (p : Draft.Peripheral)
    (i : Option Draft.Instance) :
    (Draft.place p i).expanded.asMember = Draft.place p.asMember.expanded i := by
  rw [asMember_expanded, asMember_place, Draft.Member.expanded_place]

/-- The peripheral of the expanded draft to which a step leads is kept if the step is. -/
theorem Draft.exists_kept_of_step (expand : derived.expand.result = .ok expanded)
    (single : ∀ p ∈ derived.peripherals, p.arrayName = none) {s : Draft.Step}
    (mem : s.element ∈ derived.elements) (valid : s.Valid) (kept : s.Kept excluded) :
    ∃ q ∈ (expanded.without excluded).peripherals, s.Shows q.asMember := by
  obtain ⟨p, hp, helement⟩ := List.mem_map.1 mem
  obtain ⟨i, hi, shows⟩ := valid.exists_instance
  rw [← helement] at hi
  rw [← helement, ← p.asMember_expanded_place] at shows
  have hq : (place p i).expanded ∈ p.expansion := List.mem_map_of_mem (List.mem_map_of_mem hi)
  have hname : (place p i).expanded.name = s.name := shows.name
  have hdeclared : p.name = s.element.name := congrArg Member.name helement
  refine ⟨_, List.mem_filter.2 ⟨?_, ?_⟩, shows⟩
  · obtain ⟨-, -, rfl⟩ := Device.expand_eq_ok_iff.1 expand
    exact List.mem_flatMap.2 ⟨p, hp, hq⟩
  · rw [Bool.not_eq_true', ← Bool.not_eq_true,
      Peripheral.isNamedIn_iff_of_mem_expansion (single p hp) hq, hname, hdeclared, not_or]
    exact kept

/-- Every peripheral that is kept is reached in one step. -/
theorem Draft.exists_step_of_kept (expand : derived.expand.result = .ok expanded)
    (single : ∀ p ∈ derived.peripherals, p.arrayName = none) {q : Draft.Peripheral}
    (hq : q ∈ (expanded.without excluded).peripherals) :
    ∃ s : Draft.Step, s.element ∈ derived.elements ∧ s.Valid ∧ s.Kept excluded ∧
      s.Shows q.asMember := by
  obtain ⟨hq, hkept⟩ := List.mem_filter.1 hq
  obtain ⟨-, -, rfl⟩ := Device.expand_eq_ok_iff.1 expand
  obtain ⟨p, hp, hq⟩ := List.mem_flatMap.1 hq
  rw [Bool.not_eq_true', ← Bool.not_eq_true,
    Peripheral.isNamedIn_iff_of_mem_expansion (single p hp) hq, not_or] at hkept
  obtain ⟨copy, hcopy, rfl⟩ := List.mem_map.1 hq
  obtain ⟨i, hi, rfl⟩ := List.mem_map.1 hcopy
  obtain ⟨s, hs, valid, shows⟩ := exists_step (m := p.asMember) hi
  rw [← p.asMember_expanded_place] at shows
  have hname : (place p i).expanded.name = s.name := shows.name
  have hdeclared : p.name = s.element.name := congrArg Member.name hs.symm
  refine ⟨s, hs ▸ List.mem_map_of_mem hp, valid, ?_, shows⟩
  exact ⟨hname ▸ hkept.1, hdeclared ▸ hkept.2⟩

variable {d : Device}

/-- The name of a peripheral leads to it. -/
theorem Node.follow?_peripheral (distinct : (d.peripherals.map (·.name)).Nodup) {p : Peripheral}
    (hp : p ∈ d.peripherals) (names : List String) :
    (Node.device d).follow? (p.name :: names) = (Node.peripheral p).follow? names :=
  follow?_cons rfl (lookup_map_of_nodup (f := Node.peripheral) distinct hp) names

/-- The first step leads to a peripheral of the device, and away from zero. -/
theorem Peripheral.PlacedFrom.address_eq {dp : Draft.Peripheral} {p : Peripheral}
    (placed : PlacedFrom dp p) {s : Draft.Step} (shows : s.Shows dp.asMember) :
    p.address = s.advance := by
  have hstands : dp.asMember.offset.map (0 + ·) = some p.address := by
    change dp.baseAddress.map (0 + ·) = some p.address
    rw [placed.baseAddress, Option.map_some, Int.zero_add]
  rw [shows.address_eq hstands, Int.zero_add]

variable (expand : derived.expand.result = .ok expanded)
  (single : ∀ p ∈ derived.peripherals, p.arrayName = none)
  (placed : List.Forall₂ Peripheral.PlacedFrom (expanded.without excluded).peripherals
    d.peripherals)
  (distinct : (d.peripherals.map (·.name)).Nodup)
include expand single placed distinct

theorem exists_node_of_route {ss : List Draft.Step} (route : derived.Route excluded ss)
    (some_step : ss ≠ []) : ∃ n, (Node.device d).follow? (ss.map (·.name)) = some n ∧
      n.address? = some (ss.map (·.advance)).sum ∧
      ∀ s ∈ ss.getLast?, s.element.kind = .register ↔ ∃ r, n = .register r := by
  obtain ⟨way, kept⟩ := route
  cases way with
  | nil => exact absurd rfl some_step
  | @cons _ s ss mem valid rest =>
      obtain ⟨q, hq, shows⟩ := Draft.exists_kept_of_step expand single mem valid (kept s rfl)
      obtain ⟨p, hp, hplaced⟩ := exists_mem_right placed hq
      have hinside := hplaced.members
      rw [show q.memberList = _ from shows.members] at hinside
      obtain ⟨n, hn, haddress, hkind⟩ :=
        exists_node_of_way rest (n := .peripheral p) rfl hplaced.distinct hinside
      refine ⟨n, ?_, ?_, ?_⟩
      · have hname : p.name = s.name := hplaced.name.trans shows.name
        rw [List.map_cons, ← hname, Node.follow?_peripheral distinct hp]
        exact hn
      · rw [haddress, hplaced.address_eq shows, List.map_cons, List.sum_cons]
      · cases ss with
        | cons t ts => exact hkind
        | nil =>
            obtain rfl := Option.some.inj hn
            rintro s ⟨⟩
            rw [List.getLast_singleton, ← shows.kind]
            refine iff_of_false nofun ?_
            rintro ⟨r, hr⟩
            cases hr

theorem exists_route_of_mem {r : Register} (hr : r ∈ d.registers) :
    ∃ ss, derived.Route excluded ss ∧ ss ≠ [] ∧
      (Node.device d).follow? (ss.map (·.name)) = some (.register r) := by
  obtain ⟨p, hp, hr⟩ := List.mem_flatMap.1 hr
  rw [Peripheral.registers, registersOf_eq_registersAll] at hr
  obtain ⟨m, hm, hr⟩ := Member.mem_registersAll_iff.1 hr
  obtain ⟨q, hq, hplaced⟩ := exists_mem_left placed hp
  obtain ⟨s, mem, valid, kept, shows⟩ := Draft.exists_step_of_kept expand single hq
  have hinside := hplaced.members
  rw [show q.memberList = _ from shows.members] at hinside
  obtain ⟨ss, rest, hss⟩ := exists_way_of_mem (n := .peripheral p) hplaced.distinct hinside hm
    (m.exists_way hr)
  refine ⟨s :: ss, ⟨.cons mem valid rest, ?_⟩, List.cons_ne_nil _ _, ?_⟩
  · rintro _ ⟨⟩
    exact kept
  · have hname : p.name = s.name := hplaced.name.trans shows.name
    rw [List.map_cons, ← hname, Node.follow?_peripheral distinct hp]
    exact hss

end

/-- The registers of a device are those at the ends of the ways through the derived draft that start
at a peripheral which is not excluded. The address of each register, and of each peripheral and
cluster on the way to it, is what the steps up to there add to it: for each element its offset,
which is known, and the distance of the instance from the first one. -/
theorem parse_sums_addresses {source : Source} {config : Config} {root : Element}
    {derived : Draft.Device} {d : Device} (parsed : (parse source config).result = .ok d)
    (read : source.read = .ok root) (reached : Draft.Reaches config root .derived derived) :
    (∀ r ∈ d.registers, ∃ ss, derived.Route config.excluded ss ∧
      (Node.device d).follow? (ss.map (·.name)) = some (.register r) ∧
      r.address = (ss.map (·.advance)).sum) ∧
    ∀ ss, derived.Route config.excluded ss → (∀ s ∈ ss, s.element.offset.isSome) ∧
      ∀ ss', ss' <+: ss → ss' ≠ [] →
        ∃ n, (Node.device d).follow? (ss'.map (·.name)) = some n ∧
          n.address? = some (ss'.map (·.advance)).sum ∧
          ∀ s ∈ ss'.getLast?, s.element.kind = .register ↔ ∃ r, n = .register r := by
  obtain ⟨regions, _, draft, -, hread, hbuilt, hcomplete⟩ := parse_eq_ok_iff.1 parsed
  obtain rfl := Except.ok.inj (read.symm.trans hread)
  obtain ⟨_, hderived, hcomplete⟩ := bind_eq_ok_iff.1 hcomplete
  obtain ⟨expanded, hexpanded, hfinish⟩ := bind_eq_ok_iff.1 hcomplete
  cases reached with
  | derive before pass =>
    have settled := before.settled
    cases before with
    | build build =>
      obtain rfl := Except.ok.inj (hbuilt.symm.trans build)
      cases hderived.symm.trans pass
      obtain ⟨placed, distinct⟩ := placedFrom_of_finish hfinish
      have single : ∀ p ∈ derived.peripherals, p.arrayName = none := fun p hp => by
        obtain ⟨p₀, hp₀, same⟩ :=
          exists_mem_left (Draft.Device.sameArray_resolveDerivations settled pass) hp
        exact same.arrayName.trans (Draft.arrayName_buildDevice root draft build p₀ hp₀)
      have complete := Draft.Device.complete_resolveDerivations settled
        (Draft.promising_buildDevice root draft build) pass
      refine ⟨fun r hr => ?_, fun ss route => ⟨?_, fun ss' part some_step => ?_⟩⟩
      · obtain ⟨ss, route, some_step, hss⟩ :=
          exists_route_of_mem hexpanded single placed distinct hr
        obtain ⟨n, hn, haddress, -⟩ :=
          exists_node_of_route hexpanded single placed distinct route some_step
        obtain rfl := Option.some.inj (hss.symm.trans hn)
        exact ⟨ss, route, hss, Option.some.inj haddress⟩
      · exact fun s hs => (route.way.forall complete s hs).offset
      · exact exists_node_of_route hexpanded single placed distinct (route.of_isPrefix part)
          some_step

/-! ### A document with nested arrays -/

open Element in
/-- A peripheral with an array of registers in an array of clusters, and an array of peripherals
that takes them over. -/
def nestedRoot : Element :=
  node "device" [leaf "name" "D", leaf "size" "8", leaf "resetValue" "0", node "peripherals" [
    node "peripheral" [leaf "name" "P", leaf "baseAddress" "0", node "registers" [
      node "cluster" [leaf "dim" "2", leaf "dimIncrement" "8", leaf "name" "C%s",
        leaf "addressOffset" "4",
        node "register" [leaf "dim" "2", leaf "dimIncrement" "2", leaf "dimIndex" "A,B",
          leaf "name" "R%s", leaf "addressOffset" "1"]]]],
    { node "peripheral" [leaf "dim" "2", leaf "dimIncrement" "64", leaf "name" "Q%s",
        leaf "baseAddress" "64"] with
      attributes := [("derivedFrom", "P")] }]]

/-- The lines of the document with these elements. -/
def nestedLines : List String := [
  "<device><name>D</name><size>8</size><resetValue>0</resetValue><peripherals>",
  "<peripheral><name>P</name><baseAddress>0</baseAddress><registers>",
  "<cluster><dim>2</dim><dimIncrement>8</dimIncrement><name>C%s</name>",
  "<addressOffset>4</addressOffset>",
  "<register><dim>2</dim><dimIncrement>2</dimIncrement><dimIndex>A,B</dimIndex>",
  "<name>R%s</name><addressOffset>1</addressOffset></register></cluster>",
  "</registers></peripheral>",
  "<peripheral derivedFrom=\"P\"><dim>2</dim><dimIncrement>64</dimIncrement>",
  "<name>Q%s</name><baseAddress>64</baseAddress></peripheral>",
  "</peripherals></device>"]

set_option maxRecDepth 10000 in
theorem read_nested : (Source.text (String.join nestedLines)).read = .ok nestedRoot := by
  have hlines : nestedLines = List.map String.ofList [_, _, _, _, _, _, _, _, _, _] := rfl
  change Markup.readText (String.join nestedLines) = .ok nestedRoot
  refine Markup.readText_join hlines ?_ ?_ ?_
  · decide +kernel
  · rfl
  · decide +kernel

namespace Draft

/-- The member is an array with the name, the offset and the dimension. -/
def Member.isArray (name : String) (offset : Int) (dim : Dimension) (m : Member) : Bool :=
  m.name = name ∧ m.offset = some offset ∧ m.header.dim = some dim

theorem Member.exists_step_of_isArray {m : Member} {name : String} {offset : Int}
    {dim : Dimension} (h : m.isArray name offset dim) (tokens : List String)
    (named : dim.tokens = .ok tokens) (index : Nat) {token : String}
    (token_index : tokens[index]? = some token) :
    Step.Valid ⟨m, index, instanceName name token⟩ ∧
      Step.advance ⟨m, index, instanceName name token⟩ = offset + index * dim.step := by
  obtain ⟨rfl, hoffset, hdim⟩ := of_decide_eq_true h
  exact ⟨.array hdim named token_index, by simp [Step.advance, Step.stride, hoffset, hdim]⟩

end Draft

/-- The second register of the second cluster of the second peripheral is where the steps to it
lead, and so is the cluster around it. -/
theorem parse_sums_addresses_nested :
    let config : Config := { tolerateOverlaps := true, excluded := ["P"] }
    ∃ d derived ss, (parse (.text (String.join nestedLines)) config).result = .ok d ∧
      Draft.Reaches config nestedRoot .derived derived ∧ derived.Route ["P"] ss ∧
      ss.map (·.name) = ["Q1", "C1", "RB"] ∧ ss.map (·.advance) = [64 + 64, 4 + 8, 1 + 2] ∧
      (∃ n, (Node.device d).follow? ["Q1", "C1"] = some n ∧ n.address? = some 140) ∧
      ∃ r, (Node.device d).follow? ["Q1", "C1", "RB"] = some (.register r) ∧ r.address = 143 := by
  intro config
  have hparsed : (parse (.text (String.join nestedLines)) config).result.toOption.any
      (·.peripherals.length = 2) := by
    rw [result_parse read_nested rfl]
    decide +kernel
  have hbuilt : (Draft.buildDevice nestedRoot).result.toOption.any fun built =>
      built.resolveDerivations.result.toOption.any fun derived =>
        derived.elements.any fun p => p.isArray "Q%s" 64 ⟨2, 64, none⟩ && p.members.any fun c =>
          c.isArray "C%s" 4 ⟨2, 8, none⟩ && c.members.any fun r =>
            r.isArray "R%s" 1 ⟨2, 2, some "A,B"⟩ && r.kind = .register := by
    decide +kernel
  obtain ⟨d, hd, -⟩ := exists_ok_of_any hparsed
  obtain ⟨built, hbuilt, h⟩ := exists_ok_of_any hbuilt
  obtain ⟨derived, hderived, h⟩ := exists_ok_of_any h
  simp only [List.any_eq_true, Bool.and_eq_true, decide_eq_true_eq] at h
  obtain ⟨p, hp, hparray, c, hc, hcarray, r, hr, hrarray, hkind⟩ := h
  obtain ⟨hpvalid, hpadvance⟩ := Draft.Member.exists_step_of_isArray hparray ["0", "1"] rfl 1 rfl
  obtain ⟨hcvalid, hcadvance⟩ := Draft.Member.exists_step_of_isArray hcarray ["0", "1"] rfl 1 rfl
  obtain ⟨hrvalid, hradvance⟩ := Draft.Member.exists_step_of_isArray hrarray ["A", "B"] rfl 1 rfl
  let ss : List Draft.Step := [⟨p, 1, "Q1"⟩, ⟨c, 1, "C1"⟩, ⟨r, 1, "RB"⟩]
  have hroute : derived.Route ["P"] ss := by
    refine ⟨.cons hp hpvalid (.cons hc hcvalid (.cons hr hrvalid .nil)), ?_⟩
    rintro s ⟨⟩
    obtain ⟨hname, -⟩ := of_decide_eq_true hparray
    exact ⟨by simp, by simp [hname]⟩
  have hadvance : ss.map (·.advance) = [64 + 64, 4 + 8, 1 + 2] := by
    simp only [ss, List.map_cons, List.map_nil]
    exact congrArg₂ _ hpadvance (congrArg₂ _ hcadvance (congrArg (· :: []) hradvance))
  have hreached : Draft.Reaches config nestedRoot .derived derived :=
    .derive (.build hbuilt) hderived
  obtain ⟨-, hways⟩ := parse_sums_addresses hd read_nested hreached
  obtain ⟨-, hway⟩ := hways ss hroute
  obtain ⟨n, hn, hnaddress, -⟩ := hway (ss.take 2) (List.take_prefix 2 ss) (List.cons_ne_nil _ _)
  obtain ⟨n', hn', haddress, hregister⟩ := hway ss (List.prefix_refl ss) (List.cons_ne_nil _ _)
  obtain ⟨r', rfl⟩ := (hregister _ rfl).1 hkind
  rw [List.map_take, hadvance] at hnaddress
  rw [hadvance] at haddress
  exact ⟨d, derived, ss, hd, hreached, hroute, rfl, hadvance, ⟨n, hn, hnaddress⟩, r', hn',
    Option.some.inj haddress⟩

end RegisterMap
