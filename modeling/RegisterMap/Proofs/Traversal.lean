import Mathlib.Data.List.Flatten
import Mathlib.Data.List.Lex
import RegisterMap.Proofs.Aliases
import RegisterMap.Proofs.Elements
import RegisterMap.Proofs.Loops

/-!
# The order of registers

The registers below an element are found by a loop over a stack of members: the member on top is
taken away and, if it is a cluster, replaced by its own members, the first one on top. With every
step the registers found so far, followed by those in the members on the stack, stay the same
(`Visit.outcome_step`), so the loop ends with the registers in the order of the recursion on the
tree.

Every element below another one stands at a place: the positions that lead to it. In the order of
the recursion the places are in lexicographic order, and each is listed once (`Node.exists_lists`).
So the registers below a device, peripheral or cluster are those at all of its places, each once and
in this order (`Node.registers_in_preorder`).
-/

namespace RegisterMap

/-! ### The loop -/

/-- A loop over members: those still to be visited, the next one last, and the registers found. -/
structure Visit where
  stack : List Member
  found : List Register

namespace Visit

/-- Visit the last member on the stack. The members of a cluster are put on the stack from the last
one to the first one. -/
def step (v : Visit) : Option Visit :=
  match v.stack.getLast? with
  | none => none
  | some (.register r) => some { stack := v.stack.dropLast, found := v.found ++ [r] }
  | some (.cluster _ ms) => some { stack := v.stack.dropLast ++ ms.reverse, found := v.found }

/-- The registers found so far and those in the members still to be visited. -/
def outcome (v : Visit) : List Register :=
  v.found ++ Member.registersAll v.stack.reverse

variable {v w : Visit}

theorem step_eq_none_iff : v.step = none ↔ v.stack = [] := by
  rw [← List.getLast?_eq_none_iff, step]
  split
  · next h => exact iff_of_true rfl h
  · next h => exact iff_of_false nofun (by rw [h]; nofun)
  · next h => exact iff_of_false nofun (by rw [h]; nofun)

theorem outcome_step (h : v.step = some w) : w.outcome = v.outcome := by
  unfold step at h
  split at h
  · cases h
  · next r hlast =>
    cases h
    obtain ⟨rest, hstack⟩ := List.getLast?_eq_some_iff.1 hlast
    rw [outcome, outcome, hstack, List.dropLast_concat, List.reverse_concat, Member.registersAll,
      Member.registers, List.append_assoc]
  · next c ms hlast =>
    cases h
    obtain ⟨rest, hstack⟩ := List.getLast?_eq_some_iff.1 hlast
    rw [outcome, outcome, hstack, List.dropLast_concat, List.reverse_concat, List.reverse_append,
      List.reverse_reverse, Member.registersAll_append, Member.registersAll, Member.registers]

theorem countAll_reverse (ms : List Member) : Member.countAll ms.reverse = Member.countAll ms := by
  induction ms with
  | nil => rfl
  | cons m ms ih =>
      rw [List.reverse_cons, Member.countAll_append, ih, Member.countAll, Member.countAll,
        Member.countAll]
      omega

theorem count_step (h : v.step = some w) :
    Member.countAll w.stack < Member.countAll v.stack := by
  unfold step at h
  split at h
  · cases h
  · next r hlast =>
    cases h
    obtain ⟨rest, hstack⟩ := List.getLast?_eq_some_iff.1 hlast
    rw [hstack, List.dropLast_concat, Member.countAll_append, Member.countAll, Member.count]
    exact Nat.lt_add_of_pos_right (by omega)
  · next c ms hlast =>
    cases h
    obtain ⟨rest, hstack⟩ := List.getLast?_eq_some_iff.1 hlast
    rw [hstack, List.dropLast_concat, Member.countAll_append, Member.countAll_append,
      countAll_reverse, Member.countAll, Member.count, Member.countAll]
    omega

/-- The loop over members ends with the registers in them. -/
theorem ends (ms : List Member) : Ends step ⟨ms.reverse, []⟩ ⟨[], registersOf ms⟩ := by
  have keeps (v w : Visit) (h : v.outcome = registersOf ms) (hstep : v.step = some w) :
      w.outcome = registersOf ms ∧ Member.countAll w.stack < Member.countAll v.stack :=
    ⟨(outcome_step hstep).trans h, count_step hstep⟩
  have start : outcome ⟨ms.reverse, []⟩ = registersOf ms := by
    rw [outcome, List.reverse_reverse, List.nil_append, registersOf_eq_registersAll]
  obtain ⟨⟨stack, found⟩, hends, houtcome, hlast⟩ := loop_ends keeps start
  obtain rfl := step_eq_none_iff.1 hlast
  have hfound : found = registersOf ms := by
    rw [← houtcome, outcome, List.reverse_nil, Member.registersAll, List.append_nil]
  exact hfound ▸ hends

end Visit

/-! ### Registers among the elements -/

/-- The element, if it is a register. -/
def Node.register? : Node → Option Register
  | .register r => some r
  | .device _ | .peripheral _ | .cluster .. | .field _ => none

theorem Node.register?_eq_some_iff {n : Node} {r : Register} :
    n.register? = some r ↔ n = .register r := by
  cases n <;> simp [register?]

namespace Member

mutual

theorem registers_eq_filterMap : ∀ m : Member,
    m.registers = (m.node :: m.nodesInside).filterMap Node.register?
  | .register r => by
      have hfields : (r.fields.map Node.field).filterMap Node.register? = [] := by
        rw [List.filterMap_map]
        exact List.filterMap_eq_nil_iff.2 fun f _ => rfl
      rw [registers, nodesInside, node, List.filterMap_cons_some (by rfl), hfields]
  | .cluster c ms => by
      rw [registers, nodesInside, node, List.filterMap_cons_none (by rfl)]
      exact registersAll_eq_filterMap ms

theorem registersAll_eq_filterMap : ∀ ms : List Member,
    registersAll ms = (nodesOf ms).filterMap Node.register?
  | [] => by rw [registersAll, nodesOf, List.filterMap_nil]
  | m :: ms => by
      rw [registersAll, nodesOf, List.filterMap_append, registers_eq_filterMap m,
        registersAll_eq_filterMap ms]

end

theorem registersOf_eq_filterMap (ms : List Member) :
    registersOf ms = (nodesOf ms).filterMap Node.register? := by
  rw [registersOf_eq_registersAll, registersAll_eq_filterMap]

end Member

namespace Node

variable {n c e : Node}

/-- The registers of a device, peripheral or cluster are those among the elements below it. -/
theorem registers_eq_filterMap (noRegister : ∀ r, n ≠ .register r) (noField : ∀ f, n ≠ .field f) :
    n.registers = .ok (n.below.filterMap register?) := by
  cases n with
  | device d =>
      have hperipheral (p : Peripheral) : p.registers =
          (peripheral p :: Member.nodesOf p.members).filterMap register? := by
        rw [List.filterMap_cons_none (by rfl)]
        exact Member.registersOf_eq_filterMap p.members
      rw [registers, below, List.filterMap_flatMap, Device.registers]
      exact congrArg Except.ok (List.flatMap_congr fun p _ => hperipheral p)
  | peripheral p => exact congrArg Except.ok (Member.registersOf_eq_filterMap p.members)
  | cluster c ms => exact congrArg Except.ok (Member.registersOf_eq_filterMap ms)
  | register r => exact absurd rfl (noRegister r)
  | field f => exact absurd rfl (noField f)

/-! ### Places -/

/-- The element at a place: each position is that of an element inside of the one before. -/
def elementAt (n : Node) (place : List Nat) : Except Error Node :=
  n.descend (place.map fun i : Nat => .position i)

theorem get_position_eq_ok_iff {i : Nat} :
    n.get (.position i) = .ok c ↔ n.inside[i]? = some c := by
  rw [get, children, inside]
  cases n.children? with
  | none =>
      constructor
      · intro h
        cases h
      · intro h
        cases h
  | some m =>
      change m.get (.position i) = .ok c ↔ m.values[i]? = some c
      rw [NameMap.get, Position.item?_natCast]
      cases m.values[i]? <;> simp

theorem elementAt_nil : n.elementAt [] = .ok n := rfl

theorem elementAt_cons_eq_ok_iff {i : Nat} {place : List Nat} :
    n.elementAt (i :: place) = .ok e ↔ ∃ c, n.inside[i]? = some c ∧ c.elementAt place = .ok e := by
  have hfirst : n.elementAt (i :: place) = (n.get (.position i)).bind (·.elementAt place) := rfl
  rw [hfirst]
  cases hget : n.get (.position i) with
  | error error =>
      refine iff_of_false nofun ?_
      rintro ⟨c, hc, -⟩
      rw [get_position_eq_ok_iff.2 hc] at hget
      cases hget
  | ok a =>
      have ha := get_position_eq_ok_iff.1 hget
      rw [ha]
      simp [Except.bind]

/-- The places of the elements below an element, with the elements there: they are in the order of
the recursion on the tree, which is the lexicographic order of places, and they are complete. -/
structure Lists (n : Node) (sites : List (List Nat × Node)) : Prop where
  elements : sites.map (·.2) = n.below
  sorted : sites.Pairwise (·.1 < ·.1)
  mem_iff : ∀ place e, (place, e) ∈ sites ↔ place ≠ [] ∧ n.elementAt place = .ok e

theorem Lists.elementAt_eq_ok_iff {sites : List (List Nat × Node)} (h : n.Lists sites)
    {place : List Nat} :
    n.elementAt place = .ok e ↔ (place, e) = ([], n) ∨ (place, e) ∈ sites := by
  rw [h.mem_iff, Prod.mk.injEq]
  by_cases hplace : place = []
  · subst hplace
    rw [elementAt_nil]
    simp [eq_comm]
  · simp [hplace]

/-- The element at a position with what is below it, at places of the element around it. -/
def sitesAt (i : Nat) (c : Node) (below : List (List Nat × Node)) : List (List Nat × Node) :=
  ([i], c) :: below.map fun s => (i :: s.1, s.2)

namespace Lists

variable {below : List (List Nat × Node)}

theorem map_sitesAt (h : c.Lists below) (i : Nat) :
    (sitesAt i c below).map (·.2) = c :: c.below := by
  rw [sitesAt, List.map_cons, List.map_map, ← h.elements]
  rfl

theorem sorted_sitesAt (h : c.Lists below) (i : Nat) :
    (sitesAt i c below).Pairwise (·.1 < ·.1) := by
  rw [sitesAt, List.pairwise_cons, List.forall_mem_map, List.pairwise_map]
  constructor
  · rintro ⟨place, e⟩ hsite
    obtain ⟨ne, -⟩ := (h.mem_iff place e).1 hsite
    obtain ⟨j, rest, rfl⟩ := List.exists_cons_of_ne_nil ne
    exact List.cons_lt_cons_iff.2 (.inr ⟨rfl, List.nil_lt_cons j rest⟩)
  · exact h.sorted.imp fun hlt => List.cons_lt_cons_iff.2 (.inr ⟨rfl, hlt⟩)

theorem mem_sitesAt_iff (h : c.Lists below) {i : Nat} {place : List Nat} :
    (place, e) ∈ sitesAt i c below ↔ ∃ rest, place = i :: rest ∧ c.elementAt rest = .ok e := by
  simp only [sitesAt, h.elementAt_eq_ok_iff, List.mem_cons, List.mem_map, Prod.mk.injEq]
  constructor
  · rintro (⟨rfl, rfl⟩ | ⟨⟨rest, e⟩, hsite, rfl, rfl⟩)
    · exact ⟨[], rfl, .inl ⟨rfl, rfl⟩⟩
    · exact ⟨rest, rfl, .inr hsite⟩
  · rintro ⟨rest, rfl, ⟨rfl, rfl⟩ | hsite⟩
    · exact .inl ⟨rfl, rfl⟩
    · exact .inr ⟨(rest, e), hsite, rfl, rfl⟩

end Lists

/-- The places of several elements, the first one at the given position, and of what is below them,
if those below each of the elements are listed. -/
theorem exists_sites {cs : List Node} (each : ∀ c ∈ cs, ∃ sites, c.Lists sites) (first : Nat) :
    ∃ sites : List (List Nat × Node),
      sites.map (·.2) = cs.flatMap (fun c => c :: c.below) ∧
      sites.Pairwise (·.1 < ·.1) ∧
      ∀ place e, (place, e) ∈ sites ↔ ∃ i c rest, cs[i]? = some c ∧ place = (first + i) :: rest ∧
        c.elementAt rest = .ok e := by
  induction cs generalizing first with
  | nil => exact ⟨[], rfl, .nil, by simp⟩
  | cons c cs ih =>
      rw [List.forall_mem_cons] at each
      obtain ⟨⟨below, hbelow⟩, each⟩ := each
      obtain ⟨sites, helements, hsorted, hmem⟩ := ih each (first + 1)
      refine ⟨sitesAt first c below ++ sites, ?_, ?_, fun place e => ?_⟩
      · rw [List.map_append, hbelow.map_sitesAt, helements, List.flatMap_cons]
      · refine List.pairwise_append.2 ⟨hbelow.sorted_sitesAt first, hsorted, fun s hs t ht => ?_⟩
        -- The places of the other elements start with higher positions.
        obtain ⟨rest, hs, -⟩ := hbelow.mem_sitesAt_iff.1 hs
        obtain ⟨i, -, rest', -, ht, -⟩ := (hmem t.1 t.2).1 ht
        rw [hs, ht]
        exact List.cons_lt_cons_iff.2 (.inl (by omega))
      · rw [List.mem_append, hbelow.mem_sitesAt_iff, hmem]
        constructor
        · rintro (⟨rest, hplace, he⟩ | ⟨i, c', rest, hc', hplace, he⟩)
          · exact ⟨0, c, rest, rfl, hplace, he⟩
          · exact ⟨i + 1, c', rest, hc', by rw [hplace, Nat.add_assoc, Nat.add_comm 1], he⟩
        · rintro ⟨i, c', rest, hc', hplace, he⟩
          cases i with
          | zero =>
              cases hc'
              exact .inl ⟨rest, hplace, he⟩
          | succ i =>
              exact .inr ⟨i, c', rest, hc', by rw [hplace, Nat.add_assoc, Nat.add_comm 1], he⟩

/-- The places below every element can be listed. -/
theorem exists_lists (n : Node) : ∃ sites, n.Lists sites := by
  have step : Hereditary fun n => ∃ sites, n.Lists sites := by
    intro n each
    obtain ⟨sites, helements, hsorted, hmem⟩ := exists_sites each 0
    refine ⟨sites, by rw [helements, below_eq], hsorted, fun place e => ?_⟩
    rw [hmem]
    constructor
    · rintro ⟨i, c, rest, hc, rfl, he⟩
      rw [Nat.zero_add]
      exact ⟨List.cons_ne_nil i rest, elementAt_cons_eq_ok_iff.2 ⟨c, hc, he⟩⟩
    · rintro ⟨ne, he⟩
      obtain ⟨i, rest, rfl⟩ := List.exists_cons_of_ne_nil ne
      obtain ⟨c, hc, he⟩ := elementAt_cons_eq_ok_iff.1 he
      exact ⟨i, c, rest, hc, by rw [Nat.zero_add], he⟩
  exact step.all n

/-- The registers below a device, peripheral or cluster are found in the order of the recursion on
the tree, in which every element comes before what is inside of it and siblings come in the order
of declaration. They are those at all places below it, each place occurring once, and the places
are in lexicographic order. The loop over members by which the registers are found ends, whatever
the members are. -/
theorem registers_in_preorder (noRegister : ∀ r, n ≠ .register r) (noField : ∀ f, n ≠ .field f) :
    (∀ ms, Ends Visit.step ⟨ms.reverse, []⟩ ⟨[], registersOf ms⟩) ∧
    ∃ rs, n.registers = .ok rs ∧ rs = n.below.filterMap register? ∧
      ∃ sites : List (List Nat × Register), sites.map (·.2) = rs ∧
        sites.Pairwise (·.1 < ·.1) ∧
        ∀ place r, (place, r) ∈ sites ↔ n.elementAt place = .ok (.register r) := by
  refine ⟨Visit.ends, _, registers_eq_filterMap noRegister noField, rfl, ?_⟩
  obtain ⟨sites, hsites⟩ := n.exists_lists
  refine ⟨sites.filterMap fun s => s.2.register?.map (s.1, ·), ?_, ?_, fun place r => ?_⟩
  · rw [List.map_filterMap, ← hsites.elements, List.filterMap_map]
    refine List.filterMap_congr fun s _ => ?_
    cases h : s.2.register? <;> simp [h]
  · refine hsites.sorted.filterMap _ fun s t hlt a ha b hb => ?_
    obtain ⟨r, -, rfl⟩ := Option.map_eq_some_iff.1 ha
    obtain ⟨r', -, rfl⟩ := Option.map_eq_some_iff.1 hb
    exact hlt
  · have hsite : (place, r) ∈ sites.filterMap (fun s => s.2.register?.map (s.1, ·)) ↔
        (place, Node.register r) ∈ sites := by
      rw [List.mem_filterMap]
      constructor
      · rintro ⟨⟨place, e⟩, hs, hr⟩
        obtain ⟨r, hr, heq⟩ := Option.map_eq_some_iff.1 hr
        cases heq
        exact register?_eq_some_iff.1 hr ▸ hs
      · intro hs
        exact ⟨_, hs, rfl⟩
    rw [hsite, hsites.elementAt_eq_ok_iff, or_iff_right]
    intro heq
    exact noRegister r (Prod.mk.inj heq).2.symm

end Node

/-! ### A device with clusters in clusters -/

/-- A register of which only the name matters. -/
def Register.named (name : String) : Register :=
  { name, path := ⟨[name]⟩, offset := 0, address := 0, size := 32, access := .readWrite,
    resetValue := 0, resetMask := 0 }

/-- A cluster of which only the name and the members matter. -/
def Member.clusterNamed (name : String) (ms : List Member) : Member :=
  .cluster { name, path := ⟨[name]⟩, offset := 0, address := 0, size := 4 } ms

/-- In the first peripheral, an empty cluster stands in front of a register, and that one in front
of another cluster; a register follows the cluster around them. -/
def nestedDevice : Device :=
  { name := "DEVICE"
    peripherals := [
      { name := "P", path := ⟨["DEVICE", "P"]⟩, address := 0, members := [
          .register (.named "A"),
          .clusterNamed "C" [.clusterNamed "E" [], .register (.named "B"),
            .clusterNamed "F" [.register (.named "D")]],
          .register (.named "G")] },
      { name := "Q", path := ⟨["DEVICE", "Q"]⟩, address := 0, members := [
          .register (.named "H")] }] }

/-- The register in the innermost cluster comes before the one that follows the clusters around
it. -/
theorem registers_in_preorder_nested : ∃ rs, (Node.device nestedDevice).registers = .ok rs ∧
    rs.map (·.name) = ["A", "B", "D", "G", "H"] ∧
      ∃ sites : List (List Nat × Register), sites.map (·.2) = rs ∧ sites.Pairwise (·.1 < ·.1) ∧
        ([0, 1, 2, 0], .named "D") ∈ sites := by
  have noRegister (d : Device) (r : Register) : Node.device d ≠ .register r := nofun
  have noField (d : Device) (f : Field) : Node.device d ≠ .field f := nofun
  obtain ⟨-, rs, hrs, hbelow, sites, hmap, hsorted, hmem⟩ :=
    Node.registers_in_preorder (noRegister nestedDevice) (noField nestedDevice)
  refine ⟨rs, hrs, ?_, sites, hmap, hsorted, (hmem _ _).2 ?_⟩
  · rw [hbelow]
    decide +kernel
  · refine Node.elementAt_cons_eq_ok_iff.2 ⟨_, rfl, ?_⟩
    refine Node.elementAt_cons_eq_ok_iff.2 ⟨_, rfl, ?_⟩
    refine Node.elementAt_cons_eq_ok_iff.2 ⟨_, rfl, ?_⟩
    exact Node.elementAt_cons_eq_ok_iff.2 ⟨_, rfl, rfl⟩

end RegisterMap
