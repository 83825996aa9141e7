import RegisterMap.Proofs.Resolvability

/-!
# Depth first

References to bases make the peripherals of a device into a forest: its roots are the peripherals
that are not derived, and below each peripheral are those that are derived from it. The order of
derivation goes through this forest depth first (`DepthFirst`). Roots, and the peripherals below one
and the same, are in the order of the device.

A peripheral on a circle of references, or derived from one on a circle, is in no tree of the
forest. So there is an order if and only if there is no circle.
-/

namespace RegisterMap.Draft

open scoped List

/-- The peripherals of `all` that are derived from a peripheral. -/
def derivedAmong (all : List Numbered) (p : Numbered) : List Numbered :=
  all.filter (·.1.derivedFrom = some p.1.name)

/-- The second list goes depth first through the trees whose roots are the first list: a peripheral
is followed by the trees of those that are derived from it, and then by the trees of the others. -/
inductive DepthFirst (all : List Numbered) : List Numbered → List Numbered → Prop
  | nil : DepthFirst all [] []
  | cons {p : Numbered} {roots below rest : List Numbered}
      (tree : DepthFirst all (derivedAmong all p) below) (others : DepthFirst all roots rest) :
      DepthFirst all (p :: roots) (p :: (below ++ rest))

namespace DepthFirst

variable {all all' roots order : List Numbered}

/-- Roots determine the order. -/
theorem unique {order' : List Numbered} (h : DepthFirst all roots order)
    (h' : DepthFirst all roots order') : order = order' := by
  induction h generalizing order' with
  | nil =>
      cases h'
      rfl
  | cons _ _ ihtree ihothers =>
      cases h' with
      | cons tree' others' => rw [ihtree tree', ihothers others']

/-- The trees of several roots are the trees of the first ones, and then those of the others. -/
theorem exists_append {first second : List Numbered} (h : DepthFirst all (first ++ second) order) :
    ∃ before after, order = before ++ after ∧ DepthFirst all first before ∧
      DepthFirst all second after := by
  induction first generalizing order with
  | nil => exact ⟨[], order, rfl, .nil, h⟩
  | cons p first ih =>
      cases h with
      | @cons _ _ below rest tree others =>
          obtain ⟨before, after, rfl, hbefore, hafter⟩ := ih others
          exact ⟨p :: (below ++ before), after, by simp, .cons tree hbefore, hafter⟩

/-- Only those matter that are derived from a peripheral in the order. -/
theorem congr (h : DepthFirst all roots order)
    (heq : ∀ p ∈ order, derivedAmong all p = derivedAmong all' p) :
    DepthFirst all' roots order := by
  induction h with
  | nil => exact .nil
  | @cons p roots below rest _ _ ihtree ihothers =>
      simp only [List.forall_mem_cons, List.forall_mem_append] at heq
      obtain ⟨hp, hbelow, hrest⟩ := heq
      have htree := ihtree hbelow
      rw [hp] at htree
      exact .cons htree (ihothers hrest)

end DepthFirst

/-- What is derived from a peripheral of another name is all on the same side when the peripherals
are split. -/
theorem derivedAmong_splitDerived {name : String} {p : Numbered} (h : p.1.name ≠ name)
    (ps : List Numbered) : derivedAmong (splitDerived name ps).2 p = derivedAmong ps p := by
  rw [splitDerived, List.partition_eq_filter_filter]
  unfold derivedAmong
  rw [List.filter_filter]
  refine List.filter_congr fun q _ => ?_
  by_cases hq : q.1.derivedFrom = some p.1.name <;> simp [hq, h]

/-- Peripherals that are ready are taken up depth first, together with those that wait for them. -/
theorem depthFirst_preorder (waiting ready : List Numbered)
    (names : ((ready ++ waiting).map (·.1.name)).Nodup) :
    DepthFirst waiting ready (preorder waiting ready).1 := by
  fun_induction preorder waiting ready with
  | case1 waiting => exact .nil
  | case2 waiting p ready split rest ih =>
      obtain ⟨hnew, hnames⟩ := List.nodup_cons.1 names
      have hperm : split.1 ++ ready ++ split.2 ~ ready ++ waiting := by
        have hsplit := splitDerived_perm p.1.name waiting
        exact (List.perm_append_comm.append_right _).trans
          (by simpa only [List.append_assoc] using hsplit.append_left ready)
      obtain ⟨below, others, horder, hbelow, hothers⟩ :=
        (ih ((hperm.map _).nodup_iff.2 hnames)).exists_append
      change rest.1 = below ++ others at horder
      -- No other peripheral has the name, so taking away those that wait for it changes no tree.
      have hsame : ∀ q ∈ below ++ others, derivedAmong split.2 q = derivedAmong waiting q := by
        intro q hq
        refine derivedAmong_splitDerived (fun hname => hnew ?_) waiting
        rw [← horder] at hq
        have hmem := ((preorder_perm _ _).trans hperm).mem_iff.1 (List.mem_append_left _ hq)
        exact List.mem_map.2 ⟨q, hmem, hname⟩
      rw [List.forall_mem_append] at hsame
      have htree : split.1 = derivedAmong waiting p := by
        simp [split, splitDerived, List.partition_eq_filter_filter, derivedAmong]
      rw [horder]
      refine .cons ?_ (hothers.congr hsame.2)
      rw [← htree]
      exact hbelow.congr hsame.1

namespace Device

/-- The peripherals that are not derived. -/
def roots (d : Device) : List Numbered :=
  d.peripherals.zipIdx.filter (·.1.derivedFrom = none)

variable {d : Device}

/-- The order of derivation goes through all peripherals depth first. -/
theorem depthFirst_derivationOrder (names : (d.peripherals.map (·.name)).Nodup)
    {order : List Numbered} (h : derivationOrder d.path d.peripherals = .ok order) :
    DepthFirst d.peripherals.zipIdx d.roots order := by
  have hnumbered : (d.peripherals.zipIdx.map (·.1.name)).Nodup := by
    rw [← List.zipIdx_map_fst 0 d.peripherals, List.map_map] at names
    exact names
  let derived : Numbered → Bool := (·.1.derivedFrom.isSome)
  let waiting := d.peripherals.zipIdx.filter derived
  let ready := d.peripherals.zipIdx.filter (!derived ·)
  have hsplit : d.peripherals.zipIdx.partition derived = (waiting, ready) :=
    List.partition_eq_filter_filter ..
  have hready : ready = d.roots := List.filter_congr fun p _ => by
    cases h : p.1.derivedFrom <;> simp [derived, h]
  have hall : ready ++ waiting ~ d.peripherals.zipIdx :=
    List.perm_append_comm.trans (List.filter_append_perm derived _)
  have hwaiting (p : Numbered) : derivedAmong waiting p = derivedAmong d.peripherals.zipIdx p := by
    unfold derivedAmong
    rw [List.filter_filter]
    exact List.filter_congr fun q _ => by simp +contextual [derived]
  have htaken := depthFirst_preorder waiting ready ((hall.map _).nodup_iff.2 hnumbered)
  unfold derivationOrder at h
  rw [hsplit] at h
  dsimp only at h
  split at h
  · next order' hpreorder =>
    cases h
    rw [hpreorder, hready] at htaken
    exact htaken.congr fun p _ => hwaiting p
  · cases h

end Device

/-- If peripherals have names of their own and every reference names one of them, there is an order
of derivation if and only if no references lead in a circle. The order is the one that goes through
the forest of peripherals depth first: each peripheral occurs in it once, and none before its base.
If references lead in a circle, a circle is reported. -/
theorem derivationOrder_sorts (d : Device) (names : (d.peripherals.map (·.name)).Nodup)
    (exist : d.BasesExist) :
    ((∃ order, derivationOrder d.path d.peripherals = .ok order) ↔ d.Acyclic) ∧
      (∀ order, derivationOrder d.path d.peripherals = .ok order →
        order ~ d.peripherals.zipIdx ∧ BasesFirst [] order) ∧
      (∀ order, derivationOrder d.path d.peripherals = .ok order ↔
        d.Acyclic ∧ DepthFirst d.peripherals.zipIdx d.roots order) ∧
      (¬ d.Acyclic → ∃ p others, Circle d.HasBase p others ∧
        derivationOrder d.path d.peripherals =
          .error (.cycle ((p :: others ++ [p]).map (d.path.child ·.name)))) := by
  have hacyclic (order : List Numbered) (h : derivationOrder d.path d.peripherals = .ok order) :
      d.Acyclic := by
    obtain ⟨hperm, first⟩ := derivationOrder_eq_ok h
    exact Device.acyclic_of_basesFirst names hperm first
  have hexists (acyclic : d.Acyclic) :
      ∃ order, derivationOrder d.path d.peripherals = .ok order := by
    obtain ⟨order, h, -⟩ := exists_derivationOrder exist acyclic
    exact ⟨order, h⟩
  refine ⟨⟨fun ⟨order, h⟩ => hacyclic order h, hexists⟩, fun _ => derivationOrder_eq_ok,
    fun order => ⟨fun h => ⟨hacyclic order h, Device.depthFirst_derivationOrder names h⟩, ?_⟩,
    fun hcyclic => ?_⟩
  · rintro ⟨acyclic, hdepth⟩
    obtain ⟨order', h⟩ := hexists acyclic
    rw [hdepth.unique (Device.depthFirst_derivationOrder names h), h]
  · cases h : derivationOrder d.path d.peripherals with
    | ok order => exact absurd (hacyclic order h) hcyclic
    | error e =>
        obtain ⟨p, others, hcircle, rfl⟩ := Device.exists_circle_of_derivationOrder names exist h
        exact ⟨p, others, hcircle, rfl⟩

open Element in
/-- Two trees of peripherals, of which only the roots come before what is derived from them. -/
def forestRoot : Element :=
  let derived (name base : String) : Element :=
    { node "peripheral" [leaf "name" name] with attributes := [("derivedFrom", base)] }
  let base (name : String) : Element :=
    node "peripheral" [leaf "name" name, leaf "baseAddress" "0"]
  node "device" [leaf "name" "D", node "peripherals" [
    derived "C" "A", base "A", derived "D" "C", base "B", derived "E" "A", derived "F" "B"]]

/-- The first tree is gone through to its end before the second one is taken up. -/
theorem derivationOrder_sorts_forest :
    ∃ d, (buildDevice forestRoot).result = .ok d ∧ d.BasesExist ∧ d.Acyclic ∧
      ∃ order, derivationOrder d.path d.peripherals = .ok order ∧
        order.map (·.1.name) = ["A", "C", "D", "E", "B", "F"] ∧
        DepthFirst d.peripherals.zipIdx d.roots order := by
  have hbuilt : (buildDevice forestRoot).result.toOption.any fun d =>
      (d.peripherals.map (·.name)).Nodup ∧ d.checkBases.toOption = some () ∧
        (derivationOrder d.path d.peripherals).toOption.any fun order =>
          order.map (·.1.name) = ["A", "C", "D", "E", "B", "F"] := by
    decide +kernel
  obtain ⟨d, hd, h⟩ := exists_ok_of_any hbuilt
  obtain ⟨names, hbases, horder⟩ := of_decide_eq_true h
  obtain ⟨order, horder, hnames⟩ := exists_ok_of_any horder
  have exist : d.BasesExist := by
    rw [← Device.checkBases_eq_ok_iff]
    cases hresult : d.checkBases with
    | ok => rfl
    | error =>
        rw [hresult] at hbases
        cases hbases
  obtain ⟨-, -, hsorted, -⟩ := derivationOrder_sorts d names exist
  obtain ⟨acyclic, hdepth⟩ := (hsorted order).1 horder
  exact ⟨d, hd, exist, acyclic, order, horder, of_decide_eq_true hnames, hdepth⟩

end RegisterMap.Draft
