import Mathlib.Logic.Relation
import Mathlib.Order.WellFoundedSet
import RegisterMap.Draft.Derivation
import RegisterMap.Proofs.Success

/-!
# The order of derivation

`preorder` takes up each peripheral at most once, and only after the peripheral from which it is
derived. What it leaves over refers to nothing that it has taken up. If every reference leads to a
peripheral and no references lead in a circle, nothing is left over: among finitely many peripherals
that refer to one another, some reference would have to lead back.
-/

namespace RegisterMap.Draft

open scoped List

/-- Each of the peripherals in order is not derived, or is derived from one that is done when its
turn comes. -/
def BasesFirst : List Numbered → List Numbered → Prop
  | _, [] => True
  | done, p :: ps =>
    (p.1.derivedFrom = none ∨ ∃ q ∈ done, p.1.derivedFrom = some q.1.name) ∧
      BasesFirst (p :: done) ps

theorem splitDerived_perm (name : String) (ps : List Numbered) :
    ((splitDerived name ps).1 ++ (splitDerived name ps).2).Perm ps := by
  rw [splitDerived, List.partition_eq_filter_filter]
  exact List.filter_append_perm _ ps

theorem mem_splitDerived_fst {name : String} {ps : List Numbered} {p : Numbered} :
    p ∈ (splitDerived name ps).1 ↔ p ∈ ps ∧ p.1.derivedFrom = some name := by
  simp [splitDerived, List.partition_eq_filter_filter]

theorem mem_splitDerived_snd {name : String} {ps : List Numbered} {p : Numbered} :
    p ∈ (splitDerived name ps).2 ↔ p ∈ ps ∧ p.1.derivedFrom ≠ some name := by
  simp [splitDerived, List.partition_eq_filter_filter]

/-- The order and what is left over are together what there was. -/
theorem preorder_perm (waiting ready : List Numbered) :
    ((preorder waiting ready).1 ++ (preorder waiting ready).2).Perm (ready ++ waiting) := by
  fun_induction preorder waiting ready with
  | case1 waiting => simp
  | case2 waiting p ready split rest ih =>
      have hsplit := splitDerived_perm p.1.name waiting
      calc p :: rest.1 ++ rest.2
        _ ~ p :: (split.1 ++ ready ++ split.2) := ih.cons p
        _ ~ p :: (ready ++ (split.1 ++ split.2)) := by
            rw [← List.append_assoc]
            exact (List.perm_append_comm.append_right split.2).cons p
        _ ~ p :: ready ++ waiting := (hsplit.append_left ready).cons p

/-- What is left over has been waiting. -/
theorem mem_waiting_of_mem_left (waiting ready : List Numbered) :
    ∀ p ∈ (preorder waiting ready).2, p ∈ waiting := by
  fun_induction preorder waiting ready with
  | case1 waiting => exact fun p hp => hp
  | case2 waiting p ready split rest ih =>
      intro q hq
      exact (mem_splitDerived_snd.1 (ih q hq)).1

/-- What is left over refers to nothing in the order. -/
theorem derivedFrom_ne_of_mem_left (waiting ready : List Numbered) :
    ∀ p ∈ (preorder waiting ready).2, ∀ q ∈ (preorder waiting ready).1,
      p.1.derivedFrom ≠ some q.1.name := by
  fun_induction preorder waiting ready with
  | case1 waiting => simp
  | case2 waiting q ready split rest ih =>
      intro p hp
      have hwaiting := mem_waiting_of_mem_left _ _ p hp
      exact List.forall_mem_cons.2 ⟨(mem_splitDerived_snd.1 hwaiting).2, ih p hp⟩

/-- Peripherals that are ready, and those that are taken up after them, come after their bases. -/
theorem basesFirst_preorder (waiting ready done : List Numbered)
    (h : ∀ p ∈ ready, p.1.derivedFrom = none ∨ ∃ q ∈ done, p.1.derivedFrom = some q.1.name) :
    BasesFirst done (preorder waiting ready).1 := by
  fun_induction preorder waiting ready generalizing done with
  | case1 waiting => trivial
  | case2 waiting p ready split rest ih =>
      rw [List.forall_mem_cons] at h
      refine ⟨h.1, ih (p :: done) fun q hq => ?_⟩
      rcases List.mem_append.1 hq with hq | hq
      · exact .inr ⟨p, List.mem_cons_self, (mem_splitDerived_fst.1 hq).2⟩
      · refine (h.2 q hq).imp_right ?_
        rintro ⟨base, hbase, hgiven⟩
        exact ⟨base, List.mem_cons_of_mem _ hbase, hgiven⟩

/-! ### References without circles -/

/-- A peripheral of the first name is derived from the second name. -/
def Device.Refers (d : Device) (name base : String) : Prop :=
  ∃ p ∈ d.peripherals, p.name = name ∧ p.derivedFrom = some base

/-- Each reference names a peripheral of the device. -/
def Device.BasesExist (d : Device) : Prop :=
  ∀ p ∈ d.peripherals, ∀ name, p.derivedFrom = some name → ∃ q ∈ d.peripherals, q.name = name

/-- No references lead in a circle. -/
def Device.Acyclic (d : Device) : Prop :=
  ∀ name, ¬ Relation.TransGen d.Refers name name

variable {d : Device}

/-- A set of peripherals of which each refers to another one in the set is empty. -/
theorem Device.Acyclic.eq_nil (acyclic : d.Acyclic) {names : List String}
    (h : ∀ name ∈ names, ∃ base ∈ names, d.Refers name base) : names = [] := by
  refine List.eq_nil_iff_forall_not_mem.2 fun name hname => ?_
  -- Going from a peripheral to its base is going down in a strict order.
  let r : String → String → Prop := fun base name => Relation.TransGen d.Refers name base
  have : IsStrictOrder String r :=
    { irrefl := acyclic
      trans := fun _ _ _ hab hbc => hbc.trans hab }
  have hfinite : {name | name ∈ names}.Finite := List.finite_toSet names
  refine (hfinite.wellFoundedOn (r := r)).induction (P := fun _ => False) hname ?_
  intro name hname ih
  obtain ⟨base, hbase, hrefers⟩ := h name hname
  exact ih base hbase (.single hrefers)

theorem Device.checkBases_eq_ok_iff : d.checkBases = .ok () ↔ d.BasesExist := by
  rw [checkBases, forM_eq_ok_iff]
  refine forall₂_congr fun p _ => ?_
  cases p.derivedFrom with
  | none => exact iff_of_true rfl nofun
  | some name =>
      have hany : d.peripherals.any (·.name == name) ↔ ∃ q ∈ d.peripherals, q.name = name := by
        simp
      simp only [Option.some.injEq, forall_eq', ← hany]
      split
      · next hsome => exact iff_of_true rfl hsome
      · next hnone => exact iff_of_false nofun hnone

/-- If every reference names a peripheral, what is left over refers to something that is left over
as well. -/
theorem exists_base_of_mem_left (exist : d.BasesExist) {waiting ready : List Numbered}
    (hall : ready ++ waiting ~ d.peripherals.zipIdx)
    (hderived : ∀ p ∈ waiting, p.1.derivedFrom.isSome) :
    ∀ p ∈ (preorder waiting ready).2,
      ∃ q ∈ (preorder waiting ready).2, p.1.derivedFrom = some q.1.name := by
  intro p hp
  have hwaiting := mem_waiting_of_mem_left waiting ready p hp
  have hmem : p.1 ∈ d.peripherals :=
    List.fst_mem_of_mem_zipIdx (hall.mem_iff.1 (List.mem_append_right ready hwaiting))
  obtain ⟨base, hgiven⟩ := Option.isSome_iff_exists.1 (hderived p hwaiting)
  obtain ⟨q, hq, rfl⟩ := exist p.1 hmem base hgiven
  obtain ⟨j, hj⟩ := List.mem_iff_getElem?.1 hq
  have hbase : (q, j) ∈ (preorder waiting ready).1 ++ (preorder waiting ready).2 :=
    ((preorder_perm waiting ready).trans hall).mem_iff.2 (List.mk_mem_zipIdx_iff_getElem?.2 hj)
  -- The base is not in the order, since nothing there is referred to.
  rcases List.mem_append.1 hbase with hbase | hbase
  · exact absurd hgiven (derivedFrom_ne_of_mem_left _ _ p hp _ hbase)
  · exact ⟨(q, j), hbase, hgiven⟩

/-- If every reference names a peripheral and no references lead in a circle, nothing is left
over. -/
theorem preorder_left_eq_nil (exist : d.BasesExist) (acyclic : d.Acyclic)
    {waiting ready : List Numbered} (hall : ready ++ waiting ~ d.peripherals.zipIdx)
    (hderived : ∀ p ∈ waiting, p.1.derivedFrom.isSome) : (preorder waiting ready).2 = [] := by
  suffices hnames : (preorder waiting ready).2.map (·.1.name) = [] from List.map_eq_nil_iff.1 hnames
  refine acyclic.eq_nil fun name hname => ?_
  obtain ⟨p, hp, rfl⟩ := List.mem_map.1 hname
  have hwaiting := mem_waiting_of_mem_left waiting ready p hp
  have hmem : p.1 ∈ d.peripherals :=
    List.fst_mem_of_mem_zipIdx (hall.mem_iff.1 (List.mem_append_right ready hwaiting))
  obtain ⟨q, hq, hgiven⟩ := exists_base_of_mem_left exist hall hderived p hp
  exact ⟨q.1.name, List.mem_map.2 ⟨q, hq, rfl⟩, p.1, hmem, rfl, hgiven⟩

/-- The order is made from the peripherals that are not derived, while the derived ones wait; and
there is one if none of them is left over. -/
theorem derivationOrder_cases (parent : NodePath) (ps : List Peripheral) :
    ∃ waiting ready : List Numbered, ready ++ waiting ~ ps.zipIdx ∧
      (∀ p ∈ waiting, p.1.derivedFrom.isSome) ∧ (∀ p ∈ ready, p.1.derivedFrom = none) ∧
      (((preorder waiting ready).2 = [] ∧
          derivationOrder parent ps = .ok (preorder waiting ready).1) ∨
        ∃ first others, (preorder waiting ready).2 = first :: others ∧
          derivationOrder parent ps = .error (waitingError parent first others)) := by
  let derived : Numbered → Bool := (·.1.derivedFrom.isSome)
  let waiting := ps.zipIdx.filter derived
  let ready := ps.zipIdx.filter (!derived ·)
  have hsplit : ps.zipIdx.partition derived = (waiting, ready) := List.partition_eq_filter_filter ..
  refine ⟨waiting, ready, List.perm_append_comm.trans (List.filter_append_perm derived _),
    fun p hp => (List.mem_filter.1 hp).2, fun p hp => ?_, ?_⟩
  · simpa [derived] using (List.mem_filter.1 hp).2
  · unfold derivationOrder
    rw [hsplit]
    dsimp only
    cases hpreorder : preorder waiting ready with
    | mk order left =>
        cases left with
        | nil => exact .inl ⟨rfl, rfl⟩
        | cons first others => exact .inr ⟨first, others, rfl, rfl⟩

/-- In the order of derivation all peripherals occur, and bases come first. -/
theorem derivationOrder_eq_ok {parent : NodePath} {ps : List Peripheral} {order : List Numbered}
    (h : derivationOrder parent ps = .ok order) : order ~ ps.zipIdx ∧ BasesFirst [] order := by
  obtain ⟨waiting, ready, hall, -, hready, hcases⟩ := derivationOrder_cases parent ps
  rcases hcases with ⟨hleft, horder⟩ | ⟨first, others, -, horder⟩
  · rw [h] at horder
    cases horder
    have hperm := (preorder_perm waiting ready).trans hall
    rw [hleft, List.append_nil] at hperm
    exact ⟨hperm, basesFirst_preorder waiting ready [] fun p hp => .inl (hready p hp)⟩
  · rw [h] at horder
    cases horder

/-- If every reference names a peripheral and no references lead in a circle, there is an order of
all peripherals in which bases come first. -/
theorem exists_derivationOrder (exist : d.BasesExist) (acyclic : d.Acyclic) :
    ∃ order, derivationOrder d.path d.peripherals = .ok order ∧
      order ~ d.peripherals.zipIdx ∧ BasesFirst [] order := by
  obtain ⟨waiting, ready, hall, hderived, -, hcases⟩ := derivationOrder_cases d.path d.peripherals
  have hleft := preorder_left_eq_nil exist acyclic hall hderived
  rcases hcases with ⟨-, horder⟩ | ⟨first, others, hsome, -⟩
  · exact ⟨_, horder, derivationOrder_eq_ok horder⟩
  · rw [hleft] at hsome
    cases hsome

end RegisterMap.Draft
