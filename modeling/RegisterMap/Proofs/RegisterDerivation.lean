import RegisterMap.Proofs.Document
import RegisterMap.Proofs.Inheritance
import RegisterMap.Proofs.Sites
import RegisterMap.Proofs.Success

/-!
# Derived registers

A register that is derived stands at the beginning of a chain: each register on it refers to the
next one, and the last one is not derived. `Device.DerivesAlong` describes the chains in terms of
the references alone. If the derivations of a device can be resolved, every register has exactly
one chain, and becomes what the chain comes to when it is flattened: each attribute is the first
one given on the chain, as the registers were before any of them was derived.

The properties in effect need more care. A base hands on what is in effect for it, the properties
around it included, so the properties given on the chain are followed by those around its registers,
from the last register back to the first.
-/

namespace RegisterMap.Draft

/-! ### References -/

/-- The register at `s` refers to the one at `t`: the first register in the same scope that has the
name, or else the register at the dotted path. -/
inductive Device.RefersTo (d : Device) (s t : Site) : Prop
  | sibling {name : String} (given : s.register.derivedFrom = some name)
      (first : s.scope.registers.find? (·.register.name == name) = some t)
  | path {name : String} {path : NodePath} (given : s.register.derivedFrom = some name)
      (others : ∀ u ∈ s.scope.registers, u.register.name ≠ name)
      (reads : NodePath.ofReference name = .ok path) (found : d.find? path = some t)

/-- The references from the register at `s` lead along the registers at `ts`, the last of which is
not derived. -/
inductive Device.DerivesAlong (d : Device) : Site → List Site → Prop
  | last {s : Site} (own : s.register.derivedFrom = none) : DerivesAlong d s []
  | step {s t : Site} {ts : List Site} (first : d.RefersTo s t) (rest : DerivesAlong d t ts) :
      DerivesAlong d s (t :: ts)

namespace Device

variable {d : Device} {s t : Site}

theorem baseOf_eq_ok_none_iff : d.baseOf s = .ok none ↔ s.register.derivedFrom = none := by
  unfold baseOf
  cases s.register.derivedFrom with
  | none => simp
  | some name =>
      dsimp only
      split <;> simp

theorem baseOf_eq_ok_some_iff : d.baseOf s = .ok (some t) ↔ d.RefersTo s t := by
  unfold baseOf
  constructor
  · intro h
    split at h
    · cases h
    · next name hname =>
      dsimp only at h
      split at h
      · next base hbase =>
        cases h
        rcases Option.or_eq_some_iff.1 hbase with hfirst | ⟨hnone, hpath⟩
        · exact .sibling hname hfirst
        · obtain ⟨path, hread, hfound⟩ := Option.bind_eq_some_iff.1 hpath
          have hothers : ∀ u ∈ s.scope.registers, u.register.name ≠ name := by
            simpa using hnone
          cases hpath : NodePath.ofReference name with
          | error e =>
              rw [hpath] at hread
              cases hread
          | ok path' =>
              rw [hpath] at hread
              cases hread
              exact .path hname hothers hpath hfound
      · cases h
  · rintro (⟨hname, hfirst⟩ | ⟨hname, hothers, hread, hfound⟩)
    · simp [hname, hfirst]
    · next name path =>
      have hnone : s.scope.registers.find? (·.register.name == name) = none := by
        simpa using hothers
      simp [hname, hnone, hread, hfound, Except.toOption]

/-- A chain is determined by where it starts. -/
theorem DerivesAlong.unique {ts us : List Site} (h : d.DerivesAlong s ts)
    (h' : d.DerivesAlong s us) : ts = us := by
  induction h generalizing us with
  | last own =>
      cases h' with
      | last => rfl
      | step first rest =>
          rw [← baseOf_eq_ok_some_iff, baseOf_eq_ok_none_iff.2 own] at first
          cases first
  | step first rest ih =>
      rw [← baseOf_eq_ok_some_iff] at first
      cases h' with
      | last own =>
          rw [baseOf_eq_ok_none_iff.2 own] at first
          cases first
      | step first' rest' =>
          rw [← baseOf_eq_ok_some_iff, first] at first'
          cases first'
          rw [ih rest']

/-- Following references to the end passes the registers of the chain. -/
theorem derivesAlong_of_finished {unseen : List (List Nat)}
    (h : (Chain.follow Site.position d.baseOf unseen s).ending = .finished) :
    d.DerivesAlong s (Chain.follow Site.position d.baseOf unseen s).items.tail := by
  fun_induction Chain.follow Site.position d.baseOf unseen s with
  | case1 unseen s e he => cases h
  | case2 unseen s hnone => exact .last (baseOf_eq_ok_none_iff.1 hnone)
  | case3 unseen s t ht hunseen rest ih =>
      have hhead : rest.items.head? = some t := Chain.head?_items_follow _ _ _ _
      have hrest := ih h
      change d.DerivesAlong s rest.items
      rw [← List.cons_head?_tail (Option.mem_def.2 hhead)]
      exact .step (baseOf_eq_ok_some_iff.1 ht) hrest
  | case4 unseen s t ht hseen => cases h

/-- What a register refers to is a register of the device. -/
theorem RefersTo.mem_sites (hs : s ∈ d.sites) (h : d.RefersTo s t) : t ∈ d.sites := by
  cases h with
  | sibling given first =>
      unfold sites at hs ⊢
      obtain ⟨u, hu, hregister⟩ := List.mem_flatMap.1 hs
      obtain ⟨rfl, -⟩ := Scope.mem_registers_iff.1 hregister
      exact List.mem_flatMap.2 ⟨_, hu, List.mem_of_find?_eq_some first⟩
  | path given others reads found =>
      obtain ⟨position, hposition⟩ := exists_site?_of_find? found
      exact mem_sites_of_site? hposition

theorem DerivesAlong.mem_sites {ts : List Site} (hs : s ∈ d.sites) (h : d.DerivesAlong s ts) :
    ∀ t ∈ ts, t ∈ d.sites := by
  induction h with
  | last => simp
  | step first rest ih =>
      have ht := first.mem_sites hs
      exact List.forall_mem_cons.2 ⟨ht, ih ht⟩

/-! ### Derived registers -/

/-- A register that can be derived has a chain, and comes to be derived along it. -/
theorem exists_chain_of_deriveRegister {r : Register} (h : d.deriveRegister s = .ok r) :
    ∃ bases, d.DerivesAlong s bases ∧ r = s.register.deriveAlong (bases.map (·.register)) := by
  unfold deriveRegister at h
  dsimp only at h
  split at h
  · next hfinished =>
    cases h
    exact ⟨_, derivesAlong_of_finished hfinished, rfl⟩
  · cases h
  · cases h

theorem deriveRegister_of_own (h : s.register.derivedFrom = none) :
    d.deriveRegister s = .ok s.register := by
  have hchain : d.chainOf s = ⟨[s], .finished⟩ := by
    unfold chainOf Chain.follow
    rw [baseOf_eq_ok_none_iff.2 h]
  simp [deriveRegister, hchain, Register.deriveAlong]

/-- If the registers of a device can be derived, each of them is replaced by what it is derived
to. -/
theorem deriveRegisters_eq_ok {d' : Device} {n : Nat} (h : d.deriveRegisters = .ok (d', n)) :
    ∃ f, d' = d.mapRegisters f ∧
      ∀ s ∈ d.sites, d.deriveRegister s = .ok (f s.position s.register) := by
  obtain ⟨resolved, hresolved, h⟩ := bind_eq_ok_iff.1 h
  cases h
  rw [mapM_eq_ok_iff] at hresolved
  refine ⟨_, rfl, fun s hs => ?_⟩
  cases hlookup : resolved.lookup s.position with
  | some r =>
      obtain ⟨before, after, hsplit, -⟩ := List.lookup_eq_some_iff.1 hlookup
      have hmem : (s.position, r) ∈ resolved := by simp [hsplit]
      obtain ⟨s', hs', hderive⟩ := exists_mem_left hresolved hmem
      obtain ⟨r', hr, heq⟩ := bind_eq_ok_iff.1 hderive
      simp only [pure, Except.pure, Except.ok.injEq, Prod.mk.injEq] at heq
      obtain ⟨hposition, rfl⟩ := heq
      -- Registers at one position are the same.
      have hsite := mem_sites_iff.1 (List.mem_of_mem_filter hs')
      rw [hposition, mem_sites_iff.1 hs] at hsite
      cases hsite
      exact hr
  | none =>
      cases hbase : s.register.derivedFrom with
      | none => exact deriveRegister_of_own hbase
      | some name =>
          have hderived : s ∈ d.sites.filter (·.register.derivedFrom.isSome) :=
            List.mem_filter.2 ⟨hs, by simp [hbase]⟩
          obtain ⟨e, he, hderive⟩ := exists_mem_right hresolved hderived
          obtain ⟨r, -, heq⟩ := bind_eq_ok_iff.1 hderive
          cases heq
          have := List.lookup_eq_none_iff.1 hlookup _ he
          simp at this

end Device

/-! ### Flattening -/

namespace Register

open RegisterProperties

/-- The properties in effect for a derived register: those given on its chain, and after them those
around the registers on it, from the last one back to the first. -/
theorem effective_deriveAlong (r : Register) (bases : List Register) :
    (r.deriveAlong bases).effective = .firstGiven
      ((r :: bases).map (·.props) ++ (r :: bases).reverse.map (·.defaults)) := by
  induction bases generalizing r with
  | nil =>
      rw [List.map_singleton, List.reverse_singleton, List.map_singleton, firstGiven_append,
        firstGiven_singleton, firstGiven_singleton]
      rfl
  | cons base bases ih =>
      have hstep : (r.deriveAlong (base :: bases)).effective =
          r.props.inherit ((base.deriveAlong bases).effective.inherit r.defaults) := by
        rw [← inherit_assoc]
        rfl
      have hprops : (r :: base :: bases).map (·.props) =
          r.props :: (base :: bases).map (·.props) := rfl
      have hdefaults : (r :: base :: bases).reverse.map (·.defaults) =
          (base :: bases).reverse.map (·.defaults) ++ [r.defaults] := by
        rw [List.reverse_cons, List.map_append, List.map_singleton]
      rw [hstep, ih, hprops, hdefaults, List.cons_append, firstGiven_cons, ← List.append_assoc,
        firstGiven_append _ [r.defaults], firstGiven_singleton]

end Register

/-- The path and the data of each field of a register. -/
def Site.locatedFields (s : Site) : List (NodePath × Field) :=
  s.register.fieldList.map fun f => (s.path.child f.name, f)

/-- The register at a site is what another one comes to along a chain of bases, said of the
registers of the chain alone. -/
structure Site.FlattenedAlong (result s : Site) (bases : List Site) : Prop where
  path : result.path = s.path
  name : result.register.name = s.register.name
  dim : result.register.dim = s.register.dim
  alternate : result.register.alternate = s.register.alternate
  derivedFrom : result.register.derivedFrom = none
  offset : result.register.offset = (s :: bases).findSome? (·.register.offset)
  description : result.register.description = (s :: bases).findSome? (·.register.description)
  fields : result.register.fields = (s :: bases).findSome? (·.register.fields)
  locatedFields : result.locatedFields =
    (((s :: bases).findSome? (·.register.fields)).getD []).map fun f => (s.path.child f.name, f)
  effective : result.register.effective = .firstGiven
    ((s :: bases).map (·.register.props) ++ (s :: bases).reverse.map (·.register.defaults))

theorem Site.flattenedAlong {d : Device} {result s : Site} {bases : List Site}
    (chain : d.DerivesAlong s bases) (scope : result.scope.path = s.scope.path)
    (register : result.register = s.register.deriveAlong (bases.map (·.register))) :
    result.FlattenedAlong s bases := by
  have own {α : Type} (get : Register → α) (keep : ∀ r base, get (r.derive base) = get r) :
      get result.register = get s.register := by
    rw [register]
    cases bases with
    | nil => rfl
    | cons t ts => exact keep _ _
  have first {α : Type} (get : Register → Option α)
      (takeOver : ∀ r base, get (r.derive base) = (get r).or (get base)) :
      get result.register = (s :: bases).findSome? (get ·.register) := by
    have hgiven : get (s.register.deriveAlong (bases.map (·.register))) =
        (s.register :: bases.map (·.register)).findSome? get :=
      eq_findSome?_of_takeOver (fun _ => rfl) (fun r _ _ => takeOver r _) _ _
    rw [register, hgiven, ← List.map_cons (f := Site.register), List.findSome?_map]
    rfl
  have hname : result.register.name = s.register.name := own (·.name) fun _ _ => rfl
  have hpath : result.path = s.path := by rw [Site.path, scope, hname, Site.path]
  have hfields := first (·.fields) fun _ _ => rfl
  refine ⟨hpath, hname, own (·.dim) fun _ _ => rfl, own (·.alternate) fun _ _ => rfl, ?_,
    first (·.offset) fun _ _ => rfl, first (·.description) fun _ _ => rfl, hfields, ?_, ?_⟩
  · rw [register]
    cases chain with
    | last given => exact given
    | step => rfl
  · rw [Site.locatedFields, hpath, Register.fieldList, hfields]
  · rw [register, Register.effective_deriveAlong, ← List.map_cons (f := Site.register),
      ← List.map_reverse, List.map_map, List.map_map]
    rfl

end RegisterMap.Draft
