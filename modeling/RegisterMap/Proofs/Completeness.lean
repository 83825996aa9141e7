import RegisterMap.Proofs.Addressing
import RegisterMap.Proofs.Document
import RegisterMap.Proofs.Expansion
import RegisterMap.Proofs.Failure
import RegisterMap.Proofs.Passes
import RegisterMap.Proofs.Resolvability
import RegisterMap.Proofs.Shape
import RegisterMap.Proofs.Stages

/-!
# Drafts that are complete

A draft may leave open only what can be taken over from another element. The builder refuses a
peripheral without a base address and a register without an offset unless they are derived
(`Member.Promising`). The references of what is left end at an element that is not derived, so
nothing is open any more when they are resolved (`Member.Complete`), and no later pass takes
anything away.

A complete draft in which the names of siblings are distinct is placed unless sizes, reset values or
addresses are at fault, and what is placed makes a device (`linked_never_incomplete`).
-/

namespace RegisterMap

namespace Draft

/-- The bits of the field are known, and its values have distinct names. -/
structure Field.Complete (f : Field) : Prop where
  bitRange : f.bitRange.isSome
  enums : (f.enums.map (·.1)).Nodup

/-- The member has an offset, or it is a register that may take one over. -/
def Member.Promising : Member → Prop
  | .register r => (r.offset.isSome ∨ r.derivedFrom.isSome) ∧ ∀ f ∈ r.fieldList, f.Complete
  | .cluster c _ => c.offset.isSome

/-- The offset of the member is known, and its fields are complete. -/
structure Member.Complete (m : Member) : Prop where
  offset : m.offset.isSome
  fields : ∀ f ∈ m.fieldList, f.Complete

/-- The peripheral has a base address or may take one over, and so have the members in it. -/
structure Peripheral.Promising (p : Peripheral) : Prop where
  baseAddress : p.baseAddress.isSome ∨ p.derivedFrom.isSome
  members : Member.EachAll Member.Promising p.memberList

/-! ### Building -/

theorem nodup_buildEnums (path : NodePath) (built : List (String × Int)) (es : List Element)
    (h : (built.map (·.1)).Nodup) :
    (buildEnums path built es).Yields fun enums => (enums.map (·.1)).Nodup := by
  induction es generalizing built with
  | nil => exact .of_pure h
  | cons e es ih =>
      unfold buildEnums
      split
      · exact .bind_of_forall fun _ => ih _ h
      · exact .of_throw
      · exact ih _ h
      · split
        · exact .of_throw
        · next name _ =>
          split
          · exact .of_throw
          · split
            · exact .of_throw
            · next hnew =>
              refine ih _ ?_
              rw [List.map_append, List.map_singleton, List.nodup_append_comm]
              exact List.nodup_cons.2 ⟨by simpa using hnew, h⟩

theorem complete_buildField (parent : NodePath) (e : Element) :
    (buildField parent e).Yields Field.Complete := by
  unfold buildField
  refine .bind_of_forall fun name => .bind_of_forall fun path => .throw_or fun _ =>
    .bind_of_forall fun range => ?_
  cases e.child? "enumeratedValues" with
  | none =>
      refine .bind (.of_pure (P := (· = [])) rfl) fun enums henums => ?_
      subst henums
      exact .bind_of_forall fun _ => .bind_of_forall fun _ => .of_pure ⟨rfl, List.nodup_nil⟩
  | some values =>
      refine .bind (nodup_buildEnums path [] _ List.nodup_nil) fun enums henums => ?_
      exact .bind_of_forall fun _ => .bind_of_forall fun _ => .of_pure ⟨rfl, henums⟩

theorem complete_buildFields (parent : NodePath) (built : List Field) (es : List Element)
    (h : ∀ f ∈ built, f.Complete) :
    (buildFields parent built es).Yields fun fs => ∀ f ∈ fs, f.Complete := by
  induction es generalizing built with
  | nil => exact .of_pure h
  | cons e es ih =>
      refine .bind (complete_buildField parent e) fun f hf => .throw_or fun _ => ih _ ?_
      exact List.forall_mem_append.2 ⟨h, List.forall_mem_singleton.2 hf⟩

theorem promising_buildRegister (parent : NodePath) (e : Element) :
    (buildRegister parent e).Yields fun r => (Member.register r).Promising := by
  unfold buildRegister
  generalize e.derivedFrom? = derivedFrom
  refine .bind_of_forall fun name => .bind_of_forall fun path => .bind_of_forall fun offset => ?_
  refine .throw_or fun hopen => ?_
  have hgiven : offset.isSome ∨ derivedFrom.isSome := by
    cases offset <;> cases derivedFrom <;> simp_all
  cases e.child? "fields" with
  | none =>
      refine .bind (.of_pure (P := (· = none)) rfl) fun fs hfs => ?_
      subst hfs
      refine .bind_of_forall fun _ => .bind_of_forall fun _ => .of_pure ⟨hgiven, ?_⟩
      exact List.forall_mem_nil _
  | some fields =>
      refine .bind (Q := fun fs => ∀ f ∈ fs.getD [], f.Complete)
        (.map (complete_buildFields path [] _ (List.forall_mem_nil _))) fun fs hfs => ?_
      exact .bind_of_forall fun _ => .bind_of_forall fun _ => .of_pure ⟨hgiven, hfs⟩

theorem offset_buildClusterHead {parent : NodePath} {e : Element} {c : Cluster}
    (h : buildClusterHead parent e = .ok c) : c.offset.isSome := by
  unfold buildClusterHead at h
  obtain ⟨name, -, h⟩ := bind_eq_ok_iff.1 h
  obtain ⟨path, -, h⟩ := bind_eq_ok_iff.1 h
  split at h
  · cases h
  · obtain ⟨given, -, h⟩ := bind_eq_ok_iff.1 h
    obtain ⟨offset, -, h⟩ := bind_eq_ok_iff.1 h
    obtain ⟨props, -, h⟩ := bind_eq_ok_iff.1 h
    obtain ⟨dim, -, h⟩ := bind_eq_ok_iff.1 h
    cases h
    rfl

mutual

theorem promising_buildMember (parent : NodePath) :
    ∀ e : Element, (buildMember parent e).Yields fun found =>
      ∀ m, found = some m → m.Each Member.Promising
  | ⟨tag, line, attributes, text, children⟩ => by
      unfold buildMember
      split
      · refine .bind (promising_buildRegister parent _) fun r hr => .of_pure ?_
        rintro m ⟨⟩
        exact hr
      · refine .bind (.of_ofExcept fun _ => offset_buildClusterHead) fun c hc => ?_
        refine .bind (promising_buildMembers _ [] children trivial) fun ms hms => .of_pure ?_
        rintro m ⟨⟩
        exact ⟨hc, hms⟩
      · exact .of_pure nofun

theorem promising_buildMembers (parent : NodePath) (built : List Member) :
    ∀ es : List Element, Member.EachAll Member.Promising built →
      (buildMembers parent built es).Yields (Member.EachAll Member.Promising)
  | [], h => .of_pure h
  | e :: es, h => by
      unfold buildMembers
      refine .bind (promising_buildMember parent e) fun found hfound => ?_
      cases found with
      | none => exact promising_buildMembers parent built es h
      | some m =>
          refine .throw_or fun _ => promising_buildMembers parent (built ++ [m]) es ?_
          refine Member.eachAll_iff.2 (List.forall_mem_append.2 ⟨Member.eachAll_iff.1 h, ?_⟩)
          exact List.forall_mem_singleton.2 (hfound m rfl)

end

theorem promising_buildPeripheral (parent : NodePath) (e : Element) :
    (buildPeripheral parent e).Yields Peripheral.Promising := by
  unfold buildPeripheral
  generalize e.derivedFrom? = derivedFrom
  refine .bind_of_forall fun name => .bind_of_forall fun path => .bind_of_forall fun base => ?_
  refine .throw_or fun hopen => .bind_of_forall fun blocks => .bind_of_forall fun interrupts => ?_
  have hgiven : base.isSome ∨ derivedFrom.isSome := by
    cases base <;> cases derivedFrom <;> simp_all
  cases e.child? "registers" with
  | none =>
      refine .bind (.of_pure (P := (· = none)) rfl) fun ms hms => ?_
      subst hms
      exact .bind_of_forall fun _ => .bind_of_forall fun _ => .of_pure ⟨hgiven, trivial⟩
  | some registers =>
      refine .bind (Q := fun ms => Member.EachAll Member.Promising (ms.getD []))
        (.map (promising_buildMembers path [] registers.children trivial)) fun ms hms => ?_
      exact .bind_of_forall fun _ => .bind_of_forall fun _ => .of_pure ⟨hgiven, hms⟩

theorem Member.Promising.withDefaults {m : Member} (h : m.Promising)
    (defaults : RegisterProperties) : (m.withDefaults defaults).Promising := by
  cases m with
  | register r => exact h
  | cluster c ms => exact h

theorem Peripheral.memberList_withDefaults (p : Peripheral) (defaults : RegisterProperties) :
    (p.withDefaults defaults).memberList =
      Member.withDefaultsAll (p.props.inherit defaults) p.memberList := by
  unfold memberList Peripheral.withDefaults
  cases p.members <;> rfl

theorem Peripheral.Promising.withDefaults {p : Peripheral} (h : p.Promising)
    (defaults : RegisterProperties) : (p.withDefaults defaults).Promising := by
  refine ⟨h.baseAddress, ?_⟩
  rw [p.memberList_withDefaults]
  exact Member.eachAll_withDefaultsAll (fun _ defaults h => h.withDefaults defaults) _ _ h.members

theorem promising_buildDevice (root : Element) :
    (buildDevice root).Yields fun d => ∀ p ∈ d.peripherals, p.Promising :=
  forall_peripherals_buildDevice root (fun parent e _ => promising_buildPeripheral parent e)
    fun _ defaults h => h.withDefaults defaults

/-! ### Derivation -/

/-- A peripheral on a chain that ends comes to have a base address, and members like those of the
peripherals on the chain. -/
theorem Device.HasBases.promising {d : Device} (all : ∀ p ∈ d.peripherals, p.Promising)
    {p : Peripheral} {bases : List Peripheral} (hp : p.Promising) (chain : d.HasBases p bases) :
    (p.deriveAlong bases).baseAddress.isSome ∧
      Member.EachAll Member.Promising (p.deriveAlong bases).memberList := by
  induction chain with
  | last own => exact ⟨hp.baseAddress.resolve_right (by simp [own]), hp.members⟩
  | @step p base bases mem given rest ih =>
      obtain ⟨haddress, hmembers⟩ := ih (all base mem)
      constructor
      · change (p.baseAddress.or _).isSome
        rw [Option.isSome_or, haddress, Bool.or_true]
      · change Member.EachAll _ ((p.members.or (base.deriveAlong bases).members).getD [])
        have hown := hp.members
        unfold Peripheral.memberList at hown
        cases hms : p.members with
        | none => exact hmembers
        | some ms =>
            rw [hms] at hown
            exact hown

/-- A register on a chain that ends comes to have an offset, and fields like those of the registers
on the chain. -/
theorem Device.DerivesAlong.complete {d : Device}
    (all : ∀ s ∈ d.sites, (Member.register s.register).Promising) {s : Site} {ts : List Site}
    (hs : s ∈ d.sites) (chain : d.DerivesAlong s ts) :
    (Member.register (s.register.deriveAlong (ts.map (·.register)))).Complete := by
  induction chain with
  | last own =>
      obtain ⟨hoffset, hfields⟩ := all _ hs
      exact ⟨hoffset.resolve_right (by simp [own]), hfields⟩
  | @step s t ts first rest ih =>
      have hbase := ih (first.mem_sites hs)
      obtain ⟨-, hown⟩ := all s hs
      constructor
      · change (s.register.offset.or _).isSome
        have hoffset : (t.register.deriveAlong (ts.map (·.register))).offset.isSome := hbase.offset
        rw [Option.isSome_or, hoffset, Bool.or_true]
      · change ∀ f ∈ (s.register.fields.or _).getD [], f.Complete
        unfold Register.fieldList at hown
        cases hfs : s.register.fields with
        | none => exact hbase.fields
        | some fs =>
            rw [hfs] at hown
            exact hown

/-- Every element of the device is complete. -/
def Device.Complete (d : Device) : Prop :=
  Member.EachAll Member.Complete d.elements

namespace Device

variable {d d' : Device}

theorem complete_resolveDerivations (settled : d.Settled)
    (promising : ∀ p ∈ d.peripherals, p.Promising)
    (pass : d.resolveDerivations.result = .ok d') : d'.Complete := by
  obtain ⟨middle, f, -, hderives, hregisters, rfl⟩ := resolveDerivations_eq_ok settled pass
  have hmiddle : Member.EachAll Member.Promising middle.elements := by
    refine Member.eachAll_iff.2 fun m hm => ?_
    obtain ⟨p', hp', rfl⟩ := List.mem_map.1 hm
    obtain ⟨p, hp, bases, hchain, rfl⟩ := exists_mem_left hderives hp'
    obtain ⟨haddress, hmembers⟩ := hchain.promising promising (promising p hp)
    rw [Peripheral.asMember_withDefaults]
    exact Member.each_withDefaults (fun _ defaults h => h.withDefaults defaults) _ _
      ⟨haddress, hmembers⟩
  have halike := alikeAll_mapRegisters (d := middle) (f := f)
    (S := fun _ r' => (Member.register r').Complete) fun s hs => by
      obtain ⟨bases, hchain, hr⟩ := exists_chain_of_deriveRegister (hregisters s hs)
      rw [hr]
      exact hchain.complete (fun t ht => each_register hmiddle ht) hs
  refine Member.EachAll.of_alike (fun m m' hreplaces _ hm => ?_) _ halike hmiddle
  cases m with
  | register r =>
      cases m' with
      | register r' => exact hreplaces
      | cluster c' ms' => exact hreplaces.elim
  | cluster c ms =>
      cases m' with
      | register r' => exact hreplaces.elim
      | cluster c' ms' =>
          obtain rfl := hreplaces
          exact ⟨hm, List.forall_mem_nil _⟩

end Device

/-! ### Expansion -/

theorem Field.Complete.place {f : Field} (h : f.Complete) (i : Option Instance) :
    (place f i).Complete := by
  cases i with
  | none => exact h
  | some i =>
      refine ⟨?_, h.enums⟩
      change (f.bitRange.map _).isSome
      rw [Option.isSome_map]
      exact h.bitRange

namespace Member

theorem Complete.place {m : Member} (h : m.Complete) (i : Instance) :
    (place m (some i)).Complete := by
  refine ⟨?_, by rw [fieldList_place]; exact h.fields⟩
  rw [offset_place, Option.isSome_map]
  exact h.offset

theorem Complete.expanded {m : Member} (h : m.Complete) : m.expanded.Complete := by
  cases m with
  | cluster c ms => exact ⟨h.offset, List.forall_mem_nil _⟩
  | register r =>
      refine ⟨h.offset, fun f hf => ?_⟩
      have hfields := h.fields
      change f ∈ (r.fields.map (List.flatMap replacements)).getD [] at hf
      change ∀ f ∈ r.fields.getD [], f.Complete at hfields
      cases hfs : r.fields with
      | none =>
          rw [hfs] at hf
          cases hf
      | some fs =>
          rw [hfs] at hf hfields
          obtain ⟨g, hg, hf⟩ := List.mem_flatMap.1 hf
          obtain ⟨i, -, rfl⟩ := List.mem_map.1 hf
          exact (hfields g hg).place i

end Member

namespace Device

variable {d d' : Device}

theorem Complete.expand (h : d.Complete) (pass : d.expand.result = .ok d') : d'.Complete := by
  rw [Complete, elements_expand pass]
  exact Member.eachAll_expandedAll (fun _ => Member.Complete.expanded) (fun _ i h => h.place i) _ h

/-! ### The other passes -/

theorem Complete.without (h : d.Complete) (names : List String) : (d.without names).Complete :=
  Member.eachAll_iff.2 fun m hm => Member.eachAll_iff.1 h m (mem_elements_without hm)

theorem Distinct.without (h : d.Distinct) (names : List String) : (d.without names).Distinct where
  peripherals := nodup_names_without h.peripherals names
  members := Member.eachAll_iff.2 fun m hm =>
    Member.eachAll_iff.1 h.members m (mem_elements_without hm)

theorem Complete.of_resembles (h : d.Complete)
    (alike : Member.AlikeAll Member.Resembles d.elements d'.elements) : d'.Complete :=
  Member.EachAll.of_alike (fun _ _ hR _ hm =>
    ⟨hR.offset ▸ hm.offset, hR.fieldList ▸ hm.fields⟩) _ alike h

theorem names_elements (d : Device) :
    d.elements.map Member.name = d.peripherals.map (·.name) := by
  rw [elements, List.map_map]
  rfl

theorem Distinct.of_resembles (h : d.Distinct)
    (alike : Member.AlikeAll Member.Resembles d.elements d'.elements) : d'.Distinct := by
  have names {ms ms' : List Member} (hR : List.Forall₂ Member.Resembles ms ms') :
      ms.map Member.name = ms'.map Member.name :=
    map_eq_map_of_forall₂ hR fun _ _ hm => hm.name.symm
  refine ⟨?_, Member.EachAll.of_alike (fun _ _ hR hinside hm => ⟨?_, ?_⟩) _ alike h.members⟩
  · rw [← names_elements, ← names alike.roots, names_elements]
    exact h.peripherals
  · rw [← names hinside]
    exact hm.members
  · rw [hR.fieldList]
    exact hm.fields

end Device

/-- A draft in a run that has got as far as the alternates is complete, and the names of siblings in
it are distinct. -/
theorem Reaches.complete {config : Config} {root : Element} {d : Device}
    (h : Reaches config root .linked d) : d.Complete ∧ d.Distinct := by
  cases h with
  | link reduced pass =>
    cases reduced with
    | exclude expanded excluded =>
      cases expanded with
      | @expand derived expanded hderived hexpand =>
        cases hderived with
        | @derive built _ hbuilt hderive =>
          obtain ⟨halike, -⟩ := Device.alikeAll_resolveAlternates pass
          cases excluded
          have hpromising : ∀ p ∈ built.peripherals, p.Promising := by
            cases hbuilt with
            | build build => exact promising_buildDevice root _ build
          have hcomplete := Device.complete_resolveDerivations hbuilt.settled hpromising hderive
          have hdistinct := Device.distinct_of_expand hexpand
          exact ⟨((hcomplete.expand hexpand).without _).of_resembles halike,
            (hdistinct.without _).of_resembles halike⟩

/-! ### Placement -/

/-- The member has an address. -/
def Member.Located (m : Member) : Prop :=
  m.header.address.isSome

/-- If the member is a register, it has a size and a reset value. -/
def Member.Usable (m : Member) : Prop :=
  m.kind = .register → ∃ size, m.header.effective.size = some size ∧ 0 < size ∧
    m.header.effective.resetValue.isSome

mutual

theorem Member.each_located_placeAt (base : Int) : ∀ m : Member, (placeAt base m).Each Located
  | .register _ => rfl
  | .cluster _ ms => ⟨rfl, eachAll_located_placeAllAt _ ms⟩

theorem Member.eachAll_located_placeAllAt (base : Int) :
    ∀ ms : List Member, EachAll Located (placeAllAt base ms)
  | [] => trivial
  | m :: ms => ⟨each_located_placeAt base m, eachAll_located_placeAllAt base ms⟩

end

/-- Placing a device gives every element an address. -/
theorem Device.located_placeAll (d : Device) :
    Member.EachAll Member.Located d.placeAll.elements := by
  refine Member.eachAll_iff.2 fun m hm => ?_
  obtain ⟨p', hp', rfl⟩ := List.mem_map.1 hm
  obtain ⟨p, -, rfl⟩ := List.mem_map.1 hp'
  refine ⟨rfl, ?_⟩
  rw [p.memberList_placeAll, ← Member.placeAllAt_eq_map]
  exact Member.eachAll_located_placeAllAt _ _

theorem Register.size_eq_ok_iff {path : NodePath} {r : Register} {size : Int} :
    r.size path = .ok size ↔ r.effective.size = some size ∧ 0 < size := by
  unfold Register.size
  cases r.effective.size with
  | none => simp
  | some given =>
      by_cases hpos : given ≤ 0
      · simp only [hpos, if_true, Option.some.injEq]
        refine iff_of_false nofun ?_
        rintro ⟨rfl, hsize⟩
        omega
      · simp only [hpos, if_false, Except.ok.injEq, Option.some.injEq]
        refine ⟨fun h => ⟨h, ?_⟩, fun h => h.1⟩
        omega

theorem Register.usable_of_check {path : NodePath} {r : Register} (h : r.check path = .ok ()) :
    (Member.register r).Usable := by
  intro _
  obtain ⟨size, hsize, h⟩ := bind_eq_ok_iff.1 h
  obtain ⟨hgiven, hpos⟩ := Register.size_eq_ok_iff.1 hsize
  split at h
  · cases h
  · next hreset =>
    have hsome : r.effective.resetValue.isSome := by
      simpa [Option.isSome_iff_ne_none] using hreset
    exact ⟨size, hgiven, hpos, hsome⟩

end Draft

/-- The error says that something is missing in a draft that should have been there by then. -/
inductive Error.Incomplete : Error → Prop
  | baseAddress (path : Option NodePath) : Incomplete (.schema path .unresolvedBaseAddress)
  | offset (path : Option NodePath) : Incomplete (.schema path .unresolvedOffset)
  | unresolved : Incomplete .unresolved

namespace Draft

/-- What the addresses of a device may be refused for, if nothing is missing: what is wrong with a
register, siblings in conflict, or addresses that are too far apart. -/
inductive Device.Refused (d : Device) : Error → Prop
  | register {path : Option NodePath} {fault : SchemaFault}
      (present : ¬ (Error.schema path fault).Incomplete) : Refused d (.schema path fault)
  | overlap (overlap : Overlap) : Refused d (.overlap overlap)
  | tooLong {extents : List Extent} (group : extents ∈ d.placeAll.extentGroups) {x : Extent}
      (mem : x ∈ extents) (long : AddressRange.maxLength < x.range.length) : Refused d .rangeTooLong

theorem Device.Refused.present {d : Device} {e : Error} (h : d.Refused e) : ¬ e.Incomplete := by
  cases h with
  | register present => exact present
  | overlap => exact nofun
  | tooLong => exact nofun

/-- A register with complete fields is refused only for what is wrong with it. -/
theorem Device.refused_check (d : Device) {r : Register} (complete : (Member.register r).Complete)
    (path : NodePath) : FailsWith d.Refused (r.check path) := by
  have hsize : FailsWith d.Refused (r.size path) := by
    unfold Register.size
    split
    · exact .of_error (.register nofun)
    · exact .ite (fun _ => .of_error (.register nofun)) fun _ => .of_ok
  refine .bind hsize fun size _ => ?_
  refine .check (fun _ => .register nofun) fun _ => .forM fun f hf => ?_
  split
  · next hopen =>
    have hknown := (complete.fields f hf).bitRange
    rw [hopen] at hknown
    cases hknown
  · exact .ite (fun _ => .of_ok) fun _ => .of_error (.register nofun)

theorem Device.refused_checkGroups (d : Device) (tolerant : Bool) {groups : List (List Extent)}
    (sub : groups ⊆ d.placeAll.extentGroups) :
    FailsWith d.Refused (checkGroups tolerant groups).result := by
  induction groups with
  | nil => exact .of_ok
  | cons extents groups ih =>
      rw [List.cons_subset] at sub
      refine .logged_bind ?_ fun _ _ => ih sub.2
      unfold checkExtents
      split
      · next hlong =>
        obtain ⟨x, hx, hlong⟩ := List.any_eq_true.1 hlong
        exact .of_error (.tooLong sub.1 hx (of_decide_eq_true hlong))
      · dsimp only
        split
        · exact .of_ok
        · split
          · exact .of_ok
          · exact .of_error (.overlap _)

namespace Device

variable {d : Device}

theorem Complete.checkBaseAddresses (h : d.Complete) : d.checkBaseAddresses = .ok () := by
  refine checkBaseAddresses_eq_ok_iff.2 fun p hp => ?_
  exact (Member.each_iff.1 (Member.eachAll_iff.1 h _ (List.mem_map_of_mem hp))).1.offset

theorem Complete.members (h : d.Complete) {p : Peripheral} (hp : p ∈ d.peripherals) :
    Member.EachAll Member.Complete p.memberList :=
  (Member.each_iff.1 (Member.eachAll_iff.1 h _ (List.mem_map_of_mem hp))).2

theorem Complete.checkOffsets (h : d.Complete) : d.checkOffsets = .ok () :=
  checkOffsets_eq_ok_iff.2 fun _ hp e he =>
    ((Member.eachAll_iff_forall_levels _ _).1 (h.members hp) e he).offset

/-- A complete device is not refused for being incomplete. -/
theorem Complete.refused_resolveAddresses (h : d.Complete) (tolerant : Bool) :
    FailsWith d.Refused (d.resolveAddresses tolerant).result := by
  refine .logged_bind (.of_eq_ok h.checkBaseAddresses) fun _ _ => ?_
  refine .logged_bind (.of_eq_ok h.checkOffsets) fun _ _ => ?_
  refine .logged_bind (.forM fun ⟨path, m⟩ hm => ?_) fun _ _ => ?_
  · obtain ⟨p, hp, he⟩ := mem_levels_iff.1 (List.mem_reverse.1 hm)
    have hcomplete := (Member.eachAll_iff_forall_levels _ _).1 (h.members hp) _ he
    cases m with
    | register r => exact d.refused_check hcomplete path
    | cluster c ms => exact .of_ok
  refine .logged_bind (d.refused_checkGroups tolerant (List.Subset.refl _)) fun _ _ => ?_
  exact .logged_bind .of_ok fun _ _ => .of_ok

/-- A device whose addresses are resolved has only registers that have been checked. -/
theorem checked_of_resolveAddresses {P : Member → Prop} {tolerant : Bool} {d' : Device}
    (h : (d.resolveAddresses tolerant).result = .ok d')
    (register : ∀ path r, Register.check path r = .ok () → P (.register r))
    (cluster : ∀ c ms, P (.cluster c ms)) : Member.EachAll P d.elements := by
  obtain ⟨⟨⟩, -, h⟩ := Logged.bind_eq_ok_iff.1 h
  obtain ⟨⟨⟩, -, h⟩ := Logged.bind_eq_ok_iff.1 h
  obtain ⟨⟨⟩, hregisters, -⟩ := Logged.bind_eq_ok_iff.1 h
  refine Member.eachAll_iff.2 fun m hm => ?_
  obtain ⟨p, hp, rfl⟩ := List.mem_map.1 hm
  refine ⟨cluster _ _, (Member.eachAll_iff_forall_levels (d.path.child p.name) _).2 fun e he => ?_⟩
  obtain ⟨path, m⟩ := e
  cases m with
  | register r => exact register path r (checkRegisters_eq_ok_iff.1 hregisters p hp _ he r rfl)
  | cluster c ms => exact cluster c ms

theorem usable_of_resolveAddresses {tolerant : Bool} {d' : Device}
    (h : (d.resolveAddresses tolerant).result = .ok d') :
    Member.EachAll Member.Usable d'.elements := by
  have husable : Member.EachAll Member.Usable d.elements :=
    checked_of_resolveAddresses h (fun _ _ => Register.usable_of_check) fun _ _ => nofun
  obtain rfl := resolveAddresses_eq_ok h
  refine Member.EachAll.of_alike (fun m m' hR _ hm hkind => ?_) _ d.alikeAll_placeAll husable
  rw [hR.own (·.effective) fun _ _ _ => rfl]
  exact hm (hR.kind ▸ hkind)

end Device

end Draft

/-! ### Devices from drafts -/

namespace Draft

/-- The member lacks nothing that is needed to make a member of a device of it. -/
structure Member.Finished (m : Member) : Prop where
  complete : m.Complete
  distinct : m.Distinct
  located : m.Located
  usable : m.Usable

end Draft

theorem checkNames_of_nodup {ms : List Member} (h : (ms.map Member.name).Nodup) :
    checkNames ms = .ok () := by
  unfold checkNames
  rw [NameMap.firstRepeated?_eq_none_iff.2 ⟨h, fun _ _ => List.not_mem_nil⟩]

theorem exists_resolved {α : Type} {x : Option α} (h : x.isSome) : ∃ a, resolved x = .ok a := by
  obtain ⟨a, rfl⟩ := Option.isSome_iff_exists.1 h
  exact ⟨a, rfl⟩

theorem Field.exists_ofDraft {f : Draft.Field} (h : f.Complete) (path : NodePath)
    (access : Access) : ∃ f', ofDraft path access f = .ok f' := by
  obtain ⟨range, hrange⟩ := exists_resolved h.bitRange
  refine exists_ok_bind hrange ?_
  exact exists_ok_bind (NameMap.ofList_eq_ok_iff.2 ⟨h.enums, rfl⟩) ⟨_, rfl⟩

theorem Register.exists_ofDraft {r : Draft.Register} (h : (Draft.Member.register r).Finished)
    (path : NodePath) : ∃ r', ofDraft path r = .ok r' := by
  obtain ⟨size, hgiven, hpos, hreset⟩ := h.usable rfl
  obtain ⟨offset, hoffset⟩ := exists_resolved h.complete.offset
  obtain ⟨resetValue, hresetValue⟩ := exists_resolved hreset
  obtain ⟨address, haddress⟩ := exists_resolved h.located
  obtain ⟨fields, hfields⟩ := exists_forall₂ fun f hf =>
    Field.exists_ofDraft (h.complete.fields f hf) path (registerAccess r)
  refine exists_ok_bind hoffset ?_
  refine exists_ok_bind (Draft.Register.size_eq_ok_iff.2 ⟨hgiven, hpos⟩) ?_
  refine exists_ok_bind hresetValue (exists_ok_bind haddress ?_)
  refine exists_ok_bind (makeNamed_eq_ok_iff.2 ⟨hfields, h.distinct.fields, ?_⟩) ⟨_, rfl⟩
  exact fun _ _ => List.not_mem_nil

theorem Cluster.exists_ofDraft {c : Draft.Cluster} (offset : c.offset.isSome)
    (address : c.address.isSome) (path : NodePath) : ∃ c', ofDraft path c = .ok c' := by
  obtain ⟨offset, hoffset⟩ := exists_resolved offset
  obtain ⟨address, haddress⟩ := exists_resolved address
  exact exists_ok_bind hoffset (exists_ok_bind haddress ⟨_, rfl⟩)

namespace Member

/-- Members that are made from drafts with distinct names have distinct names. -/
theorem checkNames_of_ofDraftAll {path : NodePath} {dms : List Draft.Member} {ms : List Member}
    (h : ofDraftAll path dms = .ok ms) (names : (dms.map Draft.Member.name).Nodup) :
    checkNames ms = .ok () := by
  refine checkNames_of_nodup ?_
  rw [← map_eq_map_of_forall₂ (ofDraftAll_eq_ok_iff.1 h)
    fun _ _ hm => (shownAs_of_ofDraft hm).name.symm]
  exact names

mutual

theorem exists_ofDraft : ∀ dm : Draft.Member, dm.Each Draft.Member.Finished →
    ∀ path, ∃ m, ofDraft path dm = .ok m
  | .register r, h, path => by
      obtain ⟨r', hr'⟩ := Register.exists_ofDraft h path
      exact exists_ok_bind hr' ⟨_, rfl⟩
  | .cluster c dms, h, path => by
      obtain ⟨c', hc'⟩ := Cluster.exists_ofDraft h.1.complete.offset h.1.located path
      obtain ⟨ms, hms⟩ := exists_ofDraftAll dms h.2 path
      have hnames := checkNames_of_ofDraftAll hms h.1.distinct.members
      exact exists_ok_bind hc' (exists_ok_bind hms (exists_ok_bind hnames ⟨_, rfl⟩))

/-- Drafts of members that lack nothing make members. -/
theorem exists_ofDraftAll : ∀ dms : List Draft.Member,
    Draft.Member.EachAll Draft.Member.Finished dms → ∀ path, ∃ ms, ofDraftAll path dms = .ok ms
  | [], _, _ => ⟨[], rfl⟩
  | dm :: dms, h, path => by
      obtain ⟨m, hm⟩ := exists_ofDraft dm h.1 (path.child dm.name)
      obtain ⟨ms, hms⟩ := exists_ofDraftAll dms h.2 path
      exact exists_ok_bind hm (exists_ok_bind hms ⟨_, rfl⟩)

end

end Member

theorem Peripheral.exists_ofDraft {dp : Draft.Peripheral}
    (h : dp.asMember.Each Draft.Member.Finished) (path : NodePath) :
    ∃ p, ofDraft path dp = .ok p := by
  obtain ⟨address, haddress⟩ := exists_resolved h.1.located
  obtain ⟨ms, hms⟩ := Member.exists_ofDraftAll dp.memberList h.2 path
  have hnames := Member.checkNames_of_ofDraftAll hms h.1.distinct.members
  exact exists_ok_bind haddress (exists_ok_bind hms (exists_ok_bind hnames ⟨_, rfl⟩))

theorem Interrupt.nodup_firstOfEach (is : List Interrupt) :
    ((firstOfEach is).map (·.name)).Nodup := by
  induction is with
  | nil => exact List.nodup_nil
  | cons i is ih =>
      rw [firstOfEach, List.map_cons, List.nodup_cons]
      refine ⟨?_, ih.sublist (List.filter_sublist.map _)⟩
      simp

/-- A draft that lacks nothing makes a device, and no two interrupts of it have a name in common. -/
theorem Device.exists_ofDraft {d : Draft.Device}
    (finished : Draft.Member.EachAll Draft.Member.Finished d.elements)
    (names : (d.peripherals.map (·.name)).Nodup) :
    ∃ device, (ofDraft d).result = .ok device ∧ (device.interrupts.map (·.name)).Nodup := by
  obtain ⟨ps, hps⟩ := exists_forall₂ fun p hp => Peripheral.exists_ofDraft
    (Draft.Member.eachAll_iff.1 finished _ (List.mem_map_of_mem hp)) (d.path.child p.name)
  exact ⟨_, ofDraft_eq_ok_iff.2 ⟨ps, hps, names, rfl⟩, Interrupt.nodup_firstOfEach _⟩

namespace Draft

/-- A complete draft in which the names of siblings are distinct lacks nothing once its addresses
have been resolved. -/
theorem Device.finished_of_resolveAddresses {d d' : Device} {tolerant : Bool}
    (complete : d.Complete) (distinct : d.Distinct)
    (h : (d.resolveAddresses tolerant).result = .ok d') :
    Member.EachAll Member.Finished d'.elements ∧ (d'.peripherals.map (·.name)).Nodup := by
  have husable := usable_of_resolveAddresses h
  obtain rfl := resolveAddresses_eq_ok h
  have hcomplete := complete.of_resembles d.alikeAll_placeAll
  have hdistinct := distinct.of_resembles d.alikeAll_placeAll
  refine ⟨?_, hdistinct.peripherals⟩
  have levels {P : Member → Prop} := Member.eachAll_iff_forall_levels (P := P) d.path
  refine (levels _).2 fun e he => ⟨?_, ?_, ?_, ?_⟩
  · exact (levels _).1 hcomplete e he
  · exact (levels _).1 hdistinct.members e he
  · exact (levels _).1 d.located_placeAll e he
  · exact (levels _).1 husable e he

/-- When the alternates of a draft have been linked, nothing is missing that the last stages rely
on: every element gets an address, the addresses are not refused because a base address, an offset
or the bits of a field are unknown, and a draft that has been placed makes a device. -/
theorem linked_never_incomplete {config : Config} {root : Element} {d : Device}
    (h : Reaches config root .linked d) (tolerant : Bool) :
    Member.EachAll Member.Located d.placeAll.elements ∧
      (∀ e, (d.resolveAddresses tolerant).result = .error e → ¬ e.Incomplete) ∧
      ∀ placed, (d.resolveAddresses tolerant).result = .ok placed →
        ∃ device, (RegisterMap.Device.ofDraft placed).result = .ok device ∧
          (device.interrupts.map (·.name)).Nodup := by
  obtain ⟨complete, distinct⟩ := h.complete
  refine ⟨d.located_placeAll, ?_, ?_⟩
  · exact fun e failed => (complete.refused_resolveAddresses tolerant e failed).present
  intro placed hplaced
  obtain ⟨finished, names⟩ := Device.finished_of_resolveAddresses complete distinct hplaced
  exact RegisterMap.Device.exists_ofDraft finished names

open Element in
/-- A register and a peripheral that take over where they are, and an interrupt that is defined
twice. -/
def openRoot : Element :=
  node "device" [leaf "name" "D", leaf "size" "8", leaf "resetValue" "0", node "peripherals" [
    node "peripheral" [leaf "name" "P", leaf "baseAddress" "16",
      node "interrupt" [leaf "name" "I", leaf "value" "1"],
      node "registers" [
        node "register" [leaf "name" "A", leaf "addressOffset" "4"],
        { node "register" [leaf "name" "B"] with attributes := [("derivedFrom", "A")] }]],
    { node "peripheral" [leaf "name" "Q",
        node "interrupt" [leaf "name" "I", leaf "value" "2"]] with
      attributes := [("derivedFrom", "P")] }]]

/-- What is taken over is enough to place the elements, and to make a device with one interrupt. -/
theorem linked_never_incomplete_open : ∃ d placed device, Reaches {} openRoot .linked d ∧
    (d.resolveAddresses true).result = .ok placed ∧
    Member.EachAll Member.Located placed.elements ∧
    (RegisterMap.Device.ofDraft placed).result = .ok device ∧
    device.peripherals.map (fun p => (p.name, p.address, p.members.map (·.name))) =
      [("P", 16, ["A", "B"]), ("Q", 16, ["A", "B"])] ∧
    (device.interrupts.map (·.name)).Nodup := by
  have hlinked : (linkedDraft {} openRoot).toOption.any fun linked =>
      (linked.resolveAddresses true).result.toOption.any fun placed =>
        (RegisterMap.Device.ofDraft placed).result.toOption.any fun device =>
          device.peripherals.map (fun p => (p.name, p.address, p.members.map (·.name))) =
            [("P", 16, ["A", "B"]), ("Q", 16, ["A", "B"])] := by
    decide +kernel
  obtain ⟨linked, hlinked, h⟩ := exists_ok_of_any hlinked
  obtain ⟨placed, hplaced, h⟩ := exists_ok_of_any h
  obtain ⟨device, hdevice, h⟩ := exists_ok_of_any h
  have hreaches : Reaches {} openRoot .linked linked := reaches_linked_iff.2 hlinked
  obtain ⟨hlocated, -, hmakes⟩ := linked_never_incomplete hreaches true
  obtain ⟨device', hdevice', hinterrupts⟩ := hmakes placed hplaced
  cases hdevice.symm.trans hdevice'
  rw [← Device.resolveAddresses_eq_ok hplaced] at hlocated
  exact ⟨linked, placed, device, hreaches, hplaced, hlocated, hdevice, of_decide_eq_true h,
    hinterrupts⟩

end Draft

end RegisterMap
