import RegisterMap.Proofs.Building
import RegisterMap.Proofs.Expansion
import RegisterMap.Proofs.Passes
import RegisterMap.Proofs.Resolvability

/-!
# Names and fields on the way through a run

What a run does to a draft changes little about the name of an element and about the fields of a
register. A name is read from the document once. A field is read once, may be taken over by other
registers, and is moved when an array of fields is expanded. So a condition on names and fields that
is met by everything in the document (`Element.Supplies`) and kept by arrays is met by every draft
of the run (`Reaches.hasParts`).
-/

namespace RegisterMap

/-! ### Elements of a document -/

namespace Element

/-- The element is the root element of a document or inside of it, at any depth. -/
inductive Within : Element → Element → Prop
  | root {root : Element} : Within root root
  | child {e c root : Element} (outer : Within e root) (mem : c ∈ e.children) : Within c root

variable {e c root : Element} {tag : String}

theorem Within.of_child? (h : e.Within root) (hc : e.child? tag = some c) : c.Within root :=
  .child h (List.mem_of_find?_eq_some hc)

theorem Within.of_mem_childrenTagged (h : e.Within root) (hc : c ∈ e.childrenTagged tag) :
    c.Within root ∧ c.tag = tag :=
  ⟨.child h (List.mem_of_mem_filter hc), beq_iff_eq.1 (List.mem_filter.1 hc).2⟩

end Element

namespace Draft

/-- The name of the member and all of its fields meet the conditions. -/
structure Member.HasParts (N : String → Prop) (F : Field → Prop) (m : Member) : Prop where
  name : N m.name
  fields : ∀ f ∈ m.fieldList, F f

/-- The names of all elements and all fields of the device meet the conditions. -/
def Device.HasParts (N : String → Prop) (F : Field → Prop) (d : Device) : Prop :=
  Member.EachAll (Member.HasParts N F) d.elements

/-- The names that are read from a document and the fields that are built from it meet the
conditions. -/
structure Supplies (root : Element) (N : String → Prop) (F : Field → Prop) : Prop where
  name : ∀ e, e.Within root → ∀ parent kind name path, requiredName parent kind e = .ok name →
    pathOf parent name = .ok path → N name
  field : ∀ e, e.Within root → e.tag = "field" → ∀ parent, (buildField parent e).Yields F

variable {root : Element} {N : String → Prop} {F : Field → Prop}

/-! ### Building -/

namespace Supplies

theorem buildFields (supplies : Supplies root N F) (parent : NodePath) (built : List Field)
    (es : List Element) (within : ∀ e ∈ es, e.Within root ∧ e.tag = "field")
    (h : ∀ f ∈ built, F f) :
    (buildFields parent built es).Yields fun fs => ∀ f ∈ fs, F f := by
  induction es generalizing built with
  | nil => exact .of_pure h
  | cons e es ih =>
      rw [List.forall_mem_cons] at within
      obtain ⟨⟨hwithin, htag⟩, hrest⟩ := within
      refine .bind (supplies.field e hwithin htag parent) fun f hf => .throw_or fun _ => ?_
      exact ih _ hrest (List.forall_mem_append.2 ⟨h, List.forall_mem_singleton.2 hf⟩)

theorem buildRegister (supplies : Supplies root N F) (parent : NodePath) {e : Element}
    (within : e.Within root) :
    (buildRegister parent e).Yields fun r => (Member.register r).HasParts N F := by
  unfold Draft.buildRegister
  refine .bind (.of_ofExcept fun _ h => h) fun name hname => ?_
  refine .bind (.of_ofExcept fun _ h => h) fun path hpath => ?_
  have hN := supplies.name e within parent .register name path hname hpath
  refine .bind_of_forall fun offset => .throw_or fun _ => ?_
  cases hfields : e.child? "fields" with
  | none =>
      refine .bind (.of_pure (P := (· = none)) rfl) fun fs hfs => ?_
      subst hfs
      exact .bind_of_forall fun _ => .bind_of_forall fun _ =>
        .of_pure ⟨hN, List.forall_mem_nil _⟩
  | some fields =>
      have hinside : ∀ c ∈ fields.childrenTagged "field", c.Within root ∧ c.tag = "field" :=
        fun c hc => (within.of_child? hfields).of_mem_childrenTagged hc
      refine .bind (Q := fun fs => ∀ f ∈ fs.getD [], F f)
        (.map (supplies.buildFields path [] _ hinside (List.forall_mem_nil _))) fun fs hfs => ?_
      exact .bind_of_forall fun _ => .bind_of_forall fun _ => .of_pure ⟨hN, hfs⟩

theorem buildClusterHead (supplies : Supplies root N F) {parent : NodePath} {e : Element}
    (within : e.Within root) {c : Cluster} (h : buildClusterHead parent e = .ok c) : N c.name := by
  obtain ⟨name, hname, h⟩ := bind_eq_ok_iff.1 h
  obtain ⟨path, hpath, h⟩ := bind_eq_ok_iff.1 h
  have hN := supplies.name e within parent .cluster name path hname hpath
  split at h
  · cases h
  · obtain ⟨given, -, h⟩ := bind_eq_ok_iff.1 h
    obtain ⟨offset, -, h⟩ := bind_eq_ok_iff.1 h
    obtain ⟨props, -, h⟩ := bind_eq_ok_iff.1 h
    obtain ⟨dim, -, h⟩ := bind_eq_ok_iff.1 h
    cases h
    exact hN

mutual

theorem buildMember (supplies : Supplies root N F) (parent : NodePath) :
    ∀ e : Element, e.Within root → (buildMember parent e).Yields fun found =>
      ∀ m, found = some m → m.Each (Member.HasParts N F)
  | ⟨tag, line, attributes, text, children⟩, within => by
      unfold Draft.buildMember
      split
      · refine .bind (supplies.buildRegister parent within) fun r hr => .of_pure ?_
        rintro m ⟨⟩
        exact hr
      · refine .bind (.of_ofExcept fun _ => supplies.buildClusterHead within) fun c hc => ?_
        refine .bind (supplies.buildMembers _ [] children (fun e he => .child within he) trivial)
          fun ms hms => .of_pure ?_
        rintro m ⟨⟩
        exact ⟨⟨hc, List.forall_mem_nil _⟩, hms⟩
      · exact .of_pure nofun

theorem buildMembers (supplies : Supplies root N F) (parent : NodePath) (built : List Member) :
    ∀ es : List Element, (∀ e ∈ es, e.Within root) →
      Member.EachAll (Member.HasParts N F) built →
      (buildMembers parent built es).Yields (Member.EachAll (Member.HasParts N F))
  | [], _, h => .of_pure h
  | e :: es, within, h => by
      rw [List.forall_mem_cons] at within
      unfold Draft.buildMembers
      refine .bind (supplies.buildMember parent e within.1) fun found hfound => ?_
      cases found with
      | none => exact supplies.buildMembers parent built es within.2 h
      | some m =>
          refine .throw_or fun _ => supplies.buildMembers parent (built ++ [m]) es within.2 ?_
          refine Member.eachAll_iff.2 (List.forall_mem_append.2 ⟨Member.eachAll_iff.1 h, ?_⟩)
          exact List.forall_mem_singleton.2 (hfound m rfl)

end

theorem buildPeripheral (supplies : Supplies root N F) (parent : NodePath) {e : Element}
    (within : e.Within root) :
    (buildPeripheral parent e).Yields fun p => p.asMember.Each (Member.HasParts N F) := by
  unfold Draft.buildPeripheral
  refine .bind (.of_ofExcept fun _ h => h) fun name hname => ?_
  refine .bind (.of_ofExcept fun _ h => h) fun path hpath => ?_
  have hN := supplies.name e within parent .peripheral name path hname hpath
  refine .bind_of_forall fun base => .throw_or fun _ => .bind_of_forall fun blocks => ?_
  refine .bind_of_forall fun interrupts => ?_
  cases hregisters : e.child? "registers" with
  | none =>
      refine .bind (.of_pure (P := (· = none)) rfl) fun ms hms => ?_
      subst hms
      exact .bind_of_forall fun _ => .bind_of_forall fun _ =>
        .of_pure ⟨⟨hN, List.forall_mem_nil _⟩, trivial⟩
  | some registers =>
      refine .bind (Q := fun ms => Member.EachAll (Member.HasParts N F) (ms.getD []))
        (.map (supplies.buildMembers path [] registers.children
          (fun c hc => .child (within.of_child? hregisters) hc) trivial)) fun ms hms => ?_
      exact .bind_of_forall fun _ => .bind_of_forall fun _ =>
        .of_pure ⟨⟨hN, List.forall_mem_nil _⟩, hms⟩

end Supplies

theorem Member.HasParts.withDefaults {m : Member} (h : m.HasParts N F)
    (defaults : RegisterProperties) : (m.withDefaults defaults).HasParts N F := by
  cases m with
  | register r => exact ⟨h.name, h.fields⟩
  | cluster c ms => exact ⟨h.name, List.forall_mem_nil _⟩

theorem within_peripherals {e : Element} (he : e ∈ root.peripherals) : e.Within root := by
  unfold Element.peripherals at he
  cases hlist : root.child? "peripherals" with
  | none =>
      rw [hlist] at he
      cases he
  | some list =>
      rw [hlist] at he
      exact ((Element.Within.root.of_child? hlist).of_mem_childrenTagged he).1

theorem Supplies.buildDevice (supplies : Supplies root N F) :
    (buildDevice root).Yields (Device.HasParts N F) := by
  intro d h
  refine Member.eachAll_iff.2 (List.forall_mem_map.2 ?_)
  refine forall_peripherals_buildDevice root
    (fun parent e he => supplies.buildPeripheral parent (within_peripherals he)) ?_ d h
  intro p defaults hp
  rw [Peripheral.asMember_withDefaults]
  exact Member.each_withDefaults (fun _ defaults h => h.withDefaults defaults) _ _ hp

/-! ### Derivation -/

/-- A peripheral on a chain that ends keeps its name, and its members are those of a peripheral on
the chain. -/
theorem Device.HasBases.hasParts {d : Device} (h : d.HasParts N F) {p : Peripheral}
    {bases : List Peripheral} (hp : p.asMember.Each (Member.HasParts N F))
    (chain : d.HasBases p bases) :
    (p.deriveAlong bases).asMember.Each (Member.HasParts N F) := by
  induction chain with
  | last own => exact hp
  | @step p base bases mem given rest ih =>
      have hbase := (ih (Member.eachAll_iff.1 h _ (List.mem_map_of_mem mem))).2
      refine ⟨⟨hp.1.name, List.forall_mem_nil _⟩, ?_⟩
      change Member.EachAll _ ((p.members.or (base.deriveAlong bases).members).getD [])
      have hown : Member.EachAll (Member.HasParts N F) (p.members.getD []) := hp.2
      cases hms : p.members with
      | none => exact hbase
      | some ms =>
          rw [hms] at hown
          exact hown

/-- A register on a chain that ends keeps its name, and its fields are those of a register on the
chain. -/
theorem Device.DerivesAlong.hasParts {d : Device} (h : d.HasParts N F) {s : Site} {ts : List Site}
    (hs : s ∈ d.sites) (chain : d.DerivesAlong s ts) :
    (Member.register (s.register.deriveAlong (ts.map (·.register)))).HasParts N F := by
  induction chain with
  | last own => exact each_register h hs
  | @step s t ts first rest ih =>
      have hown := each_register h hs
      refine ⟨hown.name, ?_⟩
      have hfields := hown.fields
      change ∀ f ∈ s.register.fields.getD [], F f at hfields
      change ∀ f ∈ (s.register.fields.or _).getD [], F f
      cases hfs : s.register.fields with
      | none => exact (ih (first.mem_sites hs)).fields
      | some fs =>
          rw [hfs] at hfields
          exact hfields

namespace Device.HasParts

variable {d d' : Device}

theorem resolveDerivations (h : d.HasParts N F) (settled : d.Settled)
    (pass : d.resolveDerivations.result = .ok d') : d'.HasParts N F := by
  obtain ⟨middle, f, -, hderives, hregisters, rfl⟩ := resolveDerivations_eq_ok settled pass
  have hmiddle : middle.HasParts N F := by
    refine Member.eachAll_iff.2 fun m hm => ?_
    obtain ⟨p', hp', rfl⟩ := List.mem_map.1 hm
    obtain ⟨p, hp, bases, hchain, rfl⟩ := exists_mem_left hderives hp'
    rw [Peripheral.asMember_withDefaults]
    exact Member.each_withDefaults (fun _ defaults h => h.withDefaults defaults) _ _
      (hchain.hasParts h (Member.eachAll_iff.1 h _ (List.mem_map_of_mem hp)))
  have halike := alikeAll_mapRegisters (d := middle) (f := f)
    (S := fun _ r' => (Member.register r').HasParts N F) fun s hs => by
      obtain ⟨bases, hchain, hr⟩ := exists_chain_of_deriveRegister (hregisters s hs)
      rw [hr]
      exact hchain.hasParts hmiddle hs
  refine Member.EachAll.of_alike (fun m m' hreplaces _ hm => ?_) _ halike hmiddle
  cases m with
  | register r =>
      cases m' with
      | register r' => exact hreplaces
      | cluster c' ms' => exact hreplaces.elim
  | cluster c ms =>
      cases m' with
      | register r' => exact hreplaces.elim
      | cluster c' ms' =>
          obtain rfl := hreplaces
          exact ⟨hm.name, List.forall_mem_nil _⟩

/-! ### The other passes -/

theorem expand (h : d.HasParts N F) (names : ∀ name token, N name → N (instanceName name token))
    (fields : ∀ f, F f → ∀ i ∈ instances f, F (place f i)) (pass : d.expand.result = .ok d') :
    d'.HasParts N F := by
  rw [HasParts, elements_expand pass]
  refine Member.eachAll_expandedAll (fun m hm => ?_) (fun m i hm => ⟨?_, ?_⟩) _ h
  · cases m with
    | cluster c ms => exact ⟨hm.name, List.forall_mem_nil _⟩
    | register r =>
        refine ⟨hm.name, fun f hf => ?_⟩
        have hfields := hm.fields
        change f ∈ (r.fields.map (List.flatMap replacements)).getD [] at hf
        change ∀ f ∈ r.fields.getD [], F f at hfields
        cases hfs : r.fields with
        | none =>
            rw [hfs] at hf
            cases hf
        | some fs =>
            rw [hfs] at hf hfields
            obtain ⟨g, hg, hf⟩ := List.mem_flatMap.1 hf
            obtain ⟨i, hi, rfl⟩ := List.mem_map.1 hf
            exact fields g (hfields g hg) i hi
  · cases m with
    | register r => exact names _ i.token hm.name
    | cluster c ms => exact names _ i.token hm.name
  · rw [Member.fieldList_place]
    exact hm.fields

theorem without (h : d.HasParts N F) (names : List String) : (d.without names).HasParts N F :=
  Member.eachAll_iff.2 fun m hm => Member.eachAll_iff.1 h m (mem_elements_without hm)

theorem of_resembles (h : d.HasParts N F)
    (alike : Member.AlikeAll Member.Resembles d.elements d'.elements) : d'.HasParts N F :=
  Member.EachAll.of_alike (fun _ _ hR _ hm => ⟨hR.name ▸ hm.name, hR.fieldList ▸ hm.fields⟩) _
    alike h

end Device.HasParts

/-- What a document supplies is there in every draft of a run, if arrays keep the conditions. -/
theorem Reaches.hasParts {config : Config} {stage : Stage} {d : Device}
    (supplies : Supplies root N F) (names : ∀ name token, N name → N (instanceName name token))
    (fields : ∀ f, F f → ∀ i ∈ instances f, F (Draft.place f i)) (h : Reaches config root stage d) :
    d.HasParts N F := by
  induction h with
  | build pass => exact supplies.buildDevice _ pass
  | derive before pass ih => exact ih.resolveDerivations before.settled pass
  | expand _ pass ih => exact ih.expand names fields pass
  | exclude _ pass ih =>
      cases pass
      exact ih.without _
  | link _ pass ih => exact ih.of_resembles (Device.alikeAll_resolveAlternates pass).1
  | @place d d' _ pass ih =>
      rw [Device.resolveAddresses_eq_ok pass]
      exact ih.of_resembles d.alikeAll_placeAll

end Draft

end RegisterMap
