import RegisterMap.Proofs.Passes
import RegisterMap.Proofs.Resolvability
import RegisterMap.Proofs.Shape
import RegisterMap.Proofs.Stages

/-!
# Properties in effect around elements

Every element of a draft knows the register properties in effect around it. They are stored with
the element, so they have to be set anew whenever the element comes to another place. At each stage
of a run they are those in effect for the element directly around it, and around a peripheral those
of the device (`Device.Inherits`).

The properties in effect for a register are then the first ones that are given on the way from the
register itself to the device (`reaches_inherits`).
-/

namespace RegisterMap.Draft

/-- The properties in effect for the member are known to be in effect around everything directly
inside of it. -/
def Member.HandsDown (m : Member) : Prop :=
  ∀ n ∈ m.members, n.header.defaults = m.header.effective

/-- The properties in effect around every element are known to it: around a peripheral those of the
device, and around anything in it those in effect for the element directly around it. -/
structure Device.Inherits (d : Device) : Prop where
  peripherals : ∀ p ∈ d.peripherals, p.defaults = d.props
  members : Member.EachAll Member.HandsDown d.elements

/-- The register stands among members, or in some of the clusters there, which are listed from the
inside out. -/
inductive Member.Holds : List Member → List Cluster → Register → Prop
  | here {ms : List Member} {r : Register} (mem : .register r ∈ ms) : Holds ms [] r
  | inside {ms ns : List Member} {c : Cluster} {cs : List Cluster} {r : Register}
      (mem : .cluster c ns ∈ ms) (rest : Holds ns cs r) : Holds ms (cs ++ [c]) r

namespace Member

/-- The properties in effect for a register are the first ones given by it or a cluster around it,
and after these the properties around the outermost one. -/
theorem Holds.effective {ms : List Member} {cs : List Cluster} {r : Register}
    (h : Holds ms cs r) {around : RegisterProperties}
    (outermost : ∀ m ∈ ms, m.header.defaults = around) (inside : EachAll HandsDown ms) :
    r.effective = (RegisterProperties.firstGiven (r.props :: cs.map (·.props))).inherit around := by
  induction h generalizing around with
  | here mem =>
      rw [List.map_nil, RegisterProperties.firstGiven_singleton, ← outermost _ mem]
      rfl
  | @inside ms ns c cs r mem rest ih =>
      have hcluster := each_iff.1 (eachAll_iff.1 inside _ mem)
      have heffective : c.effective = c.props.inherit around := by
        rw [← outermost _ mem]
        rfl
      rw [ih hcluster.1 hcluster.2, List.map_append, List.map_singleton, ← List.cons_append,
        RegisterProperties.firstGiven_append, RegisterProperties.firstGiven_singleton,
        RegisterProperties.inherit_assoc, ← heffective]
      rfl

/-! ### One pass at a time -/

theorem handsDown_withDefaults_cluster (defaults : RegisterProperties) (c : Cluster)
    (ms : List Member) : ((cluster c ms).withDefaults defaults).HandsDown := by
  intro n hn
  rw [members_withDefaults, withDefaultsAll_eq_map] at hn
  obtain ⟨m, -, rfl⟩ := List.mem_map.1 hn
  exact defaults_withDefaults _ m

mutual

theorem each_handsDown_withDefaults (defaults : RegisterProperties) :
    ∀ m : Member, (m.withDefaults defaults).Each HandsDown
  | .register _ => fun _ hn => absurd hn List.not_mem_nil
  | .cluster c ms =>
      ⟨handsDown_withDefaults_cluster defaults c ms, eachAll_handsDown_withDefaultsAll _ ms⟩

theorem eachAll_handsDown_withDefaultsAll (defaults : RegisterProperties) :
    ∀ ms : List Member, EachAll HandsDown (withDefaultsAll defaults ms)
  | [] => trivial
  | m :: ms =>
      ⟨each_handsDown_withDefaults defaults m, eachAll_handsDown_withDefaultsAll defaults ms⟩

end

@[simp] theorem defaults_header_place (m : Member) (i : Option Instance) :
    (place m i).header.defaults = m.header.defaults := by
  cases i with
  | none => rfl
  | some i => cases m <;> rfl

@[simp] theorem header_expanded (m : Member) : m.expanded.header = m.header := by
  cases m <;> rfl

theorem HandsDown.expanded {m : Member} (h : m.HandsDown) : m.expanded.HandsDown := by
  cases m with
  | register r => exact fun _ hn => absurd hn List.not_mem_nil
  | cluster c ms =>
      intro n hn
      obtain ⟨m, hm, i, -, rfl⟩ := mem_expandedAll_iff.1 hn
      rw [defaults_header_place, header_expanded]
      exact h m hm

theorem HandsDown.place {m : Member} (h : m.HandsDown) (i : Instance) :
    (place m (some i)).HandsDown := by
  cases m with
  | register r => exact fun _ hn => absurd hn List.not_mem_nil
  | cluster c ms => exact h

end Member

namespace Device

variable {d d' : Device}

theorem inherits_iff : d.Inherits ↔
    (∀ m ∈ d.elements, m.header.defaults = d.props) ∧
      Member.EachAll Member.HandsDown d.elements := by
  unfold elements
  rw [List.forall_mem_map]
  exact ⟨fun h => ⟨h.peripherals, h.members⟩, fun h => ⟨h.1, h.2⟩⟩

/-- It is enough to set the properties in effect around each peripheral. -/
theorem inherits_of_withDefaults
    (h : ∀ p ∈ d.peripherals, ∃ q : Peripheral, p = q.withDefaults d.props) : d.Inherits := by
  refine inherits_iff.2 ⟨fun m hm => ?_, Member.eachAll_iff.2 fun m hm => ?_⟩
  all_goals
    obtain ⟨p, hp, rfl⟩ := List.mem_map.1 hm
    obtain ⟨q, rfl⟩ := h p hp
    rw [q.asMember_withDefaults]
  · exact Member.defaults_withDefaults _ _
  · exact Member.each_handsDown_withDefaults _ _

/-- Members of one shape, of which none differs from its counterpart in the properties that it gives
and in those around it, hand down the same. -/
theorem Inherits.of_alikeAll {R : Member → Member → Prop} (h : d.Inherits)
    (same : ∀ m m', R m m' → m'.header.defaults = m.header.defaults)
    (own : ∀ m m', R m m' → m'.members ≠ [] → m'.header.effective = m.header.effective)
    (alike : Member.AlikeAll R d.elements d'.elements) (props : d'.props = d.props) :
    d'.Inherits := by
  obtain ⟨htop, hmembers⟩ := inherits_iff.1 h
  refine inherits_iff.2 ⟨fun m' hm' => ?_, Member.EachAll.of_alike ?_ _ alike hmembers⟩
  · obtain ⟨m, hm, hR⟩ := exists_mem_left alike.roots hm'
    rw [same m m' hR, htop m hm, props]
  · intro m m' hR hinside hdown n' hn'
    obtain ⟨n, hn, hR'⟩ := exists_mem_left hinside hn'
    rw [same n n' hR', own m m' hR (List.ne_nil_of_mem hn')]
    exact hdown n hn

theorem Inherits.resolveDerivations (settled : d.Settled)
    (pass : d.resolveDerivations.result = .ok d') : d'.Inherits := by
  obtain ⟨middle, f, hmiddle, hderives, hregisters, rfl⟩ := resolveDerivations_eq_ok settled pass
  have hprops : middle.props = d.props := by rw [hmiddle]
  have hinherits : middle.Inherits := by
    refine inherits_of_withDefaults fun p' hp' => ?_
    obtain ⟨p, -, bases, -, rfl⟩ := exists_mem_left hderives hp'
    exact ⟨p.deriveAlong bases, by rw [hprops]⟩
  refine hinherits.of_alikeAll (R := Member.Replaces fun r r' => r'.defaults = r.defaults)
    (fun m m' h => ?_) (fun m m' h hne => ?_) (alikeAll_mapRegisters fun s hs => ?_) rfl
  · cases m <;> cases m' <;> first | exact h | exact h.elim | exact congrArg (·.defaults) h
  · cases m <;> cases m' <;> first | exact absurd rfl hne | exact h.elim |
      exact congrArg (·.effective) h
  · obtain ⟨bases, -, hr⟩ := exists_chain_of_deriveRegister (hregisters s hs)
    rw [hr]
    cases bases <;> rfl

theorem Inherits.expand (h : d.Inherits) (pass : d.expand.result = .ok d') : d'.Inherits := by
  have hprops : d'.props = d.props := by
    obtain ⟨-, -, rfl⟩ := expand_eq_ok_iff.1 pass
    rfl
  obtain ⟨htop, hmembers⟩ := inherits_iff.1 h
  rw [inherits_iff, elements_expand pass, hprops]
  refine ⟨fun n hn => ?_, Member.eachAll_expandedAll (fun _ => Member.HandsDown.expanded)
    (fun _ i h => h.place i) _ hmembers⟩
  obtain ⟨m, hm, i, -, rfl⟩ := Member.mem_expandedAll_iff.1 hn
  rw [Member.defaults_header_place, Member.header_expanded, htop m hm]

theorem Inherits.without (h : d.Inherits) (names : List String) : (d.without names).Inherits := by
  obtain ⟨htop, hmembers⟩ := inherits_iff.1 h
  rw [Member.eachAll_iff] at hmembers
  exact inherits_iff.2 ⟨fun m hm => htop m (mem_elements_without hm),
    Member.eachAll_iff.2 fun m hm => hmembers m (mem_elements_without hm)⟩

theorem Inherits.of_resembles (h : d.Inherits)
    (alike : Member.AlikeAll Member.Resembles d.elements d'.elements)
    (props : d'.props = d.props) : d'.Inherits :=
  h.of_alikeAll (fun _ _ hR => hR.own (·.defaults) fun _ _ _ => rfl)
    (fun _ _ hR _ => hR.own (·.effective) fun _ _ _ => rfl) alike props

/-- The properties in effect for a register of the device are the first ones given by it, a cluster
around it, its peripheral or the device. -/
theorem Inherits.effective (h : d.Inherits) {p : Peripheral} (hp : p ∈ d.peripherals)
    {cs : List Cluster} {r : Register} (hr : Member.Holds p.memberList cs r) :
    r.effective = .firstGiven (r.props :: cs.map (·.props) ++ [p.props, d.props]) := by
  have hinside := Member.each_iff.1 (Member.eachAll_iff.1 h.members _ (List.mem_map_of_mem hp))
  have hpair : RegisterProperties.firstGiven [p.props, d.props] = p.effective := by
    rw [RegisterProperties.firstGiven_cons, RegisterProperties.firstGiven_singleton,
      ← h.peripherals p hp]
    rfl
  rw [hr.effective hinside.1 hinside.2, RegisterProperties.firstGiven_append, hpair]
  rfl

end Device

/-! ### Whole runs -/

variable {config : Config} {root : Element} {stage : Stage} {d : Device}

/-- No pass leaves an element with properties around it that are out of date. -/
theorem Reaches.inherits (h : Reaches config root stage d) : d.Inherits := by
  induction h with
  | build pass =>
      have settled := settled_buildDevice root _ pass
      exact Device.inherits_of_withDefaults fun p hp => ⟨p, (settled.defaults p hp).symm⟩
  | derive before pass => exact .resolveDerivations before.settled pass
  | expand _ pass ih => exact ih.expand pass
  | exclude _ pass ih =>
      cases pass
      exact ih.without _
  | link _ pass ih =>
      obtain ⟨halike, hrest⟩ := Device.alikeAll_resolveAlternates pass
      exact ih.of_resembles halike (by rw [hrest])
  | place _ pass ih =>
      obtain rfl := Device.resolveAddresses_eq_ok pass
      exact ih.of_resembles (Device.alikeAll_placeAll _) rfl

/-- A register that is not replaced stays where it is. -/
theorem Member.Holds.of_alikeAll {S : Register → Register → Prop} {ms : List Member}
    {cs : List Cluster} {r : Register} (h : Holds ms cs r) (kept : ∀ r', S r r' → r' = r)
    {ms' : List Member} (alike : AlikeAll (Replaces S) ms ms') : Holds ms' cs r := by
  induction h generalizing ms' with
  | here mem =>
      obtain ⟨m', hm', hR⟩ := exists_mem_right alike.roots mem
      cases m' with
      | register r' =>
          obtain rfl := kept r' hR
          exact .here hm'
      | cluster c' ms' => exact hR.elim
  | inside mem rest ih =>
      obtain ⟨m', hm', halike⟩ := exists_mem_right (alikeAll_iff.1 alike) mem
      cases m' with
      | register r' => exact halike.elim
      | cluster c' ms' =>
          obtain ⟨rfl, hinside⟩ := halike
          exact .inside hm' (ih kept hinside)

/-- At every stage of a run each element knows the properties in effect around it, so those in
effect for a register are the first ones given by it, a cluster around it, its peripheral or the
device. A register that is not derived gives what it gave before, in whatever peripherals it has
been copied to: it stays as it is when registers are derived. -/
theorem reaches_inherits (h : Reaches config root stage d) :
    d.Inherits ∧
      (∀ p ∈ d.peripherals, ∀ cs r, Member.Holds p.memberList cs r →
        r.effective = .firstGiven (r.props :: cs.map (·.props) ++ [p.props, d.props])) ∧
      ∀ middle n d', d.derivePeripherals = .ok (middle, n) →
        d.resolveDerivations.result = .ok d' → ∀ p ∈ middle.peripherals, ∀ cs r,
          Member.Holds p.memberList cs r → r.derivedFrom = none →
            ∃ p' ∈ d'.peripherals, p'.toHeader = p.toHeader ∧ Member.Holds p'.memberList cs r := by
  refine ⟨h.inherits, fun p hp cs r hr => h.inherits.effective hp hr, ?_⟩
  intro middle n d' hmiddle pass p hp cs r hr hown
  obtain ⟨_, hmiddle', pass⟩ := Logged.bind_eq_ok_iff.1 pass
  obtain ⟨⟨_, m⟩, hregisters, pass⟩ := Logged.bind_eq_ok_iff.1 pass
  cases hmiddle.symm.trans hmiddle'
  cases pass
  obtain ⟨f, rfl, hf⟩ := Device.deriveRegisters_eq_ok hregisters
  have halike := Device.alikeAll_mapRegisters (d := middle) (f := f)
    (S := fun r r' => r.derivedFrom = none → r' = r) fun s hs hnone =>
      Except.ok.inj ((hf s hs).symm.trans (Device.deriveRegister_of_own hnone))
  obtain ⟨m', hm', hcopy⟩ :=
    exists_mem_right (Member.alikeAll_iff.1 halike) (List.mem_map_of_mem hp)
  obtain ⟨p', hp', rfl⟩ := List.mem_map.1 hm'
  refine ⟨p', hp', ?_, hr.of_alikeAll (fun r' hr' => hr' hown) hcopy.2⟩
  exact congrArg (·.toHeader) hcopy.1

open Element in
/-- A peripheral that takes over a register in a cluster, and gives another size for it. -/
def resizedRoot : Element :=
  node "device" [leaf "name" "D", leaf "size" "32", node "peripherals" [
    node "peripheral" [leaf "name" "P", leaf "baseAddress" "0", leaf "size" "16",
      node "registers" [node "cluster" [leaf "name" "C", leaf "addressOffset" "0",
        node "register" [leaf "name" "R", leaf "addressOffset" "0"]]]],
    { node "peripheral" [leaf "name" "Q", leaf "baseAddress" "16", leaf "size" "8"] with
      attributes := [("derivedFrom", "P")] }]]

/-- The size in effect for the copy of the register is that of the peripheral to which it is
copied. -/
theorem reaches_inherits_resized :
    ∃ d p c r, Reaches {} resizedRoot .derived d ∧ d.Inherits ∧ p ∈ d.peripherals ∧
      Member.Holds p.memberList [c] r ∧ p.name = "Q" ∧ r.effective.size = some 8 ∧
      r.effective = .firstGiven [r.props, c.props, p.props, d.props] := by
  have hbuilt : (buildDevice resizedRoot).result.toOption.any fun built =>
      built.resolveDerivations.result.toOption.any fun d => d.peripherals.any fun p =>
        p.name = "Q" && p.memberList.any fun m => m.members.any fun n =>
          n.kind = .register && n.header.effective.size = some 8 := by
    decide +kernel
  obtain ⟨built, hbuilt, h⟩ := exists_ok_of_any hbuilt
  obtain ⟨d, hd, h⟩ := exists_ok_of_any h
  simp only [List.any_eq_true, Bool.and_eq_true, decide_eq_true_eq] at h
  obtain ⟨p, hp, hname, m, hm, n, hn, hkind, hsize⟩ := h
  cases m with
  | register r => cases hn
  | cluster c ms =>
      cases n with
      | cluster c' ms' => cases hkind
      | register r =>
          have hreaches : Reaches {} resizedRoot .derived d := .derive (.build hbuilt) hd
          obtain ⟨hinherits, hfirst, -⟩ := reaches_inherits hreaches
          have hholds : Member.Holds p.memberList [c] r := .inside hm (.here hn)
          exact ⟨d, p, c, r, hreaches, hinherits, hp, hholds, hname, hsize,
            hfirst p hp [c] r hholds⟩

end RegisterMap.Draft
