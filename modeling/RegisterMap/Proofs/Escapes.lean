import RegisterMap.Proofs.Completeness
import RegisterMap.Proofs.Document
import RegisterMap.Proofs.Reports

/-!
# What a run reports

The passes of a run find faults of their own: arrays, references, addresses. Callers are told of all
of them, except that the name of an instance of an array may have an empty part and that addresses
may be too far apart to be counted. Together with what building a draft reports, this is all that a
run can fail with (`parse_reports`).
-/

namespace RegisterMap

namespace Draft

variable {config : Config} {root : Element} {path : NodePath}

/-- The name of the member is given in the document and makes a path. So are the names of its
fields, which make paths only when arrays are expanded. -/
abbrev Member.Named (root : Element) : Member → Prop :=
  Member.HasParts (NamedIn root) fun f => root.Declares f.name

/-- The condition on a draft under which arrays can be expanded. -/
abbrev Device.Named (root : Element) (d : Device) : Prop :=
  d.HasParts (NamedIn root) fun f => root.Declares f.name

/-! ### Arrays -/

section

variable {α : Type} [Dimensioned α]

theorem elementary_copies (usable : path.Usable) {a : α}
    (declared : root.Declares (Dimensioned.name a)) :
    FailsWith (Elementary config root) (copies path a) := by
  unfold copies
  split
  · exact .of_ok
  · refine .bind (.mapError fun fault _ => ⟨.inl (.dimension _ fault), nofun⟩) fun tokens _ => ?_
    refine .check (fun _ => ⟨.inl (.dimension _ _), nofun⟩) fun _ => ?_
    refine .mapM fun e _ => .bind (.mapError ?_) fun _ _ => .of_ok
    rw [usable.enter_eq]
    refine .ite (fun hblank => .of_error ?_) fun _ => .of_ok
    exact ⟨.inr (.instanceName declared hblank _), nofun⟩

/-- The copies of an element have names that make paths. -/
theorem whole_of_copies {a : α} {is : List (Option Instance)} (h : copies path a = .ok is)
    (own : "" ∉ NodePath.split (Dimensioned.name a))
    (named : ∀ i, Dimensioned.name (Dimensioned.instantiate a i) =
      instanceName (Dimensioned.name a) i.token) :
    ∀ i ∈ is, "" ∉ NodePath.split (Dimensioned.name (place a i)) := by
  unfold copies at h
  split at h
  · cases h
    intro i hi
    obtain rfl := List.mem_singleton.1 hi
    exact own
  · obtain ⟨tokens, -, h⟩ := bind_eq_ok_iff.1 h
    split at h
    · cases h
    · intro i hi
      obtain ⟨⟨token, k⟩, -, hstep⟩ := exists_mem_left (mapM_eq_ok_iff.1 h) hi
      obtain ⟨entered, henter, hstep⟩ := bind_eq_ok_iff.1 hstep
      cases hstep
      change "" ∉ NodePath.split (Dimensioned.name (Dimensioned.instantiate a _))
      rw [named]
      exact NodePath.whole_of_enter (mapError_eq_ok_iff.1 henter)

theorem elementary_claimNames (path : NodePath) (taken names : List String) :
    FailsWith (Elementary config root) (claimNames path taken names) := by
  induction names generalizing taken with
  | nil => exact .of_ok
  | cons name names ih =>
      exact .ite (fun _ => .of_error (elementary_schema _ _)) fun _ => ih _

theorem elementary_copiesAll (usable : path.Usable) (taken : List String) {as : List α}
    (declared : ∀ a ∈ as, root.Declares (Dimensioned.name a)) :
    FailsWith (Elementary config root) (copiesAll path taken as) := by
  induction as generalizing taken with
  | nil => exact .of_ok
  | cons a as ih =>
      rw [List.forall_mem_cons] at declared
      refine .bind (elementary_copies usable declared.1) fun is _ => ?_
      refine .bind (elementary_claimNames path taken _) fun taken _ => ?_
      exact .bind (ih taken declared.2) fun _ _ => .of_ok

end

theorem elementary_expandFields (usable : path.Usable) {fs : List Field}
    (declared : ∀ f ∈ fs, root.Declares f.name) :
    FailsWith (Elementary config root) (expandFields path fs) :=
  .bind (elementary_copiesAll usable [] declared) fun _ _ => .of_ok

namespace Member

/-- Each instance in the place of one of the members has a name that makes a path. -/
abbrev WholeNames (ms : List Member) (iss : List (List (Option Instance))) : Prop :=
  List.Forall₂ (fun m is => ∀ i ∈ is, "" ∉ NodePath.split (place m i).name) ms iss

theorem name_instantiate (m : Member) (i : Instance) :
    Dimensioned.name (Dimensioned.instantiate m i) = instanceName (Dimensioned.name m) i.token := by
  cases m <;> rfl

/-- Members can be expanded if what is inside of their instances can. -/
theorem elementary_expandAll_of (usable : path.Usable) {ms : List Member}
    (named : EachAll (Named root) ms)
    (inside : ∀ iss, WholeNames ms iss →
      FailsWith (Elementary config root) (expandInsideAll path iss ms)) :
    FailsWith (Elementary config root) (expandAll path ms) := by
  refine .bind (elementary_copiesAll usable [] fun m hm => (named.own m hm).name.1) ?_
  intro iss hiss
  obtain ⟨hcopies, -, -, rfl⟩ := copiesAll_eq_ok_iff.1 hiss
  refine inside _ ?_
  rw [WholeNames, List.forall₂_map_right_iff, List.forall₂_same]
  exact fun m hm => whole_of_copies (hcopies m hm) (named.own m hm).name.2 m.name_instantiate

theorem expandInside_cluster (path : NodePath) (c : Cluster) (ms : List Member) :
    expandInside path (.cluster c ms) = Member.cluster c <$> expandAll path ms := by
  simp only [expandInside, expandAll, map_eq_pure_bind, bind_assoc]

mutual

theorem elementary_expandInside {path : NodePath} (usable : path.Usable) :
    ∀ m : Member, m.Each (Named root) → FailsWith (Elementary config root) (m.expandInside path)
  | .register r, named => by
      unfold expandInside
      split
      · exact .of_ok
      · next fs hfs =>
        have hdeclared : ∀ f ∈ r.fields.getD [], root.Declares f.name := HasParts.fields named
        rw [hfs] at hdeclared
        exact .bind (elementary_expandFields usable hdeclared) fun _ _ => .of_ok
  | .cluster c ms, named => by
      rw [expandInside_cluster]
      exact .map (elementary_expandAll_of usable named.2 fun iss =>
        elementary_expandInsideAll usable ms iss named.2)

theorem elementary_expandInsideAll {path : NodePath} (usable : path.Usable) :
    ∀ (ms : List Member) (iss : List (List (Option Instance))), EachAll (Named root) ms →
      WholeNames ms iss → FailsWith (Elementary config root) (expandInsideAll path iss ms)
  | [], _, _, _ => .of_ok
  | m :: ms, iss, named, whole => by
      obtain ⟨is, rest, hfirst, hrest, rfl⟩ := List.forall₂_cons_left_iff.1 whole
      refine .bind (elementary_expandInsideAll usable ms rest named.2 hrest) fun done _ => ?_
      -- The siblings have been copied before, so the name of each instance has made a path.
      refine .foldrM fun i hi _ => ?_
      exact .bind (elementary_expandInside (usable.child (hfirst i hi)) m named.1) fun _ _ => .of_ok

end

end Member

theorem Peripheral.elementary_expandInside (usable : path.Usable) {p : Peripheral}
    (named : Member.EachAll (Member.Named root) p.memberList) :
    FailsWith (Elementary config root) (p.expandInside path) := by
  unfold Peripheral.expandInside
  split
  · exact .of_ok
  · next ms hms =>
    rw [Peripheral.memberList, hms] at named
    refine .bind (Member.elementary_expandAll_of usable named fun iss => ?_) fun _ _ => .of_ok
    exact Member.elementary_expandInsideAll usable ms iss named

theorem Device.elementary_expand {d : Device} (usable : d.path.Usable) (named : d.Named root) :
    FailsWith (Elementary config root) d.expand.result := by
  have hnamed (p : Peripheral) (hp : p ∈ d.peripherals) :=
    Member.eachAll_iff.1 named p.asMember (List.mem_map_of_mem hp)
  refine .logged_bind (elementary_copiesAll usable [] fun p hp => (hnamed p hp).1.name.1) ?_
  intro iss hiss
  obtain ⟨hcopies, -, -, rfl⟩ := copiesAll_eq_ok_iff.1 hiss
  dsimp only
  rw [flatMap_zip_instances]
  refine .logged_bind (.foldrM fun q hq _ => .bind ?_ fun _ _ => .of_ok)
    fun _ _ => .logged_bind .of_ok fun _ _ => .of_ok
  obtain ⟨p, hp, hq⟩ := List.mem_flatMap.1 hq
  obtain ⟨i, hi, rfl⟩ := List.mem_map.1 hq
  have hwhole := whole_of_copies (hcopies p hp) (hnamed p hp).1.name.2 (fun _ => rfl) i hi
  refine Peripheral.elementary_expandInside (usable.child hwhole) ?_
  have hinside := (hnamed p hp).2
  cases i with
  | none => exact hinside
  | some i => exact hinside

/-! ### References -/

theorem Device.Faulty.elementary {d : Device} {e : Error} (h : d.Faulty e) :
    Elementary config root e := by
  cases h with
  | noBase | noRegister => exact ⟨.inl (.missingReference _ _ _), nofun⟩
  | peripherals | registers => exact ⟨.inl (.cycle _), nofun⟩

theorem elementary_linkSiblings (path : NodePath) (siblings : List Sibling) :
    FailsWith (Elementary config root) (linkSiblings path siblings) := by
  intro e he
  obtain ⟨s, -, name, -, rfl⟩ := linkSiblings_eq_error he
  exact ⟨.inl (.missingReference _ _ _), nofun⟩

namespace Member

mutual

theorem elementary_linkInside (path : NodePath) :
    ∀ m : Member, FailsWith (Elementary config root) (linkInside path m)
  | .register _ => .of_ok
  | .cluster _ ms => .bind (elementary_linkSiblings path _) fun _ _ =>
      .bind (elementary_linkInsideAll path ms) fun _ _ => .of_ok

theorem elementary_linkInsideAll (path : NodePath) :
    ∀ ms : List Member, FailsWith (Elementary config root) (linkInsideAll path ms)
  | [] => .of_ok
  | m :: ms => .bind (elementary_linkInsideAll path ms) fun _ _ =>
      .bind (elementary_linkInside (path.child m.name) m) fun _ _ => .of_ok

end

end Member

theorem Peripheral.elementary_linkInside (path : NodePath) (p : Peripheral) :
    FailsWith (Elementary config root) (p.linkInside path) := by
  unfold Peripheral.linkInside
  split
  · exact .of_ok
  · next ms _ =>
    have hinside : FailsWith (Elementary config root) (Member.linkAll path ms) :=
      .bind (elementary_linkSiblings path _) fun _ _ =>
        .bind (Member.elementary_linkInsideAll path ms) fun _ _ => .of_ok
    exact .bind hinside fun _ _ => .of_ok

theorem Device.elementary_resolveAlternates (d : Device) :
    FailsWith (Elementary config root) d.resolveAlternates.result := by
  refine .logged_bind (elementary_linkSiblings _ _) fun headers _ => ?_
  refine .logged_bind (.foldrM fun p _ _ => ?_) fun _ _ => .logged_bind .of_ok fun _ _ => .of_ok
  exact .bind (p.elementary_linkInside _) fun _ _ => .of_ok

/-! ### Addresses -/

theorem usable_path_of_buildDevice {d : Device} (h : (buildDevice root).result = .ok d) :
    d.path.Usable := by
  obtain ⟨htag, head, hhead⟩ := exists_head_of_buildDevice h
  rw [result_buildDevice htag hhead] at h
  obtain ⟨ps, -, h⟩ := bind_eq_ok_iff.1 h
  cases h
  have husable : head.path.Usable := usable_path_of_buildDeviceHead hhead
  exact husable

/-- The path of the device can be continued in every draft of a run. -/
theorem Reaches.usable_path {stage : Stage} {d : Device} (h : Reaches config root stage d) :
    d.path.Usable := by
  induction h with
  | build pass => exact usable_path_of_buildDevice pass
  | derive before pass ih =>
      obtain ⟨middle, f, hmiddle, -, -, rfl⟩ :=
        Device.resolveDerivations_eq_ok before.settled pass
      change middle.path.Usable
      rw [hmiddle]
      exact ih
  | expand _ pass ih =>
      obtain ⟨-, -, rfl⟩ := Device.expand_eq_ok_iff.1 pass
      exact ih
  | exclude _ pass ih =>
      cases pass
      exact ih
  | link _ pass ih =>
      rw [(Device.alikeAll_resolveAlternates pass).2]
      exact ih
  | place _ pass ih =>
      rw [Device.resolveAddresses_eq_ok pass]
      exact ih

theorem Reaches.elementary_resolveDerivations {d : Device} (h : Reaches config root .built d) :
    FailsWith (Elementary config root) d.resolveDerivations.result :=
  fun _ he => (Device.resolveDerivations_eq_error h.settled he).elementary

theorem Reaches.elementary_expand {d : Device} (h : Reaches config root .derived d) :
    FailsWith (Elementary config root) d.expand.result := by
  have husable := h.usable_path
  cases h with
  | derive before pass =>
      have settled := before.settled
      cases before with
      | build build =>
          have hnamed := (supplies_names root).buildDevice _ build
          exact Device.elementary_expand husable (hnamed.resolveDerivations settled pass)

/-- A placed draft makes a device. -/
theorem Reaches.exists_ofDraft {d : Device} (h : Reaches config root .placed d) :
    ∃ device, (RegisterMap.Device.ofDraft d).result = .ok device := by
  cases h with
  | place linked placed =>
      obtain ⟨complete, distinct⟩ := linked.complete
      obtain ⟨finished, names⟩ := Device.finished_of_resolveAddresses complete distinct placed
      obtain ⟨device, hdevice, -⟩ := RegisterMap.Device.exists_ofDraft finished names
      exact ⟨device, hdevice⟩

end Draft

theorem Source.fails_read (source : Source) : FailsWith (· = .document) source.read := by
  cases source with
  | text s =>
      change FailsWith _ (Markup.readText s)
      unfold Markup.readText
      dsimp only
      split
      · exact .of_ok
      · exact .of_error rfl
  | encoded bytes =>
      change FailsWith _ (Markup.readBytes bytes)
      unfold Markup.readBytes
      split
      · exact .of_ok
      · exact .of_error rfl

end RegisterMap
