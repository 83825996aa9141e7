import RegisterMap.Draft.Alternates
import RegisterMap.Proofs.Publication

/-!
# Relocation

The place of an element shows only in the paths and the addresses of what is made of it. Members
that are placed and published a second time, below another path and at another address, are those of
the first time with each path and each address moved (`Member.ofDraftAll_relocate`).
-/

namespace RegisterMap

/-- A move from the element at one path to the element at another one. -/
structure Relocation where
  source : NodePath
  target : NodePath
  /-- How far the addresses are moved. -/
  shift : Int
deriving DecidableEq, Repr

/-! ### What is moved -/

/-- The path below the target that corresponds to a path below the source. Other paths are not
moved. -/
def NodePath.relocate (move : Relocation) (path : NodePath) : NodePath :=
  if move.source.parts.isPrefixOf path.parts then
    ⟨move.target.parts ++ path.parts.drop move.source.parts.length⟩
  else path

/-- The field with its path moved. -/
def Field.relocate (move : Relocation) (f : Field) : Field :=
  { f with path := f.path.relocate move }

/-- The register with its address and all paths moved. -/
def Register.relocate (move : Relocation) (r : Register) : Register :=
  { r with
    path := r.path.relocate move
    address := r.address + move.shift
    fields := r.fields.map (Field.relocate move) }

/-- The cluster with its path and its address moved. -/
def Cluster.relocate (move : Relocation) (c : Cluster) : Cluster :=
  { c with
    path := c.path.relocate move
    address := c.address + move.shift }

mutual

/-- The member with its path and its address moved, and those of everything in it. -/
def Member.relocate (move : Relocation) : Member → Member
  | .register r => .register (r.relocate move)
  | .cluster c ms => .cluster (c.relocate move) (Member.relocateAll move ms)

/-- The members with all paths and addresses moved. -/
def Member.relocateAll (move : Relocation) : List Member → List Member
  | [] => []
  | m :: ms => Member.relocate move m :: Member.relocateAll move ms

end

variable {move : Relocation}

@[simp] theorem NodePath.relocate_append (rest : NodePath) :
    (move.source ++ rest).relocate move = move.target ++ rest := by
  have hprefix : move.source.parts.isPrefixOf (move.source ++ rest).parts := by
    rw [List.isPrefixOf_iff_prefix]
    exact List.prefix_append _ _
  rw [relocate, if_pos hprefix, NodePath.parts_append, List.drop_left]
  rfl

theorem NodePath.append_empty (path : NodePath) : path ++ (⟨[]⟩ : NodePath) = path :=
  congrArg NodePath.mk (List.append_nil path.parts)

theorem NodePath.child_append (p rest : NodePath) (name : String) :
    (p ++ rest).child name = p ++ rest.child name :=
  congrArg NodePath.mk (List.append_assoc ..)

@[simp] theorem Member.name_relocate (m : Member) : (m.relocate move).name = m.name := by
  cases m <;> rfl

theorem Member.names_relocateAll (ms : List Member) :
    (Member.relocateAll move ms).map Member.name = ms.map Member.name := by
  induction ms with
  | nil => rfl
  | cons m ms ih => rw [relocateAll, List.map_cons, List.map_cons, name_relocate, ih]

/-! ### Linking -/

namespace Draft

variable {path path' : NodePath}

/-- What elements are linked to does not depend on where they stand. -/
theorem linkSiblings_elsewhere {siblings : List Sibling} {headers : List Header}
    (h : linkSiblings path siblings = .ok headers) : linkSiblings path' siblings = .ok headers := by
  have alternate (s : Sibling) (i : Nat) (found : Option String)
      (h : alternateOf path siblings s i = .ok found) :
      alternateOf path' siblings s i = .ok found := by
    unfold alternateOf at h ⊢
    split at h
    · exact h
    · split at h
      · exact h
      · cases h
  obtain ⟨pairs, hpairs, h⟩ := bind_eq_ok_iff.1 h
  obtain ⟨found, hfound, hpairs⟩ := bind_eq_ok_iff.1 hpairs
  refine bind_eq_ok_iff.2 ⟨pairs, bind_eq_ok_iff.2 ⟨found, ?_, hpairs⟩, h⟩
  refine mapM_eq_ok_iff.2 ((mapM_eq_ok_iff.1 hfound).imp fun s pair hpair => ?_)
  obtain ⟨name, hname, hpair⟩ := bind_eq_ok_iff.1 hpair
  exact bind_eq_ok_iff.2 ⟨name, alternate _ _ _ hname, hpair⟩

namespace Member

mutual

theorem linkInside_elsewhere (path path' : NodePath) : ∀ (m : Member) {m' : Member},
    m.linkInside path = .ok m' → m.linkInside path' = .ok m'
  | .register _, _, h => h
  | .cluster c ms, m', h => by
      obtain ⟨headers, hheaders, h⟩ := bind_eq_ok_iff.1 h
      obtain ⟨ms', hms', h⟩ := bind_eq_ok_iff.1 h
      refine bind_eq_ok_iff.2 ⟨headers, linkSiblings_elsewhere hheaders, ?_⟩
      exact bind_eq_ok_iff.2 ⟨ms', linkInsideAll_elsewhere path path' ms hms', h⟩

theorem linkInsideAll_elsewhere (path path' : NodePath) : ∀ (ms : List Member) {ms' : List Member},
    linkInsideAll path ms = .ok ms' → linkInsideAll path' ms = .ok ms'
  | [], _, h => h
  | m :: ms, ms', h => by
      obtain ⟨m', rest, hm', hrest, rfl⟩ := cons_eq_ok_iff_of_rest_first.1 h
      refine cons_eq_ok_iff_of_rest_first.2 ⟨m', rest, ?_, ?_, rfl⟩
      · exact linkInside_elsewhere _ _ m hm'
      · exact linkInsideAll_elsewhere path path' ms hrest

end

end Member

theorem Member.linkAll_elsewhere {ms ms' : List Member} (h : linkAll path ms = .ok ms') :
    linkAll path' ms = .ok ms' := by
  obtain ⟨headers, hheaders, h⟩ := bind_eq_ok_iff.1 h
  obtain ⟨inside, hinside, h⟩ := bind_eq_ok_iff.1 h
  refine bind_eq_ok_iff.2 ⟨headers, linkSiblings_elsewhere hheaders, ?_⟩
  exact bind_eq_ok_iff.2 ⟨inside, linkInsideAll_elsewhere path path' ms hinside, h⟩

theorem Peripheral.eq_of_linkInside {p p' : Peripheral} (h : p.linkInside path = .ok p') :
    p' = { p with members := p'.members } := by
  unfold linkInside at h
  split at h
  · cases h
    rfl
  · obtain ⟨ms, -, h⟩ := bind_eq_ok_iff.1 h
    cases h
    rfl

theorem Peripheral.members_linkInside {p p' q q' : Peripheral} (h : p.linkInside path = .ok p')
    (h' : q.linkInside path' = .ok q') (members : q.members = p.members) :
    q'.members = p'.members := by
  unfold linkInside at h h'
  rw [members] at h'
  cases hms : p.members with
  | none =>
      rw [hms] at h h'
      cases h
      cases h'
      exact members
  | some ms =>
      rw [hms] at h h'
      obtain ⟨linked, hlinked, h⟩ := bind_eq_ok_iff.1 h
      obtain ⟨linked', hlinked', h'⟩ := bind_eq_ok_iff.1 h'
      rw [Member.linkAll_elsewhere hlinked] at hlinked'
      cases hlinked'
      cases h
      cases h'
      rfl

end Draft

/-! ### Placement -/

theorem max?_map_add (shift : Int) (xs : List Int) :
    (xs.map (· + shift)).max? = xs.max?.map (· + shift) := by
  cases hmax : xs.max? with
  | none =>
      rw [List.max?_eq_none_iff.1 hmax]
      rfl
  | some a =>
      obtain ⟨hmem, hle⟩ := List.max?_eq_some_iff.1 hmax
      have hle' : ∀ x ∈ xs.map (· + shift), x ≤ a + shift :=
        List.forall_mem_map.2 fun x hx => Int.add_le_add_right (hle x hx) shift
      exact List.max?_eq_some_iff.2 ⟨List.mem_map_of_mem hmem, hle'⟩

namespace Draft.Member

mutual

/-- Members that are placed further on end further on by the same distance. -/
theorem stop_placeAt_add (base shift : Int) :
    ∀ m : Member, (m.placeAt (base + shift)).stop = (m.placeAt base).stop + shift
  | .register r => by
      let length := byteCount (r.effective.size.getD 0)
      change base + shift + r.offset.getD 0 + length = base + r.offset.getD 0 + length + shift
      omega
  | .cluster c ms => by
      have hlast := lastStop_placeAllAt_add (base + c.offset.getD 0) shift ms
      rw [Int.add_right_comm] at hlast
      change base + shift + c.offset.getD 0 + (_ - _) = base + c.offset.getD 0 + (_ - _) + shift
      omega

theorem stops_placeAllAt_add (base shift : Int) : ∀ ms : List Member,
    (placeAllAt (base + shift) ms).map stop = ((placeAllAt base ms).map stop).map (· + shift)
  | [] => rfl
  | m :: ms => by
      rw [placeAllAt, placeAllAt, List.map_cons, List.map_cons, List.map_cons,
        stop_placeAt_add base shift m, stops_placeAllAt_add base shift ms]

theorem lastStop_placeAllAt_add (base shift : Int) (ms : List Member) :
    lastStop (base + shift) (placeAllAt (base + shift) ms) =
      lastStop base (placeAllAt base ms) + shift := by
  rw [lastStop, lastStop, stops_placeAllAt_add base shift ms, max?_map_add]
  cases ((placeAllAt base ms).map stop).max? <;> rfl

end

end Draft.Member

/-! ### Publication -/

theorem Field.ofDraft_relocate {rest : NodePath} {access : Access} {df : Draft.Field} {f : Field}
    (h : Field.ofDraft (move.source ++ rest) access df = .ok f) :
    Field.ofDraft (move.target ++ rest) access df = .ok (f.relocate move) := by
  obtain ⟨range, hrange, h⟩ := bind_eq_ok_iff.1 h
  obtain ⟨enums, henums, h⟩ := bind_eq_ok_iff.1 h
  cases h
  refine bind_eq_ok_iff.2 ⟨range, hrange, bind_eq_ok_iff.2 ⟨enums, henums, ?_⟩⟩
  rw [Field.relocate, NodePath.child_append, NodePath.child_append, NodePath.relocate_append]
  rfl

theorem Draft.Register.size_relocate {path path' : NodePath} {r : Draft.Register} {size : Int}
    (h : r.size path = .ok size) : r.size path' = .ok size := by
  unfold Draft.Register.size at h ⊢
  split at h
  · cases h
  · split at h
    · cases h
    · next hpositive =>
      rw [if_neg hpositive]
      exact h

theorem Register.ofDraft_relocate {rest : NodePath} {dr : Draft.Register} {r : Register}
    {address address' : Int} (shift : address' = address + move.shift)
    (h : Register.ofDraft (move.source ++ rest) { dr with address := some address } = .ok r) :
    Register.ofDraft (move.target ++ rest) { dr with address := some address' } =
      .ok (r.relocate move) := by
  obtain ⟨offset, hoffset, h⟩ := bind_eq_ok_iff.1 h
  obtain ⟨size, hsize, h⟩ := bind_eq_ok_iff.1 h
  obtain ⟨resetValue, hresetValue, h⟩ := bind_eq_ok_iff.1 h
  obtain ⟨_, haddress, h⟩ := bind_eq_ok_iff.1 h
  obtain ⟨fields, hfields, h⟩ := bind_eq_ok_iff.1 h
  cases haddress
  cases h
  obtain ⟨hall, names, new⟩ := makeNamed_eq_ok_iff.1 hfields
  refine bind_eq_ok_iff.2 ⟨offset, hoffset, ?_⟩
  refine bind_eq_ok_iff.2 ⟨size, Draft.Register.size_relocate hsize, ?_⟩
  refine bind_eq_ok_iff.2 ⟨resetValue, hresetValue, ?_⟩
  refine bind_eq_ok_iff.2 ⟨address', rfl, ?_⟩
  refine bind_eq_ok_iff.2 ⟨fields.map (Field.relocate move),
    makeNamed_eq_ok_iff.2 ⟨?_, names, new⟩, ?_⟩
  · rw [List.forall₂_map_right_iff]
    exact hall.imp fun _ _ => Field.ofDraft_relocate
  · rw [Register.relocate, NodePath.relocate_append, ← shift]
    rfl

theorem Cluster.ofDraft_relocate {rest : NodePath} (dc : Draft.Cluster) {c : Cluster}
    {address address' : Int} (shift : address' = address + move.shift)
    (h : Cluster.ofDraft (move.source ++ rest) { dc with address := some address } = .ok c) :
    Cluster.ofDraft (move.target ++ rest) { dc with address := some address' } =
      .ok (c.relocate move) := by
  obtain ⟨offset, hoffset, h⟩ := bind_eq_ok_iff.1 h
  obtain ⟨_, haddress, h⟩ := bind_eq_ok_iff.1 h
  cases haddress
  cases h
  refine bind_eq_ok_iff.2 ⟨offset, hoffset, bind_eq_ok_iff.2 ⟨address', rfl, ?_⟩⟩
  rw [Cluster.relocate, NodePath.relocate_append, ← shift]
  rfl

namespace Member

mutual

/-- The paths of the member and of everything in it. -/
def paths : Member → List NodePath
  | .register r => r.path :: r.fields.map (·.path)
  | .cluster c ms => c.path :: pathsAll ms

/-- The paths of the members and of everything in them. -/
def pathsAll : List Member → List NodePath
  | [] => []
  | m :: ms => paths m ++ pathsAll ms

end

mutual

theorem prefix_paths_ofDraft (path : NodePath) : ∀ (dm : Draft.Member) {m : Member},
    ofDraft path dm = .ok m → ∀ x ∈ m.paths, path.parts <+: x.parts
  | .register dr, m, h => by
      obtain ⟨r, hr, h⟩ := bind_eq_ok_iff.1 h
      cases h
      obtain ⟨_, -, hr⟩ := bind_eq_ok_iff.1 hr
      obtain ⟨_, -, hr⟩ := bind_eq_ok_iff.1 hr
      obtain ⟨_, -, hr⟩ := bind_eq_ok_iff.1 hr
      obtain ⟨_, -, hr⟩ := bind_eq_ok_iff.1 hr
      obtain ⟨fields, hfields, hr⟩ := bind_eq_ok_iff.1 hr
      cases hr
      obtain ⟨hall, -⟩ := makeNamed_eq_ok_iff.1 hfields
      refine List.forall_mem_cons.2 ⟨List.prefix_refl _, List.forall_mem_map.2 fun f hf => ?_⟩
      obtain ⟨df, -, hf⟩ := exists_mem_left hall hf
      obtain ⟨_, -, hf⟩ := bind_eq_ok_iff.1 hf
      obtain ⟨_, -, hf⟩ := bind_eq_ok_iff.1 hf
      cases hf
      exact List.prefix_append _ _
  | .cluster dc dms, m, h => by
      obtain ⟨c, hc, h⟩ := bind_eq_ok_iff.1 h
      obtain ⟨ms, hms, h⟩ := bind_eq_ok_iff.1 h
      obtain ⟨_, -, h⟩ := bind_eq_ok_iff.1 h
      cases h
      obtain ⟨_, -, hc⟩ := bind_eq_ok_iff.1 hc
      obtain ⟨_, -, hc⟩ := bind_eq_ok_iff.1 hc
      cases hc
      exact List.forall_mem_cons.2 ⟨List.prefix_refl _, prefix_paths_ofDraftAll path dms hms⟩

/-- Everything in the element at a path has a path below it. -/
theorem prefix_paths_ofDraftAll (path : NodePath) :
    ∀ (dms : List Draft.Member) {ms : List Member}, ofDraftAll path dms = .ok ms →
      ∀ x ∈ pathsAll ms, path.parts <+: x.parts
  | [], ms, h => by
      cases h
      exact nofun
  | dm :: dms, ms, h => by
      obtain ⟨m, ms, hm, hms, rfl⟩ := cons_eq_ok_iff.1 h
      refine List.forall_mem_append.2 ⟨fun x hx => ?_, prefix_paths_ofDraftAll path dms hms⟩
      have hbelow := prefix_paths_ofDraft (path.child dm.name) dm hm x hx
      exact (List.prefix_append _ _).trans hbelow

end

theorem checkNames_relocateAll (ms : List Member) :
    checkNames (relocateAll move ms) = checkNames ms := by
  rw [checkNames, names_relocateAll, checkNames]

mutual

/-- A draft that is placed and published makes the same member, but moved, if it is placed and
published elsewhere. -/
theorem ofDraft_relocate (rest : NodePath) (base : Int) : ∀ (dm : Draft.Member) {m : Member},
    ofDraft (move.source ++ rest) (dm.placeAt base) = .ok m →
      ofDraft (move.target ++ rest) (dm.placeAt (base + move.shift)) = .ok (m.relocate move)
  | .register dr, m, h => by
      obtain ⟨r, hr, h⟩ := bind_eq_ok_iff.1 h
      cases h
      refine bind_eq_ok_iff.2 ⟨r.relocate move, Register.ofDraft_relocate ?_ hr, rfl⟩
      exact Int.add_right_comm ..
  | .cluster dc dms, m, h => by
      obtain ⟨c, hc, h⟩ := bind_eq_ok_iff.1 h
      obtain ⟨ms, hms, h⟩ := bind_eq_ok_iff.1 h
      obtain ⟨_, hnames, h⟩ := bind_eq_ok_iff.1 h
      cases h
      let address := base + dc.offset.getD 0
      let size := Draft.Member.lastStop address (Draft.Member.placeAllAt address dms) - address
      have hshift : base + move.shift + dc.offset.getD 0 = address + move.shift :=
        Int.add_right_comm ..
      -- The size of a cluster is a difference of addresses, which are moved by the same distance.
      have hsize : Draft.Member.lastStop (address + move.shift)
            (Draft.Member.placeAllAt (address + move.shift) dms) - (address + move.shift) =
          size := by
        rw [Draft.Member.lastStop_placeAllAt_add]
        omega
      rw [Draft.Member.placeAt, hshift, hsize]
      have hcluster := Cluster.ofDraft_relocate { dc with size } rfl hc
      refine bind_eq_ok_iff.2 ⟨c.relocate move, hcluster, ?_⟩
      refine bind_eq_ok_iff.2 ⟨relocateAll move ms, ofDraftAll_relocate rest address dms hms, ?_⟩
      exact bind_eq_ok_iff.2 ⟨(), (checkNames_relocateAll ms).trans hnames, rfl⟩

theorem ofDraftAll_relocate (rest : NodePath) (base : Int) :
    ∀ (dms : List Draft.Member) {ms : List Member},
      ofDraftAll (move.source ++ rest) (Draft.Member.placeAllAt base dms) = .ok ms →
        ofDraftAll (move.target ++ rest) (Draft.Member.placeAllAt (base + move.shift) dms) =
          .ok (relocateAll move ms)
  | [], ms, h => by
      cases h
      rfl
  | dm :: dms, ms, h => by
      obtain ⟨m, ms, hm, hms, rfl⟩ := cons_eq_ok_iff.1 h
      have hname (base : Int) : (dm.placeAt base).name = dm.name := by
        cases dm <;> rfl
      rw [NodePath.child_append, hname] at hm
      refine cons_eq_ok_iff.2 ⟨m.relocate move, relocateAll move ms, ?_,
        ofDraftAll_relocate rest base dms hms, rfl⟩
      rw [NodePath.child_append, hname]
      exact ofDraft_relocate _ base dm hm

end

/-- Members that are placed and published at two places are moved from the one to the other. -/
theorem ofDraftAll_elsewhere {path : NodePath} (path' : NodePath) {base : Int} (base' : Int)
    {dms : List Draft.Member} {ms : List Member}
    (h : ofDraftAll path (Draft.Member.placeAllAt base dms) = .ok ms) :
    ofDraftAll path' (Draft.Member.placeAllAt base' dms) =
      .ok (relocateAll ⟨path, path', base' - base⟩ ms) := by
  let move : Relocation := ⟨path, path', base' - base⟩
  have hbase : base + move.shift = base' := by
    change base + (base' - base) = base'
    omega
  have hsource : ofDraftAll (move.source ++ ⟨[]⟩) (Draft.Member.placeAllAt base dms) = .ok ms := by
    rw [NodePath.append_empty]
    exact h
  have htarget := ofDraftAll_relocate ⟨[]⟩ base dms hsource
  rw [NodePath.append_empty, hbase] at htarget
  exact htarget

end Member

end RegisterMap
