import Mathlib.Data.List.Pairwise
import RegisterMap.Draft.Alternates
import RegisterMap.Proofs.Group
import RegisterMap.Proofs.Lookup
import RegisterMap.Proofs.Partition
import RegisterMap.Proofs.Unlinked

/-!
# Linked siblings

Linking gives every element of a scope the other names of its set. The sets of a scope have no name
in common, so the alternates of siblings with distinct names are symmetric. Everything else about
the elements stays as it is.

The main statement is `Device.linked_resolveAlternates`, for all scopes of a device.
-/

namespace RegisterMap.Draft

/-- Each alternate of an element among the siblings has that element as an alternate. -/
def SymmetricAlternates (siblings : List Header) : Prop :=
  ∀ a ∈ siblings, ∀ b ∈ siblings, b.name ∈ a.alternates → a.name ∈ b.alternates

/-- The siblings have symmetric alternates, unless two of them share a name. -/
def LinkedSiblings (siblings : List Header) : Prop :=
  (siblings.map (·.name)).Nodup → SymmetricAlternates siblings

/-- Only the names and the alternates of siblings matter for their being linked. -/
theorem LinkedSiblings.congr {siblings siblings' : List Header} (h : LinkedSiblings siblings)
    (eq : siblings'.map (fun h => (h.name, h.alternates)) =
      siblings.map fun h => (h.name, h.alternates)) : LinkedSiblings siblings' := by
  have hnames : siblings'.map (·.name) = siblings.map (·.name) := by
    simpa [List.map_map, Function.comp_def] using congrArg (List.map Prod.fst) eq
  have original {a : Header} (ha : a ∈ siblings') :
      ∃ a₀ ∈ siblings, a₀.name = a.name ∧ a₀.alternates = a.alternates := by
    have hmem := List.mem_map_of_mem (f := fun h : Header => (h.name, h.alternates)) ha
    rw [eq] at hmem
    obtain ⟨a₀, ha₀, hpair⟩ := List.mem_map.1 hmem
    exact ⟨a₀, ha₀, congrArg Prod.fst hpair, congrArg Prod.snd hpair⟩
  intro names a ha b hb hab
  rw [hnames] at names
  obtain ⟨a₀, ha₀, haname, halternates⟩ := original ha
  obtain ⟨b₀, hb₀, hbname, hbalternates⟩ := original hb
  rw [← hbname, ← halternates] at hab
  rw [← haname, ← hbalternates]
  exact h names a₀ ha₀ b₀ hb₀ hab

theorem nodup_flatten_linkedSets (pairs : List (String × String)) :
    (linkedSets pairs).flatten.Nodup := by
  have hnames := DisjointSets.nodup_names_foldl_union (s := ∅) List.nodup_nil pairs
  exact (DisjointSets.flatMap_groups_perm _).nodup_iff.2 hnames

theorem eq_of_mem_of_mem_linkedSets {pairs : List (String × String)} {set set' : List String}
    (hset : set ∈ linkedSets pairs) (hset' : set' ∈ linkedSets pairs) {name : String}
    (h : name ∈ set) (h' : name ∈ set') : set = set' := by
  by_contra hne
  have hdisjoint := (List.nodup_flatten.1 (nodup_flatten_linkedSets pairs)).2
  have : Std.Symm (List.Disjoint (α := String)) := ⟨fun _ _ h => List.disjoint_symm h⟩
  exact hdisjoint.forall hset hset' hne h h'

theorem lastSibling?_eq_some {siblings : List Sibling} {s : Sibling} {i : Nat}
    (names : (siblings.map (·.header.name)).Nodup) (hs : siblings[i]? = some s) :
    lastSibling? siblings s.header.name = some (s, i) :=
  find?_reverse_zipIdx names hs

@[simp] theorem name_linkSibling (siblings : List Sibling) (sets : List (List String))
    (s : Sibling) (i : Nat) : (linkSibling siblings sets s i).name = s.header.name := by
  unfold linkSibling
  split
  · dsimp only
    split
    · rfl
    · rfl
  · rfl

/-- The alternates of an element are in its set, if it had none before. -/
theorem exists_set_of_mem_alternates {siblings : List Sibling} {sets : List (List String)}
    {s : Sibling} {i : Nat} (unlinked : s.header.Unlinked) {name : String}
    (h : name ∈ (linkSibling siblings sets s i).alternates) :
    ∃ set ∈ sets, s.header.name ∈ set ∧ name ∈ set ∧ name ≠ s.header.name := by
  unfold Header.Unlinked at unlinked
  unfold linkSibling at h
  split at h
  · next set hset =>
    have hname := List.find?_some hset
    dsimp only at h
    split at h
    · rw [NameSet.mem_erase, NameSet.mem_ofList] at h
      exact ⟨set, List.mem_of_find?_eq_some hset, by simpa using hname, h⟩
    · rw [unlinked] at h
      exact absurd h (NameSet.not_mem_empty name)
  · rw [unlinked] at h
    exact absurd h (NameSet.not_mem_empty name)

theorem mem_alternates_of_mem_set {siblings : List Sibling} {pairs : List (String × String)}
    {s : Sibling} {i : Nat} (names : (siblings.map (·.header.name)).Nodup)
    (hs : siblings[i]? = some s) {set : List String} (hset : set ∈ linkedSets pairs)
    (hmem : s.header.name ∈ set) {name : String} (hname : name ∈ set)
    (hne : name ≠ s.header.name) :
    name ∈ (linkSibling siblings (linkedSets pairs) s i).alternates := by
  unfold linkSibling
  split
  · next found hfound =>
    have hself : s.header.name ∈ found := by simpa using List.find?_some hfound
    have := eq_of_mem_of_mem_linkedSets hset (List.mem_of_find?_eq_some hfound) hmem hself
    subst this
    simp [lastSibling?_eq_some names hs, hname, hne]
  · next hnone =>
    exact absurd hmem (by simpa using List.find?_eq_none.1 hnone set hset)

theorem linkSiblings_eq_ok {path : NodePath} {siblings : List Sibling} {headers : List Header}
    (h : linkSiblings path siblings = .ok headers) : ∃ pairs,
      headers = siblings.zipIdx.map fun e => linkSibling siblings (linkedSets pairs) e.1 e.2 := by
  obtain ⟨pairs, -, h⟩ := bind_eq_ok_iff.1 h
  cases h
  exact ⟨pairs, rfl⟩

theorem names_linkSiblings {path : NodePath} {siblings : List Sibling} {headers : List Header}
    (h : linkSiblings path siblings = .ok headers) :
    headers.map (·.name) = siblings.map (·.header.name) := by
  obtain ⟨pairs, rfl⟩ := linkSiblings_eq_ok h
  calc
    (siblings.zipIdx.map fun e => linkSibling siblings (linkedSets pairs) e.1 e.2).map (·.name)
        = siblings.zipIdx.map fun e => e.1.header.name := by simp [Function.comp_def]
    _ = (siblings.zipIdx.map (·.1)).map (·.header.name) := by rw [List.map_map]; rfl
    _ = siblings.map (·.header.name) := by rw [List.zipIdx_map_fst]

theorem linkedSiblings_linkSiblings {path : NodePath} {siblings : List Sibling}
    {headers : List Header} (unlinked : ∀ s ∈ siblings, s.header.Unlinked)
    (h : linkSiblings path siblings = .ok headers) : LinkedSiblings headers := by
  intro names a ha b hb hab
  rw [names_linkSiblings h] at names
  obtain ⟨pairs, rfl⟩ := linkSiblings_eq_ok h
  obtain ⟨⟨s, i⟩, hs, rfl⟩ := List.mem_map.1 ha
  obtain ⟨⟨t, j⟩, ht, rfl⟩ := List.mem_map.1 hb
  dsimp only at hab ⊢
  rw [name_linkSibling] at hab ⊢
  obtain ⟨set, hset, hsname, htname, hne⟩ :=
    exists_set_of_mem_alternates (unlinked s (List.fst_mem_of_mem_zipIdx hs)) hab
  exact mem_alternates_of_mem_set names (List.mk_mem_zipIdx_iff_getElem?.1 ht) hset htname hsname
    (Ne.symm hne)

namespace Member

theorem linkInsideAll_eq_ok_iff (path : NodePath) (ms : List Member) {ms' : List Member} :
    linkInsideAll path ms = .ok ms' ↔
      List.Forall₂ (fun m m' => linkInside (path.child m.name) m = .ok m') ms ms' := by
  induction ms generalizing ms' with
  | nil => simp [linkInsideAll, eq_comm]
  | cons m ms ih =>
      rw [linkInsideAll, cons_eq_ok_iff_of_rest_first, List.forall₂_cons_left_iff]
      simp only [ih]

theorem linkInside_cluster (path : NodePath) (c : Cluster) (ms : List Member) :
    linkInside path (.cluster c ms) = Member.cluster c <$> linkAll path ms := by
  simp only [linkInside, linkAll, map_bind, map_pure]

theorem linkAll_eq_ok {path : NodePath} {ms ms' : List Member} (h : linkAll path ms = .ok ms') :
    ∃ headers inside, linkSiblings path (ms.map asSibling) = .ok headers ∧
      List.Forall₂ (fun m m' => linkInside (path.child m.name) m = .ok m') ms inside ∧
      headers.length = inside.length ∧ ms' = headers.zipWith withHeader inside := by
  obtain ⟨headers, hheaders, h⟩ := bind_eq_ok_iff.1 h
  obtain ⟨inside, hinside, h⟩ := bind_eq_ok_iff.1 h
  cases h
  have hinside := (linkInsideAll_eq_ok_iff path ms).1 hinside
  have hlength := congrArg List.length (names_linkSiblings hheaders)
  simp only [List.length_map] at hlength
  exact ⟨headers, inside, hheaders, hinside, hlength.trans hinside.length_eq, rfl⟩

/-- The groups of siblings at all depths are linked, if no element was linked before. -/
theorem linkedSiblings_linkAll {path : NodePath} {ms ms' : List Member}
    (unlinked : EveryAll Header.Unlinked ms) (h : linkAll path ms = .ok ms') {is : List Nat}
    {ns : List Member} (hns : groupAt? ms' is = some ns) : LinkedSiblings (ns.map header) := by
  induction is generalizing path ms ms' with
  | nil =>
      cases hns
      obtain ⟨headers, inside, hheaders, -, hlength, rfl⟩ := linkAll_eq_ok h
      rw [map_zipWith_eq_left header_withHeader hlength]
      apply linkedSiblings_linkSiblings _ hheaders
      intro s hs
      obtain ⟨m, hm, rfl⟩ := List.mem_map.1 hs
      exact (everyAll_iff.1 unlinked m hm).header
  | cons i is ih =>
      obtain ⟨headers, inside, -, hinside, -, rfl⟩ := linkAll_eq_ok h
      obtain ⟨m', hm', hns⟩ := groupAt?_cons_eq_some_iff.1 hns
      rw [List.getElem?_zipWith_eq_some] at hm'
      obtain ⟨header, m₁, -, hm₁, rfl⟩ := hm'
      rw [members_withHeader] at hns
      obtain ⟨m, hm, hlink⟩ := exists_getElem?_left hinside hm₁
      cases m with
      | register r =>
          cases hlink
          cases is with
          | nil =>
              cases hns
              exact fun _ a ha => absurd ha List.not_mem_nil
          | cons j is => cases hns
      | cluster c ms =>
          rw [linkInside_cluster] at hlink
          obtain ⟨ms', hms', rfl⟩ := map_eq_ok_iff.1 hlink
          exact ih (everyAll_iff.1 unlinked _ (List.mem_of_getElem? hm)).members hms' hns

end Member

/-- The peripherals of a linked device, and the groups of siblings at all depths, are linked. -/
structure Device.Linked (d : Device) : Prop where
  peripherals : LinkedSiblings (d.peripherals.map (·.toHeader))
  members : ∀ p ∈ d.peripherals, ∀ is ns, Member.groupAt? p.memberList is = some ns →
    LinkedSiblings (ns.map Member.header)

theorem Peripheral.linkedSiblings_linkInside {path : NodePath} {p p' : Peripheral}
    (unlinked : p.Every Header.Unlinked) (h : p.linkInside path = .ok p') {is : List Nat}
    {ns : List Member} (hns : Member.groupAt? p'.memberList is = some ns) :
    LinkedSiblings (ns.map Member.header) := by
  unfold Peripheral.linkInside at h
  split at h
  · next hnone =>
    cases h
    rw [Peripheral.memberList, hnone] at hns
    cases is with
    | nil =>
        cases hns
        exact fun _ a ha => absurd ha List.not_mem_nil
    | cons i is => cases hns
  · next ms hms =>
    obtain ⟨ms', hms', h⟩ := bind_eq_ok_iff.1 h
    cases h
    have hunlinked := unlinked.2
    rw [Peripheral.memberList, hms] at hunlinked
    exact Member.linkedSiblings_linkAll hunlinked hms' hns

theorem Device.linked_resolveAlternates {d : Device} (unlinked : d.Every Header.Unlinked) :
    d.resolveAlternates.Yields Device.Linked := by
  refine .bind (.of_ofExcept fun _ h => h) fun headers hheaders => ?_
  refine .bind (.of_ofExcept fun _ h => h) fun inside hinside => ?_
  refine .bind_of_forall fun _ => .of_pure ?_
  obtain ⟨own, hown, rfl⟩ := foldrM_cons_eq_ok_iff.1 hinside
  rw [List.append_nil]
  have hlength : headers.length = own.length := by
    have := congrArg List.length (names_linkSiblings hheaders)
    simp only [List.length_map] at this
    exact this.trans hown.length_eq
  constructor
  · rw [map_zipWith_eq_left (fun _ _ => rfl) hlength]
    apply linkedSiblings_linkSiblings _ hheaders
    intro s hs
    obtain ⟨p, hp, rfl⟩ := List.mem_map.1 hs
    exact (unlinked p hp).1
  · intro p hp is ns hns
    obtain ⟨i, hi⟩ := List.mem_iff_getElem?.1 hp
    rw [List.getElem?_zipWith_eq_some] at hi
    obtain ⟨header, p₁, -, hp₁, rfl⟩ := hi
    obtain ⟨p₀, hp₀, hlink⟩ := exists_getElem?_left hown hp₁
    exact Peripheral.linkedSiblings_linkInside (unlinked p₀ (List.mem_of_getElem? hp₀)) hlink hns

end RegisterMap.Draft
