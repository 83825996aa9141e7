import Mathlib.Data.List.Perm.Basic
import RegisterMap.Proofs.Alternates

/-!
# Groups of siblings

A device has one group of siblings for its peripherals, and one for the members of each peripheral
and cluster at any depth. Linking a device links each of its groups for itself: it fails exactly if
one of the groups cannot be linked, and otherwise turns each group into the linked one
(`Device.forall₂_siblingGroups`).

What holds of one group then holds of all of them. In a linked group the alternates of an element
are the names of the other elements to which a chain of references leads, followed in either
direction (`SiblingGroup.linkedAs_of_links`). Therefore being alternates of each other is symmetric
and, for distinct elements, transitive (`SiblingGroup.closed_of_linkedAs`), and a reordered group
has the same elements after linking (`SiblingGroup.perm_of_linkedAs`).
-/

namespace RegisterMap.Draft

/-- Siblings, and the path of the element around them. -/
structure SiblingGroup where
  path : NodePath
  siblings : List Sibling

/-- The members of a scope as siblings. -/
def Scope.group (s : Scope) : SiblingGroup :=
  ⟨s.path, s.members.map Member.asSibling⟩

/-- The peripherals of the device, and the members of each peripheral and cluster, as siblings. -/
def Device.siblingGroups (d : Device) : List SiblingGroup :=
  ⟨d.path, d.peripherals.map Peripheral.asSibling⟩ :: d.scopes.map Scope.group

/-- The sibling with another header. -/
def Sibling.withHeader (h : Header) (s : Sibling) : Sibling :=
  ⟨s.kind, h⟩

@[simp] theorem Sibling.header_withHeader (h : Header) (s : Sibling) :
    (s.withHeader h).header = h :=
  rfl

/-- The second element is the first one with its alternates: the names of the other siblings of its
kind that are connected to it by a chain of references. -/
structure Sibling.LinkedAs (siblings : List Sibling) (s s' : Sibling) : Prop where
  kind : s'.kind = s.kind
  rest : s'.header = { s.header with alternates := s'.header.alternates }
  mem : ∀ x, x ∈ s'.header.alternates ↔ x ≠ s.header.name ∧
    (∃ t ∈ siblings, t.header.name = x ∧ t.kind = s.kind) ∧
    Relation.EqvGen (AlternateOf siblings) s.header.name x

namespace SiblingGroup

/-- No two elements of the group have the same name, and none of them is linked yet. -/
structure Fresh (g : SiblingGroup) : Prop where
  names : (g.siblings.map (·.header.name)).Nodup
  unlinked : ∀ s ∈ g.siblings, s.header.alternates = ∅

/-- The error says that an element of the group names an alternate that is none of the siblings of
its kind. -/
def Misses (g : SiblingGroup) (e : Error) : Prop :=
  ∃ s ∈ g.siblings, ∃ name, s.header.alternate = some name ∧
    (∀ t ∈ g.siblings, t.header.name = name → t.kind ≠ s.kind) ∧
    e = .missingReference (g.path.child s.header.name) name (.alternate s.kind)

/-- The second group is the first one with all elements linked. -/
structure LinkedAs (g g' : SiblingGroup) : Prop where
  path : g'.path = g.path
  siblings : List.Forall₂ (Sibling.LinkedAs g.siblings) g.siblings g'.siblings

/-- The elements of the group that are alternates of each other are siblings of one kind, and being
alternates is symmetric and, for distinct elements, transitive. -/
structure Closed (g : SiblingGroup) : Prop where
  irreflexive : ∀ s ∈ g.siblings, s.header.name ∉ s.header.alternates
  symmetric : ∀ s ∈ g.siblings, ∀ t ∈ g.siblings,
    t.header.name ∈ s.header.alternates → s.header.name ∈ t.header.alternates
  transitive : ∀ s ∈ g.siblings, ∀ t ∈ g.siblings, ∀ u ∈ g.siblings,
    t.header.name ∈ s.header.alternates → u.header.name ∈ t.header.alternates →
      u.header.name ≠ s.header.name → u.header.name ∈ s.header.alternates
  siblings : ∀ s ∈ g.siblings, ∀ x ∈ s.header.alternates,
    ∃ t ∈ g.siblings, t.header.name = x ∧ t.kind = s.kind

/-! ### One group -/

/-- The second group is what linking makes of the first one. -/
structure Links (g g' : SiblingGroup) : Prop where
  path : g'.path = g.path
  headers : ∃ headers, linkSiblings g.path g.siblings = .ok headers ∧
    g'.siblings = headers.zipWith Sibling.withHeader g.siblings

/-- The group cannot be linked. -/
def Rejects (g : SiblingGroup) (e : Error) : Prop :=
  linkSiblings g.path g.siblings = .error e

variable {g g' : SiblingGroup}

theorem alternatesExist_of_links (fresh : g.Fresh) (h : g.Links g') :
    AlternatesExist g.siblings := by
  obtain ⟨headers, hheaders, -⟩ := h.headers
  exact ((linkSiblings_eq_ok_iff g.path fresh.names fresh.unlinked headers).1 hheaders).1

theorem misses_of_rejects (fresh : g.Fresh) {e : Error} (h : g.Rejects e) : g.Misses e := by
  obtain ⟨s, i, hs, h⟩ := exists_alternateOf_eq_error h
  obtain ⟨name, hgiven, rfl⟩ := alternateOf_eq_error h
  refine ⟨s, List.mem_of_getElem? hs, name, hgiven, fun t ht hname hkind => ?_, rfl⟩
  have hexist : ∀ x, s.header.alternate = some x →
      ∃ t ∈ g.siblings, t.header.name = x ∧ t.kind = s.kind := by
    intro x hx
    rw [hgiven, Option.some.injEq] at hx
    exact ⟨t, ht, hname.trans hx, hkind⟩
  rw [alternateOf_eq_ok fresh.names hs hexist] at h
  cases h

theorem Misses.not_alternatesExist {e : Error} (h : g.Misses e) :
    ¬ AlternatesExist g.siblings := by
  obtain ⟨s, hs, name, hgiven, hnone, -⟩ := h
  intro hexist
  obtain ⟨t, ht, hname, hkind⟩ := hexist s hs name hgiven
  exact hnone t ht hname hkind

/-- Siblings that are connected are of one kind. -/
theorem exists_kind_iff_of_eqvGen (fresh : g.Fresh) (exist : AlternatesExist g.siblings)
    {x y : String} (h : Relation.EqvGen (AlternateOf g.siblings) x y) (k : ElementKind) :
    (∃ s ∈ g.siblings, s.header.name = x ∧ s.kind = k) ↔
      ∃ t ∈ g.siblings, t.header.name = y ∧ t.kind = k := by
  induction h with
  | rel x y hxy =>
      obtain ⟨s, hs, hname, hgiven⟩ := hxy
      obtain ⟨t, ht, htname, hkind⟩ := exist s hs y hgiven
      have hinj := List.inj_on_of_nodup_map fresh.names
      constructor
      · rintro ⟨s', hs', hname', rfl⟩
        rw [hinj hs' hs (hname'.trans hname.symm)]
        exact ⟨t, ht, htname, hkind⟩
      · rintro ⟨t', ht', htname', rfl⟩
        rw [hinj ht' ht (htname'.trans htname.symm)]
        exact ⟨s, hs, hname, hkind.symm⟩
  | refl x => exact Iff.rfl
  | symm x y _ ih => exact ih.symm
  | trans x y z _ _ ih ih' => exact ih.trans ih'

/-- In a group that has been linked the alternates are the connected siblings. -/
theorem linkedAs_of_links (fresh : g.Fresh) (h : g.Links g') : g.LinkedAs g' := by
  have exist := alternatesExist_of_links fresh h
  obtain ⟨headers, hheaders, hsiblings⟩ := h.headers
  refine ⟨h.path, ?_⟩
  have hlinks := ((linkSiblings_eq_ok_iff g.path fresh.names fresh.unlinked headers).1 hheaders).2
  have hsame : List.Forall₂ (fun s t => s ∈ g.siblings ∧ t = s) g.siblings g.siblings :=
    List.forall₂_same.2 fun s hs => ⟨hs, rfl⟩
  rw [hsiblings]
  refine forall₂_zipWith hlinks hsame fun s header t hlinks hst => ?_
  obtain ⟨hs, rfl⟩ := hst
  refine ⟨rfl, hlinks.rest, fun x => ?_⟩
  rw [Sibling.header_withHeader, hlinks.mem]
  constructor
  · rintro ⟨hne, hconnected⟩
    exact ⟨hne, (exists_kind_iff_of_eqvGen fresh exist hconnected t.kind).1 ⟨t, hs, rfl, rfl⟩,
      hconnected⟩
  · rintro ⟨hne, -, hconnected⟩
    exact ⟨hne, hconnected⟩

end SiblingGroup

namespace Sibling

variable {siblings : List Sibling} {s s' t : Sibling}

theorem LinkedAs.name (h : s.LinkedAs siblings s') : s'.header.name = s.header.name := by
  rw [h.rest]

/-- A sibling is an alternate of another one if it is of the same kind and connected to it. -/
theorem LinkedAs.name_mem_iff (names : (siblings.map (·.header.name)).Nodup)
    (h : s.LinkedAs siblings s') (ht : t ∈ siblings) :
    t.header.name ∈ s'.header.alternates ↔ t.header.name ≠ s.header.name ∧ t.kind = s.kind ∧
      Relation.EqvGen (AlternateOf siblings) s.header.name t.header.name := by
  rw [h.mem]
  constructor
  · rintro ⟨hne, ⟨u, hu, hname, hkind⟩, hconnected⟩
    rw [List.inj_on_of_nodup_map names hu ht hname] at hkind
    exact ⟨hne, hkind, hconnected⟩
  · rintro ⟨hne, hkind, hconnected⟩
    exact ⟨hne, ⟨t, ht, rfl, hkind⟩, hconnected⟩

/-- Only which siblings there are matters for the alternates, and not their order. -/
theorem LinkedAs.of_perm {siblings' : List Sibling} (perm : siblings.Perm siblings')
    (h : s.LinkedAs siblings s') : s.LinkedAs siblings' s' := by
  have hrelation : AlternateOf siblings' = AlternateOf siblings := by
    unfold AlternateOf
    simp only [perm.mem_iff]
  refine ⟨h.kind, h.rest, fun x => ?_⟩
  simp only [h.mem, hrelation, perm.mem_iff]

theorem LinkedAs.unique (h : s.LinkedAs siblings s') {s'' : Sibling}
    (h' : s.LinkedAs siblings s'') : s' = s'' := by
  have halternates : s'.header.alternates = s''.header.alternates :=
    NameSet.eq_of_mem_iff fun x => (h.mem x).trans (h'.mem x).symm
  have hheader : s'.header = s''.header := by
    rw [h.rest, h'.rest, halternates]
  have hkind := h.kind.trans h'.kind.symm
  cases s'
  cases s''
  cases hheader
  cases hkind
  rfl

end Sibling

namespace SiblingGroup

variable {g g' : SiblingGroup}

theorem closed_of_linkedAs (fresh : g.Fresh) (h : g.LinkedAs g') : g'.Closed := by
  have origin {s' : Sibling} (hs' : s' ∈ g'.siblings) :
      ∃ s ∈ g.siblings, s.LinkedAs g.siblings s' :=
    exists_mem_left h.siblings hs'
  constructor
  · intro s' hs' hself
    obtain ⟨s, -, hs⟩ := origin hs'
    exact ((hs.mem _).1 hself).1 hs.name
  · intro s' hs' t' ht' hmem
    obtain ⟨s, hs, hslinked⟩ := origin hs'
    obtain ⟨t, ht, htlinked⟩ := origin ht'
    rw [htlinked.name, hslinked.name_mem_iff fresh.names ht] at hmem
    rw [hslinked.name, htlinked.name_mem_iff fresh.names hs]
    obtain ⟨hne, hkind, hconnected⟩ := hmem
    exact ⟨hne.symm, hkind.symm, hconnected.symm⟩
  · intro s' hs' t' ht' u' hu' hst htu hne
    obtain ⟨s, hs, hslinked⟩ := origin hs'
    obtain ⟨t, ht, htlinked⟩ := origin ht'
    obtain ⟨u, hu, hulinked⟩ := origin hu'
    rw [htlinked.name, hslinked.name_mem_iff fresh.names ht] at hst
    rw [hulinked.name, htlinked.name_mem_iff fresh.names hu] at htu
    rw [hulinked.name, hslinked.name] at hne
    rw [hulinked.name, hslinked.name_mem_iff fresh.names hu]
    exact ⟨hne, htu.2.1.trans hst.2.1, hst.2.2.trans _ _ _ htu.2.2⟩
  · intro s' hs' x hx
    obtain ⟨s, -, hslinked⟩ := origin hs'
    obtain ⟨-, ⟨t, ht, htname, hkind⟩, -⟩ := (hslinked.mem x).1 hx
    obtain ⟨t', ht', htlinked⟩ := exists_mem_right h.siblings ht
    exact ⟨t', ht', htlinked.name.trans htname,
      (htlinked.kind.trans hkind).trans hslinked.kind.symm⟩

/-- A reordered group has the same elements after linking. -/
theorem perm_of_linkedAs {k k' : SiblingGroup} (perm : g.siblings.Perm k.siblings)
    (h : g.LinkedAs g') (hk : k.LinkedAs k') : g'.siblings.Perm k'.siblings := by
  obtain ⟨siblings, hsiblings, hperm⟩ := List.perm_comp_forall₂ perm
    (hk.siblings.imp fun s s' h => h.of_perm perm.symm)
  have hunique : Relator.RightUnique (Sibling.LinkedAs g.siblings) :=
    fun _ _ _ h h' => h.unique h'
  rwa [List.right_unique_forall₂' hunique h.siblings hsiblings]

theorem Fresh.of_perm {k : SiblingGroup} (perm : g.siblings.Perm k.siblings) (h : g.Fresh) :
    k.Fresh :=
  ⟨(perm.map _).nodup_iff.1 h.names, fun s hs => h.unlinked s (perm.mem_iff.2 hs)⟩

end SiblingGroup

/-! ### All groups -/

/-- Linked siblings keep their names. -/
theorem forall₂_names {α : Type} {asSibling : α → Sibling} {path : NodePath} {as : List α}
    {headers : List Header} (h : linkSiblings path (as.map asSibling) = .ok headers) :
    List.Forall₂ (fun a header => header.name = (asSibling a).header.name) as headers := by
  have hnames := names_linkSiblings h
  rw [← List.forall₂_eq_eq_eq, List.forall₂_map_left_iff, List.forall₂_map_right_iff,
    List.forall₂_map_right_iff] at hnames
  exact hnames.flip

theorem forall₂_flatMap_zipIdx {α β γ δ : Type} {S : γ → δ → Prop} {f : α × Nat → List γ}
    {g : β × Nat → List δ} {as : List α} {bs : List β}
    (h : List.Forall₂ (fun a b => ∀ i, List.Forall₂ S (f (a, i)) (g (b, i))) as bs) (k : Nat) :
    List.Forall₂ S ((as.zipIdx k).flatMap f) ((bs.zipIdx k).flatMap g) := by
  induction h generalizing k with
  | nil => exact .nil
  | cons r _ ih =>
      rw [List.zipIdx_cons, List.zipIdx_cons, List.flatMap_cons, List.flatMap_cons]
      exact List.rel_append (r k) (ih (k + 1))

namespace Member

theorem scopes_withHeader (position : List Nat) (path : NodePath) (h : Header) (m : Member) :
    (m.withHeader h).scopes position path = m.scopes position path := by
  cases m <;> rfl

theorem name_withHeader (h : Header) (m : Member) : (m.withHeader h).name = h.name := by
  rw [name, header_withHeader]

theorem scopesAll_zipWith_withHeader {position : List Nat} {path : NodePath} {i : Nat}
    {headers : List Header} {ms : List Member} (names : headers.map (·.name) = ms.map name) :
    scopesAll position path i (headers.zipWith withHeader ms) = scopesAll position path i ms := by
  induction ms generalizing headers i with
  | nil => rw [List.zipWith_nil_right]
  | cons m ms ih =>
      cases headers with
      | nil => cases names
      | cons h headers =>
          rw [List.map_cons, List.map_cons, List.cons.injEq] at names
          obtain ⟨hname, hnames⟩ := names
          rw [List.zipWith_cons_cons, scopesAll, scopesAll, ih hnames, scopes_withHeader,
            name_withHeader, hname]

theorem asSibling_withHeader (h : Header) (m : Member) :
    (m.withHeader h).asSibling = m.asSibling.withHeader h := by
  cases m <;> rfl

theorem map_asSibling_zipWith (headers : List Header) (ms : List Member) :
    (headers.zipWith withHeader ms).map asSibling =
      headers.zipWith Sibling.withHeader (ms.map asSibling) := by
  simp only [List.map_zipWith, List.zipWith_map_right, asSibling_withHeader]

theorem asSibling_linkInside {path : NodePath} {m m' : Member} (h : m.linkInside path = .ok m') :
    m'.asSibling = m.asSibling := by
  cases m with
  | register r =>
      cases h
      rfl
  | cluster c ms =>
      rw [linkInside_cluster] at h
      obtain ⟨ms', -, rfl⟩ := map_eq_ok_iff.1 h
      rfl

theorem map_asSibling_linkInsideAll {path : NodePath} {ms ms' : List Member}
    (h : linkInsideAll path ms = .ok ms') : ms'.map asSibling = ms.map asSibling := by
  rw [linkInsideAll_eq_ok_iff] at h
  exact (map_eq_map_of_forall₂ h fun _ _ h => (asSibling_linkInside h).symm).symm

/-- Linking the insides of members leaves them with the names that linking gives them. -/
theorem map_name_linkInsideAll {path : NodePath} {headers : List Header} {ms ns : List Member}
    (hheaders : linkSiblings path (ms.map asSibling) = .ok headers)
    (hinside : linkInsideAll path ms = .ok ns) : headers.map (·.name) = ns.map name := by
  have hnames := names_linkSiblings hheaders
  rw [← map_asSibling_linkInsideAll hinside, List.map_map] at hnames
  exact hnames

theorem linkAll_links {path : NodePath} {ms ms' : List Member} (h : linkAll path ms = .ok ms') :
    SiblingGroup.Links ⟨path, ms.map asSibling⟩ ⟨path, ms'.map asSibling⟩ := by
  obtain ⟨headers, hheaders, h⟩ := bind_eq_ok_iff.1 h
  obtain ⟨inside, hinside, h⟩ := bind_eq_ok_iff.1 h
  cases h
  refine ⟨rfl, headers, hheaders, ?_⟩
  rw [map_asSibling_zipWith, map_asSibling_linkInsideAll hinside]

/-- The scopes of linked members are linked if those inside of each of them are. -/
theorem forall₂_linkAll (position : List Nat) {path : NodePath} {ms ms' : List Member}
    (inside : ∀ {ns}, linkInsideAll path ms = .ok ns →
      List.Forall₂ (fun s s' => s.group.Links s'.group) (scopesAll position path 0 ms)
        (scopesAll position path 0 ns)) (h : linkAll path ms = .ok ms') :
    List.Forall₂ (fun s s' => s.group.Links s'.group)
      (⟨position, path, ms⟩ :: scopesAll position path 0 ms)
      (⟨position, path, ms'⟩ :: scopesAll position path 0 ms') := by
  refine .cons (linkAll_links h) ?_
  obtain ⟨headers, hheaders, h⟩ := bind_eq_ok_iff.1 h
  obtain ⟨ns, hns, h⟩ := bind_eq_ok_iff.1 h
  cases h
  rw [scopesAll_zipWith_withHeader (map_name_linkInsideAll hheaders hns)]
  exact inside hns

mutual

theorem forall₂_scopes (position : List Nat) (path : NodePath) :
    ∀ {m m' : Member}, m.linkInside path = .ok m' →
      List.Forall₂ (fun s s' => s.group.Links s'.group) (m.scopes position path)
        (m'.scopes position path)
  | .register r, _, h => by
      cases h
      exact .nil
  | .cluster c ms, _, h => by
      rw [linkInside_cluster] at h
      obtain ⟨ms', hms', rfl⟩ := map_eq_ok_iff.1 h
      exact forall₂_linkAll position (forall₂_scopesAll position path 0) hms'

theorem forall₂_scopesAll (position : List Nat) (path : NodePath) (i : Nat) :
    ∀ {ms ms' : List Member}, linkInsideAll path ms = .ok ms' →
      List.Forall₂ (fun s s' => s.group.Links s'.group) (scopesAll position path i ms)
        (scopesAll position path i ms')
  | [], _, h => by
      cases h
      exact .nil
  | m :: ms, _, h => by
      unfold linkInsideAll at h
      obtain ⟨rest, hrest, h⟩ := bind_eq_ok_iff.1 h
      obtain ⟨m', hm', h⟩ := bind_eq_ok_iff.1 h
      cases h
      have hname : m'.name = m.name := congrArg (·.header.name) (asSibling_linkInside hm')
      rw [scopesAll, scopesAll, hname]
      exact List.rel_append (forall₂_scopesAll position path (i + 1) hrest)
        (forall₂_scopes (position ++ [i]) (path.child m.name) hm')

end

theorem failsWith_linkAll {position : List Nat} {path : NodePath} {ms : List Member}
    (inside : FailsWith (fun e => ∃ s ∈ scopesAll position path 0 ms, s.group.Rejects e)
      (linkInsideAll path ms)) :
    FailsWith (fun e => ∃ s ∈ ⟨position, path, ms⟩ :: scopesAll position path 0 ms,
      s.group.Rejects e) (linkAll path ms) := by
  refine .bind (fun e he => ?_) fun _ _ => .bind (fun e he => ?_) fun _ _ => .of_ok
  · exact ⟨⟨position, path, ms⟩, List.mem_cons_self, he⟩
  · obtain ⟨s, hs, he⟩ := inside e he
    exact ⟨s, List.mem_cons_of_mem _ hs, he⟩

mutual

theorem failsWith_linkInside (position : List Nat) (path : NodePath) :
    ∀ m : Member, FailsWith (fun e => ∃ s ∈ m.scopes position path, s.group.Rejects e)
      (m.linkInside path)
  | .register _ => .of_ok
  | .cluster c ms => by
      rw [linkInside_cluster]
      exact .map (failsWith_linkAll (failsWith_linkInsideAll position path 0 ms))

/-- What is inside of members cannot be linked only if one of its scopes cannot. -/
theorem failsWith_linkInsideAll (position : List Nat) (path : NodePath) (i : Nat) :
    ∀ ms : List Member, FailsWith
      (fun e => ∃ s ∈ scopesAll position path i ms, s.group.Rejects e) (linkInsideAll path ms)
  | [] => .of_ok
  | m :: ms => by
      refine .bind (fun e he => ?_) fun _ _ => .bind (fun e he => ?_) fun _ _ => .of_ok
      · obtain ⟨s, hs, he⟩ := failsWith_linkInsideAll position path (i + 1) ms e he
        exact ⟨s, List.mem_append_left _ hs, he⟩
      · obtain ⟨s, hs, he⟩ := failsWith_linkInside (position ++ [i]) (path.child m.name) m e he
        exact ⟨s, List.mem_append_right _ hs, he⟩

end

end Member

namespace Peripheral

variable {parent path : NodePath} {p q : Peripheral}

theorem map_asSibling_linkInside {ps qs : List Peripheral}
    (h : List.Forall₂ (fun p q => p.linkInside (parent.child p.name) = .ok q) ps qs) :
    ps.map asSibling = qs.map asSibling :=
  map_eq_map_of_forall₂ h fun _ _ h =>
    congrArg (Sibling.mk .peripheral) (toHeader_linkInside h).symm

theorem linkAll_memberList (h : p.linkInside path = .ok q) :
    Member.linkAll path p.memberList = .ok q.memberList := by
  unfold linkInside at h
  unfold memberList
  split at h
  · next hnone =>
    cases h
    rw [hnone]
    rfl
  · next ms hms =>
    obtain ⟨ms', hms', h⟩ := bind_eq_ok_iff.1 h
    cases h
    rw [hms]
    exact hms'

theorem forall₂_scopes (h : p.linkInside (parent.child p.name) = .ok q) {header : Header}
    (name : header.name = p.name) (i : Nat) :
    List.Forall₂ (fun s s' => s.group.Links s'.group) (p.scopes parent i)
      (scopes parent i { q with toHeader := header }) := by
  have hlinked := Member.forall₂_linkAll [i]
    (Member.forall₂_scopesAll [i] (parent.child p.name) 0) (linkAll_memberList h)
  rw [← name] at hlinked
  rwa [scopes, scope, ← name]

theorem failsWith_linkInside (parent : NodePath) (i : Nat) (p : Peripheral) :
    FailsWith (fun e => ∃ s ∈ p.scopes parent i, s.group.Rejects e)
      (p.linkInside (parent.child p.name)) := by
  have hmembers := Member.failsWith_linkAll
    (Member.failsWith_linkInsideAll [i] (parent.child p.name) 0 p.memberList)
  unfold linkInside
  split
  · exact .of_ok
  · next ms hms =>
    refine .bind (fun e he => ?_) fun _ _ => .of_ok
    rw [memberList, hms] at hmembers
    obtain ⟨s, hs, he⟩ := hmembers e he
    refine ⟨s, ?_, he⟩
    rw [scopes, scope, memberList, hms]
    exact hs

end Peripheral

namespace Device

variable {d d' : Device}

theorem failsWith_resolveAlternates (d : Device) :
    FailsWith (fun e => ∃ g ∈ d.siblingGroups, g.Rejects e) d.resolveAlternates.result := by
  refine .logged_bind (fun e he => ⟨_, List.mem_cons_self, he⟩) fun headers _ => ?_
  refine .logged_bind (.foldrM fun p hp _ => ?_) fun _ _ => .of_ok
  refine .bind (fun e he => ?_) fun _ _ => .of_ok
  obtain ⟨i, hi⟩ := List.mem_iff_getElem?.1 hp
  obtain ⟨s, hs, he⟩ := p.failsWith_linkInside d.path i e he
  refine ⟨s.group, List.mem_cons_of_mem _ (List.mem_map_of_mem ?_), he⟩
  exact List.mem_flatMap.2 ⟨(p, i), List.mk_mem_zipIdx_iff_getElem?.2 hi, hs⟩

/-- Linking a device links each of its groups of siblings. -/
theorem forall₂_siblingGroups (h : d.resolveAlternates.result = .ok d') :
    List.Forall₂ SiblingGroup.Links d.siblingGroups d'.siblingGroups := by
  obtain ⟨headers, hheaders, h⟩ := Logged.bind_eq_ok_iff.1 h
  obtain ⟨inside, hinside, h⟩ := Logged.bind_eq_ok_iff.1 h
  cases h
  obtain ⟨own, hown, rfl⟩ := foldrM_cons_eq_ok_iff.1 hinside
  rw [List.append_nil]
  have hsiblings := Peripheral.map_asSibling_linkInside hown
  refine .cons ⟨rfl, headers, hheaders, ?_⟩ ?_
  · dsimp only
    rw [hsiblings, List.map_zipWith, List.zipWith_map_right]
    rfl
  · unfold scopes
    rw [List.forall₂_map_left_iff, List.forall₂_map_right_iff]
    exact forall₂_flatMap_zipIdx (forall₂_zipWith (forall₂_names hheaders) hown
      fun p header q name h i => Peripheral.forall₂_scopes h name i) 0

end Device

variable {d : Device}

/-- Of a device whose siblings have distinct names and are not linked yet, the alternates can be
resolved if and only if each of them names a sibling of the same kind. Each element then has the
siblings that are connected to it as its alternates, whatever the order of the siblings is. -/
theorem resolveAlternates_links_groups (fresh : ∀ g ∈ d.siblingGroups, g.Fresh) :
    ((∃ path name kind, d.resolveAlternates.result =
        .error (.missingReference path name (.alternate kind))) ↔
      ∃ g ∈ d.siblingGroups, ¬ AlternatesExist g.siblings) ∧
    (∀ e, d.resolveAlternates.result = .error e → ∃ g ∈ d.siblingGroups, g.Misses e) ∧
    ((∀ g ∈ d.siblingGroups, AlternatesExist g.siblings) → ∃ d',
      d.resolveAlternates.result = .ok d' ∧
      List.Forall₂ SiblingGroup.LinkedAs d.siblingGroups d'.siblingGroups ∧
      (∀ g' ∈ d'.siblingGroups, g'.Closed) ∧
      ∀ c c' : Device, c.resolveAlternates.result = .ok c' →
        ∀ g g' k k', (g, g') ∈ d.siblingGroups.zip d'.siblingGroups →
          (k, k') ∈ c.siblingGroups.zip c'.siblingGroups → g.siblings.Perm k.siblings →
            g'.siblings.Perm k'.siblings) := by
  have hmisses : ∀ e, d.resolveAlternates.result = .error e →
      ∃ g ∈ d.siblingGroups, g.Misses e := by
    intro e he
    obtain ⟨g, hg, he⟩ := d.failsWith_resolveAlternates e he
    exact ⟨g, hg, SiblingGroup.misses_of_rejects (fresh g hg) he⟩
  refine ⟨⟨?_, ?_⟩, hmisses, ?_⟩
  · rintro ⟨path, name, kind, he⟩
    obtain ⟨g, hg, hmiss⟩ := hmisses _ he
    exact ⟨g, hg, hmiss.not_alternatesExist⟩
  · rintro ⟨g, hg, hmissing⟩
    cases hresult : d.resolveAlternates.result with
    | error e =>
        obtain ⟨_, -, s, -, name, -, -, rfl⟩ := hmisses e hresult
        exact ⟨_, _, _, rfl⟩
    | ok d' =>
        obtain ⟨g', -, hlinks⟩ := exists_mem_right (Device.forall₂_siblingGroups hresult) hg
        exact absurd (SiblingGroup.alternatesExist_of_links (fresh g hg) hlinks) hmissing
  · intro hexist
    cases hresult : d.resolveAlternates.result with
    | error e =>
        obtain ⟨g, hg, hmiss⟩ := hmisses e hresult
        exact absurd (hexist g hg) hmiss.not_alternatesExist
    | ok d' =>
        have hlinks := Device.forall₂_siblingGroups hresult
        have hlinked : List.Forall₂ SiblingGroup.LinkedAs d.siblingGroups d'.siblingGroups :=
          List.forall₂_iff_zip.2 ⟨hlinks.length_eq, fun hg =>
            SiblingGroup.linkedAs_of_links (fresh _ (List.of_mem_zip hg).1)
              ((List.forall₂_iff_zip.1 hlinks).2 hg)⟩
        refine ⟨d', rfl, hlinked, fun g' hg' => ?_, fun c c' hc g g' k k' hg hk hperm => ?_⟩
        · obtain ⟨g, hg, h⟩ := exists_mem_left hlinked hg'
          exact SiblingGroup.closed_of_linkedAs (fresh g hg) h
        · have hfresh := (fresh g (List.of_mem_zip hg).1).of_perm hperm
          exact SiblingGroup.perm_of_linkedAs hperm ((List.forall₂_iff_zip.1 hlinked).2 hg)
            (SiblingGroup.linkedAs_of_links hfresh
              ((List.forall₂_iff_zip.1 (Device.forall₂_siblingGroups hc)).2 hk))

/-- A device with a chain of alternates and one that refers to itself, inside of a cluster of one of
two peripherals that refer to each other. -/
def chained : Device where
  name := "Chain"
  peripherals :=
    [{ name := "P", alternate := some "Q"
       members := some [.cluster { name := "C" }
        [.register { name := "A", alternate := some "B" },
          .register { name := "B", alternate := some "D" },
          .register { name := "D" },
          .register { name := "E", alternate := some "E" }]] },
      { name := "Q", alternate := some "P" }]

/-- The chained device after its alternates have been linked. -/
def chainedLinked : Device where
  name := "Chain"
  peripherals :=
    [{ name := "P", alternate := some "Q", alternates := .ofList ["Q"]
       members := some [.cluster { name := "C" }
        [.register { name := "A", alternate := some "B", alternates := .ofList ["B", "D"] },
          .register { name := "B", alternate := some "D", alternates := .ofList ["A", "D"] },
          .register { name := "D", alternates := .ofList ["A", "B"] },
          .register { name := "E", alternate := some "E" }]] },
      { name := "Q", alternate := some "P", alternates := .ofList ["P"] }]

theorem resolveAlternates_links_groups_chained :
    (∀ g ∈ chained.siblingGroups, g.Fresh) ∧
    (∀ g ∈ chained.siblingGroups, AlternatesExist g.siblings) ∧
    List.Forall₂ SiblingGroup.LinkedAs chained.siblingGroups chainedLinked.siblingGroups ∧
    ∀ g' ∈ chainedLinked.siblingGroups, g'.Closed := by
  have hnames : ∀ g ∈ chained.siblingGroups, (g.siblings.map (·.header.name)).Nodup := by decide
  have hunlinked : ∀ g ∈ chained.siblingGroups, ∀ s ∈ g.siblings, s.header.alternates = ∅ := by
    decide
  have hresult : chained.resolveAlternates.result = .ok chainedLinked := by rfl
  have hfresh : ∀ g ∈ chained.siblingGroups, g.Fresh := fun g hg =>
    ⟨hnames g hg, hunlinked g hg⟩
  obtain ⟨hfails, -, hlinks⟩ := resolveAlternates_links_groups hfresh
  have hexist : ∀ g ∈ chained.siblingGroups, AlternatesExist g.siblings := by
    intro g hg
    by_contra hmissing
    obtain ⟨_, _, _, he⟩ := hfails.2 ⟨g, hg, hmissing⟩
    rw [hresult] at he
    cases he
  obtain ⟨d', hd', hlinked, hclosed, -⟩ := hlinks hexist
  rw [hresult] at hd'
  cases hd'
  exact ⟨hfresh, hexist, hlinked, hclosed⟩

end RegisterMap.Draft
