import RegisterMap.Proofs.Escapes
import RegisterMap.Proofs.IndexTokens

/-!
# Names of elements

The names in a document are trimmed, and the index tokens of an array are. A name that is put
together from a template and a token therefore neither begins nor ends with blank space. As building
a draft and expanding it also make a path of each name, no name has an empty part (`IsName`). This
holds of every element in every draft of a run (`Reaches.wellNamed`).
-/

namespace RegisterMap

/-! ### Index tokens -/

namespace Dimension

theorem tight_toString (n : Nat) : Text.Tight (toString n).toList := by
  rw [Nat.toString_eq_repr, Nat.repr_eq_ofList_toDigits, String.toList_ofList]
  refine .of_forall Nat.toDigits_ne_nil fun c hc => ?_
  have hdigit := Nat.isDigit_of_mem_toDigits (by decide) (by decide) hc
  simp only [Char.isDigit, Bool.and_eq_true, decide_eq_true_eq, UInt32.le_iff_toNat_le] at hdigit
  have hlow : 48 ≤ c.toNat := hdigit.1
  have hhigh : c.toNat ≤ 57 := hdigit.2
  simp only [Text.isBlank]
  grind

theorem tight_letters {first last : Char} (range : 'A' ≤ first ∧ last ≤ 'Z') {token : String}
    (h : token ∈ letters first last) : Text.Tight token.toList := by
  obtain ⟨n, hn, rfl⟩ := List.mem_map.1 h
  rw [List.mem_range'_1] at hn
  have hlow : 65 ≤ n := le_trans range.1 hn.1
  have hhigh : n ≤ 90 := by
    have hlast : last.toNat ≤ 90 := range.2
    omega
  have hcapital : ∀ n ≤ 90, 65 ≤ n → Text.isBlank (Char.ofNat n) = false := by decide
  rw [String.toList_singleton]
  exact .of_forall (List.cons_ne_nil _ _) (List.forall_mem_singleton.2 (hcapital n hhigh hlow))

theorem tight_indexTokens {index : String} {tokens : List String}
    (h : indexTokens index = .ok tokens) : ∀ token ∈ tokens, Text.Tight token.toList := by
  unfold indexTokens at h
  dsimp only at h
  split at h
  · cases h
    intro token htoken
    obtain ⟨n, -, rfl⟩ := List.mem_map.1 htoken
    exact tight_toString n
  · next hletters =>
    cases h
    have range := letterRange?_eq_some_iff.1 hletters
    exact fun token => tight_letters ⟨range.lower.1, range.upper.2⟩
  · split at h
    · cases h
    · next hblank =>
      obtain rfl := Except.ok.inj h
      intro token htoken
      obtain ⟨piece, hpiece, rfl⟩ := List.mem_map.1 htoken
      refine Text.tight_trim fun hempty => hblank ?_
      exact List.any_eq_true.2 ⟨_, htoken, by rw [hempty]; rfl⟩

/-- No index token begins or ends with blank space. -/
theorem tight_tokens {dim : Dimension} {tokens : List String} (h : dim.tokens = .ok tokens) :
    ∀ token ∈ tokens, Text.Tight token.toList := by
  unfold Dimension.tokens at h
  split at h
  · cases h
    intro token htoken
    obtain ⟨n, -, rfl⟩ := List.mem_map.1 htoken
    exact tight_toString n
  · obtain ⟨found, hfound, h⟩ := bind_eq_ok_iff.1 h
    split at h
    · cases h
      exact tight_indexTokens hfound
    · cases h

end Dimension

/-! ### Names of instances -/

namespace Text

variable {cs ds token : List Char}

theorem starts_fillPlaceholders (h : Starts cs) (htoken : Starts token) :
    Starts (fillPlaceholders token cs) := by
  unfold fillPlaceholders
  split
  · exact htoken.append _
  · exact h
  · exact h

theorem ends_fillPlaceholders (h : Ends cs) (htoken : Ends token) :
    Ends (fillPlaceholders token cs) := by
  induction cs using fillPlaceholders.induct with
  | case1 cs ih =>
      rw [fillPlaceholders]
      by_cases hempty : cs = []
      · rw [hempty, fillPlaceholders, List.append_nil]
        exact htoken
      · exact (ih (Ends.of_append ['%', 's'] h hempty)).append token
  | case2 c cs other ih =>
      rw [fillPlaceholders.eq_2 _ _ _ other]
      by_cases hempty : cs = []
      · rw [hempty] at h ⊢
        exact h
      · exact (ih (Ends.of_append [c] h hempty)).append [c]
  | case3 => exact h

/-- An instance of a name is tight if the name and the index token are. -/
theorem tight_instanceName {template token : String} (h : Tight template.toList)
    (htoken : Tight token.toList) : Tight (instanceName template token).toList := by
  unfold instanceName
  dsimp only
  split
  · next hsuffix =>
    obtain ⟨front, hfront⟩ := List.isSuffixOf_iff_suffix.1 hsuffix
    have htake : template.toList.take (template.toList.length - 4) = front := by
      simp [← hfront, bracketedPlaceholder]
    rw [String.toList_ofList, htake]
    refine ⟨?_, ((htoken.ends.append ['_']).append front)⟩
    cases front with
    | nil => exact ⟨'_', rfl, rfl⟩
    | cons c front =>
        have hstarts := h.starts
        rw [← hfront] at hstarts
        exact hstarts
  · rw [String.toList_ofList]
    exact ⟨starts_fillPlaceholders h.starts htoken.starts,
      ends_fillPlaceholders h.ends htoken.ends⟩

end Text

/-! ### Elements of a draft -/

/-- An element can have the name: it is trimmed, and each part that it contributes to a path holds
a character. -/
structure IsName (name : String) : Prop where
  tight : Text.Tight name.toList
  whole : "" ∉ NodePath.split name

namespace Draft

variable {config : Config} {root : Element} {path : NodePath}

/-- The member has a name, and so has each of its fields. -/
abbrev Member.WellNamed : Member → Prop :=
  Member.HasParts IsName fun f => IsName f.name

/-- All elements of the device have names. -/
abbrev Device.WellNamed (d : Device) : Prop :=
  d.HasParts IsName fun f => IsName f.name

theorem isName_of_requiredName {parent : NodePath} {kind : ElementKind} {e : Element}
    {name : String} (h : requiredName parent kind e = .ok name)
    (entered : pathOf parent name = .ok path) : IsName name := by
  have whole := whole_of_pathOf entered
  refine ⟨?_, whole⟩
  obtain ⟨given, -, rfl⟩ := Option.map_eq_some_iff.1 (given_of_requiredName h)
  refine Text.tight_trim fun hempty => whole ?_
  rw [hempty]
  exact List.mem_singleton_self _

/-- A document supplies names. -/
theorem supplies_isName (root : Element) : Supplies root IsName fun f => IsName f.name where
  name _ _ _ _ _ _ := isName_of_requiredName
  field e _ _ parent := by
    unfold buildField
    refine .bind (.of_ofExcept fun _ h => h) fun name hname => ?_
    refine .bind (.of_ofExcept fun _ h => h) fun path hpath => ?_
    have hisName := isName_of_requiredName hname hpath
    refine .throw_or fun _ => .bind_of_forall fun range => ?_
    cases e.child? "enumeratedValues" with
    | none =>
        exact .bind_of_forall fun _ => .bind_of_forall fun _ => .bind_of_forall fun _ =>
          .of_pure hisName
    | some values =>
        exact .bind_of_forall fun _ => .bind_of_forall fun _ => .bind_of_forall fun _ =>
          .of_pure hisName

/-! ### Arrays -/

section

variable {α : Type} [Dimensioned α]

theorem tight_of_mem_instances {a : α} {i : Instance} (h : some i ∈ instances a) :
    Text.Tight i.token.toList := by
  unfold instances at h
  split at h
  · cases List.mem_singleton.1 h
  · next dim _ =>
    obtain ⟨⟨token, k⟩, hmem, heq⟩ := List.mem_map.1 h
    cases heq
    have htoken := List.fst_mem_of_mem_zipIdx hmem
    cases htokens : dim.tokens with
    | error fault =>
        rw [htokens] at htoken
        cases htoken
    | ok tokens =>
        rw [htokens] at htoken
        exact Dimension.tight_tokens htokens token htoken

/-- Every instance of an element has a name if the element has one. -/
theorem isName_of_copies {a : α} (h : copies path a = .ok (instances a))
    (own : IsName (Dimensioned.name a))
    (named : ∀ i, Dimensioned.name (Dimensioned.instantiate a i) =
      instanceName (Dimensioned.name a) i.token) :
    ∀ i ∈ instances a, IsName (Dimensioned.name (place a i)) := by
  intro i hi
  refine ⟨?_, whole_of_copies h own.whole named i hi⟩
  cases i with
  | none => exact own.tight
  | some i =>
      change Text.Tight (Dimensioned.name (Dimensioned.instantiate a i)).toList
      rw [named]
      exact Text.tight_instanceName own.tight (tight_of_mem_instances hi)

end

namespace Member

theorem wellNamed_expanded {r : Register} {fs : List Field} (hfs : r.fields = some fs)
    (h : (register r).WellNamed) {iss : List (List (Option Instance))}
    (hcopies : copiesAll path [] fs = .ok iss) : (register r.expanded).WellNamed := by
  refine ⟨h.name, fun f hf => ?_⟩
  have hfields := h.fields
  change ∀ f ∈ r.fields.getD [], IsName f.name at hfields
  change f ∈ (r.fields.map (List.flatMap replacements)).getD [] at hf
  rw [hfs] at hf hfields
  obtain ⟨g, hg, hf⟩ := List.mem_flatMap.1 hf
  obtain ⟨i, hi, rfl⟩ := List.mem_map.1 hf
  exact isName_of_copies ((copiesAll_eq_ok_iff.1 hcopies).1 g hg) (hfields g hg) (fun _ => rfl) i hi

/-- An instance of a member is well named if its name is one and what is inside of it is. -/
theorem each_wellNamed_place {m : Member} (h : m.Each WellNamed) (i : Option Instance)
    (name : IsName (place m i).name) : (place m i).Each WellNamed := by
  obtain ⟨own, inside⟩ := each_iff.1 h
  refine each_iff.2 ⟨⟨name, ?_⟩, ?_⟩
  · rw [fieldList_place]
    exact own.fields
  · cases i with
    | none => exact inside
    | some i => cases m <;> exact inside

mutual

theorem wellNamed_expandInside (path : NodePath) : ∀ (m : Member) {m' : Member},
    m.expandInside path = .ok m' → m.Each WellNamed → m'.Each WellNamed
  | .register r, m', h, named => by
      have hexpanded := expandInside_eq_ok path (.register r) h
      unfold expandInside at h
      split at h
      · cases h
        exact named
      · next fs hfs =>
        obtain ⟨fs', hfs', -⟩ := bind_eq_ok_iff.1 h
        obtain ⟨iss, hiss, -⟩ := bind_eq_ok_iff.1 hfs'
        rw [hexpanded]
        exact wellNamed_expanded hfs named hiss
  | .cluster c ms, m', h, named => by
      rw [expandInside_cluster] at h
      obtain ⟨ms', hms', rfl⟩ := map_eq_ok_iff.1 h
      obtain ⟨iss, hiss, hms'⟩ := bind_eq_ok_iff.1 hms'
      obtain ⟨hcopies, -, -, rfl⟩ := copiesAll_eq_ok_iff.1 hiss
      refine ⟨⟨named.1.name, List.forall_mem_nil _⟩, ?_⟩
      exact wellNamed_expandInsideAll path ms hcopies hms' named.2

theorem wellNamed_expandInsideAll (path : NodePath) : ∀ (ms : List Member) {ms' : List Member},
    (∀ m ∈ ms, copies path m = .ok (instances m)) →
      expandInsideAll path (ms.map instances) ms = .ok ms' →
      EachAll WellNamed ms → EachAll WellNamed ms'
  | [], ms', _, h, _ => by
      cases h
      trivial
  | m :: ms, ms', hcopies, h, named => by
      rw [List.forall_mem_cons] at hcopies
      obtain ⟨own, rest, hown, hrest, rfl⟩ := expandInsideAll_cons_eq_ok h
      refine eachAll_iff.2 (List.forall_mem_append.2 ⟨fun n hn => ?_, ?_⟩)
      · obtain ⟨i, hi, inside, hinside, rfl⟩ := exists_mem_left hown hn
        have hname : (place inside i).name = (place m i).name := by
          rw [expandInside_eq_ok _ m hinside]
          cases i <;> cases m <;> rfl
        refine each_wellNamed_place (wellNamed_expandInside _ m hinside named.1) i ?_
        rw [hname]
        exact isName_of_copies hcopies.1 (each_iff.1 named.1).1.name m.name_instantiate i hi
      · exact eachAll_iff.1 (wellNamed_expandInsideAll path ms hcopies.2 hrest named.2)

end

end Member

theorem Peripheral.wellNamed_expandInside {p p' : Peripheral} (h : p.expandInside path = .ok p')
    (named : p.asMember.Each Member.WellNamed) : p'.asMember.Each Member.WellNamed := by
  unfold Peripheral.expandInside at h
  split at h
  · cases h
    exact named
  · next ms hms =>
    obtain ⟨ms', hms', h⟩ := bind_eq_ok_iff.1 h
    cases h
    obtain ⟨iss, hiss, hms'⟩ := bind_eq_ok_iff.1 hms'
    obtain ⟨hcopies, -, -, rfl⟩ := copiesAll_eq_ok_iff.1 hiss
    have inside : Member.EachAll Member.WellNamed (p.members.getD []) := named.2
    rw [hms] at inside
    refine ⟨⟨named.1.name, List.forall_mem_nil _⟩, ?_⟩
    exact Member.wellNamed_expandInsideAll path ms hcopies hms' inside

namespace Device

variable {d d' : Device}

theorem WellNamed.expand (h : d.WellNamed) (pass : d.expand.result = .ok d') : d'.WellNamed := by
  obtain ⟨hall, -, rfl⟩ := expand_eq_ok_iff.1 pass
  refine Member.eachAll_iff.2 fun m hm => ?_
  obtain ⟨p', hp', rfl⟩ := List.mem_map.1 hm
  obtain ⟨p, hp, hp'⟩ := List.mem_flatMap.1 hp'
  obtain ⟨q, hq, rfl⟩ := List.mem_map.1 hp'
  obtain ⟨i, hi, rfl⟩ := List.mem_map.1 hq
  have named := Member.eachAll_iff.1 h _ (List.mem_map_of_mem hp)
  have name := isName_of_copies (hall p hp).copies named.1.name (fun _ => rfl) i hi
  refine Peripheral.wellNamed_expandInside ((hall p hp).inside _ hq) ?_
  rw [Peripheral.asMember_place]
  refine Member.each_wellNamed_place named i ?_
  cases i <;> exact name

end Device

/-! ### Runs -/

/-- All elements have names in every draft of a run. -/
theorem Reaches.wellNamed {stage : Stage} {d : Device} (h : Reaches config root stage d) :
    d.WellNamed := by
  induction h with
  | build pass => exact (supplies_isName root).buildDevice _ pass
  | derive before pass ih => exact ih.resolveDerivations before.settled pass
  | expand _ pass ih => exact Device.WellNamed.expand ih pass
  | exclude _ pass ih =>
      cases pass
      exact ih.without _
  | link _ pass ih => exact ih.of_resembles (Device.alikeAll_resolveAlternates pass).1
  | @place d d' _ pass ih =>
      rw [Device.resolveAddresses_eq_ok pass]
      exact ih.of_resembles d.alikeAll_placeAll

end Draft

end RegisterMap
