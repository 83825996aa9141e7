import RegisterMap.Proofs.Document
import RegisterMap.Proofs.Shape

/-!
# The meaning of arrays

What a draft is expanded to is described from the outside in, attribute by attribute. Each of some
siblings is replaced by itself or, if it is an array, by one instance for each of its index tokens
(`Replaced`); after that, what is inside of each of the resulting siblings is expanded in the same
way (`Member.Expands`). The structures `IsInstance` list all that is different in an instance. Paths
are not mentioned, since the path of an element is that of the element around it with its own name.

Expanding a device gives the one device that fits this description, without any array and with
distinct names among siblings (`expand_expands`).
-/

namespace RegisterMap

/-- There are as many index tokens as instances. -/
theorem Dimension.length_tokens {dim : Dimension} {tokens : List String}
    (h : dim.tokens = .ok tokens) : tokens.length = dim.length.toNat := by
  unfold Dimension.tokens at h
  split at h
  · cases h
    rw [List.length_map, List.length_range]
  · obtain ⟨ts, -, h⟩ := bind_eq_ok_iff.1 h
    split at h
    · next hlength =>
      cases h
      rw [← hlength, Int.toNat_natCast]
    · cases h

namespace Draft

/-! ### Instances -/

/-- The second header is that of an instance of an element with the first one. -/
structure Header.IsInstance (token : String) (h h' : Header) : Prop where
  name : h'.name = instanceName h.name token
  dim : h'.dim = none
  alternate : h'.alternate = h.alternate.map (instanceName · token)
  rest : { h' with name := h.name, dim := h.dim, alternate := h.alternate } = h

/-- The second field is an instance of the first one. -/
structure Field.IsInstance (token : String) (shift : Int) (f f' : Field) : Prop where
  name : f'.name = instanceName f.name token
  dim : f'.dim = none
  bitRange : f'.bitRange = f.bitRange.map fun b => { b with offset := b.offset + shift }
  rest : { f' with name := f.name, dim := f.dim, bitRange := f.bitRange } = f

/-- The second member is an instance of the first one. -/
inductive Member.IsInstance (token : String) (shift : Int) : Member → Member → Prop
  | register {r r' : Register} (header : r.toHeader.IsInstance token r'.toHeader)
      (offset : r'.offset = r.offset.map (· + shift))
      (rest : { r' with toHeader := r.toHeader, offset := r.offset } = r) :
      IsInstance token shift (.register r) (.register r')
  | cluster {c c' : Cluster} {ms : List Member} (header : c.toHeader.IsInstance token c'.toHeader)
      (offset : c'.offset = c.offset.map (· + shift))
      (rest : { c' with toHeader := c.toHeader, offset := c.offset } = c) :
      IsInstance token shift (.cluster c ms) (.cluster c' ms)

/-- The second peripheral is an instance of the first one. -/
structure Peripheral.IsInstance (token : String) (shift : Int) (p p' : Peripheral) : Prop where
  header : p.toHeader.IsInstance token p'.toHeader
  baseAddress : p'.baseAddress = p.baseAddress.map (· + shift)
  arrayName : p'.arrayName = some p.name
  interrupts : p'.interrupts =
    p.interrupts.map ({ · with peripheral := instanceName p.name token })
  rest : { p' with
    toHeader := p.toHeader, baseAddress := p.baseAddress, arrayName := p.arrayName
    interrupts := p.interrupts } = p

section

variable {α : Type} [Dimensioned α]

/-- The elements stand in the place of `a` when it is expanded: the element itself or, for an array,
one instance for each of its tokens, of which the one with index `i` is moved by `i` steps. -/
inductive StandFor (IsInstance : String → Int → α → α → Prop) (a : α) : List α → Prop
  | single (plain : Dimensioned.dim a = none) : StandFor IsInstance a [a]
  | array {dim : Dimension} {tokens : List String} {as : List α}
      (repeated : Dimensioned.dim a = some dim) (named : dim.tokens = .ok tokens)
      (length : as.length = dim.length.toNat)
      (instances : List.Forall₂ (fun e a' => IsInstance e.1 (e.2 * dim.step) a a')
        tokens.zipIdx as) : StandFor IsInstance a as

/-- Each of the siblings is replaced, in order, by what stands in its place. -/
inductive Replaced (IsInstance : String → Int → α → α → Prop) : List α → List α → Prop
  | nil : Replaced IsInstance [] []
  | cons {a : α} {copies as bs : List α} (first : StandFor IsInstance a copies)
      (rest : Replaced IsInstance as bs) : Replaced IsInstance (a :: as) (copies ++ bs)

end

/-! ### Inside of elements -/

mutual

/-- The second siblings are what the first ones are expanded to. -/
inductive Member.Expands : List Member → List Member → Prop
  | intro {ms copies ms' : List Member} (here : Replaced Member.IsInstance ms copies)
      (inside : Member.ExpandsEach copies ms') : Expands ms ms'

/-- The second member is the first one with everything inside of it expanded. -/
inductive Member.ExpandsInside : Member → Member → Prop
  | register {r : Register} {fields : Option (List Field)}
      (inside : Option.Rel (Replaced Field.IsInstance) r.fields fields) :
      ExpandsInside (.register r) (.register { r with fields })
  | cluster {c : Cluster} {ms ms' : List Member} (inside : Member.Expands ms ms') :
      ExpandsInside (.cluster c ms) (.cluster c ms')

/-- The second members are the first ones with everything inside of them expanded. -/
inductive Member.ExpandsEach : List Member → List Member → Prop
  | nil : ExpandsEach [] []
  | cons {m m' : Member} {ms ms' : List Member} (first : Member.ExpandsInside m m')
      (rest : Member.ExpandsEach ms ms') : ExpandsEach (m :: ms) (m' :: ms')

end

/-- The second peripheral is the first one with everything inside of it expanded. -/
structure Peripheral.ExpandsInside (p p' : Peripheral) : Prop where
  members : Option.Rel Member.Expands p.members p'.members
  rest : { p' with members := p.members } = p

/-- The second device is what the first one is expanded to. -/
structure Device.ExpandsTo (d d' : Device) : Prop where
  peripherals : ∃ copies, Replaced Peripheral.IsInstance d.peripherals copies ∧
    List.Forall₂ Peripheral.ExpandsInside copies d'.peripherals
  rest : { d' with peripherals := d.peripherals } = d

/-! ### Instances are determined -/

theorem Header.isInstance_iff {h h' : Header} {i : Instance} :
    h.IsInstance i.token h' ↔ h' = h.instantiate i := by
  constructor
  · intro is
    obtain ⟨name, dim, alternate, rest⟩ := is
    rw [instantiate, ← name, ← alternate, ← dim, ← rest]
  · rintro rfl
    exact ⟨rfl, rfl, rfl, rfl⟩

theorem Field.isInstance_iff {f f' : Field} {i : Instance} :
    f.IsInstance i.token i.shift f' ↔ f' = Dimensioned.instantiate f i := by
  constructor
  · intro is
    obtain ⟨name, dim, bitRange, rest⟩ := is
    change f' = { f with
      name := instanceName f.name i.token, dim := none
      bitRange := f.bitRange.map fun b => { b with offset := b.offset + i.shift } }
    rw [← name, ← bitRange, ← dim, ← rest]
  · rintro rfl
    exact ⟨rfl, rfl, rfl, rfl⟩

theorem Member.isInstance_iff {m m' : Member} {i : Instance} :
    m.IsInstance i.token i.shift m' ↔ m' = Dimensioned.instantiate m i := by
  constructor
  · intro is
    cases is with
    | @register r r' header offset rest =>
        rw [Header.isInstance_iff] at header
        change Member.register r' = .register { r with
          toHeader := r.toHeader.instantiate i, offset := r.offset.map (· + i.shift) }
        rw [← header, ← offset, ← rest]
    | @cluster c c' ms header offset rest =>
        rw [Header.isInstance_iff] at header
        change Member.cluster c' ms = .cluster { c with
          toHeader := c.toHeader.instantiate i, offset := c.offset.map (· + i.shift) } ms
        rw [← header, ← offset, ← rest]
  · rintro rfl
    cases m with
    | register r => exact .register ⟨rfl, rfl, rfl, rfl⟩ rfl rfl
    | cluster c ms => exact .cluster ⟨rfl, rfl, rfl, rfl⟩ rfl rfl

theorem Peripheral.isInstance_iff {p p' : Peripheral} {i : Instance} :
    p.IsInstance i.token i.shift p' ↔ p' = Dimensioned.instantiate p i := by
  constructor
  · intro is
    obtain ⟨header, baseAddress, arrayName, interrupts, rest⟩ := is
    rw [Header.isInstance_iff] at header
    change p' = { p with
      toHeader := p.toHeader.instantiate i
      baseAddress := p.baseAddress.map (· + i.shift)
      arrayName := some p.name
      interrupts := p.interrupts.map ({ · with peripheral := instanceName p.name i.token }) }
    rw [← header, ← baseAddress, ← arrayName, ← interrupts, ← rest]
  · rintro rfl
    exact ⟨⟨rfl, rfl, rfl, rfl⟩, rfl, rfl, rfl, rfl⟩

section

variable {α : Type} [Dimensioned α] {IsInstance : String → Int → α → α → Prop} {a : α}
  {as bs : List α}

/-- The element is no array, or its index tokens are known. -/
def HasTokens (a : α) : Prop :=
  ∀ dim, Dimensioned.dim a = some dim → ∃ tokens, dim.tokens = .ok tokens

theorem hasTokens_of_copies {parent : NodePath} {is : List (Option Instance)}
    (h : copies parent a = .ok is) : HasTokens a := by
  intro dim hdim
  rw [copies, hdim] at h
  obtain ⟨tokens, htokens, -⟩ := bind_eq_ok_iff.1 h
  exact ⟨tokens, mapError_eq_ok_iff.1 htokens⟩

theorem replacements_eq_map {dim : Dimension} {tokens : List String}
    (repeated : Dimensioned.dim a = some dim) (named : dim.tokens = .ok tokens) :
    replacements a =
      tokens.zipIdx.map fun e => Dimensioned.instantiate a ⟨e.1, e.2 * dim.step⟩ := by
  rw [replacements, instances, repeated]
  dsimp only
  rw [named, List.map_map]
  rfl

variable (determined : ∀ (i : Instance) (a a' : α),
  IsInstance i.token i.shift a a' ↔ a' = Dimensioned.instantiate a i)
include determined

/-- If instances are determined, so is what stands in the place of an element. -/
theorem standFor_iff : StandFor IsInstance a bs ↔ HasTokens a ∧ bs = replacements a := by
  constructor
  · intro stand
    cases stand with
    | single plain =>
        refine ⟨fun dim repeated => ?_, (replacements_eq_singleton plain).symm⟩
        rw [plain] at repeated
        cases repeated
    | @array dim tokens _ repeated named length instances =>
        refine ⟨fun dim' repeated' => ?_, ?_⟩
        · obtain rfl := Option.some.inj (repeated.symm.trans repeated')
          exact ⟨tokens, named⟩
        · rw [replacements_eq_map repeated named]
          have hall := map_eq_map_of_forall₂ (g := id) instances fun e b hb =>
            ((determined ⟨e.1, e.2 * dim.step⟩ a b).1 hb).symm
          rw [hall, List.map_id]
  · rintro ⟨tokened, rfl⟩
    cases hdim : Dimensioned.dim a with
    | none =>
        rw [replacements_eq_singleton hdim]
        exact .single hdim
    | some dim =>
        obtain ⟨tokens, named⟩ := tokened dim hdim
        rw [replacements_eq_map hdim named]
        refine .array hdim named ?_ ?_
        · rw [List.length_map, List.length_zipIdx, Dimension.length_tokens named]
        · rw [List.forall₂_map_right_iff, List.forall₂_same]
          exact fun e _ => (determined ⟨e.1, e.2 * dim.step⟩ a _).2 rfl

theorem replaced_iff : Replaced IsInstance as bs ↔
    (∀ a ∈ as, HasTokens a) ∧ bs = as.flatMap replacements := by
  constructor
  · intro replaced
    induction replaced with
    | nil => exact ⟨nofun, rfl⟩
    | cons first rest ih =>
        obtain ⟨tokened, rfl⟩ := (standFor_iff determined).1 first
        obtain ⟨others, rfl⟩ := ih
        exact ⟨List.forall_mem_cons.2 ⟨tokened, others⟩, List.flatMap_cons.symm⟩
  · rintro ⟨tokened, rfl⟩
    induction as with
    | nil => exact .nil
    | cons a as ih =>
        rw [List.forall_mem_cons] at tokened
        rw [List.flatMap_cons]
        exact .cons ((standFor_iff determined).2 ⟨tokened.1, rfl⟩) (ih tokened.2)

end

/-- The siblings for which copies are found are replaced. -/
theorem copiesAll_replaces {α : Type} [Dimensioned α] {IsInstance : String → Int → α → α → Prop}
    (determined : ∀ (i : Instance) (a a' : α),
      IsInstance i.token i.shift a a' ↔ a' = Dimensioned.instantiate a i)
    {parent : NodePath} {taken : List String} {as : List α} {iss : List (List (Option Instance))}
    (h : copiesAll parent taken as = .ok iss) :
    Replaced IsInstance as (as.flatMap replacements) :=
  (replaced_iff determined).2
    ⟨fun a ha => hasTokens_of_copies ((copiesAll_eq_ok_iff.1 h).1 a ha), rfl⟩

/-! ### The expanded members -/

/-- An option that is related to another one by a function has the image of the latter. -/
theorem optionRel_eq_map {α β : Type} {R : α → β → Prop} {f : α → β}
    (h : ∀ a b, R a b → b = f a) {x : Option α} {y : Option β} (rel : Option.Rel R x y) :
    y = x.map f := by
  cases rel with
  | none => rfl
  | some hab => rw [h _ _ hab, Option.map_some]

namespace Member

theorem expanded_place (m : Member) (i : Option Instance) :
    (place m i).expanded = place m.expanded i := by
  cases i with
  | none => rfl
  | some i => cases m <;> rfl

/-- Members are expanded by replacing each of them and then expanding what is inside. -/
theorem expandedAll_eq_map (ms : List Member) :
    expandedAll ms = (ms.flatMap replacements).map expanded := by
  rw [expandedAll_eq_flatMap, List.map_flatMap]
  congr 1
  funext m
  rw [replacements, List.map_map]
  exact List.map_congr_left fun i _ => (expanded_place m i).symm

mutual

theorem Expands.eq {ms ms' : List Member} : Expands ms ms' → ms' = expandedAll ms
  | .intro here inside => by
      obtain ⟨-, rfl⟩ := (replaced_iff fun _ _ _ => isInstance_iff).1 here
      rw [inside.eq, expandedAll_eq_map]

theorem ExpandsInside.eq {m m' : Member} : ExpandsInside m m' → m' = m.expanded
  | .register inside => by
      rw [expanded, Register.expanded]
      have hfields := optionRel_eq_map (f := List.flatMap replacements) (fun _ _ h =>
        ((replaced_iff fun _ _ _ => Field.isInstance_iff).1 h).2) inside
      rw [hfields]
  | .cluster inside => by rw [inside.eq, expanded]

theorem ExpandsEach.eq {ms ms' : List Member} : ExpandsEach ms ms' → ms' = ms.map expanded
  | .nil => rfl
  | .cons first rest => by rw [first.eq, rest.eq, List.map_cons]

end

theorem ExpandsInside.place {m m' : Member} (h : ExpandsInside m m') (i : Option Instance) :
    ExpandsInside (place m i) (place m' i) := by
  cases i with
  | none => exact h
  | some i =>
      cases h with
      | register inside => exact .register inside
      | cluster inside => exact .cluster inside

theorem ExpandsEach.of_forall {ms : List Member} (h : ∀ m ∈ ms, ExpandsInside m m.expanded) :
    ExpandsEach ms (ms.map expanded) := by
  induction ms with
  | nil => exact .nil
  | cons m ms ih =>
      rw [List.forall_mem_cons] at h
      exact .cons h.1 (ih h.2)

/-- The names of the members inside of the member, and those of its fields, are distinct. -/
structure Distinct (m : Member) : Prop where
  members : (m.members.map name).Nodup
  fields : (m.fieldList.map (·.name)).Nodup

/-- Neither the member nor any of its fields is an array. -/
structure Plain (m : Member) : Prop where
  own : m.header.dim = none
  fields : ∀ f ∈ m.fieldList, f.dim = none

theorem Distinct.place {m : Member} (h : m.Distinct) (i : Instance) :
    (place m (some i)).Distinct := by
  cases m with
  | register r => exact ⟨h.members, h.fields⟩
  | cluster c ms => exact ⟨h.members, h.fields⟩

/-! ### Expansion succeeds -/

/-- What is known of a member in which everything has been expanded. -/
structure Opened (m m' : Member) : Prop where
  expands : m.ExpandsInside m'
  distinct : m'.Each Distinct

/-- Siblings that have copies, and in each of which everything is expanded, are expanded. -/
theorem expands_of_opened {path : NodePath} {ms : List Member}
    {iss : List (List (Option Instance))} (hcopies : copiesAll path [] ms = .ok iss)
    (opened : ∀ m ∈ ms, ∀ i ∈ instances m, Opened m m.expanded) :
    Expands ms (expandedAll ms) ∧ ((expandedAll ms).map name).Nodup ∧
      EachAll Distinct (expandedAll ms) := by
  refine ⟨?_, ?_, eachAll_iff.2 fun n hn => ?_⟩
  · rw [expandedAll_eq_map]
    refine .intro (copiesAll_replaces (fun _ _ _ => isInstance_iff) hcopies) (.of_forall ?_)
    intro n hn
    obtain ⟨m, hm, hn⟩ := List.mem_flatMap.1 hn
    obtain ⟨i, hi, rfl⟩ := List.mem_map.1 hn
    rw [expanded_place]
    exact (opened m hm i hi).expands.place i
  · have hnames := (copiesAll_eq_ok_iff.1 hcopies).2.1
    rw [expandedAll_eq_map, List.map_map]
    have hname : name ∘ expanded = Dimensioned.name := by
      funext m
      cases m <;> rfl
    rwa [hname]
  · obtain ⟨m, hm, i, hi, rfl⟩ := mem_expandedAll_iff.1 hn
    exact each_place (fun _ i h => h.place i) (opened m hm i hi).distinct i

mutual

theorem opened_of_expandInside (path : NodePath) :
    ∀ (m : Member) {m' : Member}, m.expandInside path = .ok m' → Opened m m'
  | .register r, m', h => by
      unfold expandInside at h
      split at h
      · next hnone =>
        cases h
        have hfields : r.fieldList = [] := by rw [Register.fieldList, hnone]; rfl
        have hinside : Option.Rel (Replaced Field.IsInstance) r.fields r.fields := by
          rw [hnone]
          exact .none
        refine ⟨.register hinside, ⟨List.nodup_nil, ?_⟩⟩
        change (r.fieldList.map _).Nodup
        rw [hfields]
        exact List.nodup_nil
      · next fs hfs =>
        obtain ⟨fs', hfs', h⟩ := bind_eq_ok_iff.1 h
        cases h
        rw [expandFields_eq_ok hfs']
        obtain ⟨iss, hiss, -⟩ := bind_eq_ok_iff.1 hfs'
        refine ⟨.register ?_, ⟨List.nodup_nil, (copiesAll_eq_ok_iff.1 hiss).2.1⟩⟩
        rw [hfs]
        exact .some (copiesAll_replaces (fun _ _ _ => Field.isInstance_iff) hiss)
  | .cluster c ms, m', h => by
      unfold expandInside at h
      obtain ⟨iss, hiss, h⟩ := bind_eq_ok_iff.1 h
      obtain ⟨ms', hms', h⟩ := bind_eq_ok_iff.1 h
      cases h
      obtain ⟨-, -, -, rfl⟩ := copiesAll_eq_ok_iff.1 hiss
      obtain rfl := expandInsideAll_eq_ok path ms hms'
      obtain ⟨hexpands, hnames, hdistinct⟩ :=
        expands_of_opened hiss (opened_of_expandInsideAll path ms hms')
      exact ⟨.cluster hexpands, ⟨⟨hnames, List.nodup_nil⟩, hdistinct⟩⟩

theorem opened_of_expandInsideAll (path : NodePath) :
    ∀ (ms : List Member) {ms' : List Member},
      expandInsideAll path (ms.map instances) ms = .ok ms' →
        ∀ m ∈ ms, ∀ i ∈ instances m, Opened m m.expanded
  | [], _, _ => nofun
  | m :: ms, ms', h => by
      obtain ⟨own, rest, hown, hrest, -⟩ := expandInsideAll_cons_eq_ok h
      refine List.forall_mem_cons.2 ⟨fun i hi => ?_, opened_of_expandInsideAll path ms hrest⟩
      obtain ⟨_, -, inside, hinside, -⟩ := exists_mem_right hown hi
      have hopened := opened_of_expandInside _ m hinside
      rwa [expandInside_eq_ok _ m hinside] at hopened

end

/-! ### No arrays are left -/

theorem dim_place {α : Type} [Dimensioned α] (single : ∀ (a : α) i,
      Dimensioned.dim (Dimensioned.instantiate a i) = none) {a : α} {i : Option Instance}
    (hi : i ∈ instances a) : Dimensioned.dim (place a i) = none := by
  cases i with
  | some i => exact single a i
  | none =>
      unfold instances at hi
      split at hi
      · next hnone => exact hnone
      · obtain ⟨_, -, h⟩ := List.mem_map.1 hi
        cases h

@[simp] theorem fieldList_place (m : Member) (i : Option Instance) :
    (place m i).fieldList = m.fieldList := by
  cases i with
  | none => rfl
  | some i => cases m <;> rfl

theorem plain_place (m : Member) {i : Option Instance} (hi : i ∈ instances m) :
    (place m.expanded i).Plain := by
  refine ⟨?_, fun f hf => ?_⟩
  · have hsame : instances m.expanded = instances m := by cases m <;> rfl
    exact dim_place (fun m i => by cases m <;> rfl) (hsame ▸ hi)
  · rw [fieldList_place] at hf
    cases m with
    | cluster c ms => cases hf
    | register r =>
        change f ∈ (r.fields.map (List.flatMap replacements)).getD [] at hf
        cases hfields : r.fields with
        | none =>
            rw [hfields] at hf
            cases hf
        | some fs =>
            rw [hfields] at hf
            obtain ⟨g, -, hf⟩ := List.mem_flatMap.1 hf
            obtain ⟨j, hj, rfl⟩ := List.mem_map.1 hf
            exact dim_place (fun _ _ => rfl) hj

mutual

theorem each_plain_place : ∀ (m : Member), ∀ i ∈ instances m, (place m.expanded i).Each Plain
  | .register r, i, hi => by
      refine each_iff.2 ⟨plain_place _ hi, ?_⟩
      cases i <;> trivial
  | .cluster c ms, i, hi => by
      refine each_iff.2 ⟨plain_place _ hi, ?_⟩
      cases i <;> exact eachAll_plain_expandedAll ms

theorem eachAll_plain_expandedAll : ∀ ms : List Member, EachAll Plain (expandedAll ms)
  | [] => trivial
  | m :: ms => by
      refine eachAll_iff.2 (List.forall_mem_append.2 ⟨List.forall_mem_map.2 ?_, ?_⟩)
      · exact each_plain_place m
      · exact eachAll_iff.1 (eachAll_plain_expandedAll ms)

end

end Member

/-! ### Devices -/

theorem Peripheral.ExpandsInside.eq {p p' : Peripheral} (h : p.ExpandsInside p') :
    p' = p.expanded := by
  have hmembers := optionRel_eq_map (fun _ _ h => Member.Expands.eq h) h.members
  calc
    p' = { ({ p' with members := p.members } : Peripheral) with members := p'.members } := rfl
    _ = { p with members := p'.members } := by rw [h.rest]
    _ = p.expanded := by rw [hmembers]; rfl

theorem Peripheral.opened_of_expandInside {path : NodePath} {p p' : Peripheral}
    (h : p.expandInside path = .ok p') :
    p.ExpandsInside p' ∧ p'.asMember.Each Member.Distinct := by
  unfold Peripheral.expandInside at h
  split at h
  · next hnone =>
    cases h
    have hempty : p.memberList = [] := by rw [memberList, hnone]; rfl
    refine ⟨⟨by rw [hnone]; exact .none, rfl⟩, ?_⟩
    rw [asMember, hempty]
    exact ⟨⟨List.nodup_nil, List.nodup_nil⟩, trivial⟩
  · next ms hms =>
    obtain ⟨ms', hms', h⟩ := bind_eq_ok_iff.1 h
    cases h
    obtain ⟨iss, hiss, hms'⟩ := bind_eq_ok_iff.1 hms'
    obtain ⟨-, -, -, rfl⟩ := copiesAll_eq_ok_iff.1 hiss
    obtain rfl := Member.expandInsideAll_eq_ok path ms hms'
    obtain ⟨hexpands, hnames, hdistinct⟩ :=
      Member.expands_of_opened hiss (Member.opened_of_expandInsideAll path ms hms')
    exact ⟨⟨by rw [hms]; exact .some hexpands, rfl⟩, ⟨⟨hnames, List.nodup_nil⟩, hdistinct⟩⟩

namespace Device

variable {d d' : Device}

/-- No element of the device, and no field of a register, is an array. -/
def Plain (d : Device) : Prop :=
  Member.EachAll Member.Plain d.elements

/-- The names of siblings are distinct: those of peripherals, those of the members of any peripheral
or cluster, and those of the fields of any register. -/
structure Distinct (d : Device) : Prop where
  peripherals : (d.peripherals.map (·.name)).Nodup
  members : Member.EachAll Member.Distinct d.elements

theorem ExpandsTo.eq (h : d.ExpandsTo d') :
    d' = { d with peripherals := d.peripherals.flatMap Peripheral.expansion } := by
  obtain ⟨copies, hcopies, hinside⟩ := h.peripherals
  obtain ⟨-, rfl⟩ := (replaced_iff fun _ _ _ => Peripheral.isInstance_iff).1 hcopies
  have hmap := map_eq_map_of_forall₂ (f := Peripheral.expanded) (g := id) hinside
    fun _ _ hp => hp.eq.symm
  have hperipherals : d'.peripherals = d.peripherals.flatMap Peripheral.expansion := by
    rw [List.map_id, List.map_flatMap] at hmap
    exact hmap.symm
  rw [← hperipherals]
  calc
    d' = { ({ d' with peripherals := d.peripherals } : Device) with
      peripherals := d'.peripherals } := rfl
    _ = { d with peripherals := d'.peripherals } := by rw [h.rest]

theorem plain_of_expand (h : d.expand.result = .ok d') : d'.Plain := by
  rw [Plain, elements_expand h]
  exact Member.eachAll_plain_expandedAll _

theorem distinct_of_expand (h : d.expand.result = .ok d') : d'.Distinct := by
  obtain ⟨hall, hnames, rfl⟩ := expand_eq_ok_iff.1 h
  refine ⟨hnames, Member.eachAll_iff.2 fun m hm => ?_⟩
  obtain ⟨p', hp', rfl⟩ := List.mem_map.1 hm
  obtain ⟨p, hp, hp'⟩ := List.mem_flatMap.1 hp'
  obtain ⟨q, hq, rfl⟩ := List.mem_map.1 hp'
  exact (Peripheral.opened_of_expandInside ((hall p hp).inside q hq)).2

end Device

end Draft

end RegisterMap
