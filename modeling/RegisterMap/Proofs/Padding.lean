import RegisterMap.Proofs.AlternateTexts
import RegisterMap.Proofs.Building
import RegisterMap.Proofs.Names
import RegisterMap.Proofs.Stages

/-!
# Blank space around names and references

`Element.tidied` takes the blank space away that surrounds the references of derivations and the
names of elements that have a path, and perhaps the references to alternates as well. Elements with
equal tidied forms differ by such blank space only (and in the lines on which they stand).

What is built from a tidied element agrees with what is built from the element itself, apart from
the references to alternates, which are built as they are written (`Draft.agrees_buildDevice`). A
name that is all blank makes the difference that one is refused as missing and the other one as part
of a path, so the two may fail in different ways.
-/

namespace RegisterMap

/-! ### Agreement -/

section Agreement

variable {ε α β γ : Type}

/-- The computations have the same results, but they may fail in different ways. -/
def Agrees (x y : Except ε α) : Prop :=
  ∀ a, x = .ok a ↔ y = .ok a

namespace Agrees

variable {x y : Except ε α}

theorem refl (x : Except ε α) : Agrees x x :=
  fun _ => Iff.rfl

theorem of_eq (h : x = y) : Agrees x y :=
  h ▸ refl x

theorem of_not_ok (hx : ∀ a, x ≠ .ok a) (hy : ∀ a, y ≠ .ok a) : Agrees x y :=
  fun a => iff_of_false (hx a) (hy a)

theorem bind {f g : α → Except ε β} (first : Agrees x y) (rest : ∀ a, Agrees (f a) (g a)) :
    Agrees (x >>= f) (y >>= g) := by
  intro b
  rw [bind_eq_ok_iff, bind_eq_ok_iff]
  exact exists_congr fun a => and_congr (first a) (rest a b)

theorem map (g : α → β) (h : Agrees x y) : Agrees (g <$> x) (g <$> y) := by
  intro b
  rw [map_eq_ok_iff, map_eq_ok_iff]
  exact exists_congr fun a => and_congr_left fun _ => h a

/-- The computations go on alike from a result and from the result changed. -/
theorem bind_map {g : γ → α} {z : Except ε γ} {f : α → Except ε β} {f' : γ → Except ε β}
    (first : Agrees x (g <$> z)) (rest : ∀ c, Agrees (f (g c)) (f' c)) :
    Agrees (x >>= f) (z >>= f') := by
  have hchanged : Agrees ((g <$> z) >>= f) (z >>= f') := by
    rw [bind_map_left]
    exact (refl z).bind rest
  exact fun b => ((first.bind fun _ => refl _) b).trans (hchanged b)

/-- A check in front of both computations makes no difference. -/
theorem error_or {c : Prop} [Decidable c] {e : ε} (h : Agrees x y) :
    Agrees (if c then .error e else x) (if c then .error e else y) := by
  by_cases hc : c
  · rw [if_pos hc, if_pos hc]
    exact refl _
  · rw [if_neg hc, if_neg hc]
    exact h

end Agrees

theorem map_error_or {c : Prop} [Decidable c] {e : ε} (g : α → β) (x : Except ε α) :
    g <$> (if c then .error e else x) = if c then .error e else g <$> x :=
  apply_ite ..

theorem Logged.result_map (g : α → β) (x : Logged α) : (g <$> x).result = g <$> x.result := by
  obtain ⟨events, result⟩ := x
  cases result <;> rfl

theorem Logged.result_throw_or {c : Prop} [Decidable c] {e : Error} {k : α → Logged β}
    {x : Logged β} : (if c then throw e >>= k else x).result =
      if c then .error e else x.result :=
  apply_ite ..

end Agreement

theorem mapM_congr {ε α β : Type} {f g : α → Except ε β} {as : List α}
    (h : ∀ a ∈ as, f a = g a) : as.mapM f = as.mapM g := by
  induction as with
  | nil => rfl
  | cons a as ih =>
      rw [List.forall_mem_cons] at h
      rw [List.mapM_cons, List.mapM_cons, h.1, ih h.2]

/-! ### Blank space -/

theorem Text.trim_trim (s : String) : trim (trim s) = trim s := by
  by_cases h : trim s = ""
  · rw [h]
    rfl
  · exact (tight_trim h).trim_eq

namespace Element

/-- The tags of the elements that have a name of their own in paths. -/
def pathTags : List String :=
  ["device", "peripheral", "cluster", "register", "field"]

/-- The tags of the elements that refer to alternates. -/
def alternateTags : List String :=
  ["alternatePeripheral", "alternateCluster", "alternateRegister"]

/-- The tags of the elements whose texts are trimmed: those of names, and perhaps those that refer to
alternates. -/
def paddedTags (alternates : Bool) : List String :=
  "name" :: if alternates then alternateTags else []

/-- The text of a reference to an alternate, trimmed if those texts are. -/
def tidyText (alternates : Bool) : String → String :=
  if alternates then Text.trim else id

/-- The element without blank space around its text. -/
def trimmed (e : Element) : Element :=
  { e with text := some (Text.trim e.content) }

/-- The attribute without blank space around its value, if it is the reference of a derivation. -/
def tidyAttribute (a : String × String) : String × String :=
  if a.1 = "derivedFrom" then (a.1, Text.trim a.2) else a

mutual

/-- The element without line numbers and without blank space around the references of derivations,
around the names of elements that have a path, and perhaps around their references to alternates. -/
def tidied (alternates : Bool) : Element → Element
  | ⟨tag, _, attributes, text, children⟩ =>
    ⟨tag, 0, attributes.map tidyAttribute, text,
      tidiedAll alternates (pathTags.contains tag) children⟩

/-- The elements tidied, inside of an element with a path or of another one. -/
def tidiedAll (alternates inPath : Bool) : List Element → List Element
  | [] => []
  | e :: es =>
    (if inPath && (paddedTags alternates).contains e.tag then (tidied alternates e).trimmed
      else tidied alternates e) :: tidiedAll alternates inPath es

end

/-- The element tidied, as a child of an element with the given tag. -/
def tidiedIn (alternates : Bool) (outer : String) (e : Element) : Element :=
  if pathTags.contains outer && (paddedTags alternates).contains e.tag then
    (e.tidied alternates).trimmed
  else e.tidied alternates

variable {alternates : Bool}

theorem not_mem_paddedTags {tag : String} (h : tag ∉ paddedTags true) :
    tag ∉ paddedTags alternates := by
  cases alternates with
  | true => exact h
  | false => exact fun hname => h (List.mem_singleton.1 hname ▸ List.mem_cons_self)

variable (alternates) (e : Element)

theorem tidied_eq : e.tidied alternates =
    { e with
      line := 0
      attributes := e.attributes.map tidyAttribute
      children := e.children.map (tidiedIn alternates e.tag) } := by
  have hall (inPath : Bool) (es : List Element) : tidiedAll alternates inPath es = es.map fun e =>
      if inPath && (paddedTags alternates).contains e.tag then (e.tidied alternates).trimmed
      else e.tidied alternates := by
    induction es with
    | nil => rfl
    | cons e es ih => rw [tidiedAll, ih, List.map_cons]
  cases e
  rw [tidied, hall]
  rfl

@[simp] theorem tag_tidied : (e.tidied alternates).tag = e.tag := by
  rw [tidied_eq]

@[simp] theorem text_tidied : (e.tidied alternates).text = e.text := by
  rw [tidied_eq]

@[simp] theorem content_tidied : (e.tidied alternates).content = e.content := by
  rw [content, text_tidied, content]

@[simp] theorem content_trimmed : e.trimmed.content = Text.trim e.content := rfl

@[simp] theorem tag_tidiedIn (outer : String) : (e.tidiedIn alternates outer).tag = e.tag := by
  unfold tidiedIn
  split
  · exact tag_tidied alternates e
  · exact tag_tidied alternates e

theorem tidiedIn_of_not_mem {outer : String} (h : e.tag ∉ paddedTags true) :
    e.tidiedIn alternates outer = e.tidied alternates := by
  simp [tidiedIn, not_mem_paddedTags h]

theorem children_tidied :
    (e.tidied alternates).children = e.children.map (tidiedIn alternates e.tag) := by
  rw [tidied_eq]

/-! ### Values -/

variable {tag : String}

theorem tag_of_child? {e c : Element} (h : e.child? tag = some c) : c.tag = tag := by
  simpa using List.find?_some h

theorem child?_tidied (tag : String) : (e.tidied alternates).child? tag =
    (e.child? tag).map (tidiedIn alternates e.tag) := by
  simp only [child?, children_tidied, List.find?_map, Function.comp_def, tag_tidiedIn]

/-- Children whose texts are not trimmed are tidied. -/
theorem child?_tidied_of_not_mem (h : tag ∉ paddedTags true) :
    (e.tidied alternates).child? tag = (e.child? tag).map (tidied alternates) := by
  rw [child?_tidied]
  cases hc : e.child? tag with
  | none => rfl
  | some c =>
      rw [Option.map_some, Option.map_some, tidiedIn_of_not_mem alternates c (tag_of_child? hc ▸ h)]

theorem childrenTagged_tidied (h : tag ∉ paddedTags true) :
    (e.tidied alternates).childrenTagged tag =
      (e.childrenTagged tag).map (tidied alternates) := by
  have hfilter : (e.tidied alternates).childrenTagged tag =
      (e.childrenTagged tag).map (tidiedIn alternates e.tag) := by
    simp only [childrenTagged, children_tidied, List.filter_map, Function.comp_def, tag_tidiedIn]
  rw [hfilter]
  refine List.map_congr_left fun c hc => ?_
  have htag : c.tag = tag := by simpa using List.of_mem_filter hc
  exact tidiedIn_of_not_mem alternates c (htag ▸ h)

/-- The text of a child is kept as it is unless its tag says that it is trimmed, and the element has
a path. -/
theorem string?_tidied_of_not_mem (h : tag ∉ paddedTags alternates ∨ e.tag ∉ pathTags) :
    (e.tidied alternates).string? tag = e.string? tag := by
  have hcontent (c : Element) (hc : e.child? tag = some c) :
      (c.tidiedIn alternates e.tag).content = c.content := by
    have hkeep : ¬ (pathTags.contains e.tag && (paddedTags alternates).contains c.tag) := by
      rw [tag_of_child? hc]
      rcases h with h | h <;> simp [h]
    rw [tidiedIn, if_neg hkeep, content_tidied]
  rw [string?, child?_tidied, string?]
  cases hc : e.child? tag with
  | none => rfl
  | some c => simp only [Option.map_some, hcontent c hc]

@[simp] theorem string?_tidied (h : tag ∉ paddedTags true) :
    (e.tidied alternates).string? tag = e.string? tag :=
  string?_tidied_of_not_mem alternates e (.inl (not_mem_paddedTags h))

/-- The text of a child is trimmed if its tag says so and the element has a path. -/
theorem string?_tidied_of_mem (h : tag ∈ paddedTags alternates) (he : e.tag ∈ pathTags) :
    (e.tidied alternates).string? tag = (e.string? tag).map Text.trim := by
  rw [string?, child?_tidied, string?]
  cases hc : e.child? tag with
  | none => rfl
  | some c =>
      have htrim : (pathTags.contains e.tag && (paddedTags alternates).contains c.tag) = true := by
        rw [tag_of_child? hc]
        simp [h, he]
      simp only [Option.map_some, tidiedIn, if_pos htrim, content_trimmed, content_tidied]

theorem string?_tidied_name (he : e.tag ∈ pathTags) :
    (e.tidied alternates).string? "name" = (e.string? "name").map Text.trim :=
  string?_tidied_of_mem alternates e List.mem_cons_self he

theorem string?_tidied_alternate (h : tag ∈ alternateTags) (he : e.tag ∈ pathTags) :
    (e.tidied alternates).string? tag = (e.string? tag).map (tidyText alternates) := by
  cases alternates with
  | true => exact string?_tidied_of_mem true e (List.mem_cons_of_mem _ h) he
  | false =>
      have hname : tag ∉ paddedTags false := by
        rw [paddedTags, if_neg Bool.false_ne_true, List.mem_singleton]
        rintro rfl
        exact absurd h (by decide)
      rw [string?_tidied_of_not_mem false e (.inl hname)]
      exact Option.map_id'.symm

theorem numberContent_tidied : (e.tidied alternates).numberContent = e.numberContent := by
  rw [numberContent, text_tidied, numberContent]

@[simp] theorem number?_tidied (h : tag ∉ paddedTags true) :
    (e.tidied alternates).number? tag = e.number? tag := by
  rw [number?, child?_tidied_of_not_mem alternates e h, number?]
  cases e.child? tag with
  | none => rfl
  | some c => simp only [Option.map_some, numberContent_tidied]

@[simp] theorem word?_tidied {α : Type} [Vocabulary α] (h : tag ∉ paddedTags true) :
    (e.tidied alternates).word? tag = e.word? (α := α) tag := by
  rw [word?, child?_tidied_of_not_mem alternates e h, word?]
  cases e.child? tag with
  | none => rfl
  | some c => simp only [Option.map_some, text_tidied]

/-- References of derivations are read without the blank space around them. -/
@[simp] theorem derivedFrom?_tidied : (e.tidied alternates).derivedFrom? = e.derivedFrom? := by
  have hattribute (as : List (String × String)) :
      ((as.map tidyAttribute).lookup "derivedFrom").map Text.trim =
        (as.lookup "derivedFrom").map Text.trim := by
    induction as with
    | nil => rfl
    | cons a as ih =>
        obtain ⟨name, value⟩ := a
        by_cases hname : name = "derivedFrom"
        · subst hname
          simp [tidyAttribute, Text.trim_trim]
        · have hne : ("derivedFrom" == name) = false := beq_eq_false_iff_ne.2 (Ne.symm hname)
          simp only [List.map_cons, tidyAttribute, hname, if_false, List.lookup_cons, hne, ih]
  rw [derivedFrom?, attribute?, tidied_eq]
  exact hattribute e.attributes

@[simp] theorem properties_tidied : (e.tidied alternates).properties = e.properties := by
  simp [properties, paddedTags, alternateTags]

@[simp] theorem bitRange?_tidied : (e.tidied alternates).bitRange? = e.bitRange? := by
  simp [bitRange?, paddedTags, alternateTags]

theorem tag_of_mem_peripherals {root e : Element} (h : e ∈ root.peripherals) :
    e.tag = "peripheral" := by
  unfold peripherals at h
  cases hchild : root.child? "peripherals" with
  | none =>
      rw [hchild] at h
      cases h
  | some ps =>
      rw [hchild] at h
      simpa using List.of_mem_filter h

theorem peripherals_tidied (root : Element) :
    (root.tidied alternates).peripherals = root.peripherals.map (tidied alternates) := by
  unfold peripherals
  rw [child?_tidied_of_not_mem alternates root (by decide)]
  cases root.child? "peripherals" with
  | none => rfl
  | some ps => exact childrenTagged_tidied alternates ps (by decide)

end Element

namespace Draft

open Element

variable (alternates : Bool) (parent : NodePath) (e : Element)

/-! ### Names -/

/-- A name is read without the blank space around it, if it can be entered. -/
theorem requiredName_tidied (h : e.tag ∈ pathTags) (kind : ElementKind) {name : String}
    {path : NodePath} (entered : pathOf parent name = .ok path) :
    requiredName parent kind (e.tidied alternates) = .ok name ↔
      requiredName parent kind e = .ok name := by
  have hne : name ≠ "" := by
    rintro rfl
    exact whole_of_pathOf entered (List.mem_singleton_self "")
  -- What is read from a text is the text trimmed, and nothing is read from an empty one.
  have hread (given : String) : (if given.isEmpty then faultAt parent (.unnamed kind)
      else .ok (Text.trim given)) = Except.ok name ↔ Text.trim given = name := by
    by_cases hgiven : given = ""
    · subst hgiven
      refine iff_of_false (fun h => by cases h) ?_
      rintro rfl
      exact hne rfl
    · rw [if_neg (mt String.isEmpty_iff.1 hgiven), Except.ok.injEq]
  unfold requiredName
  rw [string?_tidied_name alternates e h]
  cases e.string? "name" with
  | none => rfl
  | some given =>
      rw [Option.map_some]
      dsimp only
      rw [hread, hread, Text.trim_trim]

variable {parent : NodePath} {e : Element}

/-- Whatever depends on a name and the path that it gives agrees, if it agrees for each name. -/
theorem agrees_named {α : Type} (h : e.tag ∈ pathTags) (kind : ElementKind)
    {f g : String → NodePath → Except Error α}
    (rest : ∀ name path, Agrees (f name path) (g name path)) :
    Agrees (requiredName parent kind (e.tidied alternates) >>= fun name =>
        pathOf parent name >>= f name)
      (requiredName parent kind e >>= fun name => pathOf parent name >>= g name) := by
  intro a
  simp only [bind_eq_ok_iff]
  refine exists_congr fun name => ?_
  constructor
  · rintro ⟨hname, path, hpath, hf⟩
    exact ⟨(requiredName_tidied alternates parent e h kind hpath).1 hname, path, hpath,
      (rest name path a).1 hf⟩
  · rintro ⟨hname, path, hpath, hg⟩
    exact ⟨(requiredName_tidied alternates parent e h kind hpath).2 hname, path, hpath,
      (rest name path a).2 hg⟩

/-! ### Parts of elements -/

@[simp] theorem description_tidied : description (e.tidied alternates) = description e := by
  simp [description, paddedTags, alternateTags]

@[simp] theorem dimension_tidied (path : NodePath) :
    dimension path (e.tidied alternates) = dimension path e := by
  simp [dimension, paddedTags, alternateTags]

/-- The names of enumerated values have no part in paths. -/
theorem buildEnums_tidied (path : NodePath) (built : List (String × Int)) {es : List Element}
    (tags : ∀ e ∈ es, e.tag = "enumeratedValue") :
    buildEnums path built (es.map (tidied alternates)) = buildEnums path built es := by
  induction es generalizing built with
  | nil => rfl
  | cons e es ih =>
      rw [List.forall_mem_cons] at tags
      have hname : (e.tidied alternates).string? "name" = e.string? "name" :=
        string?_tidied_of_not_mem alternates e (.inr (by rw [tags.1]; decide))
      have hvalue : (e.tidied alternates).string? "value" = e.string? "value" :=
        string?_tidied alternates e (by decide)
      have hnumber : (e.tidied alternates).number? "value" = e.number? "value" :=
        number?_tidied alternates e (by decide)
      have hrest (built : List (String × Int)) := ih built tags.2
      simp only [List.map_cons, buildEnums, hname, hvalue, hnumber, hrest]

theorem buildAddressBlock_tidied (path : NodePath) (e : Element) :
    buildAddressBlock path (e.tidied alternates) = buildAddressBlock path e := by
  simp [buildAddressBlock, paddedTags, alternateTags]

/-- The names of interrupts have no part in paths. -/
theorem buildInterrupt_tidied (path : NodePath) (peripheral : String) {e : Element}
    (h : e.tag = "interrupt") :
    buildInterrupt path peripheral (e.tidied alternates) = buildInterrupt path peripheral e := by
  have hname : (e.tidied alternates).string? "name" = e.string? "name" :=
    string?_tidied_of_not_mem alternates e (.inr (by rw [h]; decide))
  simp [buildInterrupt, hname, paddedTags, alternateTags]

/-! ### Registers -/

theorem agrees_buildField (h : e.tag ∈ pathTags) :
    Agrees (buildField parent (e.tidied alternates)).result (buildField parent e).result := by
  have hvalues := child?_tidied_of_not_mem alternates e
    (show "enumeratedValues" ∉ paddedTags true by decide)
  unfold buildField
  simp only [Logged.result_bind]
  refine agrees_named alternates h .field fun name path => .of_eq ?_
  cases hchild : e.child? "enumeratedValues" with
  | none =>
      rw [hchild, Option.map_none] at hvalues
      simp [hvalues, buildBitRange, paddedTags, alternateTags]
  | some values =>
      have htagged : ∀ v ∈ values.childrenTagged "enumeratedValue", v.tag = "enumeratedValue" := by
        intro v hv
        simpa using List.of_mem_filter hv
      have henums := buildEnums_tidied alternates path [] htagged
      rw [hchild, Option.map_some] at hvalues
      rw [← childrenTagged_tidied alternates values (by decide)] at henums
      simp [hvalues, buildBitRange, henums, paddedTags, alternateTags]

theorem agrees_buildFields (built : List Field) {es : List Element}
    (h : ∀ e ∈ es, e.tag ∈ pathTags) :
    Agrees (buildFields parent built (es.map (tidied alternates))).result
      (buildFields parent built es).result := by
  induction es generalizing built with
  | nil => exact .refl _
  | cons e es ih =>
      rw [List.forall_mem_cons] at h
      simp only [List.map_cons, buildFields, Logged.result_bind, Logged.result_throw_or]
      exact (agrees_buildField alternates h.1).bind fun field => .error_or (ih _ h.2)

theorem agrees_buildRegister (h : e.tag ∈ pathTags) :
    Agrees (buildRegister parent (e.tidied alternates)).result
      (Register.mapAlternate (tidyText alternates) <$> (buildRegister parent e).result) := by
  have hfields := child?_tidied_of_not_mem alternates e
    (show "fields" ∉ paddedTags true by decide)
  have hoffset := number?_tidied alternates e (show "addressOffset" ∉ paddedTags true by decide)
  have halternate := string?_tidied_alternate alternates e
    (show "alternateRegister" ∈ alternateTags by decide) h
  unfold buildRegister
  simp only [Logged.result_bind, Logged.result_throw_or, map_bind, map_error_or]
  refine agrees_named alternates h .register fun name path => ?_
  simp only [hfields, hoffset, halternate, derivedFrom?_tidied, properties_tidied,
    dimension_tidied, description_tidied]
  refine (Agrees.refl _).bind fun offset => .error_or ?_
  cases hchild : e.child? "fields" with
  | none =>
      simp only [Option.map_none, Logged.result_bind, map_bind]
      exact .refl _
  | some fields =>
      have htagged : ∀ f ∈ fields.childrenTagged "field", f.tag ∈ pathTags := by
        intro f hf
        have htag : f.tag = "field" := by simpa using List.of_mem_filter hf
        rw [htag]
        decide
      have hbuilt := @agrees_buildFields alternates path [] _ htagged
      rw [← childrenTagged_tidied alternates fields (by decide)] at hbuilt
      simp only [Option.map_some, Logged.result_bind, Logged.result_map, map_bind]
      exact (hbuilt.map some).bind fun fields => .refl _

/-! ### Members -/

theorem agrees_buildClusterHead (h : e.tag ∈ pathTags) :
    Agrees (buildClusterHead parent (e.tidied alternates))
      (Cluster.mapAlternate (tidyText alternates) <$> buildClusterHead parent e) := by
  have hoffset := number?_tidied alternates e (show "addressOffset" ∉ paddedTags true by decide)
  have halternate := string?_tidied_alternate alternates e
    (show "alternateCluster" ∈ alternateTags by decide) h
  unfold buildClusterHead
  simp only [map_bind]
  refine agrees_named alternates h .cluster fun name path => .of_eq ?_
  simp only [hoffset, halternate, derivedFrom?_tidied, properties_tidied, dimension_tidied,
    description_tidied]
  split
  · rfl
  · simp only [map_bind]
    rfl

/-- Only texts of names and alternates are trimmed, and those are no members. -/
theorem buildMember_tidiedIn (parent : NodePath) (e : Element) (outer : String) :
    buildMember parent (e.tidiedIn alternates outer) =
      buildMember parent (e.tidied alternates) := by
  by_cases h : e.tag ∈ paddedTags true
  · have hother (e : Element) (h : e.tag ∈ paddedTags true) : buildMember parent e = pure none := by
      cases e
      simp only [paddedTags, if_true, alternateTags, List.mem_cons, List.not_mem_nil, or_false] at h
      rcases h with rfl | rfl | rfl | rfl <;> rfl
    rw [hother _ (by rwa [tag_tidiedIn]), hother _ (by rwa [tag_tidied])]
  · rw [tidiedIn_of_not_mem alternates e h]

mutual

theorem agrees_buildMember (parent : NodePath) : ∀ e : Element,
    Agrees (buildMember parent (e.tidied alternates)).result
      (Option.map (Member.mapAlternates (tidyText alternates)) <$> (buildMember parent e).result)
  | ⟨tag, line, attributes, text, children⟩ => by
      have hregister (h : tag = "register") := @agrees_buildRegister alternates parent
        ⟨tag, line, attributes, text, children⟩ (by simp [h, pathTags])
      have hcluster (h : tag = "cluster") := @agrees_buildClusterHead alternates parent
        ⟨tag, line, attributes, text, children⟩ (by simp [h, pathTags])
      have hmembers (path : NodePath) := agrees_buildMembers path [] tag children
      rw [tidied_eq] at hregister hcluster ⊢
      unfold buildMember
      dsimp only
      split
      · simp only [Logged.result_bind, map_bind]
        exact (hregister rfl).bind_map fun r => .refl _
      · simp only [Logged.result_bind, map_bind]
        exact (hcluster rfl).bind_map fun c => (hmembers _).bind_map fun ms => .refl _
      · exact .refl _

theorem agrees_buildMembers (parent : NodePath) (built : List Member) (outer : String) :
    ∀ es : List Element, Agrees
      (buildMembers parent (Member.mapAlternatesAll (tidyText alternates) built)
        (es.map (tidiedIn alternates outer))).result
      (Member.mapAlternatesAll (tidyText alternates) <$> (buildMembers parent built es).result)
  | [] => .refl _
  | e :: es => by
      have hrest (built : List Member) := agrees_buildMembers parent built outer es
      have hfirst := agrees_buildMember parent e
      rw [← buildMember_tidiedIn alternates parent e outer] at hfirst
      simp only [List.map_cons, buildMembers, Logged.result_bind, map_bind]
      refine hfirst.bind_map fun found => ?_
      cases found with
      | none => exact hrest built
      | some m =>
          have hbuilt : Member.mapAlternatesAll (tidyText alternates) built ++
              [m.mapAlternates (tidyText alternates)] =
                Member.mapAlternatesAll (tidyText alternates) (built ++ [m]) := by
            simp only [Member.mapAlternatesAll_eq_map, List.map_append, List.map_singleton]
          simp only [Option.map_some, Logged.result_throw_or, map_error_or, hbuilt,
            Member.names_mapAlternatesAll, Member.name_mapAlternates]
          exact .error_or (hrest _)

end

/-! ### Peripherals -/

theorem agrees_buildPeripheral (h : e.tag ∈ pathTags) :
    Agrees (buildPeripheral parent (e.tidied alternates)).result
      (Peripheral.mapAlternates (tidyText alternates) <$> (buildPeripheral parent e).result) := by
  have hblocks (path : NodePath) : ((e.tidied alternates).childrenTagged "addressBlock").mapM
      (buildAddressBlock path) = (e.childrenTagged "addressBlock").mapM
        (buildAddressBlock path) := by
    rw [childrenTagged_tidied alternates e (by decide), List.mapM_map]
    exact mapM_congr fun a _ => buildAddressBlock_tidied alternates path a
  have hinterrupts (path : NodePath) (name : String) :
      ((e.tidied alternates).childrenTagged "interrupt").mapM (buildInterrupt path name) =
        (e.childrenTagged "interrupt").mapM (buildInterrupt path name) := by
    rw [childrenTagged_tidied alternates e (by decide), List.mapM_map]
    exact mapM_congr fun i hi =>
      buildInterrupt_tidied alternates path name (by simpa using List.of_mem_filter hi)
  have hregisters := child?_tidied_of_not_mem alternates e
    (show "registers" ∉ paddedTags true by decide)
  have hbase := number?_tidied alternates e (show "baseAddress" ∉ paddedTags true by decide)
  have hgroup := string?_tidied alternates e (show "groupName" ∉ paddedTags true by decide)
  have hversion := string?_tidied alternates e (show "version" ∉ paddedTags true by decide)
  have halternate := string?_tidied_alternate alternates e
    (show "alternatePeripheral" ∈ alternateTags by decide) h
  unfold buildPeripheral
  simp only [Logged.result_bind, Logged.result_throw_or, map_bind, map_error_or]
  refine agrees_named alternates h .peripheral fun name path => ?_
  simp only [hblocks, hinterrupts, hregisters, hbase, halternate, hgroup, hversion,
    derivedFrom?_tidied, properties_tidied, dimension_tidied, description_tidied]
  refine (Agrees.refl _).bind fun base => .error_or ?_
  refine (Agrees.refl _).bind fun blocks => (Agrees.refl _).bind fun interrupts => ?_
  cases hchild : e.child? "registers" with
  | none =>
      simp only [Option.map_none, Logged.result_bind, map_bind]
      exact .refl _
  | some registers =>
      have hmembers := agrees_buildMembers alternates path [] registers.tag registers.children
      rw [← children_tidied] at hmembers
      simp only [Option.map_some, Logged.result_bind, Logged.result_map, bind_map_left, map_bind]
      exact hmembers.bind_map fun ms => .refl _

theorem agrees_buildPeripherals (built : List Peripheral) {es : List Element}
    (h : ∀ e ∈ es, e.tag ∈ pathTags) :
    Agrees (buildPeripherals parent
        (built.map (Peripheral.mapAlternates (tidyText alternates)))
        (es.map (tidied alternates))).result
      (List.map (Peripheral.mapAlternates (tidyText alternates)) <$>
        (buildPeripherals parent built es).result) := by
  induction es generalizing built with
  | nil => exact .refl _
  | cons e es ih =>
      rw [List.forall_mem_cons] at h
      have hnames : (built.map (Peripheral.mapAlternates (tidyText alternates))).map (·.name) =
          built.map (·.name) := by
        rw [List.map_map]
        rfl
      simp only [List.map_cons, buildPeripherals, Logged.result_bind, map_bind]
      refine (agrees_buildPeripheral alternates h.1).bind_map fun p => ?_
      simp only [Logged.result_throw_or, map_error_or, hnames, Peripheral.name_mapAlternates]
      have hrest := ih (built ++ [p]) h.2
      rw [List.map_append, List.map_singleton] at hrest
      exact .error_or hrest

/-! ### Devices -/

theorem agrees_buildDeviceHead (h : e.tag ∈ pathTags) :
    Agrees (buildDeviceHead (e.tidied alternates)) (buildDeviceHead e) := by
  have hversion := string?_tidied alternates e (show "version" ∉ paddedTags true by decide)
  have hvendor := string?_tidied alternates e (show "vendor" ∉ paddedTags true by decide)
  have hunit := number?_tidied alternates e (show "addressUnitBits" ∉ paddedTags true by decide)
  have hwidth := number?_tidied alternates e (show "width" ∉ paddedTags true by decide)
  have hname := string?_tidied_name alternates e h
  unfold buildDeviceHead
  simp only [hname, hversion, hvendor, hunit, hwidth, properties_tidied, description_tidied]
  cases e.string? "name" with
  | none => exact .refl _
  | some name =>
      simp only [Option.map_some, Option.getD_some, Text.trim_trim, Option.all_some]
      by_cases hblank : Text.trim name = ""
      · -- The empty name is refused in one case, and the empty path in the other.
        rw [hblank]
        refine .of_not_ok (fun d hd => ?_) fun d hd => ?_
        · cases hd
        · split at hd
          · cases hd
          · cases hd
      · have hne : name ≠ "" := by
          rintro rfl
          exact hblank rfl
        rw [if_neg (mt String.isEmpty_iff.1 hblank), if_neg (mt String.isEmpty_iff.1 hne)]
        exact .refl _

/-- What is built from the root element of a document agrees if names and the references of
derivations are trimmed. References to alternates are built as they are written, so they are trimmed
if and only if their texts are. -/
theorem agrees_buildDevice (root : Element) :
    Agrees (buildDevice (root.tidied alternates)).result
      (Device.mapAlternates (tidyText alternates) <$> (buildDevice root).result) := by
  unfold buildDevice
  rw [tag_tidied]
  simp only [Logged.result_throw_or, map_error_or]
  by_cases h : root.tag = "device"
  · have htag : root.tag ∈ pathTags := by
      rw [h]
      decide
    have hpath : ∀ e ∈ root.peripherals, e.tag ∈ pathTags := by
      intro e he
      rw [tag_of_mem_peripherals he]
      decide
    refine .error_or ?_
    simp only [Logged.result_bind, map_bind]
    refine (agrees_buildDeviceHead alternates htag).bind fun head => ?_
    have hps := @agrees_buildPeripherals alternates head.path [] _ hpath
    rw [← peripherals_tidied] at hps
    refine hps.bind_map fun ps => .of_eq ?_
    have hdefaults : (ps.map (Peripheral.mapAlternates (tidyText alternates))).map
        (Peripheral.withDefaults head.props) =
          (ps.map (Peripheral.withDefaults head.props)).map
            (Peripheral.mapAlternates (tidyText alternates)) := by
      rw [List.map_map, List.map_map]
      exact congrArg (List.map · ps) (funext
        (Peripheral.withDefaults_mapAlternates (tidyText alternates) head.props))
    exact congrArg (fun ps => Except.ok { head with peripherals := ps }) hdefaults
  · rw [if_pos h, if_pos h]
    exact .refl _

end Draft

end RegisterMap
