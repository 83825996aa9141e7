import RegisterMap.Proofs.Parts
import RegisterMap.Proofs.Paths
import RegisterMap.Schema.Class

/-!
# What building a draft reports

Callers are told of a faulty document by the errors for which `Error.Reported` holds. Building a
draft fails with another error in two situations only: a name with an empty part makes no path, and
an element that should contain a number has no text (`Draft.Escapes`).
-/

namespace RegisterMap

/-- The error is one that callers are told of: each has a place, or says that the document is not
well formed. -/
inductive Error.Reported : Error → Prop
  | document : Reported .document
  | schema (path : Option NodePath) (fault : SchemaFault) : Reported (.schema path fault)
  | dimension (path : Option NodePath) (fault : DimensionFault) : Reported (.dimension path fault)
  | missingReference (path : NodePath) (reference : String) (relation : Relation) :
      Reported (.missingReference path reference relation)
  | cycle (paths : List NodePath) : Reported (.cycle paths)
  | overlap (overlap : Overlap) : Reported (.overlap overlap)

namespace Element

/-- An element of the document gives the name. -/
def Declares (root : Element) (name : String) : Prop :=
  ∃ e : Element, e.Within root ∧ (e.string? "name").map Text.trim = some name

/-- An element of the document that should contain a number has no text. -/
def HasBlankNumber (root : Element) : Prop :=
  ∃ e : Element, e.Within root ∧ e.elementClass = .number ∧ e.text = none

end Element

namespace Draft

/-- The reasons for which a run may fail with an error that callers are not told of. -/
inductive Escapes (config : Config) (root : Element) : Error → Prop
  /-- A name in the document has an empty part. -/
  | name {name : String} (declared : root.Declares name) (blank : "" ∈ NodePath.split name)
      (args : List NodePath.Argument) : Escapes config root (.malformed (.path args))
  /-- The name of an instance of an array has an empty part. -/
  | instanceName {name token : String} (declared : root.Declares name)
      (blank : "" ∈ NodePath.split (instanceName name token)) (args : List NodePath.Argument) :
      Escapes config root (.malformed (.path args))
  /-- An element that should contain a number has no text. -/
  | number (blank : root.HasBlankNumber) : Escapes config root .blankNumber
  /-- The addresses of an element cannot be counted. -/
  | length {d : Device} (linked : Reaches config root .linked d) {extents : List Extent}
      (group : extents ∈ d.placeAll.extentGroups) {x : Extent} (mem : x ∈ extents)
      (long : AddressRange.maxLength < x.range.length) : Escapes config root .rangeTooLong

/-- Callers are told of the error, or there is a reason for which they are not. -/
def Explained (config : Config) (root : Element) (e : Error) : Prop :=
  e.Reported ∨ Escapes config root e

/-- The error is explained, and it is about one element or one reference: it does not say that two
elements share an address. -/
structure Elementary (config : Config) (root : Element) (e : Error) : Prop where
  explained : Explained config root e
  clear : ∀ o, e ≠ .overlap o

variable {config : Config} {root : Element}

theorem elementary_schema (path : Option NodePath) (fault : SchemaFault) :
    Elementary config root (.schema path fault) :=
  ⟨.inl (.schema path fault), nofun⟩

theorem elementary_faultAt {α : Type} (path : NodePath) (fault : SchemaFault) :
    FailsWith (Elementary config root) (faultAt path fault : Except Error α) :=
  .of_error (elementary_schema (some path) fault)

/-! ### Values -/

/-- The fault is a blank number only if the document has one. -/
def FoundIn (root : Element) (fault : ReadFault) : Prop :=
  fault = .blank → root.HasBlankNumber

theorem foundIn_malformed (cause : Malformed) : FoundIn root (.malformed cause) :=
  nofun

section

variable {e : Element} (within : e.Within root)
include within

theorem foundIn_number? {tag : String} (numeric : ElementClass.ofTag tag = .number) :
    FailsWith (FoundIn root) (e.number? tag) := by
  unfold Element.number?
  split
  · next c hc =>
    refine .map ?_
    unfold Element.numberContent
    split
    · exact .mapError fun _ _ => foundIn_malformed _
    · next hblank =>
      have htag : c.tag = tag := by simpa using List.find?_some hc
      have hnumber : c.elementClass = .number := by
        rw [Element.elementClass, htag, numeric]
      exact .of_error fun _ => ⟨c, within.of_child? hc, hnumber, hblank⟩
  · exact .of_ok

omit within in
theorem foundIn_word? {α : Type} [Vocabulary α] (tag : String) :
    FailsWith (FoundIn root) (e.word? tag : Except ReadFault (Option α)) := by
  unfold Element.word?
  split
  · exact .mapError fun _ _ => foundIn_malformed _
  · exact .of_ok

theorem foundIn_properties : FailsWith (FoundIn root) e.properties := by
  refine .bind (foundIn_number? within rfl) fun _ _ => ?_
  refine .bind (foundIn_word? _) fun _ _ => .bind (foundIn_word? _) fun _ _ => ?_
  refine .bind (foundIn_number? within rfl) fun _ _ => ?_
  exact .bind (foundIn_number? within rfl) fun _ _ => .of_ok

theorem foundIn_bitRange? : FailsWith (FoundIn root) e.bitRange? := by
  unfold Element.bitRange?
  refine .bind (foundIn_number? within rfl) fun lsb _ => ?_
  rcases lsb with _ | lsb
  on_goal 2 =>
    refine .bind (foundIn_number? within rfl) fun msb _ => ?_
    rcases msb with _ | msb
    on_goal 2 => exact .of_ok
  -- The other styles are read if there is no lowest bit, and if there is no highest one.
  all_goals
    refine .bind (foundIn_number? within rfl) fun offset _ => ?_
    rcases offset with _ | offset
    · dsimp only
      split
      · exact .mapError fun _ _ => foundIn_malformed _
      · exact .of_ok
    · exact .bind (foundIn_number? within rfl) fun _ _ => .of_ok

end

theorem elementary_readAt {α : Type} {x : Except ReadFault α} (h : FailsWith (FoundIn root) x)
    (path : Option NodePath) : FailsWith (Elementary config root) (readAt path x) := by
  refine .mapError fun fault hfault => ?_
  cases fault with
  | malformed cause => exact elementary_schema path (.malformed cause)
  | blank => exact ⟨.inr (.number (h .blank hfault rfl)), nofun⟩

theorem elementary_require {α : Type} (path : NodePath) (fault : SchemaFault) (x : Option α) :
    FailsWith (Elementary config root) (require path fault x) := by
  cases x with
  | none => exact elementary_faultAt path fault
  | some a => exact .of_ok

/-! ### Names and paths -/

theorem elementary_requiredName (parent : NodePath) (kind : ElementKind) (e : Element) :
    FailsWith (Elementary config root) (requiredName parent kind e) := by
  unfold requiredName
  split
  · exact .ite (fun _ => elementary_faultAt parent _) fun _ => .of_ok
  · exact elementary_faultAt parent _

variable {parent path : NodePath} {e : Element} {name : String}

theorem declares_of_requiredName {kind : ElementKind} (within : e.Within root)
    (h : requiredName parent kind e = .ok name) : root.Declares name :=
  ⟨e, within, given_of_requiredName h⟩

theorem elementary_pathOf (usable : parent.Usable) (declared : root.Declares name) :
    FailsWith (Elementary config root) (pathOf parent name) := by
  refine .mapError ?_
  rw [usable.enter_eq]
  exact .ite (fun hblank => .of_error ⟨.inr (.name declared hblank _), nofun⟩) fun _ => .of_ok

theorem whole_of_pathOf (h : pathOf parent name = .ok path) : "" ∉ NodePath.split name :=
  NodePath.whole_of_enter (mapError_eq_ok_iff.1 h)

theorem usable_of_pathOf (usable : parent.Usable) (h : pathOf parent name = .ok path) :
    path.Usable := by
  have hpath := mapError_eq_ok_iff.1 h
  rw [usable.enter_eq, if_neg (whole_of_pathOf h)] at hpath
  cases hpath
  exact usable.child (whole_of_pathOf h)

/-- The name is given in the document, and it has no empty part. -/
def NamedIn (root : Element) (name : String) : Prop :=
  root.Declares name ∧ "" ∉ NodePath.split name

/-- A document supplies names that it gives itself. All of them have made a path, except for those
of fields of a draft, which may come to stand below other names. -/
theorem supplies_names (root : Element) :
    Supplies root (NamedIn root) fun f => root.Declares f.name where
  name _ within _ _ _ _ hname hpath :=
    ⟨declares_of_requiredName within hname, whole_of_pathOf hpath⟩
  field e within _ parent := by
    unfold buildField
    refine .bind (.of_ofExcept fun _ => declares_of_requiredName within) fun name hname => ?_
    refine .bind_of_forall fun path => .throw_or fun _ => .bind_of_forall fun range => ?_
    cases e.child? "enumeratedValues" with
    | none =>
        exact .bind_of_forall fun _ => .bind_of_forall fun _ => .bind_of_forall fun _ =>
          .of_pure hname
    | some values =>
        exact .bind_of_forall fun _ => .bind_of_forall fun _ => .bind_of_forall fun _ =>
          .of_pure hname

/-! ### Fields and registers -/

theorem elementary_dimension (within : e.Within root) (path : NodePath) :
    FailsWith (Elementary config root) (dimension path e) := by
  refine .bind (elementary_readAt (foundIn_number? within rfl) _) fun length _ => ?_
  refine .bind (elementary_readAt (foundIn_number? within rfl) _) fun step _ => ?_
  cases length with
  | none =>
      cases step with
      | none => exact .of_ok
      | some step => exact elementary_faultAt path _
  | some length =>
      cases step with
      | none => exact elementary_faultAt path _
      | some step =>
          exact .check (fun _ => elementary_schema _ _) fun _ => .of_ok

theorem elementary_buildEnums (path : NodePath) (built : List (String × Int)) (es : List Element)
    (within : ∀ e ∈ es, e.Within root) :
    FailsWith (Elementary config root) (buildEnums path built es).result := by
  induction es generalizing built with
  | nil => exact .of_ok
  | cons e es ih =>
      rw [List.forall_mem_cons] at within
      unfold buildEnums
      split
      · exact .logged_bind .of_ok fun _ _ => ih _ within.2
      · next hblank =>
        have hnumber := foundIn_number? within.1 rfl .blank hblank
        exact .of_error ⟨.inr (.number (hnumber rfl)), nofun⟩
      · exact ih _ within.2
      · split
        · exact .of_error (elementary_schema _ _)
        · split
          · exact .of_error (elementary_schema _ _)
          · split
            · exact .of_error (elementary_schema _ _)
            · exact ih _ within.2

theorem elementary_buildBitRange (within : e.Within root) (path : NodePath) :
    FailsWith (Elementary config root) (buildBitRange path e) := by
  refine .bind (elementary_readAt (foundIn_bitRange? within) _) fun found _ => ?_
  refine .bind (elementary_require path _ _) fun range _ => ?_
  exact .check (fun _ => elementary_schema _ _) fun _ => .of_ok

theorem elementary_buildField (usable : parent.Usable) (within : e.Within root) :
    FailsWith (Elementary config root) (buildField parent e).result := by
  unfold buildField
  refine .logged_bind (elementary_requiredName _ _ _) fun name hname => ?_
  have hdeclared := declares_of_requiredName within hname
  refine .logged_bind (elementary_pathOf usable hdeclared) fun path _ => ?_
  refine .throw_or (fun _ => elementary_schema _ _) fun _ => ?_
  refine .logged_bind (elementary_buildBitRange within path) fun range _ => ?_
  cases hvalues : e.child? "enumeratedValues" with
  | none =>
      refine .logged_bind .of_ok fun enums _ => ?_
      refine .logged_bind (elementary_readAt (foundIn_word? _) _) fun access _ => ?_
      exact .logged_bind (elementary_dimension within path) fun dim _ => .of_ok
  | some values =>
      have hinside (c : Element) (hc : c ∈ values.childrenTagged "enumeratedValue") :
          c.Within root := ((within.of_child? hvalues).of_mem_childrenTagged hc).1
      refine .logged_bind (elementary_buildEnums path [] _ hinside) fun enums _ => ?_
      refine .logged_bind (elementary_readAt (foundIn_word? _) _) fun access _ => ?_
      exact .logged_bind (elementary_dimension within path) fun dim _ => .of_ok

theorem elementary_buildFields (usable : parent.Usable) (built : List Field) (es : List Element)
    (within : ∀ e ∈ es, e.Within root) :
    FailsWith (Elementary config root) (buildFields parent built es).result := by
  induction es generalizing built with
  | nil => exact .of_ok
  | cons e es ih =>
      rw [List.forall_mem_cons] at within
      refine .logged_bind (elementary_buildField usable within.1) fun f _ => ?_
      exact .throw_or (fun _ => elementary_schema _ _) fun _ => ih _ within.2

theorem elementary_buildRegister (usable : parent.Usable) (within : e.Within root) :
    FailsWith (Elementary config root) (buildRegister parent e).result := by
  unfold buildRegister
  refine .logged_bind (elementary_requiredName _ _ _) fun name hname => ?_
  have hdeclared := declares_of_requiredName within hname
  refine .logged_bind (elementary_pathOf usable hdeclared) fun path hpath => ?_
  refine .logged_bind (elementary_readAt (foundIn_number? within rfl) _) fun offset _ => ?_
  refine .throw_or (fun _ => elementary_schema _ _) fun _ => ?_
  cases hlist : e.child? "fields" with
  | none =>
      refine .logged_bind .of_ok fun fields _ => ?_
      refine .logged_bind (elementary_readAt (foundIn_properties within) _) fun props _ => ?_
      exact .logged_bind (elementary_dimension within path) fun dim _ => .of_ok
  | some list =>
      have hinside (c : Element) (hc : c ∈ list.childrenTagged "field") : c.Within root :=
        ((within.of_child? hlist).of_mem_childrenTagged hc).1
      have hfields : FailsWith (Elementary config root) (buildFields path [] _).result :=
        elementary_buildFields (usable_of_pathOf usable hpath) [] _ hinside
      refine .logged_bind (.logged_bind hfields fun _ _ => .of_ok) fun fields _ => ?_
      refine .logged_bind (elementary_readAt (foundIn_properties within) _) fun props _ => ?_
      exact .logged_bind (elementary_dimension within path) fun dim _ => .of_ok

/-! ### Members -/

theorem elementary_buildClusterHead (usable : parent.Usable) (within : e.Within root) :
    FailsWith (Elementary config root) (buildClusterHead parent e) := by
  refine .bind (elementary_requiredName _ _ _) fun name hname => ?_
  have hdeclared := declares_of_requiredName within hname
  refine .bind (elementary_pathOf usable hdeclared) fun path _ => ?_
  refine .check (fun _ => elementary_schema _ _) fun _ => ?_
  refine .bind (elementary_readAt (foundIn_number? within rfl) _) fun given _ => ?_
  refine .bind (elementary_require path _ _) fun offset _ => ?_
  refine .bind (elementary_readAt (foundIn_properties within) _) fun props _ => ?_
  exact .bind (elementary_dimension within path) fun dim _ => .of_ok

mutual

theorem elementary_buildMember {parent : NodePath} (usable : parent.Usable) :
    ∀ e : Element, e.Within root → FailsWith (Elementary config root) (buildMember parent e).result
  | ⟨tag, line, attributes, text, children⟩, within => by
      unfold buildMember
      split
      · exact .logged_bind (elementary_buildRegister usable within) fun _ _ => .of_ok
      · refine .logged_bind (elementary_buildClusterHead usable within) fun c hc => ?_
        have hwhole : "" ∉ NodePath.split c.name :=
          ((supplies_names root).buildClusterHead within hc).2
        have hchildren : FailsWith (Elementary config root)
            (buildMembers (parent.child c.name) [] children).result :=
          elementary_buildMembers (usable.child hwhole) [] children fun e he => .child within he
        exact .logged_bind hchildren fun _ _ => .of_ok
      · exact .of_ok

theorem elementary_buildMembers {parent : NodePath} (usable : parent.Usable) (built : List Member) :
    ∀ es : List Element, (∀ e ∈ es, e.Within root) →
      FailsWith (Elementary config root) (buildMembers parent built es).result
  | [], _ => .of_ok
  | e :: es, within => by
      rw [List.forall_mem_cons] at within
      unfold buildMembers
      refine .logged_bind (elementary_buildMember usable e within.1) fun found _ => ?_
      cases found with
      | none => exact elementary_buildMembers usable built es within.2
      | some m =>
          exact .throw_or (fun _ => elementary_schema _ _) fun _ =>
            elementary_buildMembers usable (built ++ [m]) es within.2

end

/-! ### Peripherals -/

theorem elementary_buildAddressBlock (within : e.Within root) (path : NodePath) :
    FailsWith (Elementary config root) (buildAddressBlock path e) := by
  refine .bind (elementary_readAt (foundIn_number? within rfl) _) fun offset _ => ?_
  refine .bind (elementary_readAt (foundIn_number? within rfl) _) fun size _ => ?_
  cases offset with
  | none => exact elementary_faultAt path _
  | some offset =>
      cases size with
      | none => exact elementary_faultAt path _
      | some size =>
          refine .bind (elementary_readAt (foundIn_word? _) _) fun usage _ => ?_
          exact .bind (elementary_readAt (foundIn_word? _) _) fun protection _ => .of_ok

theorem elementary_buildInterrupt (within : e.Within root) (path : NodePath) (peripheral : String) :
    FailsWith (Elementary config root) (buildInterrupt path peripheral e) := by
  refine .bind (elementary_readAt (foundIn_number? within rfl) _) fun value _ => ?_
  split
  · exact .of_ok
  · exact elementary_faultAt path _

theorem elementary_buildPeripheral (usable : parent.Usable) (within : e.Within root) :
    FailsWith (Elementary config root) (buildPeripheral parent e).result := by
  unfold buildPeripheral
  refine .logged_bind (elementary_requiredName _ _ _) fun name hname => ?_
  have hdeclared := declares_of_requiredName within hname
  refine .logged_bind (elementary_pathOf usable hdeclared) fun path hpath => ?_
  refine .logged_bind (elementary_readAt (foundIn_number? within rfl) _) fun base _ => ?_
  refine .throw_or (fun _ => elementary_schema _ _) fun _ => ?_
  refine .logged_bind (.mapM fun c hc =>
    elementary_buildAddressBlock (within.of_mem_childrenTagged hc).1 path) fun blocks _ => ?_
  refine .logged_bind (.mapM fun c hc =>
    elementary_buildInterrupt (within.of_mem_childrenTagged hc).1 path name) fun interrupts _ => ?_
  cases hlist : e.child? "registers" with
  | none =>
      refine .logged_bind .of_ok fun members _ => ?_
      refine .logged_bind (elementary_readAt (foundIn_properties within) _) fun props _ => ?_
      exact .logged_bind (elementary_dimension within path) fun dim _ => .of_ok
  | some list =>
      have hmembers : FailsWith (Elementary config root) (buildMembers path [] _).result :=
        elementary_buildMembers (usable_of_pathOf usable hpath) [] list.children
          fun c hc => .child (within.of_child? hlist) hc
      refine .logged_bind (.logged_bind hmembers fun _ _ => .of_ok) fun members _ => ?_
      refine .logged_bind (elementary_readAt (foundIn_properties within) _) fun props _ => ?_
      exact .logged_bind (elementary_dimension within path) fun dim _ => .of_ok

theorem elementary_buildPeripherals (usable : parent.Usable) (built : List Peripheral)
    (es : List Element) (within : ∀ e ∈ es, e.Within root) :
    FailsWith (Elementary config root) (buildPeripherals parent built es).result := by
  induction es generalizing built with
  | nil => exact .of_ok
  | cons e es ih =>
      rw [List.forall_mem_cons] at within
      refine .logged_bind (elementary_buildPeripheral usable within.1) fun p _ => ?_
      exact .throw_or (fun _ => elementary_schema _ _) fun _ => ih _ within.2

/-! ### Devices -/

theorem elementary_buildDeviceHead : FailsWith (Elementary config root) (buildDeviceHead root) := by
  refine .ite (fun _ => .of_error (elementary_schema _ _)) fun hnamed => ?_
  have hdeclared : root.Declares (Text.trim ((root.string? "name").getD "")) := by
    refine ⟨root, .root, ?_⟩
    cases hname : root.string? "name" with
    | none => simp [hname] at hnamed
    | some name => rfl
  refine .bind (.mapError ?_) fun path _ => ?_
  · rw [NodePath.ofArguments_eq]
    refine .ite (fun hblank => .of_error ⟨.inr (.name hdeclared ?_ _), nofun⟩) fun _ => .of_ok
    simpa [NodePath.Argument.parts] using hblank
  refine .bind (elementary_readAt (foundIn_number? .root rfl) _) fun unit _ => ?_
  cases unit with
  | none =>
      refine .bind (elementary_readAt (foundIn_number? .root rfl) _) fun width _ => ?_
      exact .bind (elementary_readAt (foundIn_properties .root) _) fun props _ => .of_ok
  | some bits =>
      refine .check (fun _ => elementary_schema _ _) fun _ => ?_
      refine .bind (elementary_readAt (foundIn_number? .root rfl) _) fun width _ => ?_
      exact .bind (elementary_readAt (foundIn_properties .root) _) fun props _ => .of_ok

theorem usable_path_of_buildDeviceHead {d : Device} (h : buildDeviceHead root = .ok d) :
    d.path.Usable := by
  unfold buildDeviceHead at h
  split at h
  · cases h
  obtain ⟨path, hpath, h⟩ := bind_eq_ok_iff.1 h
  have hargs := mapError_eq_ok_iff.1 hpath
  rw [NodePath.ofArguments_eq] at hargs
  split at hargs
  · cases hargs
  next hwhole =>
  obtain ⟨unit, -, h⟩ := bind_eq_ok_iff.1 h
  have hname : d.name = Text.trim ((root.string? "name").getD "") := by
    cases unit with
    | none =>
        obtain ⟨width, -, h⟩ := bind_eq_ok_iff.1 h
        obtain ⟨props, -, h⟩ := bind_eq_ok_iff.1 h
        cases h
        rfl
    | some bits =>
        dsimp only at h
        split at h
        · cases h
        · obtain ⟨width, -, h⟩ := bind_eq_ok_iff.1 h
          obtain ⟨props, -, h⟩ := bind_eq_ok_iff.1 h
          cases h
          rfl
  refine NodePath.usable_empty.child ?_
  rw [hname]
  simpa [NodePath.Argument.parts] using hwhole

theorem elementary_buildDevice :
    FailsWith (Elementary config root) (buildDevice root).result := by
  unfold buildDevice
  refine .throw_or (fun _ => elementary_schema _ _) fun _ => ?_
  refine .logged_bind elementary_buildDeviceHead fun head hhead => ?_
  have husable := usable_path_of_buildDeviceHead hhead
  refine .logged_bind (elementary_buildPeripherals husable [] _ fun e => within_peripherals) ?_
  exact fun _ _ => .logged_bind .of_ok fun _ _ => .of_ok

end Draft

end RegisterMap
