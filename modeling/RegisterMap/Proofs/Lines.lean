import RegisterMap.Draft.Build

/-!
# Line numbers

Elements remember the lines on which they stand in the document. `Element.unnumbered` forgets them,
for the element and for everything in it. A draft that is built from elements does not depend on
them (`Draft.buildPeripheral_unnumbered`).
-/

namespace RegisterMap

namespace Element

mutual

/-- The element without line numbers. -/
def unnumbered : Element → Element
  | ⟨tag, _, attributes, text, children⟩ => ⟨tag, 0, attributes, text, unnumberedAll children⟩

/-- The elements without line numbers. -/
def unnumberedAll : List Element → List Element
  | [] => []
  | e :: es => unnumbered e :: unnumberedAll es

end

theorem unnumberedAll_eq_map (es : List Element) : unnumberedAll es = es.map unnumbered := by
  induction es with
  | nil => rfl
  | cons e es ih => rw [unnumberedAll, ih, List.map_cons]

variable (e : Element) (tag : String)

theorem unnumbered_eq :
    e.unnumbered = { e with line := 0, children := e.children.map unnumbered } := by
  cases e
  rw [unnumbered, unnumberedAll_eq_map]

@[simp] theorem tag_unnumbered : e.unnumbered.tag = e.tag := by
  rw [unnumbered_eq]

@[simp] theorem attributes_unnumbered : e.unnumbered.attributes = e.attributes := by
  rw [unnumbered_eq]

@[simp] theorem text_unnumbered : e.unnumbered.text = e.text := by
  rw [unnumbered_eq]

@[simp] theorem children_unnumbered : e.unnumbered.children = e.children.map unnumbered := by
  rw [unnumbered_eq]

@[simp] theorem child?_unnumbered :
    e.unnumbered.child? tag = (e.child? tag).map unnumbered := by
  simp only [child?, children_unnumbered, List.find?_map, Function.comp_def, tag_unnumbered]

@[simp] theorem childrenTagged_unnumbered :
    e.unnumbered.childrenTagged tag = (e.childrenTagged tag).map unnumbered := by
  simp only [childrenTagged, children_unnumbered, List.filter_map, Function.comp_def,
    tag_unnumbered]

/-! ### Values -/

@[simp] theorem content_unnumbered : e.unnumbered.content = e.content := by
  rw [content, text_unnumbered, content]

@[simp] theorem numberContent_unnumbered : e.unnumbered.numberContent = e.numberContent := by
  rw [numberContent, text_unnumbered, numberContent]

@[simp] theorem string?_unnumbered : e.unnumbered.string? tag = e.string? tag := by
  simp only [string?, child?_unnumbered, Option.map_map, Function.comp_def, content_unnumbered]

@[simp] theorem number?_unnumbered : e.unnumbered.number? tag = e.number? tag := by
  rw [number?, child?_unnumbered, number?]
  cases e.child? tag with
  | none => rfl
  | some c => simp only [Option.map_some, numberContent_unnumbered]

@[simp] theorem word?_unnumbered {α : Type} [Vocabulary α] :
    e.unnumbered.word? tag = e.word? (α := α) tag := by
  rw [word?, child?_unnumbered, word?]
  cases e.child? tag with
  | none => rfl
  | some c => simp only [Option.map_some, text_unnumbered]

@[simp] theorem derivedFrom?_unnumbered : e.unnumbered.derivedFrom? = e.derivedFrom? := by
  simp only [derivedFrom?, attribute?, attributes_unnumbered]

@[simp] theorem properties_unnumbered : e.unnumbered.properties = e.properties := by
  simp only [properties, number?_unnumbered, word?_unnumbered]

@[simp] theorem bitRange?_unnumbered : e.unnumbered.bitRange? = e.bitRange? := by
  simp only [bitRange?, number?_unnumbered, string?_unnumbered]

end Element

namespace Draft

open Element

variable (parent : NodePath) (e : Element)

/-! ### Parts of elements -/

@[simp] theorem requiredName_unnumbered (kind : ElementKind) :
    requiredName parent kind e.unnumbered = requiredName parent kind e := by
  simp only [requiredName, string?_unnumbered]

@[simp] theorem description_unnumbered : description e.unnumbered = description e := by
  simp only [description, string?_unnumbered]

@[simp] theorem dimension_unnumbered : dimension parent e.unnumbered = dimension parent e := by
  simp only [dimension, number?_unnumbered, string?_unnumbered]

theorem buildEnums_unnumbered (built : List (String × Int)) (es : List Element) :
    buildEnums parent built (es.map unnumbered) = buildEnums parent built es := by
  induction es generalizing built with
  | nil => rfl
  | cons e es ih =>
      simp only [List.map_cons, buildEnums, number?_unnumbered, string?_unnumbered, ih]

/-! ### Building -/

theorem buildField_unnumbered : buildField parent e.unnumbered = buildField parent e := by
  unfold buildField buildBitRange
  cases hvalues : e.child? "enumeratedValues" with
  | none => simp [hvalues]
  | some values => simp [hvalues, buildEnums_unnumbered]

theorem buildFields_unnumbered (built : List Field) (es : List Element) :
    buildFields parent built (es.map unnumbered) = buildFields parent built es := by
  induction es generalizing built with
  | nil => rfl
  | cons e es ih => simp only [List.map_cons, buildFields, buildField_unnumbered, ih]

theorem buildRegister_unnumbered : buildRegister parent e.unnumbered = buildRegister parent e := by
  unfold buildRegister
  cases hfields : e.child? "fields" with
  | none => simp [hfields]
  | some fields => simp [hfields, buildFields_unnumbered]

theorem buildClusterHead_unnumbered :
    buildClusterHead parent e.unnumbered = buildClusterHead parent e := by
  simp [buildClusterHead]

mutual

theorem buildMember_unnumbered (parent : NodePath) : ∀ e : Element,
    buildMember parent e.unnumbered = buildMember parent e
  | ⟨tag, line, attributes, text, children⟩ => by
      have hregister := buildRegister_unnumbered parent ⟨tag, line, attributes, text, children⟩
      have hcluster := buildClusterHead_unnumbered parent ⟨tag, line, attributes, text, children⟩
      have hmembers (path : NodePath) := buildMembers_unnumbered path [] children
      rw [unnumbered] at hregister hcluster ⊢
      rw [unnumberedAll_eq_map] at hregister hcluster ⊢
      unfold buildMember
      simp only [hregister, hcluster, hmembers]

theorem buildMembers_unnumbered (parent : NodePath) (built : List Member) : ∀ es : List Element,
    buildMembers parent built (es.map unnumbered) = buildMembers parent built es
  | [] => rfl
  | e :: es => by
      have hrest (built : List Member) := buildMembers_unnumbered parent built es
      simp only [List.map_cons, buildMembers, buildMember_unnumbered parent e, hrest]

end

theorem buildAddressBlock_unnumbered :
    buildAddressBlock parent e.unnumbered = buildAddressBlock parent e := by
  simp [buildAddressBlock]

theorem buildInterrupt_unnumbered (peripheral : String) :
    buildInterrupt parent peripheral e.unnumbered = buildInterrupt parent peripheral e := by
  simp [buildInterrupt]

/-- What is built from the element of a peripheral does not depend on line numbers. -/
theorem buildPeripheral_unnumbered :
    buildPeripheral parent e.unnumbered = buildPeripheral parent e := by
  unfold buildPeripheral
  cases hregisters : e.child? "registers" with
  | none => simp [hregisters, Function.comp_def, buildAddressBlock_unnumbered,
      buildInterrupt_unnumbered]
  | some registers => simp [hregisters, Function.comp_def, buildAddressBlock_unnumbered,
      buildInterrupt_unnumbered, buildMembers_unnumbered]

theorem buildDeviceHead_unnumbered : buildDeviceHead e.unnumbered = buildDeviceHead e := by
  simp [buildDeviceHead]

end Draft

end RegisterMap
