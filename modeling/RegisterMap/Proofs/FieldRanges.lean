import RegisterMap.Proofs.Document
import RegisterMap.Proofs.Origins
import RegisterMap.Proofs.Parts

/-!
# Fields in their registers

The upper end of a field is compared with the size of its register when addresses are resolved, and
no later pass moves it. The lower end is looked at only when the field is built. An array of fields
moves it by multiples of the step of the array, so it stays in the register as long as no field of
the document is repeated downwards (`Element.RepeatsUpwards`), and need not do so otherwise.
-/

namespace RegisterMap

/-! ### Documents without fields that are repeated downwards -/

namespace Element

/-- The step by which a field is repeated does not lead downwards. -/
def stepsUpwards (e : Element) : Bool :=
  e.tag != "field" ||
    match e.number? "dimIncrement" with
    | .ok (some step) => 0 ≤ step
    | _ => true

mutual

/-- The test is passed by the element and by everything inside of it. -/
def everyWithin (p : Element → Bool) : Element → Bool
  | ⟨tag, line, attributes, text, children⟩ =>
    p ⟨tag, line, attributes, text, children⟩ && everyWithinAll p children

/-- The test is passed by the elements and by everything inside of them. -/
def everyWithinAll (p : Element → Bool) : List Element → Bool
  | [] => true
  | e :: es => everyWithin p e && everyWithinAll p es

end

variable {p : Element → Bool} {e c root : Element}

theorem everyWithinAll_iff {es : List Element} :
    everyWithinAll p es ↔ ∀ e ∈ es, everyWithin p e := by
  induction es with
  | nil => simp [everyWithinAll]
  | cons e es ih => rw [everyWithinAll, Bool.and_eq_true, ih, List.forall_mem_cons]

theorem everyWithin_iff_children :
    everyWithin p e ↔ p e ∧ ∀ c ∈ e.children, everyWithin p c := by
  cases e
  rw [everyWithin, Bool.and_eq_true, everyWithinAll_iff]

theorem Within.trans (h : c.Within e) (h' : e.Within root) : c.Within root := by
  induction h with
  | root => exact h'
  | child _ mem ih => exact .child (ih h') mem

mutual

theorem everyWithin_of_forall : ∀ e : Element, (∀ c, c.Within e → p c) → everyWithin p e
  | ⟨tag, line, attributes, text, children⟩, h => by
      rw [everyWithin, Bool.and_eq_true]
      refine ⟨h _ .root, everyWithinAll_of_forall children fun c hc d hd => ?_⟩
      exact h d (hd.trans (.child .root hc))

theorem everyWithinAll_of_forall :
    ∀ es : List Element, (∀ c ∈ es, ∀ d, d.Within c → p d) → everyWithinAll p es
  | [], _ => rfl
  | e :: es, h => by
      rw [List.forall_mem_cons] at h
      rw [everyWithinAll, Bool.and_eq_true]
      exact ⟨everyWithin_of_forall e h.1, everyWithinAll_of_forall es h.2⟩

end

theorem everyWithin_iff : everyWithin p root ↔ ∀ e, e.Within root → p e := by
  refine ⟨fun h e within => ?_, everyWithin_of_forall root⟩
  have hevery : everyWithin p e := by
    induction within with
    | root => exact h
    | child _ mem ih => exact (everyWithin_iff_children.1 (ih h)).2 _ mem
  exact (everyWithin_iff_children.1 hevery).1

/-- No field in the document is repeated downwards. -/
def RepeatsUpwards (root : Element) : Prop :=
  ∀ e : Element, e.Within root → e.stepsUpwards

instance (root : Element) : Decidable root.RepeatsUpwards :=
  decidable_of_iff (root.everyWithin stepsUpwards) everyWithin_iff

end Element

/-! ### Fields of a draft -/

namespace Draft

/-- The field has a bit. If it is known to be repeated upwards only, it starts at bit zero or above,
and so do its instances. -/
structure Field.Bounded (upwards : Prop) (f : Field) : Prop where
  width : ∀ range, f.bitRange = some range → 1 ≤ range.width
  offset : upwards → ∀ range, f.bitRange = some range → 0 ≤ range.offset
  step : upwards → ∀ dim, f.dim = some dim → 0 ≤ dim.step

theorem bounds_of_buildBitRange {path : NodePath} {e : Element} {range : BitRange}
    (h : buildBitRange path e = .ok range) : 0 ≤ range.offset ∧ 1 ≤ range.width := by
  obtain ⟨found, -, h⟩ := bind_eq_ok_iff.1 h
  obtain ⟨given, -, h⟩ := bind_eq_ok_iff.1 h
  split at h
  · cases h
  · cases h
    omega

theorem step_of_dimension {path : NodePath} {e : Element} {dim : Dimension}
    (h : dimension path e = .ok (some dim)) : e.number? "dimIncrement" = .ok (some dim.step) := by
  obtain ⟨length, -, h⟩ := bind_eq_ok_iff.1 h
  obtain ⟨step, hstep, h⟩ := bind_eq_ok_iff.1 h
  cases length with
  | none =>
      cases step with
      | none => cases h
      | some step => cases h
  | some length =>
      cases step with
      | none => cases h
      | some step =>
          dsimp only at h
          split at h
          · cases h
          · cases h
            exact mapError_eq_ok_iff.1 hstep

theorem bounded_buildField {e : Element} (tag : e.tag = "field") (parent : NodePath) :
    (buildField parent e).Yields (Field.Bounded (e.stepsUpwards)) := by
  unfold buildField
  refine .bind_of_forall fun name => .bind_of_forall fun path => .throw_or fun _ => ?_
  refine .bind (.of_ofExcept fun _ => bounds_of_buildBitRange) fun range hrange => ?_
  have hfield {enums : List (String × Int)} {access : Option Access} {dim : Option Dimension}
      (hdim : dimension path e = .ok dim) : Field.Bounded (e.stepsUpwards)
        { name, bitRange := some range, access, description := description e, enums, dim } := by
    refine ⟨?_, ?_, fun upwards given hgiven => ?_⟩
    · rintro _ ⟨⟩
      exact hrange.2
    · rintro - _ ⟨⟩
      exact hrange.1
    · obtain rfl : dim = some given := hgiven
      simpa [Element.stepsUpwards, tag, step_of_dimension hdim] using upwards
  cases e.child? "enumeratedValues" with
  | none =>
      refine .bind_of_forall fun enums => .bind_of_forall fun access => ?_
      exact .bind (.of_ofExcept fun _ h => h) fun dim hdim => .of_pure (hfield hdim)
  | some values =>
      refine .bind_of_forall fun enums => .bind_of_forall fun access => ?_
      exact .bind (.of_ofExcept fun _ h => h) fun dim hdim => .of_pure (hfield hdim)

theorem Field.Bounded.mono {upwards upwards' : Prop} {f : Field} (h : f.Bounded upwards)
    (less : upwards' → upwards) : f.Bounded upwards' :=
  ⟨h.width, fun hup => h.offset (less hup), fun hup => h.step (less hup)⟩

/-- Instances are moved by multiples of the step of an array. -/
theorem Field.Bounded.place {upwards : Prop} {f : Field} (h : f.Bounded upwards)
    {i : Option Instance} (hi : i ∈ instances f) : (Draft.place f i).Bounded upwards := by
  have hdim : Dimensioned.dim f = f.dim := rfl
  unfold instances at hi
  rw [hdim] at hi
  cases hgiven : f.dim with
  | none =>
      rw [hgiven] at hi
      obtain rfl := List.mem_singleton.1 hi
      exact h
  | some dim =>
      rw [hgiven] at hi
      obtain ⟨⟨token, k⟩, -, rfl⟩ := List.mem_map.1 hi
      refine ⟨fun range hrange => ?_, fun hup range hrange => ?_, nofun⟩
      · obtain ⟨own, hown, rfl⟩ := Option.map_eq_some_iff.1 hrange
        exact h.width own hown
      · obtain ⟨own, hown, rfl⟩ := Option.map_eq_some_iff.1 hrange
        have hstep : 0 ≤ (k : Int) * dim.step :=
          Int.mul_nonneg (Int.natCast_nonneg k) (h.step hup dim hgiven)
        exact Int.add_nonneg (h.offset hup own hown) hstep

theorem supplies_bounded (root : Element) :
    Supplies root (fun _ => True) (Field.Bounded root.RepeatsUpwards) where
  name _ _ _ _ _ _ _ _ := trivial
  field e within tag parent f hf :=
    (bounded_buildField tag parent f hf).mono fun upwards => upwards e within

/-- If the member is a register, all bits of its fields lie below its size. -/
def Member.Fits (m : Member) : Prop :=
  ∃ size, (m.kind = .register → m.header.effective.size = some size) ∧
    ∀ f ∈ m.fieldList, ∀ range, f.bitRange = some range → range.msb < size

theorem Register.fits_of_check {path : NodePath} {r : Register} (h : r.check path = .ok ()) :
    (Member.register r).Fits := by
  obtain ⟨size, hsize, h⟩ := bind_eq_ok_iff.1 h
  refine ⟨size, fun _ => (Register.size_eq_ok_iff.1 hsize).1, fun f hf range hrange => ?_⟩
  split at h
  · cases h
  · have hfield := forM_eq_ok_iff.1 h f hf
    rw [hrange] at hfield
    dsimp only at hfield
    split at hfield
    · assumption
    · cases hfield

theorem Device.fits_of_resolveAddresses {d d' : Device} {tolerant : Bool}
    (h : (d.resolveAddresses tolerant).result = .ok d') :
    Member.EachAll Member.Fits d'.elements := by
  have hfits : Member.EachAll Member.Fits d.elements :=
    checked_of_resolveAddresses h (fun _ _ => Register.fits_of_check)
      fun _ _ => ⟨0, nofun, List.forall_mem_nil _⟩
  obtain rfl := resolveAddresses_eq_ok h
  refine Member.EachAll.of_alike (fun m m' hR _ hm => ?_) _ d.alikeAll_placeAll hfits
  obtain ⟨size, hsize, hfields⟩ := hm
  refine ⟨size, ?_, hR.fieldList ▸ hfields⟩
  rw [hR.own (·.effective) fun _ _ _ => rfl, hR.kind]
  exact hsize

end Draft

/-! ### Fields of a device -/

/-- The mask of bits that all lie below a bound has no bit from there on. -/
theorem BitRange.exists_mask {r : BitRange} (offset : 0 ≤ r.offset) (width : 0 ≤ r.width)
    {size : Nat} (stop : r.offset + r.width ≤ size) :
    ∃ mask : Nat, r.mask? = some (mask : Int) ∧ mask < 2 ^ size := by
  refine ⟨lowBits r.width.toNat <<< r.offset.toNat, if_pos ⟨offset, width⟩, ?_⟩
  have hlow : lowBits r.width.toNat < 2 ^ r.width.toNat := Nat.sub_one_lt (Nat.two_pow_pos _).ne'
  have hmask := Nat.shiftLeft_lt (m := r.offset.toNat) hlow
  refine hmask.trans_le (Nat.pow_le_pow_right Nat.two_pos ?_)
  omega

/-- Every field of a device has a bit and ends in its register. If no field of the document is
repeated downwards, it starts in its register, too, and has a mask without bits outside of it. -/
theorem parse_bounds_fields {source : Source} {config : Config} {root : Element} {d : Device}
    (hroot : source.read = .ok root) (h : (parse source config).result = .ok d) :
    ∀ r ∈ d.registers, ∀ f ∈ r.fields,
      1 ≤ f.bitRange.width ∧ f.bitRange.offset + f.bitRange.width ≤ r.size ∧
        (root.RepeatsUpwards → 0 ≤ f.bitRange.offset ∧
          ∃ mask : Nat, f.bitRange.mask? = some (mask : Int) ∧ mask < 2 ^ r.size.toNat) := by
  obtain ⟨root', regions, placed, plain, hroot', -, hreaches, hplain, haliases⟩ :=
    exists_placed_of_parse h
  cases hroot.symm.trans hroot'
  -- The lower end of a field is checked when the field is built, before it may be moved; the upper
  -- end is checked when its register is placed.
  have hparts : placed.HasParts (fun _ => True) (Draft.Field.Bounded root.RepeatsUpwards) :=
    hreaches.hasParts (Draft.supplies_bounded root) (fun _ _ h => h) fun _ hf _ hi => hf.place hi
  have hfits : Draft.Member.EachAll Draft.Member.Fits placed.elements := by
    cases hreaches with
    | place _ pass => exact Draft.Device.fits_of_resolveAddresses pass
  intro r' hr' f' hf'
  obtain ⟨r, hr, hstep⟩ := exists_mem_left (Device.registers_withAliases haliases) hr'
  obtain ⟨f, hf, hsame⟩ := Register.exists_field_of_withAliases hstep hf'
  obtain ⟨path, dr, ⟨hown, size, hgiven, hends⟩, hmade⟩ :=
    Device.exists_draft_of_register hplain (hparts.and hfits) hr
  have hfrom := Register.madeFrom_ofDraft hmade
  obtain ⟨-, df, hdf, hrange⟩ := hfrom.fields f hf
  have hbounded := hown.fields df hdf
  have hsize : r'.size = size := by
    rw [Member.withAliases_register hstep]
    exact Option.some.inj (hfrom.size.symm.trans (hgiven rfl))
  have hmsb : f.bitRange.offset + f.bitRange.width - 1 < size := hends df hdf _ hrange
  have hwidth := hbounded.width _ hrange
  have hbits : f'.bitRange = f.bitRange := by rw [hsame]
  rw [hbits, hsize]
  refine ⟨hwidth, by omega, fun upwards => ?_⟩
  have hoffset := hbounded.offset upwards _ hrange
  exact ⟨hoffset, BitRange.exists_mask hoffset (by omega) (by omega)⟩

/-! ### A document with an array of fields -/

open Element in
/-- A register of one byte with an array of two fields of four bits, at a distance that is given by
a text. -/
def repeatedRoot (step : String) : Element :=
  node "device" [leaf "name" "D", leaf "size" "8", leaf "resetValue" "0", node "peripherals" [
    node "peripheral" [leaf "name" "P", leaf "baseAddress" "0", node "registers" [
      node "register" [leaf "name" "R", leaf "addressOffset" "0", node "fields" [
        node "field" [leaf "name" "F%s", leaf "bitOffset" "0", leaf "bitWidth" "4",
          leaf "dim" "2", leaf "dimIncrement" step]]]]]]]

/-- The lines of the document with these elements. -/
def repeatedLines (step : String) : List String := [
  "<device><name>D</name><size>8</size><resetValue>0</resetValue><peripherals>",
  "<peripheral><name>P</name><baseAddress>0</baseAddress><registers>",
  "<register><name>R</name><addressOffset>0</addressOffset><fields>",
  "<field><name>F%s</name><bitOffset>0</bitOffset><bitWidth>4</bitWidth>",
  "<dim>2</dim><dimIncrement>", step, "</dimIncrement></field>",
  "</fields></register></registers></peripheral></peripherals></device>"]

set_option maxRecDepth 10000 in
theorem read_repeated_upwards :
    (Source.text (String.join (repeatedLines "4"))).read = .ok (repeatedRoot "4") := by
  have hlines : repeatedLines "4" = List.map String.ofList [_, _, _, _, _, _, _, _] := rfl
  change Markup.readText (String.join (repeatedLines "4")) = .ok (repeatedRoot "4")
  refine Markup.readText_join hlines ?_ ?_ ?_
  · decide +kernel
  · rfl
  · decide +kernel

set_option maxRecDepth 10000 in
theorem read_repeated_downwards :
    (Source.text (String.join (repeatedLines "-4"))).read = .ok (repeatedRoot "-4") := by
  have hlines : repeatedLines "-4" = List.map String.ofList [_, _, _, _, _, _, _, _] := rfl
  change Markup.readText (String.join (repeatedLines "-4")) = .ok (repeatedRoot "-4")
  refine Markup.readText_join hlines ?_ ?_ ?_
  · decide +kernel
  · rfl
  · decide +kernel

/-- Two fields that are repeated upwards share their register. -/
theorem parse_bounds_fields_upwards : ∃ d,
    (parse (.text (String.join (repeatedLines "4"))) {}).result = .ok d ∧
      (d.registers.flatMap (·.fields)).map (·.bitRange) = [⟨0, 4⟩, ⟨4, 4⟩] ∧
      ∀ r ∈ d.registers, ∀ f ∈ r.fields, 0 ≤ f.bitRange.offset ∧
        f.bitRange.offset + f.bitRange.width ≤ r.size := by
  have hparsed : (parse (.text (String.join (repeatedLines "4"))) {}).result.toOption.any
      fun d => (d.registers.flatMap (·.fields)).map (·.bitRange) = [⟨0, 4⟩, ⟨4, 4⟩] := by
    simp only [Device.registers_eq]
    rw [result_parse read_repeated_upwards rfl]
    decide +kernel
  have upwards : (repeatedRoot "4").RepeatsUpwards := by decide +kernel
  obtain ⟨d, hd, hranges⟩ := exists_ok_of_any hparsed
  refine ⟨d, hd, of_decide_eq_true hranges, fun r hr f hf => ?_⟩
  obtain ⟨-, hstop, hup⟩ := parse_bounds_fields read_repeated_upwards hd r hr f hf
  exact ⟨(hup upwards).1, hstop⟩

/-- A field that is repeated downwards leaves its register below bit zero. -/
theorem parse_leaves_field_below : ∃ d,
    (parse (.text (String.join (repeatedLines "-4"))) {}).result = .ok d ∧
      ∃ r ∈ d.registers, ∃ f ∈ r.fields, ¬ 0 ≤ f.bitRange.offset ∧ f.bitRange.mask? = none := by
  have hparsed : (parse (.text (String.join (repeatedLines "-4"))) {}).result.toOption.any
      fun d => d.registers.any fun r => r.fields.any fun f =>
        ¬ 0 ≤ f.bitRange.offset ∧ f.bitRange.mask? = none := by
    simp only [Device.registers_eq]
    rw [result_parse read_repeated_downwards rfl]
    decide +kernel
  obtain ⟨d, hd, h⟩ := exists_ok_of_any hparsed
  simp only [List.any_eq_true, decide_eq_true_eq] at h
  exact ⟨d, hd, h⟩

end RegisterMap
