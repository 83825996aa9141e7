import RegisterMap.Draft.Basic

/-!
# Copies of members

A peripheral that takes over the members of another one gets a copy of them. The copy has the same
elements at the same positions; but their paths begin with the new peripheral, and the properties in
effect around each of them are those in effect for the element around it in the copy.
-/

namespace RegisterMap.Draft

/-- A member in its place: with its path, and the properties in effect for the element around it. -/
structure Occurrence where
  path : NodePath
  around : RegisterProperties
  member : Member

namespace Member

/-- The member at a position below the element at `path`, which has the members `ms` and for which
the properties `around` are in effect. -/
def occurrence? (path : NodePath) (around : RegisterProperties) (ms : List Member) :
    List Nat → Option Occurrence
  | [] => none
  | i :: is =>
    match ms[i]? with
    | some m =>
      if is.isEmpty then some ⟨path.child m.name, around, m⟩
      else occurrence? (path.child m.name) m.header.effective m.members is
    | none => none

/-- What the member consists of, apart from what is inside of it and from the properties in effect
around it. -/
def own : Member → Register ⊕ Cluster
  | .register r => .inl { r with defaults := {} }
  | .cluster c _ => .inr { c with defaults := {} }

@[simp] theorem name_withDefaults (defaults : RegisterProperties) (m : Member) :
    (m.withDefaults defaults).name = m.name := by
  cases m <;> rfl

@[simp] theorem own_withDefaults (defaults : RegisterProperties) (m : Member) :
    (m.withDefaults defaults).own = m.own := by
  cases m <;> rfl

@[simp] theorem defaults_withDefaults (defaults : RegisterProperties) (m : Member) :
    (m.withDefaults defaults).header.defaults = defaults := by
  cases m <;> rfl

/-- Inside of a member, the properties in effect for it are passed on. -/
theorem members_withDefaults (defaults : RegisterProperties) (m : Member) :
    (m.withDefaults defaults).members =
      withDefaultsAll (m.withDefaults defaults).header.effective m.members := by
  cases m <;> rfl

mutual

/-- Only the last properties that are set count. -/
theorem withDefaults_withDefaults (defaults before : RegisterProperties) :
    ∀ m : Member, (m.withDefaults before).withDefaults defaults = m.withDefaults defaults
  | .register _ => rfl
  | .cluster c ms => by
      simp only [withDefaults]
      rw [withDefaultsAll_withDefaultsAll]

theorem withDefaultsAll_withDefaultsAll (defaults before : RegisterProperties) :
    ∀ ms : List Member,
      withDefaultsAll defaults (withDefaultsAll before ms) = withDefaultsAll defaults ms
  | [] => rfl
  | m :: ms => by
      simp only [withDefaultsAll]
      rw [withDefaults_withDefaults, withDefaultsAll_withDefaultsAll]

end

end Member

/-- The second occurrence is a copy of the first one, at the same place below `target` as the first
one is below `source`. -/
structure Occurrence.Copied (source target : NodePath) (o copy : Occurrence) : Prop where
  path : ∃ rest : NodePath, o.path = source ++ rest ∧ copy.path = target ++ rest
  own : copy.member.own = o.member.own
  defaults : copy.member.header.defaults = copy.around

/-- The members `copies` of the element at `target`, for which the properties `around` are in
effect, are copies of the members of the element at `source`, at all depths. -/
def Member.Copies (source : NodePath) (ms : List Member) (target : NodePath)
    (around : RegisterProperties) (copies : List Member) : Prop :=
  ∀ is before, Option.Rel (Occurrence.Copied source target)
    (occurrence? source before ms is) (occurrence? target around copies is)

namespace Member

theorem child_append (path rest : NodePath) (name : String) :
    (path ++ rest).child name = path ++ rest.child name := by
  simp only [NodePath.child, NodePath.parts_append, List.append_assoc]
  rfl

theorem copied_withDefaultsAll (source target rest : NodePath)
    (before defaults : RegisterProperties) (ms : List Member) (is : List Nat) :
    Option.Rel (Occurrence.Copied source target) (occurrence? (source ++ rest) before ms is)
      (occurrence? (target ++ rest) defaults (withDefaultsAll defaults ms) is) := by
  induction is generalizing rest before defaults ms with
  | nil => exact .none
  | cons i is ih =>
      rw [occurrence?, occurrence?, withDefaultsAll_eq_map, List.getElem?_map]
      cases ms[i]? with
      | none => exact .none
      | some m =>
          simp only [Option.map_some, name_withDefaults, child_append]
          split
          · exact .some ⟨⟨_, rfl, rfl⟩, own_withDefaults _ m, defaults_withDefaults _ m⟩
          · rw [members_withDefaults]
            exact ih _ _ _ _

/-- Members with the properties in effect around them set anew are copies. -/
theorem copies_withDefaultsAll (source target : NodePath) (defaults : RegisterProperties)
    (ms : List Member) : Copies source ms target defaults (withDefaultsAll defaults ms) := by
  intro is before
  have h := copied_withDefaultsAll source target ⟨[]⟩ before defaults ms is
  have hempty (path : NodePath) : path ++ (⟨[]⟩ : NodePath) = path :=
    congrArg NodePath.mk (List.append_nil path.parts)
  rwa [hempty, hempty] at h

end Member

end RegisterMap.Draft
