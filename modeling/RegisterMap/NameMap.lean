import RegisterMap.Error
import RegisterMap.Position

/-!
# Maps by name

A map from names to items that keeps the order in which the items are declared. An item can be
looked up by its name or by its position. `NameMap.ofList` makes sure that no two items share a
name.
-/

namespace RegisterMap

/-- What an item is looked up by. -/
inductive Key where
  | name (s : String)
  | position (i : Int)
deriving DecidableEq, Repr

/-- Named items in the order of their declaration. -/
structure NameMap (α : Type) where
  entries : List (String × α) := []
deriving DecidableEq, Repr

namespace NameMap

variable {α : Type}

instance : EmptyCollection (NameMap α) := ⟨⟨[]⟩⟩

instance : Inhabited (NameMap α) := ⟨∅⟩

/-- The names in order. -/
def keys (m : NameMap α) : List String :=
  m.entries.map (·.1)

/-- The items in order. -/
def values (m : NameMap α) : List α :=
  m.entries.map (·.2)

/-- The number of items. -/
def size (m : NameMap α) : Nat :=
  m.entries.length

/-- The first of several names that occurs again after `seen` and the names before it. -/
def firstRepeated? (seen : List String) : List String → Option String
  | [] => none
  | name :: names =>
    if seen.contains name then some name else firstRepeated? (name :: seen) names

/-- The map of items with distinct names. -/
def ofList (entries : List (String × α)) : Except Error (NameMap α) :=
  match firstRepeated? [] (entries.map (·.1)) with
  | some name => .error (.duplicateName name)
  | none => .ok ⟨entries⟩

/-- Give an item a name. It takes the place of an item that has the name already. -/
def insert (m : NameMap α) (name : String) (a : α) : NameMap α :=
  if m.keys.contains name then
    ⟨m.entries.map fun e => if e.1 = name then (name, a) else e⟩
  else ⟨m.entries ++ [(name, a)]⟩

/-- The item with a name. -/
def get? (m : NameMap α) (name : String) : Option α :=
  m.entries.lookup name

/-- There is an item with the name. -/
def contains (m : NameMap α) (name : String) : Bool :=
  (m.get? name).isSome

/-- The item that a key denotes. -/
def get (m : NameMap α) : Key → Except Error α
  | .name s =>
    match m.get? s with
    | some a => .ok a
    | none => .error (.unknownName s)
  | .position i =>
    match Position.item? m.values i with
    | some a => .ok a
    | none => .error .outOfRange

/-- The item that a key denotes, if the key is not the name of no item. -/
def find (m : NameMap α) (key : Key) : Except Error (Option α) :=
  match m.get key with
  | .ok a => .ok (some a)
  | .error (.unknownName _) => .ok none
  | .error e => .error e

/-- The maps have the same items under the same names, in any order. -/
def sameItems [DecidableEq α] (m n : NameMap α) : Bool :=
  m.size == n.size && m.entries.all fun e => n.get? e.1 == some e.2

/-- The map is shown by its names. -/
def describe (m : NameMap α) : String :=
  "NameMap(" ++ Text.quotedList m.keys ++ ")"

theorem firstRepeated?_eq_none_iff {seen names : List String} :
    firstRepeated? seen names = none ↔ names.Nodup ∧ ∀ name ∈ names, name ∉ seen := by
  induction names generalizing seen with
  | nil => simp [firstRepeated?]
  | cons name names ih =>
    by_cases h : name ∈ seen
    · simp [firstRepeated?, h]
    · simp only [firstRepeated?, List.contains_eq_mem, h, decide_false, Bool.false_eq_true,
        if_false, ih, List.nodup_cons, List.mem_cons, forall_eq_or_imp, not_or, not_false_eq_true,
        true_and]
      constructor
      · rintro ⟨hn, hs⟩
        exact ⟨⟨fun hm => (hs name hm).1 rfl, hn⟩, fun x hx => (hs x hx).2⟩
      · rintro ⟨⟨hm, hn⟩, hs⟩
        exact ⟨hn, fun x hx => ⟨fun hxn => hm (hxn ▸ hx), hs x hx⟩⟩

theorem ofList_eq_ok_iff {entries : List (String × α)} {m : NameMap α} :
    ofList entries = .ok m ↔ (entries.map (·.1)).Nodup ∧ m = ⟨entries⟩ := by
  have h := @firstRepeated?_eq_none_iff [] (entries.map (·.1))
  unfold ofList
  split
  · next name heq => simp_all
  · next heq =>
    simp only [Except.ok.injEq]
    constructor
    · rintro rfl
      exact ⟨(h.1 heq).1, rfl⟩
    · rintro ⟨_, rfl⟩
      rfl

end NameMap

end RegisterMap
