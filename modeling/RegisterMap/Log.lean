import RegisterMap.Error

/-!
# Events

While a document is resolved the library notes what it did and what it had to pass over. A noted
event is kept also when a later step fails, so a computation carries the events so far beside its
result: `Logged` is that pair, with the events of consecutive steps appended.
-/

namespace RegisterMap

/-- How much attention an event deserves. -/
inductive Level where
  | debug
  | warning
deriving DecidableEq, Repr

/-- The part of the work that an event belongs to. -/
inductive Topic where
  | building
  | derivation
  | arrays
  | alternates
  | addresses
  | bitBand
deriving DecidableEq, Repr

/-- What is worth noting. -/
inductive Event where
  /-- A value of a field is not a single number. -/
  | skippedValue (field : NodePath) (name : Option String) (text : String)
  | built (peripherals : Nat) (device : String)
  | derived (peripherals registers : Nat)
  | unknownExclusion (name device : String)
  | expanded (arrays : Nat)
  | linked (alternates : Nat)
  | overlap (overlap : Overlap)
  | placed (elements : Nat)
  /-- Two peripherals define an interrupt alike. -/
  | sharedInterrupt (name first second : String)
  /-- A later definition of an interrupt disagrees with the first one. -/
  | conflictingInterrupt (name : String) (peripheral : String) (value : Int) (first : String)
      (firstValue : Int)
  | unusedRegion (region : String)
  | aliased (registers : Nat)
deriving DecidableEq, Repr

namespace Event

/-- How much attention the event deserves. -/
def level : Event → Level
  | .skippedValue .. | .unknownExclusion .. | .overlap .. | .conflictingInterrupt ..
  | .unusedRegion .. => .warning
  | .built .. | .derived .. | .expanded .. | .linked .. | .placed .. | .sharedInterrupt ..
  | .aliased .. => .debug

/-- The part of the work that the event belongs to. -/
def topic : Event → Topic
  | .skippedValue .. | .built .. => .building
  | .derived .. | .unknownExclusion .. => .derivation
  | .expanded .. => .arrays
  | .linked .. => .alternates
  | .overlap .. | .placed .. | .sharedInterrupt .. | .conflictingInterrupt .. => .addresses
  | .unusedRegion .. | .aliased .. => .bitBand

/-- The text for people. -/
def message : Event → String
  | .skippedValue field name text =>
    toString field ++ ": skipping enumerated value '" ++ name.getD "None" ++
      "' with unsupported value '" ++ text ++ "'"
  | .built peripherals device =>
    "Built " ++ toString peripherals ++ " peripherals for device " ++ device
  | .derived peripherals registers =>
    "Resolved " ++ toString peripherals ++ " derived peripherals and " ++ toString registers ++
      " derived registers"
  | .unknownExclusion name device =>
    "Excluded peripheral '" ++ name ++ "' does not exist in " ++ device
  | .expanded arrays => "Expanded " ++ toString arrays ++ " arrays"
  | .linked alternates => "Linked " ++ toString alternates ++ " alternate elements"
  | .overlap o => o.message
  | .placed elements => "Calculated addresses of " ++ toString elements ++ " elements"
  | .sharedInterrupt name first second =>
    "Interrupt " ++ name ++ " is shared by " ++ first ++ " and " ++ second
  | .conflictingInterrupt name peripheral value first firstValue =>
    "Interrupt " ++ name ++ " of " ++ peripheral ++ " has value " ++ toString value ++
      ", but was already defined by " ++ first ++ " with value " ++ toString firstValue ++
      "; keeping the first definition"
  | .unusedRegion region => "Bit-band region " ++ region ++ " does not contain any registers"
  | .aliased registers =>
    "Generated bit-band addresses for " ++ toString registers ++ " registers"

end Event

/-- A result, or the error in its place, with the events noted on the way. -/
structure Logged (α : Type) where
  events : List Event := []
  result : Except Error α

namespace Logged

instance : Monad Logged where
  pure a := { result := .ok a }
  bind x f :=
    match x.result with
    | .ok a =>
      let y := f a
      { events := x.events ++ y.events, result := y.result }
    | .error e => { events := x.events, result := .error e }

/-- A result without events. -/
def ofExcept {α : Type} (x : Except Error α) : Logged α :=
  { result := x }

instance : MonadLift (Except Error) Logged := ⟨ofExcept⟩

instance : MonadExcept Error Logged where
  throw e := { result := .error e }
  tryCatch x f :=
    match x.result with
    | .ok _ => x
    | .error e =>
      let y := f e
      { events := x.events ++ y.events, result := y.result }

/-- Note an event. -/
def note (e : Event) : Logged Unit :=
  { events := [e], result := .ok () }

/-- Note several events in order. -/
def noteAll (es : List Event) : Logged Unit :=
  { events := es, result := .ok () }

@[simp] theorem result_pure {α : Type} (a : α) : (pure a : Logged α).result = .ok a := rfl

@[simp] theorem events_pure {α : Type} (a : α) : (pure a : Logged α).events = [] := rfl

@[simp] theorem result_bind {α β : Type} (x : Logged α) (f : α → Logged β) :
    (x >>= f).result = x.result >>= fun a => (f a).result := by
  obtain ⟨es, r⟩ := x
  cases r <;> rfl

@[simp] theorem result_ofExcept {α : Type} (x : Except Error α) : (ofExcept x).result = x := rfl

@[simp] theorem events_ofExcept {α : Type} (x : Except Error α) : (ofExcept x).events = [] := rfl

@[simp] theorem result_note (e : Event) : (note e).result = .ok () := rfl

@[simp] theorem result_noteAll (es : List Event) : (noteAll es).result = .ok () := rfl

end Logged

end RegisterMap
