/-!
# Remarks on a document

Reading a document ends at once where the document has no form at all. Faults in the use of names,
identifiers and declarations do not end it: they are remarked on, and so are oddities that are no
faults. Only the last remark is kept, and it decides: what has been read counts unless the last
remark is a fault.
-/

namespace RegisterMap.Markup

/-- What can be remarked about a document while it is read. -/
inductive Remark where
  /-- Something unusual that is allowed. -/
  | oddity
  /-- Something that is not allowed. -/
  | fault
deriving DecidableEq, Repr

/-- A step of reading with its result. It may give up, and it hands on the last remark. -/
abbrev Remarked := StateT (Option Remark) Option

namespace Remarked

variable {α : Type}

/-- End the reading. -/
def giveUp : Remarked α := fun _ => none

/-- Go on only if a condition holds. -/
def require (p : Bool) : Remarked Unit :=
  if p then pure () else giveUp

/-- Make a remark. -/
def remark (r : Remark) : Remarked Unit := fun _ => some ((), some r)

/-- Make a remark if a condition holds. -/
def remarkIf (p : Bool) (r : Remark) : Remarked Unit :=
  if p then remark r else pure ()

/-- What has been read, if it counts. -/
def outcome? (r : Remarked α) : Option α :=
  match r none with
  | some (a, last) => if last = some .fault then none else some a
  | none => none

@[simp] theorem outcome?_pure (a : α) : outcome? (pure a) = some a := rfl

@[simp] theorem outcome?_giveUp : outcome? (giveUp : Remarked α) = none := rfl

end Remarked

end RegisterMap.Markup
