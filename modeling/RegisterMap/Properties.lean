import RegisterMap.Text.Blank
import RegisterMap.Text.CaseFold

/-!
# Register properties

The closed vocabularies of the format (access rights, usages of address blocks, protections) and the
group of properties that devices, peripherals, clusters and registers share. Each property of the
group may be left open, and is then taken from the surrounding element.

Main definitions: `Vocabulary.read?` reads a word of a vocabulary without regard to case and
surrounding blank space, and `RegisterProperties.inherit` fills the open properties.
-/

namespace RegisterMap

/-- The vocabularies of the format. -/
inductive VocabularyKind where
  | access
  | usage
  | protection
deriving DecidableEq, Repr

/-- The name under which messages refer to a vocabulary. -/
def VocabularyKind.title : VocabularyKind → String
  | .access => "Access"
  | .usage => "AddressBlockUsage"
  | .protection => "Protection"

/-- A type whose values are the words of a vocabulary. -/
class Vocabulary (α : Type) where
  kind : VocabularyKind
  members : List α
  word : α → String

/-- The member whose word is the given text, up to case and surrounding blank space. -/
def Vocabulary.read? {α : Type} [Vocabulary α] (s : String) : Option α :=
  (members : List α).find? fun a => Text.foldCase (word a) == Text.foldCase (Text.trim s)

/-- Access rights of a register or field. -/
inductive Access where
  | readOnly
  | writeOnly
  | readWrite
  | writeOnce
  | readWriteOnce
deriving DecidableEq, Repr

instance : Vocabulary Access where
  kind := .access
  members := [.readOnly, .writeOnly, .readWrite, .writeOnce, .readWriteOnce]
  word
    | .readOnly => "read-only"
    | .writeOnly => "write-only"
    | .readWrite => "read-write"
    | .writeOnce => "writeOnce"
    | .readWriteOnce => "read-writeOnce"

/-- Reading has a defined result. -/
def Access.readable : Access → Bool
  | .readOnly | .readWrite | .readWriteOnce => true
  | .writeOnly | .writeOnce => false

/-- What an address block holds. -/
inductive Usage where
  | registers
  | buffer
  | reserved
deriving DecidableEq, Repr

instance : Vocabulary Usage where
  kind := .usage
  members := [.registers, .buffer, .reserved]
  word
    | .registers => "registers"
    | .buffer => "buffer"
    | .reserved => "reserved"

/-- Privilege required to access an address region. -/
inductive Protection where
  | secure
  | nonSecure
  | privileged
deriving DecidableEq, Repr

instance : Vocabulary Protection where
  kind := .protection
  members := [.secure, .nonSecure, .privileged]
  word
    | .secure => "s"
    | .nonSecure => "n"
    | .privileged => "p"

/-- Properties that an element may give for itself or take from the elements around it. -/
structure RegisterProperties where
  /-- Width of a register in bits. -/
  size : Option Int := none
  access : Option Access := none
  protection : Option Protection := none
  resetValue : Option Int := none
  /-- The bits with a defined reset value. -/
  resetMask : Option Int := none
deriving DecidableEq, Repr, Inhabited

namespace RegisterProperties

/-- The properties with each open one taken from `base`. -/
def inherit (own base : RegisterProperties) : RegisterProperties where
  size := own.size.or base.size
  access := own.access.or base.access
  protection := own.protection.or base.protection
  resetValue := own.resetValue.or base.resetValue
  resetMask := own.resetMask.or base.resetMask

@[simp] theorem inherit_empty (p : RegisterProperties) : p.inherit {} = p := by
  simp [inherit]

@[simp] theorem empty_inherit (p : RegisterProperties) : inherit {} p = p := by
  simp [inherit]

theorem inherit_assoc (p q r : RegisterProperties) :
    (p.inherit q).inherit r = p.inherit (q.inherit r) := by
  simp [inherit, Option.or_assoc]

@[simp] theorem inherit_self (p : RegisterProperties) : p.inherit p = p := by
  simp [inherit]

end RegisterProperties

end RegisterMap
