import RegisterMap.AddressRange
import RegisterMap.Malformed
import RegisterMap.Setting

/-!
# Errors

Everything that can go wrong on the way from a document to a resolved device, as causes. The wording
of each cause is in one place, `Error.message?`; causes that need no explanation have none.
-/

namespace RegisterMap

/-- The kinds of elements with a name. -/
inductive ElementKind where
  | peripheral
  | cluster
  | register
  | field
deriving DecidableEq, Repr

namespace ElementKind

/-- The kind in running text. -/
def noun : ElementKind → String
  | .peripheral => "peripheral"
  | .cluster => "cluster"
  | .register => "register"
  | .field => "field"

/-- The kind at the beginning of a sentence. -/
def title : ElementKind → String
  | .peripheral => "Peripheral"
  | .cluster => "Cluster"
  | .register => "Register"
  | .field => "Field"

end ElementKind

/-- What makes an element unusable. -/
inductive SchemaFault where
  | malformed (cause : Malformed)
  | unexpectedRoot (tag : String)
  | unnamedDevice
  | unnamed (kind : ElementKind)
  | addressUnit (bits : Int)
  | noBaseAddress
  | noOffset (kind : ElementKind)
  | incompleteAddressBlock
  | incompleteInterrupt
  | duplicatePeripheral (name : String)
  | duplicateMember (name : String)
  | duplicateField (name : String)
  | duplicateInstance (name : String)
  | derivationNotSupported
  | noBitRange
  | invalidBitRange (range : BitRange)
  | unnamedValue
  | duplicateValue (name : String)
  | incompleteDimension
  | invalidDimension (length : Int)
  | unresolvedBaseAddress
  | unresolvedOffset
  | noSize
  | invalidSize (size : Int)
  | noResetValue
  | fieldOutside (range : BitRange) (size : Int)
deriving DecidableEq, Repr

/-- The text for people. -/
def SchemaFault.message : SchemaFault → String
  | .malformed cause => "Malformed value: " ++ cause.message
  | .unexpectedRoot tag => "Expected a <device> root element, got <" ++ tag ++ ">"
  | .unnamedDevice => "Device is missing the required 'name' element"
  | .unnamed kind => "A " ++ kind.noun ++ " element is missing the required 'name' element"
  | .addressUnit bits =>
    "addressUnitBits is " ++ toString bits ++ ", only byte-addressable devices are supported"
  | .noBaseAddress => "Peripheral is missing the required 'baseAddress' element"
  | .noOffset kind => kind.title ++ " is missing the required 'addressOffset' element"
  | .incompleteAddressBlock => "Address block requires both 'offset' and 'size'"
  | .incompleteInterrupt => "Interrupt requires both 'name' and 'value'"
  | .duplicatePeripheral name => "Duplicate peripheral name '" ++ name ++ "'"
  | .duplicateMember name => "Duplicate element name '" ++ name ++ "'"
  | .duplicateField name => "Duplicate field name '" ++ name ++ "'"
  | .duplicateInstance name => "Duplicate element name '" ++ name ++ "' after expansion"
  | .derivationNotSupported => "'derivedFrom' is only supported on peripherals and registers"
  | .noBitRange => "Field is missing a bit range"
  | .invalidBitRange range => "Invalid field bit range " ++ toString range
  | .unnamedValue => "Enumerated value is missing the required 'name'"
  | .duplicateValue name => "Duplicate enumerated value name '" ++ name ++ "'"
  | .incompleteDimension => "Both 'dim' and 'dimIncrement' must be given for arrays"
  | .invalidDimension length => "Invalid dim value " ++ toString length
  | .unresolvedBaseAddress => "Peripheral has no base address"
  | .unresolvedOffset => "Element has no address offset"
  | .noSize => "Register has no size, and no size is inherited"
  | .invalidSize size => "Invalid register size " ++ toString size
  | .noResetValue => "Register has no reset value, and no reset value is inherited"
  | .fieldOutside range size =>
    "Field bits " ++ toString range.msb ++ ":" ++ toString range.offset ++ " do not fit in the " ++
      toString size ++ " bit register"

/-- What makes the index list of an array unusable. -/
inductive DimensionFault where
  | malformedIndex (index : String)
  | countMismatch (index : String) (found : Nat) (length : Int)
  | noPlaceholder (length : Int)
deriving DecidableEq, Repr

/-- The text for people. -/
def DimensionFault.message : DimensionFault → String
  | .malformedIndex index => "Malformed dimIndex '" ++ index ++ "'"
  | .countMismatch index found length =>
    "dimIndex '" ++ index ++ "' has " ++ toString found ++ " entries, but dim is " ++
      toString length
  | .noPlaceholder length =>
    "Element with dim " ++ toString length ++ " has no '%s' in its name"

/-- How one element refers to another. -/
inductive Relation where
  | derivation
  | alternate (kind : ElementKind)
deriving DecidableEq, Repr

/-- The name of the attribute or element that holds the reference. -/
def Relation.term : Relation → String
  | .derivation => "derivedFrom"
  | .alternate kind => "alternate" ++ kind.title

/-- Two sibling elements that occupy a common address. -/
structure Overlap where
  first : NodePath
  firstRange : AddressRange
  second : NodePath
  secondRange : AddressRange
deriving DecidableEq, Repr

/-- The text for people. -/
def Overlap.message (o : Overlap) : String :=
  "Element addresses for \"" ++ toString o.first ++ "\" (" ++ toString o.firstRange ++
    ") and \"" ++ toString o.second ++ "\" (" ++ toString o.secondRange ++ ") overlap"

/-- The bases and the size of a bit-band region as they are configured, before they are known to be
numbers. -/
structure RegionSetting where
  addressableBase : Setting
  addressableSize : Setting
  aliasBase : Setting
deriving Repr

/-- The region as messages show it. -/
def RegionSetting.describe (r : RegionSetting) : String :=
  "BitBandRegion(addressable_base=" ++ r.addressableBase.describe ++ ", addressable_size=" ++
    r.addressableSize.describe ++ ", alias_base=" ++ r.aliasBase.describe ++ ")"

/-- What makes a configured bit-band region unusable. -/
inductive RegionFault where
  | notTriple (entry : Setting)
  | empty (region : RegionSetting)
  | negativeBase (region : RegionSetting)
  | unalignedBase (region : RegionSetting)
  | unalignedAlias (region : RegionSetting)
  | aliasOutside (region : RegionSetting) (stop : Int)
deriving Repr

/-- The text for people. -/
def RegionFault.message : RegionFault → String
  | .notTriple entry =>
    about entry.describe "expected (addressable_base, addressable_size, alias_base)"
  | .empty r => about r.describe "addressable_size must be positive"
  | .negativeBase r => about r.describe "base addresses must not be negative"
  | .unalignedBase r => about r.describe "addressable_base must be word aligned"
  | .unalignedAlias r => about r.describe "alias_base must be word aligned"
  | .aliasOutside r stop =>
    about r.describe
      ("alias region ends at " ++ Text.address stop ++ ", outside the 32-bit address space")
where
  about (region explanation : String) : String :=
    "Invalid bit-band region " ++ region ++ ": " ++ explanation

/-- Why no result can be given. -/
inductive Error where
  /-- The document is not well formed. -/
  | document
  /-- There is no document. -/
  | noDocument
  /-- A text denotes no value. -/
  | malformed (cause : Malformed)
  /-- An element of the document is unusable. -/
  | schema (path : Option NodePath) (fault : SchemaFault)
  /-- The index list of an array does not agree with its length. -/
  | dimension (path : Option NodePath) (fault : DimensionFault)
  /-- A reference names no element. -/
  | missingReference (path : NodePath) (reference : String) (relation : Relation)
  /-- A chain of derivations leads back to one of its elements. -/
  | cycle (paths : List NodePath)
  /-- Two sibling elements occupy a common address. -/
  | overlap (overlap : Overlap)
  /-- A configured bit-band region is unusable. -/
  | region (fault : RegionFault)
  /-- The register, shown by its description, has no bit-band aliases. -/
  | notAliased (register : String)
  /-- Two items share a name. -/
  | duplicateName (name : String)
  /-- No item has the name. -/
  | unknownName (name : String)
  /-- The position is outside of the sequence. -/
  | outOfRange
  /-- An integer element has no text. -/
  | blankNumber
  /-- The element has no such property. -/
  | noProperty
  /-- The element has no members. -/
  | notContainer
  /-- A configured value is not a number. -/
  | notNumber
  /-- A draft that is not fully resolved was used as if it were. -/
  | unresolved
  /-- An address range is too long to be measured. -/
  | rangeTooLong
deriving Repr, Inhabited

namespace Error

/-- A message preceded by the path that it is about. -/
def located (path : Option NodePath) (message : String) : String :=
  match path with
  | some p => toString p ++ ": " ++ message
  | none => message

/-- The text for people. A missing item is reported by its name alone. -/
def message? : Error → Option String
  | .malformed cause => some cause.message
  | .schema path fault => some (located path fault.message)
  | .dimension path fault => some (located path fault.message)
  | .missingReference path reference relation =>
    some (toString path ++ ": element '" ++ reference ++ "' referenced in '" ++ relation.term ++
      "' was not found")
  | .cycle paths =>
    some ("Circular 'derivedFrom' chain: " ++ String.intercalate " -> " (paths.map toString))
  | .overlap o => some o.message
  | .region fault => some fault.message
  | .notAliased register => some (register ++ " is not located in a bit-band region")
  | .duplicateName name => some name
  | .unknownName name => some name
  | .document | .noDocument | .outOfRange | .blankNumber | .noProperty | .notContainer
  | .notNumber | .unresolved | .rangeTooLong => none

/-- Turn a malformed value into an error. -/
def liftMalformed {α : Type} (x : Except Malformed α) : Except Error α :=
  x.mapError .malformed

end Error

end RegisterMap
