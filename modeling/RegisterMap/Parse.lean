import RegisterMap.BitBand.Alias
import RegisterMap.Device.OfDraft
import RegisterMap.Draft.Alternates
import RegisterMap.Draft.Build
import RegisterMap.Draft.Derivation
import RegisterMap.Draft.Exclusion
import RegisterMap.Draft.Expansion
import RegisterMap.Markup.Encoding

/-!
# From a document to a device

`parse` reads a document and resolves the device that it describes, in steps that each take a draft
to the next one: derivations, arrays, exclusion, alternates, addresses. If bit-banding is wanted,
the regions are checked before anything else and the aliases are added at the end.
-/

namespace RegisterMap

/-- The choices of the caller. -/
structure Config where
  /-- Add bit-band aliases. -/
  enableBitBand : Bool := false
  /-- The bit-band regions, which count only if aliases are wanted. -/
  bitBandRegions : List Setting := []
  /-- Note siblings with a common address as warnings instead of refusing them. -/
  tolerateOverlaps : Bool := false
  /-- The names of peripherals, or arrays of peripherals, to be removed. -/
  excluded : List String := []
deriving Repr, Inhabited

/-- A document, given as text or as bytes. -/
inductive Source where
  | text (s : String)
  | encoded (bytes : List UInt8)
deriving DecidableEq, Repr

/-- The root element of the document. -/
def Source.read : Source → Except Error Element
  | .text s => Markup.readText s
  | .encoded bytes => Markup.readBytes bytes

/-- The regions in which aliases are wanted. -/
def Config.regions (c : Config) : Except Error (List BitBand.ConfiguredRegion) :=
  if c.enableBitBand then BitBand.regionsOf c.bitBandRegions else .ok []

/-- The device of a draft in which nothing is resolved yet, without bit-band aliases. -/
def resolve (config : Config) (draft : Draft.Device) : Logged Device := do
  let draft ← draft.resolveDerivations
  let draft ← draft.expand
  let draft ← draft.exclude config.excluded
  let draft ← draft.resolveAlternates
  let draft ← draft.resolveAddresses config.tolerateOverlaps
  Device.ofDraft draft

/-- The device that a document describes. -/
def parse (source : Source) (config : Config) : Logged Device := do
  let regions ← Logged.ofExcept config.regions
  let root ← Logged.ofExcept source.read
  let draft ← Draft.buildDevice root
  let device ← resolve config draft
  if config.enableBitBand then device.withAliases regions else return device

/-- The device that a document describes, if there is a document. -/
def parse? (source : Option Source) (config : Config) : Logged Device :=
  match source with
  | some source => parse source config
  | none => throw .noDocument

end RegisterMap
