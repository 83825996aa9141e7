import RegisterMap.Device.Node
import RegisterMap.Parse
import RegisterMap.Proofs.AccessRights
import RegisterMap.Proofs.Addresses
import RegisterMap.Proofs.Addressing
import RegisterMap.Proofs.AliasRegions
import RegisterMap.Proofs.AliasWords
import RegisterMap.Proofs.Aliases
import RegisterMap.Proofs.Alternates
import RegisterMap.Proofs.BitEncodings
import RegisterMap.Proofs.BitRangeTexts
import RegisterMap.Proofs.Circles
import RegisterMap.Proofs.Clones
import RegisterMap.Proofs.ClusterExtents
import RegisterMap.Proofs.Completeness
import RegisterMap.Proofs.Components
import RegisterMap.Proofs.Defaults
import RegisterMap.Proofs.DepthFirst
import RegisterMap.Proofs.Digits
import RegisterMap.Proofs.Elements
import RegisterMap.Proofs.EqualScopes
import RegisterMap.Proofs.Escapes
import RegisterMap.Proofs.Exclusion
import RegisterMap.Proofs.Expansion
import RegisterMap.Proofs.Failure
import RegisterMap.Proofs.FieldRanges
import RegisterMap.Proofs.FreePaths
import RegisterMap.Proofs.IndexTokens
import RegisterMap.Proofs.InstanceNames
import RegisterMap.Proofs.Instances
import RegisterMap.Proofs.IntegerTexts
import RegisterMap.Proofs.Interrupts
import RegisterMap.Proofs.Itemwise
import RegisterMap.Proofs.Lines
import RegisterMap.Proofs.Names
import RegisterMap.Proofs.Navigation
import RegisterMap.Proofs.NumberTexts
import RegisterMap.Proofs.Occupancy
import RegisterMap.Proofs.Origins
import RegisterMap.Proofs.PaddedDocuments
import RegisterMap.Proofs.PairedArrays
import RegisterMap.Proofs.Parts
import RegisterMap.Proofs.Paths
import RegisterMap.Proofs.PeripheralDerivation
import RegisterMap.Proofs.Placeholders
import RegisterMap.Proofs.RegisterDerivation
import RegisterMap.Proofs.Reordering
import RegisterMap.Proofs.Repetition
import RegisterMap.Proofs.Reports
import RegisterMap.Proofs.Resolvability
import RegisterMap.Proofs.ScaledNumerals
import RegisterMap.Proofs.Separation
import RegisterMap.Proofs.SetOperations
import RegisterMap.Proofs.SiblingGroups
import RegisterMap.Proofs.Stages
import RegisterMap.Proofs.Sweep
import RegisterMap.Proofs.Tolerance
import RegisterMap.Proofs.Topics
import RegisterMap.Proofs.Traversal
import RegisterMap.Proofs.Trimming
import RegisterMap.Schema.Property
