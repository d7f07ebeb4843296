import ProviderSchema.Assembly.Remarks
import ProviderSchema.Configuration.Encoding
import ProviderSchema.Main
import ProviderSchema.OpenApi.Encoding
import ProviderSchema.Proofs.Assembly.Arguments
import ProviderSchema.Proofs.Assembly.Computability
import ProviderSchema.Proofs.Assembly.IgnoredPaths
import ProviderSchema.Proofs.Assembly.Ignores
import ProviderSchema.Proofs.Assembly.Isolation
import ProviderSchema.Proofs.Assembly.OrderIndependence
import ProviderSchema.Proofs.Assembly.UniqueNames
import ProviderSchema.Proofs.Assembly.WellFormed
import ProviderSchema.Proofs.Attribute.Covers
import ProviderSchema.Proofs.Attribute.MergeByPath
import ProviderSchema.Proofs.Configuration.Validity
import ProviderSchema.Proofs.Node.BuiltAlike
import ProviderSchema.Proofs.Node.ErasedAttribute
import ProviderSchema.Proofs.Node.Location
import ProviderSchema.Proofs.Node.Outline
import ProviderSchema.Proofs.Node.Rearranged
import ProviderSchema.Proofs.OpenApi.EntryReferences
import ProviderSchema.Proofs.OpenApi.Expansion
import ProviderSchema.Proofs.OpenApi.Footprint
import ProviderSchema.Proofs.OpenApi.InlinedAgain
import ProviderSchema.Proofs.OpenApi.LeftReferences
import ProviderSchema.Proofs.OpenApi.Rearranged
import ProviderSchema.Proofs.OpenApi.RearrangedOperations
import ProviderSchema.Proofs.OpenApi.Resolver
import ProviderSchema.Proofs.OpenApi.Walk
import ProviderSchema.Proofs.OpenApi.WrittenDescription
import ProviderSchema.Proofs.OpenApi.BlockMapping
import ProviderSchema.Proofs.OpenApi.LocatedKeys
import ProviderSchema.Proofs.Files.Writing
import ProviderSchema.Proofs.CommandLine.Agreement
import ProviderSchema.Proofs.Attribute.Fragments
import ProviderSchema.Proofs.Attribute.FragmentMerge
import ProviderSchema.Proofs.Attribute.Disagreements
import ProviderSchema.Proofs.OpenApi.Replacement
import ProviderSchema.Proofs.Node.DepthAgreement
import ProviderSchema.Proofs.Node.Wrapped
import ProviderSchema.Proofs.Attribute.Absorption
import ProviderSchema.Proofs.Attribute.Associativity
import ProviderSchema.Proofs.Attribute.ElementOrder
import ProviderSchema.Proofs.Node.ErrorPaths
import ProviderSchema.Proofs.Node.IgnoredErrors
import ProviderSchema.Proofs.Node.BareMaps
import ProviderSchema.Proofs.Node.OwnKeywords
import ProviderSchema.Proofs.Attribute.IntegerBounds
import ProviderSchema.Proofs.Node.ValidatorLiterals
import ProviderSchema.Proofs.Node.CanonicalTree
import ProviderSchema.Proofs.Node.FirstFailure
import ProviderSchema.Proofs.Node.Unions
import ProviderSchema.Proofs.Text.IdentifierLanguage
import ProviderSchema.Proofs.Assembly.OverriddenDescriptions
import ProviderSchema.Proofs.Assembly.Unambiguous
import ProviderSchema.Proofs.OpenApi.BodySelection
import ProviderSchema.Proofs.OpenApi.EffectiveParameters
import ProviderSchema.Proofs.OpenApi.EnclosingBlocks
import ProviderSchema.Proofs.Node.EnumeratedTexts
import ProviderSchema.Proofs.Node.DepthLimit
