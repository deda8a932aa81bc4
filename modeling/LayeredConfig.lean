import LayeredConfig.Loading.Loader
import LayeredConfig.Logging.Builder
import LayeredConfig.Metadata.Document
import LayeredConfig.Migration.Analysis
import LayeredConfig.Chain.Resolution
import LayeredConfig.Json.Printer
import LayeredConfig.Provider.Script
import LayeredConfig.Proofs.Agreement
import LayeredConfig.Proofs.Answers
import LayeredConfig.Proofs.KeyIndex
import LayeredConfig.Proofs.Listing
import LayeredConfig.Proofs.MapperSoundness
import LayeredConfig.Proofs.MigrationLayout
import LayeredConfig.Mapping.Cached
import LayeredConfig.Proofs.SourceLookup
import LayeredConfig.Proofs.KeyIsolation
import LayeredConfig.Proofs.MadeSources
import LayeredConfig.Proofs.CacheKeys
import LayeredConfig.Proofs.Conservation
import LayeredConfig.Proofs.NameClasses
import LayeredConfig.Proofs.ChainEdits
import LayeredConfig.Proofs.Descendants
import LayeredConfig.Proofs.Respelling
import LayeredConfig.Proofs.Grammar
import LayeredConfig.Proofs.History
import LayeredConfig.Proofs.LookupLog
import LayeredConfig.Proofs.Transparency
import LayeredConfig.Proofs.Precedence
import LayeredConfig.Proofs.VariableNames
import LayeredConfig.Proofs.Appending
import LayeredConfig.Proofs.Reporting
import LayeredConfig.Proofs.TableOrder
import LayeredConfig.Proofs.TableIndex
import LayeredConfig.Proofs.Flattening
import LayeredConfig.Proofs.Directives
import LayeredConfig.Proofs.IndexNotation
import LayeredConfig.Proofs.LoadingOrder
import LayeredConfig.Proofs.PrefixedVariables
import LayeredConfig.Proofs.SubtreeOrder
import LayeredConfig.Proofs.NormalSpelling
import LayeredConfig.Proofs.MapTypes
