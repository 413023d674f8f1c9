import ShaderAssembly.CommandLine.Report
import ShaderAssembly.CommandLine.Request
import ShaderAssembly.CommandLine.Usage
import ShaderAssembly.CompilationCache
import ShaderAssembly.Compiler
import ShaderAssembly.DataText.Document
import ShaderAssembly.DataText.Fault
import ShaderAssembly.DataText.Numeral
import ShaderAssembly.DataText.Parts
import ShaderAssembly.DataText.Quotation
import ShaderAssembly.DataText.Value
import ShaderAssembly.Datum
import ShaderAssembly.Datum.Printer
import ShaderAssembly.Description
import ShaderAssembly.Dialect
import ShaderAssembly.Effect
import ShaderAssembly.Error
import ShaderAssembly.ExpandedText
import ShaderAssembly.Include.Directive
import ShaderAssembly.Include.Expand
import ShaderAssembly.Include.Expansion
import ShaderAssembly.IncludeGraph
import ShaderAssembly.Journal
import ShaderAssembly.LineMap
import ShaderAssembly.LinkedStage
import ShaderAssembly.Linking
import ShaderAssembly.Literal
import ShaderAssembly.LiveShader
import ShaderAssembly.Main
import ShaderAssembly.Number.Binary
import ShaderAssembly.Number.Decimal
import ShaderAssembly.Number.Shortest
import ShaderAssembly.Numbered
import ShaderAssembly.OrderedMap
import ShaderAssembly.Phrase
import ShaderAssembly.Position
import ShaderAssembly.Proofs.AccurateGraphs
import ShaderAssembly.Proofs.Actions
import ShaderAssembly.Proofs.AgreeingDialects
import ShaderAssembly.Proofs.AnnotatedProperties
import ShaderAssembly.Proofs.AnnouncedPreambles
import ShaderAssembly.Proofs.BlockOrigins
import ShaderAssembly.Proofs.BlocksInStep
import ShaderAssembly.Proofs.BodyRequests
import ShaderAssembly.Proofs.CacheChanges
import ShaderAssembly.Proofs.CacheFreshness
import ShaderAssembly.Proofs.CacheSteps
import ShaderAssembly.Proofs.CodeBodies
import ShaderAssembly.Proofs.CompileOutcomes
import ShaderAssembly.Proofs.CompileRules
import ShaderAssembly.Proofs.CompiledKeys
import ShaderAssembly.Proofs.ConfinedPaths
import ShaderAssembly.Proofs.DeclarationOrder
import ShaderAssembly.Proofs.DeclaredEffects
import ShaderAssembly.Proofs.DeclaredTables
import ShaderAssembly.Proofs.DescribedShaders
import ShaderAssembly.Proofs.DescriptionGrammar
import ShaderAssembly.Proofs.DescriptionParsers
import ShaderAssembly.Proofs.DescriptionParts
import ShaderAssembly.Proofs.DirectivePlaces
import ShaderAssembly.Proofs.EffectGrammar
import ShaderAssembly.Proofs.EffectParsers
import ShaderAssembly.Proofs.EffectParts
import ShaderAssembly.Proofs.EffectPlaces
import ShaderAssembly.Proofs.ExpandedLines
import ShaderAssembly.Proofs.FreshNumbers
import ShaderAssembly.Proofs.GrammarPhrases
import ShaderAssembly.Proofs.GraphQueries
import ShaderAssembly.Proofs.HeededTokens
import ShaderAssembly.Proofs.HoistedVersions
import ShaderAssembly.Proofs.IncludeCycles
import ShaderAssembly.Proofs.IncludeFragments
import ShaderAssembly.Proofs.IncludeGraphs
import ShaderAssembly.Proofs.IncludeRules
import ShaderAssembly.Proofs.IncludeRuns
import ShaderAssembly.Proofs.IncludeSubstitution
import ShaderAssembly.Proofs.IncludeWalks
import ShaderAssembly.Proofs.IndexedShaders
import ShaderAssembly.Proofs.IntegerDefaults
import ShaderAssembly.Proofs.ItemTexts
import ShaderAssembly.Proofs.LineMaps
import ShaderAssembly.Proofs.LinePlaces
import ShaderAssembly.Proofs.LinkedCode
import ShaderAssembly.Proofs.LinkedLines
import ShaderAssembly.Proofs.LinkedOutlines
import ShaderAssembly.Proofs.MappedExpansions
import ShaderAssembly.Proofs.MarkerReplay
import ShaderAssembly.Proofs.MatchingRuns
import ShaderAssembly.Proofs.MovedItems
import ShaderAssembly.Proofs.OrderedTokens
import ShaderAssembly.Proofs.OrdinaryTexts
import ShaderAssembly.Proofs.OverlappingReloads
import ShaderAssembly.Proofs.ParserResults
import ShaderAssembly.Proofs.ParserRuns
import ShaderAssembly.Proofs.PlacedShaders
import ShaderAssembly.Proofs.PlainPhrases
import ShaderAssembly.Proofs.QuotedStrings
import ShaderAssembly.Proofs.ReachedFiles
import ShaderAssembly.Proofs.ReadLogs
import ShaderAssembly.Proofs.ReadShaders
import ShaderAssembly.Proofs.RearrangedItems
import ShaderAssembly.Proofs.RecognizedPhrases
import ShaderAssembly.Proofs.RecordedFiles
import ShaderAssembly.Proofs.RecordedReads
import ShaderAssembly.Proofs.ReloadChains
import ShaderAssembly.Proofs.ReloadRecovery
import ShaderAssembly.Proofs.ReloadSteps
import ShaderAssembly.Proofs.ReportedTokens
import ShaderAssembly.Proofs.ResolvedLinks
import ShaderAssembly.Proofs.RestoredChains
import ShaderAssembly.Proofs.RootedPaths
import ShaderAssembly.Proofs.RunLengthMaps
import ShaderAssembly.Proofs.ScannedNumbers
import ShaderAssembly.Proofs.ScannedParts
import ShaderAssembly.Proofs.ScannedTokens
import ShaderAssembly.Proofs.ShaderParts
import ShaderAssembly.Proofs.SharedCaches
import ShaderAssembly.Proofs.SharedSources
import ShaderAssembly.Proofs.StageCodes
import ShaderAssembly.Proofs.StageKeys
import ShaderAssembly.Proofs.StageWriting
import ShaderAssembly.Proofs.SurfacedFaults
import ShaderAssembly.Proofs.TextLines
import ShaderAssembly.Proofs.TextTiles
import ShaderAssembly.Proofs.Traceability
import ShaderAssembly.Proofs.TracedShaders
import ShaderAssembly.Proofs.TruthfulReloads
import ShaderAssembly.Proofs.TypedProperties
import ShaderAssembly.Proofs.UnambiguousGrammar
import ShaderAssembly.Proofs.UnchangingSources
import ShaderAssembly.Proofs.WholeNumbers
import ShaderAssembly.Proofs.WrittenEffects
import ShaderAssembly.Proofs.WrittenShaders
import ShaderAssembly.Proofs.WrittenTokens
import ShaderAssembly.Property
import ShaderAssembly.PropertyTable
import ShaderAssembly.PropertyType
import ShaderAssembly.Settings
import ShaderAssembly.Settings.Reader
import ShaderAssembly.Shader
import ShaderAssembly.SourcePath
import ShaderAssembly.Sources.Cached
import ShaderAssembly.Sources.Embedded
import ShaderAssembly.Sources.FileSystem
import ShaderAssembly.Sources.FileTree
import ShaderAssembly.Sources.Memory
import ShaderAssembly.Sources.Provider
import ShaderAssembly.Sources.Survey
import ShaderAssembly.Stage
import ShaderAssembly.StageWriter
import ShaderAssembly.Text.Blank
import ShaderAssembly.Text.Digits
import ShaderAssembly.Text.Hidden
import ShaderAssembly.Text.Lines
import ShaderAssembly.Text.Quoted
import ShaderAssembly.Text.Split
import ShaderAssembly.Text.Word
import ShaderAssembly.Token
import ShaderAssembly.Token.Piece
import ShaderAssembly.Token.Scan
import ShaderAssembly.TokenStream
import ShaderAssembly.Version
