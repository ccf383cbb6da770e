import Bindery.Main
import Bindery.Proofs.Wrapper.FirstMatch
import Bindery.Proofs.Script.RoundTrip
import Bindery.Proofs.Json.Records
import Bindery.Proofs.Cache.Records
import Bindery.Proofs.Cache.Nested
import Bindery.Proofs.Cache.Loading
import Bindery.Proofs.Files.Path
import Bindery.Proofs.Files.Writing
import Bindery.Proofs.Files.Rewriting
import Bindery.Proofs.Cache.RoundTrip
import Bindery.Proofs.Wrapper.ScopeOrder
import Bindery.Proofs.Wrapper.ScopeNames
import Bindery.Proofs.Cache.KindOrder
import Bindery.Proofs.Wrapper.CacheFormats
import Bindery.Proofs.Script.ViablePrefix
import Bindery.Proofs.Wrapper.WrittenOut
import Bindery.Proofs.LastOfEach
import Bindery.Proofs.Symbols.Places
import Bindery.Proofs.Symbols.LogReplay
import Bindery.Proofs.Symbols.Spelling
import Bindery.Proofs.Reference.Walk
import Bindery.Proofs.Symbols.Overloads
import Bindery.Proofs.Reference.Members
import Bindery.Proofs.Reference.FreeFunctions
import Bindery.Proofs.Reference.Extraction
import Bindery.Proofs.Returns
import Bindery.Proofs.Symbols.Storable
import Bindery.Proofs.Script.Storable
import Bindery.Proofs.Reference.Storable
import Bindery.Proofs.Cache.Storable
import Bindery.Proofs.Loaded
import Bindery.Proofs.Wrapper.FileGrammar
import Bindery.Proofs.Wrapper.EqualTables
import Bindery.Proofs.TwoRuns
import Bindery.Proofs.Symbols.LookUps
import Bindery.Proofs.Cache.Separation
import Bindery.Proofs.Json.Reordered
import Bindery.Proofs.Cache.ReorderedRecords
import Bindery.Proofs.Symbols.Alike
import Bindery.Proofs.Symbols.Writes
import Bindery.Proofs.Cache.ReorderedDocuments
import Bindery.Proofs.Cache.KeyOrder
import Bindery.Proofs.Symbols.Overlay
import Bindery.Proofs.Reference.Overlay
import Bindery.Proofs.Script.Positions
import Bindery.Proofs.Script.Moving
import Bindery.Proofs.Script.MovedCalls
import Bindery.Proofs.Script.Concatenation
import Bindery.Proofs.Cache.Reloading
import Bindery.Proofs.Command.Extract
import Bindery.Proofs.Symbols.TypeWords
import Bindery.Proofs.Symbols.NormalBase
import Bindery.Proofs.Symbols.Qualified
import Bindery.Proofs.Script.Tiling
import Bindery.Proofs.Script.Schema
import Bindery.Proofs.Script.Admission
import Bindery.Proofs.Wrapper.Placeholders
import Bindery.Proofs.Reference.ScopeCuts
import Bindery.Proofs.Reference.MemberTypes
import Bindery.Proofs.Reference.ClassNames
import Bindery.Proofs.Wrapper.OwnCalls
import Bindery.Proofs.Reference.HeaderNames
import Bindery.Proofs.Reference.OwnNodes
import Bindery.Proofs.Cache.ClassKeys
import Bindery.Proofs.Text.Similar
import Bindery.Proofs.Wrapper.Suggestions
import Bindery.Proofs.Symbols.DuplicateParameters
import Bindery.Proofs.Symbols.GenericParameters
import Bindery.Proofs.OverloadContent
import Bindery.Proofs.Files.Parent
import Bindery.Proofs.Files.Folders
import Bindery.Proofs.Wrapper.Written
import Bindery.Proofs.Wrapper.Overwriting
import Bindery.Proofs.Wrapper.OneHeader
