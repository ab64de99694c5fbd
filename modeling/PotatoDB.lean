import PotatoDB.Server
import PotatoDB.ServerSound
import PotatoDB.AccessSound
import PotatoDB.ArrowWalSound
import PotatoDB.SavepointSound
import PotatoDB.SessionsSound
import PotatoDB.ValidatorsAgree
import PotatoDB.Visibility
import PotatoDB.CommitSound
import PotatoDB.BufferSound
import PotatoDB.Handlers
import PotatoDB.LogSound
import PotatoDB.CatalogFile
import PotatoDB.CatalogFileSound
import PotatoDB.SequencesSound
import PotatoDB.ReadonlySound
import PotatoDB.Evolution
import PotatoDB.DdlLogSound
import PotatoDB.ReferencesSound
import PotatoDB.Sorting
import PotatoDB.IndexOrderSound
import PotatoDB.PlanCache
import PotatoDB.PlanCacheSound
import PotatoDB.TimeTravel
import PotatoDB.TimeTravelSound
import PotatoDB.ReadPaths
import PotatoDB.ReadPathsSound
import PotatoDB.Placement
import PotatoDB.Scripts
import PotatoDB.Lexing
import PotatoDB.ScriptsSound
import PotatoDB.DeleteSound
import PotatoDB.Migrations
import PotatoDB.MigrationsSound
import PotatoDB.Statistics
import PotatoDB.StatisticsSound
import PotatoDB.TriggersSound
import PotatoDB.Nesting
import PotatoDB.Parameters
import PotatoDB.ParametersSound
import PotatoDB.Routines
import PotatoDB.RoutinesSound
import PotatoDB.Words
import PotatoDB.Repl
import PotatoDB.ReplSound
import PotatoDB.Slices
import PotatoDB.TextParsers
import PotatoDB.TextParsersSound
import PotatoDB.Codecs
import PotatoDB.CatalogJson
import PotatoDB.Faults
import PotatoDB.AlterSound
import PotatoDB.RewriteFaults
import PotatoDB.Selects
import PotatoDB.UpdateSound
import PotatoDB.ReturningSound
import PotatoDB.Quoting
import PotatoDB.KeyTexts
import PotatoDB.Literals
import PotatoDB.Excluded
import PotatoDB.Merging
import PotatoDB.MergeSound
import PotatoDB.Upserting
import PotatoDB.UpsertSound
import PotatoDB.Lexemes
import PotatoDB.LexemesSound
import PotatoDB.Stripping
import PotatoDB.Placeholders
import PotatoDB.UdfOrder
import PotatoDB.Nextval
import PotatoDB.Declared
import PotatoDB.BufferFaults
import PotatoDB.AtomicInsert
import PotatoDB.Compaction
import PotatoDB.Refreshing
import PotatoDB.Exports
import PotatoDB.ExportsSound
import PotatoDB.Editor
import PotatoDB.EditorSound
import PotatoDB.ResultTable
import PotatoDB.ResultTableSound
import PotatoDB.Substitution
import PotatoDB.TypeNames
import PotatoDB.AsOfClause
import PotatoDB.Patterns
import PotatoDB.FulltextMatch
import PotatoDB.ScalarSubqueries
import PotatoDB.BatchRows
import PotatoDB.History
import PotatoDB.Brackets
import PotatoDB.ArgumentLists
import PotatoDB.KeyedBounds
import PotatoDB.MinMaxValues
import PotatoDB.JsonText
import PotatoDB.JsonTorn
import PotatoDB.CatalogText
import PotatoDB.ChangeLog
import PotatoDB.Thresholds
import PotatoDB.Highlighting
import PotatoDB.Terminal
import PotatoDB.TerminalSound
import PotatoDB.PgCatalog
import PotatoDB.ExportScript
import PotatoDB.Backup
import PotatoDB.Grants
import PotatoDB.WireRows
import PotatoDB.Retention
import PotatoDB.Reopening
import PotatoDB.CellReaders
import PotatoDB.Crashes
import PotatoDB.RecoveryCrashes
