import SheetIntake.Accounts.Migration
import SheetIntake.Cache.Connection
import SheetIntake.Main
import SheetIntake.Registry.Connection
import SheetIntake.Service.Application
import SheetIntake.Sheet.Formulas
import SheetIntake.Proofs.ColumnRanges
import SheetIntake.Proofs.CellRectangles
import SheetIntake.Proofs.ContactForms
import SheetIntake.Proofs.WrittenTables
import SheetIntake.Proofs.WorkerCounts
import SheetIntake.Proofs.ChunkCounts
import SheetIntake.Proofs.ThreadConnections
import SheetIntake.Proofs.FormulaMessages
import SheetIntake.Proofs.SchemaRaces
import SheetIntake.Proofs.SubmissionRaces
import SheetIntake.Proofs.CacheTransparency
import SheetIntake.Proofs.RepeatedHeaders
import SheetIntake.Proofs.RowIndependence
import SheetIntake.Proofs.WellFormedScripts
import SheetIntake.Proofs.FileTransport
import SheetIntake.Proofs.TaskHistories
import SheetIntake.Proofs.TokenAccess
import SheetIntake.Proofs.AccountFailures
import SheetIntake.Proofs.FileReports
import SheetIntake.Proofs.AccountUpdates
import SheetIntake.Proofs.AccountPages
import SheetIntake.Proofs.ActiveSchemas
import SheetIntake.Proofs.LevelOrder
import SheetIntake.Proofs.Reordering
import SheetIntake.Proofs.SupportedFormulas
