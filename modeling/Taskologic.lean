import Taskologic.Library.Outcome
import Taskologic.Library.Framing
import Taskologic.Library.Transaction
import Taskologic.Library.Interleaving
import Taskologic.Library.OwnPast
import Taskologic.Library.Digraph
import Taskologic.Library.CheckDigit
import Taskologic.Library.Lineage
import Taskologic.Library.Renumbering
import Taskologic.Library.PrefixCode
import Taskologic.Library.PostOrder
import Taskologic.Library.Earliest
import Taskologic.Library.Spells
import Taskologic.Library.Horizon
import Taskologic.Library.Course
import Taskologic.Core.Ids
import Taskologic.Core.Barcode
import Taskologic.Core.Control
import Taskologic.Core.ControlCodec
import Taskologic.Core.ControlRoundTrip
import Taskologic.Core.ControlPanics
import Taskologic.Core.PayloadCodes
import Taskologic.Core.DetectorAccount
import Taskologic.Core.ScannerEnter
import Taskologic.Core.DetectorScans
import Taskologic.Core.Board
import Taskologic.Core.Calendar
import Taskologic.Core.Months
import Taskologic.Core.NextFiring
import Taskologic.Core.ClockChanges
import Taskologic.Core.Draft
import Taskologic.Core.Engine
import Taskologic.Core.FanOutClosing
import Taskologic.Core.ProgramNames
import Taskologic.Core.Stitching
import Taskologic.Daemon.Error
import Taskologic.Daemon.FanOut
import Taskologic.Daemon.FanOutOrder
import Taskologic.Daemon.ReactionDrafts
import Taskologic.Core.Task
import Taskologic.Core.Event
import Taskologic.Core.Permission
import Taskologic.Core.Repetition
import Taskologic.Core.Deps
import Taskologic.Core.Transition
import Taskologic.Core.Template
import Taskologic.Core.TemplateDates
import Taskologic.Core.TemplateOrder
import Taskologic.Core.Stats
import Taskologic.Core.TimeTaken
import Taskologic.Daemon.Store
import Taskologic.Daemon.Repo
import Taskologic.Daemon.Programs
import Taskologic.Daemon.Handlers
import Taskologic.Daemon.Transfer
import Taskologic.Daemon.Server
import Taskologic.Daemon.PrintQueue
import Taskologic.Daemon.PrintHandOuts
import Taskologic.Daemon.Frames
import Taskologic.Daemon.Requests
import Taskologic.Daemon.Retention
import Taskologic.Daemon.ChecklistTicks
import Taskologic.Daemon.EditVersions
import Taskologic.Daemon.Changes
import Taskologic.Daemon.Accounts
import Taskologic.Daemon.EngineAccounts
import Taskologic.Daemon.EngineRules
import Taskologic.Daemon.Numbering
import Taskologic.Daemon.OverRuns
import Taskologic.Daemon.Sessions
import Taskologic.Daemon.RepeatFrames
import Taskologic.Daemon.RepeatChains
import Taskologic.Daemon.BoardRights
import Taskologic.Daemon.RepeatDrafts
import Taskologic.Daemon.SavedAsIs
import Taskologic.Daemon.ChangeLog
import Taskologic.Daemon.Analytics
import Taskologic.Daemon.Export
import Taskologic.Daemon.ImportedTimes
import Taskologic.Daemon.RemapUsers
import Taskologic.Daemon.TemplateDeps
import Taskologic.Daemon.Stamping
import Taskologic.Daemon.StampedDates
import Taskologic.Daemon.RuleSlips
import Taskologic.Daemon.GroupWaits
import Taskologic.Daemon.TimeLimits
import Taskologic.Daemon.RemovedColumns
import Taskologic.Daemon.Positions
import Taskologic.Daemon.PlacedSections
import Taskologic.Print.Slip
import Taskologic.Print.Layout
import Taskologic.Print.EscPos
import Taskologic.Print.Render
import Taskologic.Print.WrappedText
import Taskologic.Print.Bitmap
import Taskologic.Print.NativeCodes
import Taskologic.Print.CodeWidths
import Taskologic.Client.ControlValues
import Taskologic.Client.CodesPanel
import Taskologic.Client.Reorder
import Taskologic.Client.ArmedScans
import Taskologic.Library.Recorded
import Taskologic.Library.Broadcast
import Taskologic.Daemon.Warrants
import Taskologic.Daemon.RunColumns
import Taskologic.Daemon.Identities
import Taskologic.Daemon.Bus
import Taskologic.Core.BoardValidity
import Taskologic.Daemon.ValidBoards
import Taskologic.Daemon.RunClosing
import Taskologic.Daemon.Places
import Taskologic.Daemon.Homes
