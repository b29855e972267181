import Binarius.Lib.Tx
import Binarius.Lib.Table
import Binarius.Shared.Money
import Binarius.Shared.Trading
import Binarius.Db.Schema
import Binarius.Db.TradeIntentOps.Transition
import Binarius.Db.TradeIntentOps.Create
import Binarius.Db.TradeIntentOps.Settle
import Binarius.Db.TokenOps
import Binarius.Db.Ledger
import Binarius.Db.IntentRuns
import Binarius.Backend.Outbox
import Binarius.Worker.World
import Binarius.Worker.Submission
import Binarius.Worker.Reconciliation
import Binarius.Backend.Delivery
import Binarius.Backend.Publisher
import Binarius.BrokerSocket.Socket
import Binarius.BrokerRest.Rest
import Binarius.BrokerSocket.Attribution
import Binarius.Lib.Slices
import Binarius.Worker.TradeCommandExecutor
import Binarius.Worker.TradePages
import Binarius.Worker.RestReconciler
import Binarius.Worker.ReconcileSoundness
import Binarius.Db.SessionLeaseOps
import Binarius.Worker.AbsenceProofs
import Binarius.Worker.SessionManager
import Binarius.Worker.LeaseExclusion
import Binarius.Backend.TokenService
import Binarius.Backend.RefreshOnce
import Binarius.Stake.Money
import Binarius.Stake.Size
import Binarius.Stake.Bounds
import Binarius.Db.TradingSessionOps
import Binarius.Backend.Driver
import Binarius.Backend.SessionSteps
import Binarius.Backend.SessionTrades
import Binarius.Backend.SessionNotices
import Binarius.Backend.NoticeCursor
import Binarius.Backend.SessionSummary
import Binarius.Backend.WaitingMessage
import Binarius.Backend.WaitingOwnership
import Binarius.Backend.WaitingDelete
import Binarius.Lib.ReadCommitted
import Binarius.Lib.RelyGuarantee
import Binarius.Lib.WaitsFor
import Binarius.Db.LockOrder
import Binarius.Db.NoDeadlock
import Binarius.Db.StarPayments
import Binarius.Db.StarPaymentRuns
import Binarius.Lib.Rows
import Binarius.Shared.Bonus
import Binarius.Shared.Postback
import Binarius.Db.Accounts.Schema
import Binarius.Db.Accounts.Bonus
import Binarius.Db.Accounts.Link
import Binarius.Db.Accounts.Postback
import Binarius.Db.PostbackTables
import Binarius.Db.PostbackRuns
import Binarius.Backend.DriverRuns
import Binarius.Stake.Recovery
import Binarius.Worker.DriverAgreement
import Binarius.Lib.OrderedMap
import Binarius.MarketData.Seconds
import Binarius.MarketData.CandleRing
import Binarius.MarketData.SecondRuns
import Binarius.MarketData.CandleHoles
import Binarius.MarketData.TickStore
import Binarius.Shared.BotTextTemplate
import Binarius.Lib.Reads
import Binarius.Shared.BotTextOverrides
import Binarius.Shared.BotTextResolver
import Binarius.Shared.MarkedHtml
import Binarius.Shared.BotTextRendering
import Binarius.Bot.Polling
import Binarius.Bot.PollingWork
import Binarius.Backend.Mailing
import Binarius.Bot.PollingOnce
import Binarius.Backend.MailingOnce
import Binarius.MarketData.Manager
import Binarius.MarketData.ManagerRuns
import Binarius.Lib.Window
import Binarius.Worker.GetBudget
import Binarius.Worker.PagedReading
import Binarius.Shared.SessionSettings
import Binarius.Backend.ProfitSigns
import Binarius.Backend.StepParity
import Binarius.Bot.EditPacer
import Binarius.Bot.EditPacing
import Binarius.Worker.TokenCaching
import Binarius.Backend.FastPath
import Binarius.Backend.ScanPacer
import Binarius.Backend.FirstTrade
import Binarius.Worker.QueuedJob
import Binarius.Db.LinkRuns
import Binarius.Db.SettlementOrder
import Binarius.Worker.TickScheduler
import Binarius.Signal.H1Detector
import Binarius.Signal.SignalCache
import Binarius.MarketData.Backfill
import Binarius.MarketData.CandlePartition
import Binarius.Worker.SessionWrites
import Binarius.Shared.HtmlTokens
import Binarius.Backend.NoSignalStop
import Binarius.Lib.ArgMax
import Binarius.Worker.Rendezvous
import Binarius.Stake.PlainAmounts
import Binarius.Stake.DecimalForms
import Binarius.Stake.MoneyTexts
import Binarius.Worker.FailureWindow
import Binarius.Shared.FetchDeadline
import Binarius.Signal.BuilderRuns
import Binarius.Lib.Regex
import Binarius.Bot.CallbackData
import Binarius.Bot.CallbackReadings
import Binarius.Bot.CallbackRoundTrips
import Binarius.Stake.Presets
import Binarius.Lib.Owed
import Binarius.Db.BonusTables
import Binarius.Db.BonusPayers
import Binarius.Db.BonusRuns
import Binarius.Lib.Tracks
import Binarius.Db.Accounts.Mode
import Binarius.Db.ModeTables
import Binarius.Db.ModeWriters
import Binarius.Db.ModeRuns
import Binarius.Lib.Reactions
import Binarius.Shared.TradingSwitch
import Binarius.Worker.CircuitBreaker
import Binarius.Db.TradingSwitch
import Binarius.Db.StaffLogins
import Binarius.Db.StaffKept
import Binarius.Db.StaffPrograms
import Binarius.Db.StaffRuns
