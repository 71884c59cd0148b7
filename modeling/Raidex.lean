import Raidex.Lib.Run
import Raidex.Lib.Fsm
import Raidex.Lib.Dedup
import Raidex.Lib.Json
import Raidex.Lib.SortedDict
import Raidex.Lib.Sedes
import Raidex.Lib.Decimal
import Raidex.Lib.Grouping
import Raidex.Lib.Binary64
import Raidex.Number
import Raidex.ExactNumber
import Raidex.RoundedNumber
import Raidex.Timestamp
import Raidex.Envelope
import Raidex.MessageBroker
import Raidex.MessageClasses
import Raidex.Base64
import Raidex.Enveloping
import Raidex.CommitmentService.Announcements
import Raidex.CommitmentService.Accounting
import Raidex.CommitmentService.Tasks
import Raidex.CommitmentService.Registry
import Raidex.CommitmentService.Errors
import Raidex.CommitmentService.Cancelling
import Raidex.CommitmentService.Deposits
import Raidex.CommitmentService.Settlement
import Raidex.CommitmentService.RefundTask
import Raidex.CommitmentService.Solvency
import Raidex.CommitmentService.Certificates
import Raidex.CommitmentService.Engagements
import Raidex.CommitmentService.Secrets
import Raidex.CommitmentService.Reuse
import Raidex.CommitmentService.Deadlines
import Raidex.RaidexNode.Offer
import Raidex.RaidexNode.OfferBook
import Raidex.RaidexNode.DataManager
import Raidex.RaidexNode.Handlers
import Raidex.RaidexNode.Effects
import Raidex.RaidexNode.Orders
import Raidex.RaidexNode.Handling
import Raidex.RaidexNode.Models
import Raidex.RaidexNode.App
import Raidex.RaidexNode.Survival
import Raidex.RaidexNode.Steps
import Raidex.RaidexNode.Dispatches
import Raidex.RaidexNode.Progress
import Raidex.RaidexNode.Payments
import Raidex.RaidexNode.Execution
import Raidex.RaidexNode.TimeoutHandler
import Raidex.RaidexNode.BookIndex
import Raidex.RaidexNode.Pricing
import Raidex.RaidexNode.FloatPrices
import Raidex.RaidexNode.Counts
import Raidex.RaidexNode.Conversations
import Raidex.RaidexNode.Correspondence
import Raidex.RaidexNode.Awaiting
import Raidex.RaidexNode.Expectations
import Raidex.RaidexNode.Takes
import Raidex.RaidexNode.LifeCycle
import Raidex.RaidexNode.TradeTerms
import Raidex.RaidexNode.ExactPrices
import Raidex.RaidexNode.Inbound
import Raidex.RaidexNode.Polling
import Raidex.RaidexNode.Channels
import Raidex.RaidexNode.Transport
import Raidex.RaidexNode.BrokerClient
import Raidex.RaidexNode.Streaming
import Raidex.RaidexNode.InOrder
import Raidex.RaidexNode.Deafness
import Raidex.RaidexNode.Withdrawal
import Raidex.RaidexNode.OrderAccounts
import Raidex.RaidexNode.AllOrNothing
import Raidex.RaidexNode.OrderCancelling
import Raidex.RaidexNode.OrderFunds
import Raidex.RaidexNode.OrderProgress
import Raidex.RaidexNode.Settles
import Raidex.RaidexNode.Timers
import Raidex.RaidexNode.Sources
import Raidex.RaidexNode.Trades
import Raidex.RaidexNode.ListenerTasks
import Raidex.RaidexNode.MarketPrice
import Raidex.RaidexNode.OfferGrouping
import Raidex.RaidexNode.GroupedOffers
import Raidex.RaidexNode.RecentTrades
import Raidex.RaidexNode.PriceBins
import Raidex.RaidexNode.PriceChart
import Raidex.RaidexNode.MarketViews
import Raidex.RaidexNode.TimeBins
import Raidex.Protocol.System
import Raidex.Protocol.OneSided
import Raidex.Protocol.Agreement
import Raidex.Protocol.Partners
