import Finm327.Library.Runs
import Finm327.Library.LevelQueues
import Finm327.Phase4.OrderBook
import Finm327.Phase4.MatchingEngine
import Finm327.Phase4.LawfulBook
import Finm327.Phase4.SubmitLoop
import Finm327.Phase4.DeskInvariant
import Finm327.Phase4.FillAccounting
import Finm327.Phase4.Terminal
import Finm327.Phase4.PriceOrder
import Finm327.Phase4.Uncrossed
import Finm327.Phase4.Interchangeable
import Finm327.Phase4.Reference
import Finm327.Phase4.PriceTime
import Finm327.Library.Chains
import Finm327.Library.Maps
import Finm327.Library.Comparisons
import Finm327.Phase5.MemoryPool
import Finm327.Phase5.OrderBook
import Finm327.Phase5.LiveOrders
import Finm327.Phase5.NodeLinks
import Finm327.Phase5.OptimizedInvariant
import Finm327.Phase5.Equivalence
import Finm327.Library.CyclicTables
import Finm327.Hw5.RobinHoodMap
import Finm327.Hw5.RobinHoodLayout
import Finm327.Hw5.RobinHoodErase
import Finm327.Hw5.RobinHoodInsert
import Finm327.Hw5.RobinHoodGrowth
import Finm327.Hw5.FiniteMap
import Finm327.Hft.Trace
import Finm327.Library.DecimalText
import Finm327.Library.ReadLoops
import Finm327.Hft.Client
import Finm327.Hft.ClientNaive
import Finm327.Hft.Server
import Finm327.Hft.Parsing
import Finm327.Hft.Decode
import Finm327.Hft.Answer
import Finm327.Hft.ChallengeId
import Finm327.Hft.Socket
import Finm327.Hft.Stream
import Finm327.Hft.Receive
import Finm327.Hft.Framing
import Finm327.Hft2026.Client
import Finm327.Hft2026.Checksum
import Finm327.Hft2026.Session
import Finm327.Hft2026.Broadcast
import Finm327.Hft.Handshake
import Finm327.Hft.Turns
import Finm327.Hft.Handover
import Finm327.Hft.WorkerRuns
import Finm327.Hft.HandedValues
import Finm327.Phase5.IndexAgreement
import Finm327.Phase5.Arrivals
import Finm327.Phase5.Refinement
import Finm327.Phase5.PoolUse
import Finm327.Phase4.Residence
import Finm327.Hft2026.Answers
import Finm327.Hft2026.Provenance
import Finm327.Hft2026.Segments
import Finm327.Hft2026.Utf8
import Finm327.Hft2026.Winner
import Finm327.Hw5.BinaryHeap
import Finm327.Hw5.PriorityQueue
import Finm327.Library.LevelIndex
import Finm327.Hw5.OrderBook
import Finm327.Hw5.FlatBook
import Finm327.Hw5.BookAgreement
import Finm327.Phase4.Reaping
import Finm327.Phase4.MemoryPool
import Finm327.Library.SignedArithmetic
import Finm327.Session3.SharedHandle
import Finm327.Session3.TradeLedger
import Finm327.Phase3.FeedParser
import Finm327.Phase3.MarketSnapshot
import Finm327.Phase3.OrderManager
import Finm327.Phase3.Strategy
import Finm327.Phase3.FillBounds
import Finm327.Phase3.SingleOrders
import Finm327.Phase2.Credits
import Finm327.Phase2.MomentumClient
import Finm327.Hft.TraceKernels
import Finm327.Hft2026.Dimensions
import Finm327.Hw5.ReachableTables
import Finm327.Hw5.StoredHomes
import Finm327.Phase4.Termination
import Finm327.Library.SlotPools
import Finm327.Phase5.FailedConstruction
import Finm327.Library.Buffers
import Finm327.Hw2.Linalg
import Finm327.Hw2.TiledProduct
import Finm327.Hw5.MovingAverage
import Finm327.Phase3.LatestQuotes
import Finm327.Hw3.TradeEngine
import Finm327.Library.XorShifts
import Finm327.Phase4.MarketData
import Finm327.Phase5.PoolBookkeeping
import Finm327.Hft.Correctness
import Finm327.Hft.WorkerCpu
import Finm327.Hw1.MatrixSum
import Finm327.Hw4.StackAllocator
import Finm327.Library.Mailboxes
import Finm327.Blast.Outboxes
import Finm327.Library.Windows
import Finm327.Blast.Rounds
import Finm327.Hft.Scoring
import Finm327.Phase4.LogGrowth
import Finm327.Phase4.Simulation
import Finm327.Phase5.Workload
import Finm327.Library.Monitors
import Finm327.Hw4.OrderBookBuffer
import Finm327.Hft.SelfCheck
import Finm327.Session3.TradeHandle
import Finm327.Dashboard.Standings
import Finm327.Hft2026.ClosedLoop
import Finm327.Hft2026.LoopInvariant
import Finm327.Hft2026.LoopProgress
import Finm327.Hw5.SymbolHash
import Finm327.Blast.AnswerLoop
import Finm327.Phase2.PriceLoop
import Finm327.Phase2.MomentumCredits
import Finm327.Phase2.MomentumProgress
