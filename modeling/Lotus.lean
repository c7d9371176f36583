import Lotus.Lib.MapSum
import Lotus.Lib.Run
import Lotus.Lib.GoInt
import Lotus.Lib.BitShift
import Lotus.Lib.SortSlice
import Lotus.Lib.GoSort
import Lotus.Lib.Filepath
import Lotus.Lib.Planner
import Lotus.Chain.Beacon.Beacon
import Lotus.Chain.Types.Message
import Lotus.Chain.Messagepool.MsgSet
import Lotus.Chain.Messagepool.Pool
import Lotus.Chain.Vm.Burn
import Lotus.Chain.Vm.Vm
import Lotus.Chain.Market.Fundmanager
import Lotus.Extern.SectorStorage.Fr32
import Lotus.Extern.SectorStorage.Ffiwrapper
import Lotus.Extern.StorageSealing.Types
import Lotus.Extern.StorageSealing.Input
import Lotus.Extern.StorageSealing.FsmEvents
import Lotus.Extern.StorageSealing.Fsm
import Lotus.Storage.WdpostRun
import Lotus.Storage.WdpostChangehandler
import Lotus.Paychmgr.Store
import Lotus.Paychmgr.Paych
import Lotus.Paychmgr.Vouchers
import Lotus.Extern.SectorStorage.Partialfile
import Lotus.Extern.SectorStorage.Stores.IndexLocks
import Lotus.Extern.SectorStorage.Stores.Local
import Lotus.Backupds.Log
import Lotus.Lib.Tree
import Lotus.Chain.Store.Index
import Lotus.Chain.Store.Coalescer
import Lotus.Chain.Events.Tscache
import Lotus.Chain.Events.EventsHeight
import Lotus.Extern.SectorStorage.ManagerCalltracker
import Lotus.Extern.SectorStorage.Sched
import Lotus.Chain.Messagepool.HeadChange
import Lotus.Paychmgr.Simple
import Lotus.Chain.Messagepool.Selection
import Lotus.Chain.Messagepool.Packing
import Lotus.Lib.LowBits
import Lotus.Extern.StorageSealing.Utils
import Lotus.Chain.Messagepool.MessageChains
import Lotus.Chain.Messagepool.Pruning
import Lotus.Extern.SectorStorage.Fr32Threads
import Lotus.Extern.SectorStorage.Fr32Readers
import Lotus.Extern.StorageSealing.Batching
import Lotus.Extern.StorageSealing.TerminateBatch
import Lotus.Chain.Types.Electionproof
import Lotus.Chain.Types.Tipset
import Lotus.Lib.Decimal
import Lotus.Chain.Types.Fil
import Lotus.Chain.Store.Store
import Lotus.Chain.Store.Basefee
import Lotus.Lib.RingBuffer
import Lotus.Lib.Simulation
import Lotus.Chain.Events.TscacheRing
import Lotus.Lib.Interleave
import Lotus.Extern.SectorStorage.SchedWorker
import Lotus.Lib.Runs
import Lotus.Extern.SectorStorage.UnsealPiece
import Lotus.Lib.Cbor
import Lotus.Backupds.Read
import Lotus.Backupds.StartLog
import Lotus.Lib.Dict
import Lotus.Chain.Exchange.Messages
import Lotus.Blockstore.Splitstore
import Lotus.Chain.Events.EventsCalled
import Lotus.Storage.WdpostCycle
import Lotus.Chain.Stmgr.Forks
import Lotus.Lib.SeqNo
import Lotus.Chain.Sync
import Lotus.Chain.Store.Messages
import Lotus.Markets.StorageAdapter.DealPublisher
