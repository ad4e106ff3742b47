import ZnsFlash.Library.Runs
import ZnsFlash.Library.Zoned
import ZnsFlash.Rtl.Word
import ZnsFlash.Rtl.Validator
import ZnsFlash.Rtl.Controller
import ZnsFlash.Rtl.Transaction
import ZnsFlash.Rtl.Accounting
import ZnsFlash.Rtl.Trace
import ZnsFlash.Sim.Bridge
import ZnsFlash.Sim.ReadEffect
import ZnsFlash.Sim.Driver
import ZnsFlash.Ssd.ZnsManager
import ZnsFlash.Ssd.Gate
import ZnsFlash.Library.BigEndian
import ZnsFlash.Nbd.Wire
import ZnsFlash.Nbd.Phases
import ZnsFlash.Nbd.Requests
import ZnsFlash.Nbd.Outcomes
import ZnsFlash.Nbd.OpenZones
import ZnsFlash.Nbd.Bounds
import ZnsFlash.Host.Ftl
import ZnsFlash.Host.PageStore
import ZnsFlash.Host.Simulator
import ZnsFlash.Host.Stress
import ZnsFlash.Sim.Faithful
import ZnsFlash.Sim.OutOfRange
import ZnsFlash.Sim.Completion
import ZnsFlash.Rtl.Resets
import ZnsFlash.Host.Framing
import ZnsFlash.Host.Recovery
import ZnsFlash.Library.Reader
import ZnsFlash.Nbd.Stream
import ZnsFlash.Library.EarliestFit
import ZnsFlash.Ssd.Channel
import ZnsFlash.Library.Holdings
import ZnsFlash.Library.Yields
import ZnsFlash.Ssd.Flash
import ZnsFlash.Ssd.BlockManager
import ZnsFlash.Ssd.Bast
import ZnsFlash.Ssd.BastReads
import ZnsFlash.Ssd.Fast
import ZnsFlash.Ssd.FastState
import ZnsFlash.Ssd.FastMerges
import ZnsFlash.Ssd.FastRandomMerge
import ZnsFlash.Ssd.FastReads
import ZnsFlash.Library.Pipeline
import ZnsFlash.Rtl.Crypto
import ZnsFlash.Rtl.CryptoStream
import ZnsFlash.Host.Reach
import ZnsFlash.Host.Cursor
import ZnsFlash.Host.Retry
import ZnsFlash.Host.LostAck
import ZnsFlash.Host.Lengths
import ZnsFlash.Library.Serial
import ZnsFlash.Rtl.Eeprom
import ZnsFlash.Library.MixedRadix
import ZnsFlash.Ssd.Geometry
import ZnsFlash.Ssd.Plane
import ZnsFlash.Ssd.FreeBlocks
import ZnsFlash.Library.Buckets
import ZnsFlash.Ssd.FastTrim
import ZnsFlash.Ssd.Counters
import ZnsFlash.Ssd.FastLogList
import ZnsFlash.Ssd.FastHoldings
import ZnsFlash.Ssd.FastVersions
import ZnsFlash.Ssd.FastTenancy
import ZnsFlash.Ssd.FastIsolation
import ZnsFlash.Ssd.FastNewest
import ZnsFlash.Library.Indexed
import ZnsFlash.Ssd.Dftl
import ZnsFlash.Ssd.DftlCache
import ZnsFlash.Ssd.DftlCounter
import ZnsFlash.Ssd.Bdftl
import ZnsFlash.Ssd.BdftlConversion
import ZnsFlash.Ssd.Bookkeeping
import ZnsFlash.Rtl.Verilated
import ZnsFlash.Rtl.VerilatedBits
import ZnsFlash.Rtl.VerilatedEval
import ZnsFlash.Sim.VerilatedBridge
import ZnsFlash.Soc.Csr
import ZnsFlash.Soc.Command
import ZnsFlash.Nbd.Negotiation
import ZnsFlash.Library.Placement
import ZnsFlash.Ssd.DftlMedia
import ZnsFlash.Library.Lockstep
import ZnsFlash.Ssd.Hardware
import ZnsFlash.Library.Overlay
import ZnsFlash.Nbd.Disk
import ZnsFlash.Nbd.Sockets
import ZnsFlash.Ssd.ZnsFtl
import ZnsFlash.Ssd.PlaneFree
import ZnsFlash.Ssd.PageFtl
import ZnsFlash.Host.Fill
import ZnsFlash.Soc.Answers
import ZnsFlash.Rtl.EepromRuns
import ZnsFlash.Sim.Answers
