import ZkEvm.Goldilocks
import ZkEvm.Memory.Columns
import ZkEvm.Memory.Constraints
import ZkEvm.Memory.Circuit
import ZkEvm.Memory.Soundness
import ZkEvm.Memory.Filters
import ZkEvm.Memory.Ops
import ZkEvm.Memory.FillGaps
import ZkEvm.Memory.Generation
import ZkEvm.Memory.Trace
import ZkEvm.Memory.ColMajor
import ZkEvm.Memory.Completeness
import ZkEvm.Memory.Balance
import ZkEvm.Memory.Accounting
import ZkEvm.Memory.MemAfter
import ZkEvm.Memory.Ctl
import ZkEvm.TraceDecoder.Nibbles
import ZkEvm.TraceDecoder.TrieKey
import ZkEvm.TraceDecoder.TypedMpt
import ZkEvm.TraceDecoder.Tries
import ZkEvm.Prover.Pipeline
