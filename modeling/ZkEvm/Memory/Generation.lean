import ZkEvm.Memory.FillGaps

/-!
The trace generator of `memory_stark.rs`: `generate_first_change_flags_and_rc`,
`generate_trace_row_major`, `insert_stale_contexts`, `generate_trace_col_major` and
`MemoryStark::generate_trace`, over the Goldilocks field.

The trace is kept as its list of rows: the two transposes of `generate_trace` only change how
the same cells are stored. A panic (a failed assertion, an index out of bounds) is an error.
-/

namespace ZkEvm.Memory.Generation

open ZkEvm.Goldilocks ZkEvm.Memory.Columns ZkEvm.Memory.Ops ZkEvm.Memory.FillGaps

/-- A row of the memory table. -/
abbrev Row := MemoryColumnsView (ZMod goldilocks)

/-- `trace_rows[i]`, for `i` in range. -/
def rowAt (rows : List Row) (i : ℕ) : Row := rows.getD i MemoryColumnsView.default

/-- `rows[idx]` updated by `f`, panicking as the indexing does past the end. -/
def modifyAt (f : Row → Row) (idx : ℕ) (rows : List Row) : Except String (List Row) :=
  if idx < rows.length then .ok (rows.modify f idx)
  else .error ("index out of bounds: the len is " ++ toString rows.length ++
    " but the index is " ++ toString idx)

/-! ### Row-major generation -/

/-- One iteration of `generate_first_change_flags_and_rc`: the columns it sets on `row`, given
the row after it and whether `row` is the last. -/
def firstChangeFlagsAndRc (sg : SegmentIds) (isLast : Bool) (row nextRow : Row) : Row :=
  let contextChanged := row.addrContext != nextRow.addrContext
  let segmentChanged := row.addrSegment != nextRow.addrSegment
  let virtualChanged := row.addrVirtual != nextRow.addrVirtual
  let contextFirstChange := contextChanged
  let segmentFirstChange := segmentChanged && !contextFirstChange
  let virtualFirstChange := virtualChanged && !segmentFirstChange && !contextFirstChange
  let rangeCheck :=
    if isLast then 0
    else if contextFirstChange then nextRow.addrContext - row.addrContext - 1
    else if segmentFirstChange then nextRow.addrSegment - row.addrSegment - 1
    else if virtualFirstChange then nextRow.addrVirtual - row.addrVirtual - 1
    else nextRow.timestamp - row.timestamp
  let preinitializedSegmentsAux := (nextRow.addrSegment - sg.accountsLinkedList) *
    (nextRow.addrSegment - sg.storageLinkedList)
  let preinitializedSegments := (nextRow.addrSegment - sg.code) *
    (nextRow.addrSegment - sg.trieData) * preinitializedSegmentsAux
  let addressChanged := fromBool contextFirstChange + fromBool segmentFirstChange +
    fromBool virtualFirstChange
  { row with
    contextFirstChange := fromBool contextFirstChange
    segmentFirstChange := fromBool segmentFirstChange
    virtualFirstChange := fromBool virtualFirstChange
    rangeCheck := rangeCheck
    preinitializedSegmentsAux := preinitializedSegmentsAux
    preinitializedSegments := preinitializedSegments
    initializeAux := preinitializedSegments * addressChanged * nextRow.isRead }

/-- The message of the assertion of `generate_first_change_flags_and_rc`. -/
def rangeCheckTooLarge (rangeCheck : ZMod goldilocks) : String :=
  "Range check of " ++ toString rangeCheck.val ++ " is too large. Bug in fill_gaps?"

/-- `generate_first_change_flags_and_rc`: every row gets its flags from the row after it, the
last from row `0`, and a range check not below the number of rows fails the assertion. The
loop writes no column it reads, so each row is computed from the rows as they came in. -/
def generateFirstChangeFlagsAndRc (sg : SegmentIds) (traceRows : List Row) :
    Except String (List Row) :=
  let numOps := traceRows.length
  let rows := (List.range numOps).map fun idx =>
    firstChangeFlagsAndRc sg (idx == numOps - 1) (rowAt traceRows idx)
      (rowAt traceRows (if idx == numOps - 1 then 0 else idx + 1))
  match rows.find? fun row => numOps ≤ row.rangeCheck.val with
  | some row => .error (rangeCheckTooLarge row.rangeCheck)
  | none => .ok rows

/-- `MemoryStark::generate_trace_row_major`. -/
def generateTraceRowMajor (sg : SegmentIds) (memoryOps : List MemoryOp) :
    Except String (List Row × ℕ) := do
  let (memoryOps, unpaddedLength) ← sortedPaddedOps memoryOps
  let traceRows ← generateFirstChangeFlagsAndRc sg (memoryOps.map MemoryOp.intoRow)
  pure (traceRows, unpaddedLength)

/-- `MemoryStark::insert_stale_contexts`: the row whose index is a stale context records it,
plus one. The uniqueness check is a `debug_assert!`. -/
def insertStaleContexts (traceRows : List Row) (staleContexts : List ℕ) :
    Except String (List Row) :=
  if staleContexts.Nodup then
    staleContexts.foldlM (fun rows (ctx : ℕ) => modifyAt (fun row =>
      { row with staleContexts := (ctx : ZMod goldilocks) + 1, isPruned := 1 }) ctx rows) traceRows
  else .error "Stale contexts are not unique."

/-! ### Column-major generation -/

/-- `frequencies[idx] += 1`. -/
def bumpFrequencies (row : Row) : Row := { row with frequencies := row.frequencies + 1 }

/-- `stale_context_frequencies[idx] += 1`. -/
def bumpStaleContextFrequencies (row : Row) : Row :=
  { row with staleContextFrequencies := row.staleContextFrequencies + 1 }

/-- The first half of iteration `i` of the loop of `generate_trace_col_major`: the lookup
frequencies of the range check and, at a context or segment change, of the next virtual
address (of address `0` at the last row). -/
def countRangeChecks (rows : List Row) (i : ℕ) : Except String (List Row) := do
  let row := rowAt rows i
  let rows ← modifyAt bumpFrequencies row.rangeCheck.val rows
  if row.contextFirstChange = 1 ∨ row.segmentFirstChange = 1 then
    if i < rows.length - 1 then
      modifyAt bumpFrequencies (rowAt rows (i + 1)).addrVirtual.val rows
    else modifyAt bumpFrequencies 0 rows
  else pure rows

/-- The second half of iteration `i`: a row whose context is stale is marked and counted; any
other active row that ends an address may be in `mem_after`. -/
def markStaleOrMemAfter (sg : SegmentIds) (rows : List Row) (i : ℕ) :
    Except String (List Row) :=
  let row := rowAt rows i
  let addrCtx := row.addrContext
  let addrCtxUsize := addrCtx.val
  if addrCtxUsize < rows.length then
    if addrCtx + 1 = (rowAt rows addrCtxUsize).staleContexts then
      modifyAt bumpStaleContextFrequencies addrCtxUsize
        (rows.modify (fun r => { r with isStale := 1 }) i)
    else if row.filter = 1 ∧ (row.contextFirstChange = 1 ∨ row.segmentFirstChange = 1 ∨
        row.virtualFirstChange = 1) then
      let isNonZeroValue := decide (∃ limb, row.valueLimbs limb ≠ 0)
      let memAfter := isNonZeroValue ∨ row.addrSegment.val ∈ sg.preinitializedSegmentsIndices
      .ok (rows.modify (fun r => { r with
        maybeInMemAfter := 1
        memAfterFilter := if memAfter then 1 else r.memAfterFilter }) i)
    else .ok rows
  else .error ("index out of bounds: the len is " ++ toString rows.length ++
    " but the index is " ++ toString addrCtxUsize)

/-- Iteration `i` of the loop of `generate_trace_col_major`. -/
def colMajorStep (sg : SegmentIds) (rows : List Row) (i : ℕ) : Except String (List Row) := do
  let rows ← countRangeChecks rows i
  markStaleOrMemAfter sg rows i

/-- `MemoryStark::generate_trace_col_major`. -/
def generateTraceColMajor (sg : SegmentIds) (traceRows : List Row) : Except String (List Row) :=
  let height := traceRows.length
  let rows := traceRows.mapIdx fun i row => { row with counter := (i : ZMod goldilocks) }
  (List.range height).foldlM (colMajorStep sg) rows

/-! ### `generate_trace` -/

/-- The write at timestamp `0` that `generate_trace` makes of a `mem_before` value. -/
def memBeforeOp (addressValue : MemoryAddress × BitVec 256) : MemoryOp :=
  ⟨true, 0, addressValue.1, .write, addressValue.2⟩

/-- `MemoryStark::generate_trace`: the rows of the table (its columns, transposed), the values
for `MemAfterStark`, and the unpadded length. -/
def generateTrace (sg : SegmentIds) (memoryOps : List MemoryOp)
    (memBeforeValues : List (MemoryAddress × BitVec 256)) (staleContexts : List ℕ) :
    Except String (List Row × List (List (ZMod goldilocks)) × ℕ) := do
  let memoryOps := memoryOps ++ memBeforeValues.map memBeforeOp
  let (traceRows, unpaddedLength) ← generateTraceRowMajor sg memoryOps
  let traceRows ← insertStaleContexts traceRows staleContexts
  let traceRows ← generateTraceColMajor sg traceRows
  let memAfterValues := (traceRows.filter fun row => row.memAfterFilter = 1).map fun row =>
    1 :: row.addrValueSlice
  pure (traceRows, memAfterValues, unpaddedLength)

end ZkEvm.Memory.Generation
