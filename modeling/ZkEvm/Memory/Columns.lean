import Mathlib.Data.Fintype.Basic

/-!
The columns of the memory table, one row per memory operation.

`MemoryColumnsView` is the row as `memory_stark.rs` reads it through `MEMORY_COL_MAP`; a value
is eight 32-bit limbs. The four preinitialized segments are named by the `Segment` constants
of the kernel, which are not part of this model: they are the parameter `SegmentIds`.
-/

namespace ZkEvm.Memory.Columns

/-- The number of 32-bit limbs of a 256-bit memory value. -/
def valueLimbs : ℕ := 8

/-- One row of the memory table, over any type of cells. -/
structure MemoryColumnsView (α : Type) where
  filter : α
  timestamp : α
  timestampInv : α
  isRead : α
  addrContext : α
  addrSegment : α
  addrVirtual : α
  valueLimbs : Fin valueLimbs → α
  contextFirstChange : α
  segmentFirstChange : α
  virtualFirstChange : α
  rangeCheck : α
  counter : α
  frequencies : α
  initializeAux : α
  preinitializedSegmentsAux : α
  preinitializedSegments : α
  staleContexts : α
  staleContextFrequencies : α
  isStale : α
  isPruned : α
  maybeInMemAfter : α
  memAfterFilter : α
  deriving DecidableEq

namespace MemoryColumnsView

variable {α : Type}

/-- The all-zero row, `MemoryColumnsView::default()`. -/
def default [Zero α] : MemoryColumnsView α :=
  ⟨0, 0, 0, 0, 0, 0, 0, fun _ => 0, 0, 0, 0, 0, 0, 0, 0, 0, 0, 0, 0, 0, 0, 0, 0⟩

/-- The row with `f` applied to every cell. -/
@[simps]
def map {β : Type} (f : α → β) (r : MemoryColumnsView α) : MemoryColumnsView β :=
  ⟨f r.filter, f r.timestamp, f r.timestampInv, f r.isRead, f r.addrContext, f r.addrSegment,
    f r.addrVirtual, fun i => f (r.valueLimbs i), f r.contextFirstChange, f r.segmentFirstChange,
    f r.virtualFirstChange, f r.rangeCheck, f r.counter, f r.frequencies, f r.initializeAux,
    f r.preinitializedSegmentsAux, f r.preinitializedSegments, f r.staleContexts,
    f r.staleContextFrequencies, f r.isStale, f r.isPruned, f r.maybeInMemAfter,
    f r.memAfterFilter⟩

/-- The address of a row. -/
def addr (r : MemoryColumnsView α) : α × α × α := (r.addrContext, r.addrSegment, r.addrVirtual)

/-- The slice `addr_context..context_first_change` of a row: the address, then the limbs. -/
def addrValueSlice (r : MemoryColumnsView α) : List α :=
  [r.addrContext, r.addrSegment, r.addrVirtual] ++ List.ofFn r.valueLimbs

end MemoryColumnsView

/-- The unscaled indices of the segments `Code`, `TrieData`, `AccountsLinkedList` and
`StorageLinkedList`, whose memory is preloaded instead of zero-initialized. -/
structure SegmentIds where
  code : ℕ
  trieData : ℕ
  accountsLinkedList : ℕ
  storageLinkedList : ℕ

/-- `PREINITIALIZED_SEGMENTS_INDICES`. -/
def SegmentIds.preinitializedSegmentsIndices (sg : SegmentIds) : List ℕ :=
  [sg.code, sg.trieData, sg.accountsLinkedList, sg.storageLinkedList]

end ZkEvm.Memory.Columns
