import Mathlib.Tactic.Ring
import ZkEvm.Memory.Constraints

/-!
The recursive evaluator `MemoryStark::eval_ext_circuit`, and its agreement with the native one.

A target of the circuit is the expression its wire computes: a frame variable, a constant, or
the output of an arithmetic gate `c₀·m₀·m₁ + c₁·a`, which is how every builder helper of
`plonky2` used here computes (`add_extension`, `sub_extension`, `mul_extension`, ...). Setting
the frame variables evaluates every target.
-/

namespace ZkEvm.Memory.Circuit

open ZkEvm.Memory.Columns ZkEvm.Memory.Constraints

/-- An `ExtensionTarget`, as the expression over frame variables `V` that its wire holds. -/
inductive Target (V R : Type)
  | var : V → Target V R
  | const : R → Target V R
  | arith : R → R → Target V R → Target V R → Target V R → Target V R

variable {V R : Type} [CommRing R]

/-- The value of a target once the frame variables are set by `env`. -/
def Target.eval (env : V → R) : Target V R → R
  | .var v => env v
  | .const c => c
  | .arith c₀ c₁ m₀ m₁ a => c₀ * m₀.eval env * m₁.eval env + c₁ * a.eval env

/-! ### The builder helpers -/

/-- `arithmetic_extension`. -/
def arithmeticExtension (c₀ c₁ : R) (m₀ m₁ a : Target V R) : Target V R := .arith c₀ c₁ m₀ m₁ a

/-- `constant_extension`. -/
def constantExtension (c : R) : Target V R := .const c

/-- `one_extension`. -/
def oneExtension : Target V R := constantExtension 1

/-- `zero_extension`. -/
def zeroExtension : Target V R := constantExtension 0

/-- `add_extension`. -/
def addExtension (a b : Target V R) : Target V R := arithmeticExtension 1 1 oneExtension a b

/-- `sub_extension`. -/
def subExtension (a b : Target V R) : Target V R := arithmeticExtension 1 (-1) oneExtension a b

/-- `mul_extension`. -/
def mulExtension (a b : Target V R) : Target V R := arithmeticExtension 1 0 a b zeroExtension

/-- `mul_add_extension`. -/
def mulAddExtension (a b c : Target V R) : Target V R := arithmeticExtension 1 1 a b c

/-- `mul_sub_extension`. -/
def mulSubExtension (a b c : Target V R) : Target V R := arithmeticExtension 1 (-1) a b c

/-- `add_const_extension`. -/
def addConstExtension (x : Target V R) (c : R) : Target V R := addExtension x (constantExtension c)

/-- `mul_many_extension`: the product, folded from the left. -/
def mulManyExtension : List (Target V R) → Target V R
  | [] => oneExtension
  | t :: ts => ts.foldl mulExtension t

variable {env : V → R}

@[simp] lemma eval_oneExtension : (oneExtension : Target V R).eval env = 1 := rfl

@[simp] lemma eval_addExtension (a b : Target V R) :
    (addExtension a b).eval env = a.eval env + b.eval env := by
  simp [addExtension, arithmeticExtension, Target.eval, oneExtension, constantExtension]

@[simp] lemma eval_subExtension (a b : Target V R) :
    (subExtension a b).eval env = a.eval env - b.eval env := by
  simp [subExtension, arithmeticExtension, Target.eval, oneExtension, constantExtension]; ring

@[simp] lemma eval_mulExtension (a b : Target V R) :
    (mulExtension a b).eval env = a.eval env * b.eval env := by
  simp [mulExtension, arithmeticExtension, Target.eval]

@[simp] lemma eval_mulAddExtension (a b c : Target V R) :
    (mulAddExtension a b c).eval env = a.eval env * b.eval env + c.eval env := by
  simp [mulAddExtension, arithmeticExtension, Target.eval]

@[simp] lemma eval_mulSubExtension (a b c : Target V R) :
    (mulSubExtension a b c).eval env = a.eval env * b.eval env - c.eval env := by
  simp [mulSubExtension, arithmeticExtension, Target.eval]; ring

@[simp] lemma eval_addConstExtension (x : Target V R) (c : R) :
    (addConstExtension x c).eval env = x.eval env + c := by
  simp [addConstExtension, constantExtension, Target.eval]

lemma eval_mulManyExtension_three (a b c : Target V R) :
    (mulManyExtension [a, b, c]).eval env = a.eval env * b.eval env * c.eval env := by
  simp [mulManyExtension]

/-! ### The circuit -/

/-- `MemoryStark::eval_ext_circuit`: the targets it yields to the `RecursiveConstraintConsumer`,
in order, with their kinds. -/
def evalExtCircuit (sg : SegmentIds) (lv nv : MemoryColumnsView (Target V R)) :
    List (ConstraintKind × Target V R) :=
  let one := oneExtension
  let addrContext := lv.addrContext
  let addrSegment := lv.addrSegment
  let addrVirtual := lv.addrVirtual
  let valueLimbs := lv.valueLimbs
  let timestamp := lv.timestamp
  let timestampInv := lv.timestampInv
  let isStale := lv.isStale
  let maybeInMemAfter := lv.maybeInMemAfter
  let memAfterFilter := lv.memAfterFilter
  let initializeAux := lv.initializeAux
  let preinitializedSegments := lv.preinitializedSegments
  let preinitializedSegmentsAux := lv.preinitializedSegmentsAux
  let nextAddrContext := nv.addrContext
  let nextAddrSegment := nv.addrSegment
  let nextAddrVirtual := nv.addrVirtual
  let nextValuesLimbs := nv.valueLimbs
  let nextIsRead := nv.isRead
  let nextTimestamp := nv.timestamp
  let filter := lv.filter
  let constraint := mulSubExtension filter filter filter
  let isDummy := subExtension one filter
  let isWrite := subExtension one lv.isRead
  let isDummyWrite := mulExtension isDummy isWrite
  let contextFirstChange := lv.contextFirstChange
  let segmentFirstChange := lv.segmentFirstChange
  let virtualFirstChange := lv.virtualFirstChange
  let addressUnchanged :=
    subExtension (subExtension (subExtension one contextFirstChange) segmentFirstChange)
      virtualFirstChange
  let rangeCheck := lv.rangeCheck
  let notContextFirstChange := subExtension one contextFirstChange
  let notSegmentFirstChange := subExtension one segmentFirstChange
  let notVirtualFirstChange := subExtension one virtualFirstChange
  let notAddressUnchanged := subExtension one addressUnchanged
  let addrContextDiff := subExtension nextAddrContext addrContext
  let addrSegmentDiff := subExtension nextAddrSegment addrSegment
  let addrVirtualDiff := subExtension nextAddrVirtual addrVirtual
  let contextDiff := subExtension (subExtension nextAddrContext addrContext) one
  let segmentDiff := subExtension (subExtension nextAddrSegment addrSegment) one
  let segmentRangeCheck := mulExtension segmentFirstChange segmentDiff
  let virtualDiff := subExtension (subExtension nextAddrVirtual addrVirtual) one
  let virtualRangeCheck := mulExtension virtualFirstChange virtualDiff
  let timestampDiff := subExtension nextTimestamp timestamp
  let timestampRangeCheck := mulExtension addressUnchanged timestampDiff
  let computedRangeCheck :=
    addExtension
      (addExtension (mulAddExtension contextFirstChange contextDiff segmentRangeCheck)
        virtualRangeCheck)
      timestampRangeCheck
  let rangeCheckDiff := subExtension rangeCheck computedRangeCheck
  let segmentAccountsList := addConstExtension nextAddrSegment (-(sg.accountsLinkedList : R))
  let segmentStorageList := addConstExtension nextAddrSegment (-(sg.storageLinkedList : R))
  let segmentAuxProd := mulExtension segmentAccountsList segmentStorageList
  let segmentCode := addConstExtension nextAddrSegment (-(sg.code : R))
  let segmentTrieData := addConstExtension nextAddrSegment (-(sg.trieData : R))
  let segmentProd := mulManyExtension [segmentCode, segmentTrieData, preinitializedSegmentsAux]
  let computedInitializeAux :=
    mulExtension preinitializedSegments (mulExtension notAddressUnchanged nextIsRead)
  let rhs := mulExtension filter notAddressUnchanged
  let rhs := mulSubExtension rhs isStale rhs
  let memAfterFilterDiff := subExtension memAfterFilter maybeInMemAfter
  let timestampProd := mulExtension timestamp timestampInv
  [(.everyRow, constraint),
    (.everyRow, isDummyWrite),
    (.everyRow, mulExtension contextFirstChange notContextFirstChange),
    (.everyRow, mulExtension segmentFirstChange notSegmentFirstChange),
    (.everyRow, mulExtension virtualFirstChange notVirtualFirstChange),
    (.everyRow, mulExtension addressUnchanged notAddressUnchanged),
    (.transition, mulExtension segmentFirstChange addrContextDiff),
    (.transition, mulExtension virtualFirstChange addrContextDiff),
    (.transition, mulExtension virtualFirstChange addrSegmentDiff),
    (.transition, mulExtension addressUnchanged addrContextDiff),
    (.transition, mulExtension addressUnchanged addrSegmentDiff),
    (.transition, mulExtension addressUnchanged addrVirtualDiff),
    (.transition, rangeCheckDiff),
    (.transition, subExtension preinitializedSegmentsAux segmentAuxProd),
    (.transition, subExtension preinitializedSegments segmentProd),
    (.transition, subExtension initializeAux computedInitializeAux)] ++
  (List.finRange Columns.valueLimbs).flatMap (fun i =>
    let valueDiff := subExtension (nextValuesLimbs i) (valueLimbs i)
    let zeroIfRead := mulExtension addressUnchanged valueDiff
    [(.transition, mulExtension nextIsRead zeroIfRead),
      (.transition, mulExtension initializeAux (nextValuesLimbs i))]) ++
  [(.transition, addExtension maybeInMemAfter rhs),
    (.everyRow, mulSubExtension memAfterFilter memAfterFilter memAfterFilter)] ++
  (List.finRange Columns.valueLimbs).map (fun i =>
    (.everyRow, mulExtension memAfterFilterDiff
      (mulExtension preinitializedSegments (valueLimbs i)))) ++
  [(.everyRow, mulSubExtension timestamp timestampProd timestamp),
    (.firstRow, lv.counter),
    (.transition, subExtension (subExtension nv.counter lv.counter) one)]

/-- **Agreement of the two evaluators.** With the frame variables set by `env`, the circuit
yields, constraint by constraint and kind by kind, the values the native evaluator computes on
the evaluated rows. The frame rows may hold any targets, not only variables. -/
theorem evalExtCircuit_eval_eq_evalPackedGeneric (sg : SegmentIds) (env : V → R)
    (lv nv : MemoryColumnsView (Target V R)) :
    (evalExtCircuit sg lv nv).map (fun c => (c.1, c.2.eval env)) =
      evalPackedGeneric sg (lv.map (Target.eval env)) (nv.map (Target.eval env)) := by
  simp only [evalExtCircuit, evalPackedGeneric, List.map_append, List.map_cons, List.map_nil,
    List.map_flatMap, List.map_map, Function.comp_def, MemoryColumnsView.map, eval_mulExtension,
    eval_subExtension, eval_addExtension, eval_mulAddExtension, eval_mulSubExtension,
    eval_addConstExtension, eval_oneExtension, eval_mulManyExtension_three]
  -- the five blocks: sixteen constraints, the limb loop, two, the limb loop, three
  congr 1; congr 1; congr 1; congr 1
  all_goals first
    | (congr 1; funext i
       simp only [List.cons.injEq, Prod.mk.injEq, true_and, and_true]
       ring)
    | (simp only [List.cons.injEq, Prod.mk.injEq, true_and, and_true, and_self]
       repeat' apply And.intro
       all_goals ring)

end ZkEvm.Memory.Circuit
