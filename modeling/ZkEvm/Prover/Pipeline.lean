import Mathlib.Algebra.BigOperators.Group.Finset
import Mathlib.Logic.Function.Basic

/-!
# The block-proving pipeline

`prove` in `zero_bin/prover` proves a run of blocks concurrently and chains their proofs. For
each block it opens a oneshot channel and starts a task. The task awaits the block's input,
proves its batches, and only then awaits the previous block's proof: `previous_proof` for the
first block, the receiving end of the previous task's channel for the others. It builds the block
proof on that, writes it out or keeps it, and sends it on its own channel. `FuturesOrdered`
polls every task at once, so their awaits interleave in any order.

A state holds the phase of every task and the proof each channel carries. A move is one await of
one task completing; an await on the outside world (the input, the batch or block proof, the
write) may fail instead. A channel's sender is dropped when its task finishes, and its receiver
when the next task has read it or finished. A send to a dropped receiver fails ("Failed to send
proof"), and a read from a dropped sender fails ("channel closed"). The proofs and the runtime
are not part of this model: `ProverOps` gives the results the runtime returns.

What holds over every interleaving: each block's proof is built on the proof the block before it
sent; a proof is sent only after all earlier ones; a block that fails stops every later block
from sending; and every run ends, within five moves a block, with every task finished.
-/

namespace ZkEvm.Prover

/-- The result of a block's task: its block number and its proof, unless it was written to
disk. -/
abbrev TaskResult (Proof : Type) := Except String (ℕ × Option Proof)

/-- Where the task of one block is. -/
inductive Phase (Input Agg Proof : Type)
  /-- awaiting `block_prover_input` -/
  | start
  /-- proving the block's batches, or simulating them in test mode -/
  | fetched (block : Input)
  /-- awaiting the previous proof; `agg` is the aggregated batch proof, `none` in test mode -/
  | awaitingPrev (block : Input) (agg : Option Agg)
  /-- building the block proof on `prev` -/
  | gotPrev (block : Input) (agg : Option Agg) (prev : Option Proof)
  /-- writing the proof out and sending it on -/
  | proved (proof : Proof)
  | done (result : TaskResult Proof)

namespace Phase

variable {Input Agg Proof : Type}

/-- The task has finished, dropping both its channel ends. -/
def isDone : Phase Input Agg Proof → Bool
  | .done _ => true
  | _ => false

/-- The task still holds the receiver of the previous block's channel: it has neither read it nor
finished. -/
def holdsReceiver : Phase Input Agg Proof → Bool
  | .start | .fetched _ | .awaitingPrev _ _ => true
  | _ => false

/-- An await on the outside world is pending: the input, the batch or block proof, or, once the
proof is built, its write to disk when there is a directory to write to. -/
def canFail (writes : Bool) : Phase Input Agg Proof → Bool
  | .start | .fetched _ | .gotPrev _ _ _ => true
  | .proved _ => writes
  | _ => false

/-- The moves left to the task if nothing fails. -/
def rank : Phase Input Agg Proof → ℕ
  | .start => 5
  | .fetched _ => 4
  | .awaitingPrev _ _ => 3
  | .gotPrev _ _ _ => 2
  | .proved _ => 1
  | .done _ => 0

end Phase

/-- Modelled from the spec: the proofs the runtime returns, from `proof_gen`, which is not under
src/. `blockProof` is `ops::BlockProof { prev }` run on the aggregated batch proof, `dummyProof`
the `GeneratedBlockProof` of `prove_test`, and `bHeight` its `b_height`. -/
structure ProverOps (Input Agg Proof : Type) where
  blockProof : Agg → Option Proof → Proof
  dummyProof : Input → Proof
  bHeight : Proof → ℕ

/-- What `prove` is given besides the blocks: `ProverConfig::test_only`, whether a
`proof_output_dir` is set, and `previous_proof`. -/
structure PipelineConfig (Proof : Type) where
  testOnly : Bool
  writesToDir : Bool
  previousProof : Option Proof

/-- The phase of every block's task and the proof each block's channel carries. -/
structure PipelineState (Input Agg Proof : Type) where
  tasks : ℕ → Phase Input Agg Proof
  sent : ℕ → Option Proof

/-- One await completing: `fetch` and `work` carry what the runtime returned, `fail` the error of
an await on the outside world. -/
inductive Action (Input Agg : Type)
  | fetch (i : ℕ) (block : Input)
  | work (i : ℕ) (agg : Agg)
  | recvPrev (i : ℕ)
  | prove (i : ℕ)
  | send (i : ℕ)
  | fail (i : ℕ) (msg : String)

/-- The block whose task the action moves. -/
def Action.task {Input Agg : Type} : Action Input Agg → ℕ
  | .fetch i _ | .work i _ | .recvPrev i | .prove i | .send i | .fail i _ => i

/-- The action is an await on the outside world failing. -/
def Action.isFail {Input Agg : Type} : Action Input Agg → Bool
  | .fail _ _ => true
  | _ => false

variable {Input Agg Proof : Type}

namespace PipelineState

/-- Every task awaiting its input, and nothing sent. -/
def init : PipelineState Input Agg Proof := ⟨fun _ => .start, fun _ => none⟩

/-- Task `i` moves to `ph`, sending `out` if it is a proof. -/
def apply (s : PipelineState Input Agg Proof) (i : ℕ) (ph : Phase Input Agg Proof)
    (out : Option Proof) : PipelineState Input Agg Proof :=
  ⟨Function.update s.tasks i ph, match out with
    | some p => Function.update s.sent i (some p)
    | none => s.sent⟩

end PipelineState

variable (ops : ProverOps Input Agg Proof) (cfg : PipelineConfig Proof) (n : ℕ)

/-- What a task returns for a proof it sent: `(proof.b_height, return_proof)`, the proof kept
only when it was not written to disk. -/
def blockResult (p : Proof) : ℕ × Option Proof :=
  (ops.bHeight p, if cfg.writesToDir then none else some p)

/-- The block proof a task builds: on the aggregated batch proof and `prev` in `prove`, the dummy
proof in `prove_test`. -/
def proofFor (block : Input) : Option Agg → Option Proof → Proof
  | some agg, prev => ops.blockProof agg prev
  | none, _ => ops.dummyProof block

/-- The proof block `i` awaits as `previous`: `previous_proof` for the first block, what the block
before sent for the others. -/
def prevOf (s : PipelineState Input Agg Proof) : ℕ → Option Proof
  | 0 => cfg.previousProof
  | j + 1 => s.sent j

/-- The move of the task of block `i`, if it can make it. -/
def stepTask (s : PipelineState Input Agg Proof) : Action Input Agg →
    Option (PipelineState Input Agg Proof)
  | .fetch i b => match s.tasks i with
    | .start => some (s.apply i (.fetched b) none)
    | _ => none
  | .work i agg => match s.tasks i with
    | .fetched b =>
      some (s.apply i (.awaitingPrev b (if cfg.testOnly then none else some agg)) none)
    | _ => none
  | .recvPrev i => match s.tasks i with
    | .awaitingPrev b a => match i with
      | 0 => some (s.apply 0 (.gotPrev b a cfg.previousProof) none)
      | j + 1 => match s.sent j with
        | some p => some (s.apply (j + 1) (.gotPrev b a (some p)) none)
        | none =>
          if (s.tasks j).isDone then some (s.apply (j + 1) (.done (.error "channel closed")) none)
          else none
    | _ => none
  | .prove i => match s.tasks i with
    | .gotPrev b a prev => some (s.apply i (.proved (proofFor ops b a prev)) none)
    | _ => none
  | .send i => match s.tasks i with
    | .proved p =>
      if i + 1 = n ∨ (s.tasks (i + 1)).holdsReceiver then
        some (s.apply i (.done (.ok (blockResult ops cfg p))) (some p))
      else some (s.apply i (.done (.error "Failed to send proof")) none)
    | _ => none
  | .fail i msg =>
    if (s.tasks i).canFail cfg.writesToDir then some (s.apply i (.done (.error msg)) none) else none

/-- One move of one of the `n` tasks. -/
def step (s : PipelineState Input Agg Proof) (a : Action Input Agg) :
    Option (PipelineState Input Agg Proof) :=
  if a.task < n then stepTask ops cfg n s a else none

/-- The state a schedule of moves leads to, when each of them can be made. -/
def runFrom (s : PipelineState Input Agg Proof) (as : List (Action Input Agg)) :
    Option (PipelineState Input Agg Proof) :=
  as.foldlM (step ops cfg n) s

/-- The states some interleaving of the tasks reaches. -/
def Reachable (s : PipelineState Input Agg Proof) : Prop :=
  ∃ as, runFrom ops cfg n .init as = some s

/-- What `results.try_collect()` returns once it can: the tasks' results in block order, up to
the first error. -/
def tryCollect : List (Phase Input Agg Proof) → Option (Except String (List (ℕ × Option Proof)))
  | [] => some (.ok [])
  | .done (.ok r) :: rest => (tryCollect rest).map fun e => e.map (r :: ·)
  | .done (.error e) :: _ => some (.error e)
  | _ :: _ => none

/-- What `prove` returns in state `s`, once it returns. -/
def proveResult (s : PipelineState Input Agg Proof) :
    Option (Except String (List (ℕ × Option Proof))) :=
  tryCollect ((List.range n).map s.tasks)

namespace PipelineState

variable (s : PipelineState Input Agg Proof) (i : ℕ) (ph : Phase Input Agg Proof)

@[simp] lemma apply_tasks (out : Option Proof) :
    (s.apply i ph out).tasks = Function.update s.tasks i ph := rfl

@[simp] lemma apply_sent_none : (s.apply i ph none).sent = s.sent := rfl

@[simp] lemma apply_sent_some (p : Proof) :
    (s.apply i ph (some p)).sent = Function.update s.sent i (some p) := rfl

lemma apply_sent_of_ne {k : ℕ} (hk : k ≠ i) (out : Option Proof) :
    (s.apply i ph out).sent k = s.sent k := by
  cases out <;> simp [Function.update_noteq hk]

end PipelineState

/-! ### What one move does -/

/-- The moves of `stepTask`, one constructor a branch: task `i` goes to phase `ph` and puts `out`
on its channel. -/
inductive Move (s : PipelineState Input Agg Proof) (i : ℕ) :
    Phase Input Agg Proof → Option Proof → Prop
  | fetch {b} : s.tasks i = .start → Move s i (.fetched b) none
  | work {b} (agg : Agg) : s.tasks i = .fetched b →
      Move s i (.awaitingPrev b (if cfg.testOnly then none else some agg)) none
  | recvPrev {b a} : s.tasks i = .awaitingPrev b a → (i = 0 ∨ (prevOf cfg s i).isSome) →
      Move s i (.gotPrev b a (prevOf cfg s i)) none
  | closed {b a} (j : ℕ) : i = j + 1 → s.tasks i = .awaitingPrev b a → s.sent j = none →
      (s.tasks j).isDone → Move s i (.done (.error "channel closed")) none
  | prove {b a prev} : s.tasks i = .gotPrev b a prev →
      Move s i (.proved (proofFor ops b a prev)) none
  | send {p} : s.tasks i = .proved p → (i + 1 = n ∨ (s.tasks (i + 1)).holdsReceiver) →
      Move s i (.done (.ok (blockResult ops cfg p))) (some p)
  | sendFailed {p} : s.tasks i = .proved p → ¬(i + 1 = n ∨ (s.tasks (i + 1)).holdsReceiver) →
      Move s i (.done (.error "Failed to send proof")) none
  | fail {msg} : (s.tasks i).canFail cfg.writesToDir → Move s i (.done (.error msg)) none

/-- The proof `p` is built on `prev`: in `prove` the block proof of an aggregated batch proof on
`prev`, in `prove_test` a dummy proof. -/
def BuiltOn (prev : Option Proof) (p : Proof) : Prop :=
  if cfg.testOnly then ∃ b, p = ops.dummyProof b else ∃ agg, p = ops.blockProof agg prev

/-- What holds of the task of block `k` awaiting `prev`, in phase `ph` with `out` on its channel:
past its previous proof it has one, unless it is the first block; the proof it builds, and sends
once done, is built on that; and nothing is on its channel before it is done. -/
def TaskInv (k : ℕ) (prev : Option Proof) : Phase Input Agg Proof → Option Proof → Prop
  | .start, none | .fetched _, none | .done (.error _), none => True
  | .awaitingPrev _ a, none => a.isNone = cfg.testOnly
  | .gotPrev _ a q, none => (k = 0 ∨ prev.isSome) ∧ q = prev ∧ a.isNone = cfg.testOnly
  | .proved p, none => (k = 0 ∨ prev.isSome) ∧ BuiltOn ops cfg prev p
  | .done (.ok r), some p =>
    (k = 0 ∨ prev.isSome) ∧ r = blockResult ops cfg p ∧ BuiltOn ops cfg prev p
  | _, _ => False

/-- The invariant of the pipeline: every task's `TaskInv`. -/
def Inv (s : PipelineState Input Agg Proof) : Prop :=
  ∀ k, TaskInv ops cfg k (prevOf cfg s k) (s.tasks k) (s.sent k)

/-- The moves left to the `n` tasks if nothing fails. -/
def movesLeft (s : PipelineState Input Agg Proof) : ℕ := ∑ k in Finset.range n, (s.tasks k).rank

variable {ops cfg n} {s s' : PipelineState Input Agg Proof} {i : ℕ} {ph : Phase Input Agg Proof}
  {out : Option Proof}

lemma stepTask_move : ∀ {a : Action Input Agg}, stepTask ops cfg n s a = some s' →
    ∃ ph out, Move ops cfg n s a.task ph out ∧ s' = s.apply a.task ph out
  | .fetch i b, h => by
    simp only [stepTask] at h
    split at h <;> cases h
    exact ⟨_, _, .fetch ‹_›, rfl⟩
  | .work i agg, h => by
    simp only [stepTask] at h
    split at h <;> cases h
    exact ⟨_, _, .work agg ‹_›, rfl⟩
  | .recvPrev i, h => by
    simp only [stepTask] at h
    split at h
    · rename_i b a ht
      split at h
      · cases h; exact ⟨_, _, .recvPrev ht (.inl rfl), rfl⟩
      · rename_i j
        split at h
        · rename_i p hp
          cases h
          exact ⟨_, _, .recvPrev ht (.inr (by simp [Action.task, prevOf, hp])),
            by simp [Action.task, prevOf, hp]⟩
        · split at h
          · cases h; exact ⟨_, _, .closed j rfl ht ‹_› ‹_›, rfl⟩
          · cases h
    · cases h
  | .prove i, h => by
    simp only [stepTask] at h
    split at h <;> cases h
    exact ⟨_, _, .prove ‹_›, rfl⟩
  | .send i, h => by
    simp only [stepTask] at h
    split at h
    · split at h <;> cases h
      · exact ⟨_, _, .send ‹_› ‹_›, rfl⟩
      · exact ⟨_, _, .sendFailed ‹_› ‹_›, rfl⟩
    · cases h
  | .fail i msg, h => by
    simp only [stepTask] at h
    split at h <;> cases h
    exact ⟨_, _, .fail ‹_›, rfl⟩

lemma step_move {a : Action Input Agg} (h : step ops cfg n s a = some s') :
    a.task < n ∧ ∃ ph out, Move ops cfg n s a.task ph out ∧ s' = s.apply a.task ph out := by
  unfold step at h
  split at h
  · exact ⟨‹_›, stepTask_move h⟩
  · cases h

lemma runFrom_cons (a : Action Input Agg) (as : List (Action Input Agg)) :
    runFrom ops cfg n s (a :: as) = (step ops cfg n s a).bind (runFrom ops cfg n · as) := rfl

lemma runFrom_preserves (P : PipelineState Input Agg Proof → Prop)
    (hP : ∀ {s s' : PipelineState Input Agg Proof} {a : Action Input Agg}, P s →
      step ops cfg n s a = some s' → P s') :
    ∀ {as : List (Action Input Agg)} {s s' : PipelineState Input Agg Proof}, P s →
      runFrom ops cfg n s as = some s' → P s'
  | [], _, _, h, hr => by
    obtain rfl := Option.some.inj hr
    exact h
  | a :: as, _, _, h, hr => by
    obtain ⟨t, ht, hr⟩ := Option.bind_eq_some.mp hr
    exact runFrom_preserves P hP (hP h ht) hr

lemma Move.not_done (hm : Move ops cfg n s i ph out) : (s.tasks i).isDone = false := by
  cases hm with
  | fail hf =>
    revert hf
    cases s.tasks i <;> simp [Phase.canFail, Phase.isDone]
  | closed _ _ ht | fetch ht | work _ ht | recvPrev ht _ | prove ht | send ht _
  | sendFailed ht _ => simp [ht, Phase.isDone]

lemma prevOf_apply_of_ne {k : ℕ} (hk : k ≠ i + 1) :
    prevOf cfg (s.apply i ph out) k = prevOf cfg s k := by
  cases k with
  | zero => rfl
  | succ j => exact PipelineState.apply_sent_of_ne _ _ _ (by omega) _

/-! ### The invariant over every run -/

lemma builtOn_proofFor {b : Input} {a : Option Agg} (h : a.isNone = cfg.testOnly)
    (prev : Option Proof) : BuiltOn ops cfg prev (proofFor ops b a prev) := by
  rw [BuiltOn, ← h]
  cases a with
  | none => exact ⟨b, rfl⟩
  | some agg => exact ⟨agg, rfl⟩

namespace TaskInv

variable {k : ℕ} {prev : Option Proof}

lemma of_some {p : Proof} (h : TaskInv ops cfg k prev ph (some p)) :
    ph = .done (.ok (blockResult ops cfg p)) ∧ (k = 0 ∨ prev.isSome) ∧
      BuiltOn ops cfg prev p := by
  rcases ph with _ | _ | _ | _ | _ | (_ | r) <;> simp only [TaskInv] at h
  obtain ⟨hr, rfl, hb⟩ := h
  exact ⟨rfl, hr, hb⟩

lemma out_eq_none (h : TaskInv ops cfg k prev ph out) (hd : ph.isDone = false) : out = none := by
  cases out with
  | none => rfl
  | some p => simp [(of_some h).1, Phase.isDone] at hd

lemma out_isSome {r : ℕ × Option Proof} (h : TaskInv ops cfg k prev (.done (.ok r)) out) :
    out.isSome := by
  cases out with
  | none => exact h.elim
  | some p => rfl

lemma of_prev_none {j : ℕ} (h : TaskInv ops cfg (j + 1) none ph out) :
    TaskInv ops cfg (j + 1) prev ph out := by
  rcases ph with _ | _ | _ | _ | _ | (_ | _) <;> rcases out with _ | _ <;> simp_all [TaskInv]

end TaskInv

lemma Move.taskInv (hs : Inv ops cfg s) (hm : Move ops cfg n s i ph out) :
    TaskInv ops cfg i (prevOf cfg s i) ph out := by
  have hi := hs i
  rw [(hs i).out_eq_none hm.not_done] at hi
  cases hm with
  | fetch | closed | sendFailed | fail => trivial
  | work agg =>
    show (if cfg.testOnly then none else some agg).isNone = cfg.testOnly
    cases cfg.testOnly <;> rfl
  | recvPrev ht hr =>
    rw [ht] at hi
    exact ⟨hr, rfl, hi⟩
  | prove ht =>
    rw [ht] at hi
    obtain ⟨hr, rfl, hmode⟩ := hi
    exact ⟨hr, builtOn_proofFor hmode _⟩
  | send ht =>
    rw [ht] at hi
    exact ⟨hi.1, rfl, hi.2⟩

/-- **Step lemma.** A move keeps the invariant: the moving task keeps its own, the task after it
had not read the channel the move may fill, and no other task is touched. -/
lemma Inv.apply (hs : Inv ops cfg s) (hm : Move ops cfg n s i ph out) :
    Inv ops cfg (s.apply i ph out) := by
  have hn : s.sent i = none := (hs i).out_eq_none hm.not_done
  intro k
  rcases eq_or_ne k i with rfl | hki
  · have hsent : (s.apply k ph out).sent k = out := by cases out <;> simp [hn]
    rw [prevOf_apply_of_ne (by omega), PipelineState.apply_tasks, Function.update_same, hsent]
    exact hm.taskInv hs
  · rw [PipelineState.apply_tasks, Function.update_noteq hki,
      PipelineState.apply_sent_of_ne _ _ _ hki]
    rcases eq_or_ne k (i + 1) with rfl | hk
    · have h := hs (i + 1)
      rw [show prevOf cfg s (i + 1) = none from hn] at h
      exact h.of_prev_none
    · rw [prevOf_apply_of_ne hk]
      exact hs k

lemma Inv.step (hs : Inv ops cfg s) {a : Action Input Agg} (h : step ops cfg n s a = some s') :
    Inv ops cfg s' := by
  obtain ⟨-, _, _, hm, rfl⟩ := step_move h
  exact hs.apply hm

lemma inv_init : Inv ops cfg (.init : PipelineState Input Agg Proof) := fun _ => trivial

/-- **Run lemma.** Every reachable state keeps the invariant. -/
lemma Reachable.inv (hs : Reachable ops cfg n s) : Inv ops cfg s :=
  let ⟨_, h⟩ := hs
  runFrom_preserves _ (fun h' hst => Inv.step h' hst) inv_init h

lemma Inv.sent_eq_some (hs : Inv ops cfg s) {k : ℕ} {p : Proof} (h : s.sent k = some p) :
    s.tasks k = .done (.ok (blockResult ops cfg p)) ∧ (k = 0 ∨ (prevOf cfg s k).isSome) ∧
      BuiltOn ops cfg (prevOf cfg s k) p := by
  have hk := hs k
  rw [h] at hk
  exact hk.of_some

lemma Inv.sent_isSome_of_succ (hs : Inv ops cfg s) {j : ℕ} (h : (s.sent (j + 1)).isSome) :
    (s.sent j).isSome := by
  obtain ⟨p, hp⟩ := Option.isSome_iff_exists.mp h
  exact (hs.sent_eq_some hp).2.1.resolve_left j.succ_ne_zero

lemma Inv.done_ok (hs : Inv ops cfg s) {k : ℕ} {r : ℕ × Option Proof}
    (h : s.tasks k = .done (.ok r)) : ∃ p, s.sent k = some p ∧ r = blockResult ops cfg p := by
  have hk := hs k
  rw [h] at hk
  obtain ⟨p, hp⟩ := Option.isSome_iff_exists.mp hk.out_isSome
  refine ⟨p, hp, ?_⟩
  have := (hs.sent_eq_some hp).1
  rw [h] at this
  cases this
  rfl

/-- Two blocks through `prove`, each proof a number: a block proof adds the aggregated batch proof
to the previous proof, a proof is its own block number, and `previous_proof` is `1`. -/
def demoOps : ProverOps ℕ ℕ ℕ := ⟨fun agg prev => agg + prev.getD 0, id, id⟩

/-- `prove` with no directory to write to, and `1` as the previous proof. -/
def demoCfg : PipelineConfig ℕ := ⟨false, false, some 1⟩

/-- Block `1` is fetched and batch-proved first, then block `0` runs through, then block `1`
finishes on block `0`'s proof. -/
def demoRun : List (Action ℕ ℕ) :=
  [.fetch 1 20, .work 1 5, .fetch 0 10, .work 0 3, .recvPrev 0, .prove 0, .send 0, .recvPrev 1,
    .prove 1, .send 1]

/-- Where `demoRun` leads. -/
def demoState : PipelineState ℕ ℕ ℕ := (runFrom demoOps demoCfg 2 .init demoRun).getD .init

/-- Block `1` has its batch proof when block `0`'s input fails to arrive. -/
def demoFailRun : List (Action ℕ ℕ) := [.fetch 1 20, .work 1 5, .fail 0 "no input", .recvPrev 1]

/-- Where `demoFailRun` leads. -/
def demoFailState : PipelineState ℕ ℕ ℕ := (runFrom demoOps demoCfg 2 .init demoFailRun).getD .init

/-! ### Safety over every interleaving -/

/-- **Chained block proofs.** In `prove`, whatever order the tasks move in, the first block's
proof is built on `previous_proof`, and every later block's on the proof the block before it
sent. -/
theorem sent_chain (hs : Reachable ops cfg n s) (hmode : cfg.testOnly = false) :
    (∀ p, s.sent 0 = some p → ∃ agg, p = ops.blockProof agg cfg.previousProof) ∧
    ∀ j p, s.sent (j + 1) = some p →
      ∃ q agg, s.sent j = some q ∧ p = ops.blockProof agg (some q) := by
  have hi := hs.inv
  refine ⟨fun p h => ?_, fun j p h => ?_⟩
  · simpa [BuiltOn, hmode] using (hi.sent_eq_some h).2.2
  · obtain ⟨-, hr, hb⟩ := hi.sent_eq_some h
    obtain ⟨q, hq⟩ : ∃ q, s.sent j = some q :=
      Option.isSome_iff_exists.mp (hr.resolve_left j.succ_ne_zero)
    simp only [BuiltOn, hmode, prevOf, Bool.false_eq_true, if_false] at hb
    obtain ⟨agg, rfl⟩ := hb
    exact ⟨q, agg, hq, by rw [hq]⟩

/-- Block `1`'s proof `9` is its batch proof `5` on block `0`'s proof. -/
theorem sent_chain_demo : demoState.sent 1 = some 9 ∧
    ∃ q agg, demoState.sent 0 = some q ∧ 9 = demoOps.blockProof agg (some q) :=
  ⟨rfl, (sent_chain (show Reachable demoOps demoCfg 2 demoState from ⟨demoRun, rfl⟩) rfl).2 0 9 rfl⟩

/-- **Proofs go out in block order.** A block sends its proof only after every earlier block has
sent its own and finished with it; so once a block fails, no block from it on sends a proof. -/
theorem sent_in_order (hs : Reachable ops cfg n s) {i j : ℕ} (hij : i ≤ j) :
    ((s.sent j).isSome → ∃ p, s.sent i = some p ∧ s.tasks i = .done (.ok (blockResult ops cfg p))) ∧
    ∀ e, s.tasks i = .done (.error e) → s.sent j = none := by
  have hi := hs.inv
  have hsent : (s.sent j).isSome → ∃ p, s.sent i = some p ∧
      s.tasks i = .done (.ok (blockResult ops cfg p)) := by
    intro hj
    induction j, hij using Nat.le_induction with
    | base =>
      obtain ⟨p, hp⟩ := Option.isSome_iff_exists.mp hj
      exact ⟨p, hp, (hi.sent_eq_some hp).1⟩
    | succ j _ ih => exact ih (hi.sent_isSome_of_succ hj)
  refine ⟨hsent, fun e he => Option.not_isSome_iff_eq_none.mp fun hj => ?_⟩
  obtain ⟨p, -, hp⟩ := hsent hj
  rw [he] at hp
  cases hp

/-- Block `0` failed, so block `1` sends nothing, though it had its batch proof first. -/
theorem sent_in_order_demo :
    demoFailState.tasks 0 = .done (.error "no input") ∧ demoFailState.sent 1 = none ∧
      demoFailState.tasks 1 = .done (.error "channel closed") :=
  ⟨rfl, (sent_in_order (show Reachable demoOps demoCfg 2 demoFailState from ⟨demoFailRun, rfl⟩)
    (show 0 ≤ 1 by decide)).2 _ rfl, rfl⟩

/-! ### Every run ends -/

lemma Move.rank_lt (hm : Move ops cfg n s i ph out) : ph.rank < (s.tasks i).rank := by
  cases hm with
  | fail hf =>
    revert hf
    cases s.tasks i <;> simp [Phase.canFail, Phase.rank]
  | closed _ _ ht | fetch ht | work _ ht | recvPrev ht _ | prove ht | send ht _
  | sendFailed ht _ => simp [ht, Phase.rank]

lemma movesLeft_apply (hi : i < n) :
    movesLeft n (s.apply i ph out) + (s.tasks i).rank = movesLeft n s + ph.rank := by
  have hmem := Finset.mem_range.mpr hi
  have hrest : ∑ k in Finset.range n \ {i}, ((s.apply i ph out).tasks k).rank =
      ∑ k in Finset.range n \ {i}, (s.tasks k).rank :=
    Finset.sum_congr rfl fun k hk => by
      rw [PipelineState.apply_tasks,
        Function.update_noteq (Finset.not_mem_singleton.mp (Finset.mem_sdiff.mp hk).2)]
  rw [movesLeft, movesLeft, Finset.sum_eq_add_sum_diff_singleton hmem,
    Finset.sum_eq_add_sum_diff_singleton hmem, hrest, PipelineState.apply_tasks,
    Function.update_same]
  omega

lemma movesLeft_step {a : Action Input Agg} (h : step ops cfg n s a = some s') :
    movesLeft n s' < movesLeft n s := by
  obtain ⟨hi, ph, out, hm, rfl⟩ := step_move h
  have : movesLeft n (s.apply a.task ph out) + (s.tasks a.task).rank =
      movesLeft n s + ph.rank := movesLeft_apply hi
  have := hm.rank_lt
  omega

lemma runFrom_movesLeft : ∀ {as : List (Action Input Agg)} {s s' : PipelineState Input Agg Proof},
    runFrom ops cfg n s as = some s' → movesLeft n s' + as.length ≤ movesLeft n s
  | [], _, _, h => by
    obtain rfl := Option.some.inj h
    simp
  | a :: as, _, _, h => by
    obtain ⟨t, ht, h⟩ := Option.bind_eq_some.mp h
    have := runFrom_movesLeft h
    have := movesLeft_step ht
    simp only [List.length_cons]
    omega

lemma movesLeft_init : movesLeft n (.init : PipelineState Input Agg Proof) = 5 * n := by
  simp [movesLeft, PipelineState.init, Phase.rank, mul_comm]

/-- The first unfinished task can always move without failing: the one await that waits on
another task is on the block before it, and that task has finished. -/
lemma exists_step_of_not_done [Inhabited Input] [Inhabited Agg] (hi : i < n)
    (hd : (s.tasks i).isDone = false) (hfirst : ∀ j < i, (s.tasks j).isDone) :
    ∃ a : Action Input Agg, a.isFail = false ∧ (step ops cfg n s a).isSome := by
  have hstep : ∀ a : Action Input Agg, a.task = i → (stepTask ops cfg n s a).isSome →
      (step ops cfg n s a).isSome := fun a ha h => by rwa [step, if_pos (ha ▸ hi)]
  cases ht : s.tasks i with
  | start => exact ⟨.fetch i default, rfl, hstep _ rfl (by simp [stepTask, ht])⟩
  | fetched b => exact ⟨.work i default, rfl, hstep _ rfl (by simp [stepTask, ht])⟩
  | awaitingPrev b a =>
    refine ⟨.recvPrev i, rfl, hstep _ rfl ?_⟩
    cases i with
    | zero => simp [stepTask, ht]
    | succ j =>
      have hj := hfirst j (Nat.lt_succ_self j)
      cases hsj : s.sent j <;> simp [stepTask, ht, hsj, hj]
  | gotPrev b a prev => exact ⟨.prove i, rfl, hstep _ rfl (by simp [stepTask, ht])⟩
  | proved p =>
    refine ⟨.send i, rfl, hstep _ rfl ?_⟩
    simp only [stepTask, ht]
    split <;> rfl
  | done r => simp [ht, Phase.isDone] at hd

lemma tryCollect_isSome {phs : List (Phase Input Agg Proof)} (h : ∀ ph ∈ phs, ph.isDone) :
    (tryCollect phs).isSome := by
  induction phs with
  | nil => rfl
  | cons ph rest ih =>
    have hrest := ih fun q hq => h q (List.mem_cons_of_mem _ hq)
    have hph := h ph (List.mem_cons_self _ _)
    rcases ph with _ | _ | _ | _ | _ | (e | r) <;> simp_all [tryCollect, Phase.isDone]

/-- **Every run ends.** Whatever order the tasks move in and whichever awaits fail, a run makes
at most five moves a block; and a run that can go no further has every task finished, so
`prove` has returned. -/
theorem run_ends [Inhabited Input] [Inhabited Agg] {as : List (Action Input Agg)}
    (h : runFrom ops cfg n .init as = some s) :
    as.length ≤ 5 * n ∧ ((∀ a, step ops cfg n s a = none) →
      (∀ i < n, (s.tasks i).isDone) ∧ (proveResult n s).isSome) := by
  refine ⟨?_, fun hmax => ?_⟩
  · have := runFrom_movesLeft h
    rw [movesLeft_init] at this
    omega
  have hdone : ∀ i < n, (s.tasks i).isDone := by
    by_contra hnot
    classical
    have hex : ∃ i, i < n ∧ (s.tasks i).isDone = false := by simpa using hnot
    obtain ⟨hi, hd⟩ := Nat.find_spec hex
    obtain ⟨a, -, ha⟩ : ∃ a : Action Input Agg, a.isFail = false ∧ (step ops cfg n s a).isSome :=
      exists_step_of_not_done hi hd fun j hj => by
        have := Nat.find_min hex hj
        simp only [not_and, Bool.not_eq_false] at this
        exact this (hj.trans hi)
    simp [hmax a] at ha
  refine ⟨hdone, tryCollect_isSome fun ph hph => ?_⟩
  obtain ⟨i, hi, rfl⟩ := List.mem_map.mp hph
  exact hdone i (List.mem_range.mp hi)

/-- `demoRun` makes ten moves, within the bound of five a block. -/
theorem run_ends_demo : demoRun.length ≤ 5 * 2 ∧
    ((∀ a, step demoOps demoCfg 2 demoState a = none) →
      (∀ i < 2, (demoState.tasks i).isDone) ∧ (proveResult 2 demoState).isSome) :=
  run_ends (show runFrom demoOps demoCfg 2 .init demoRun = some demoState from rfl)

/-! ### What `prove` returns -/

lemma tryCollect_eq_ok : ∀ {phs : List (Phase Input Agg Proof)} {l : List (ℕ × Option Proof)},
    tryCollect phs = some (.ok l) → phs = l.map fun r => .done (.ok r)
  | [], _, h => by cases h; rfl
  | .done (.ok r) :: rest, l, h => by
    obtain ⟨_ | l', hrest, hl⟩ := Option.map_eq_some'.mp h
    · cases hl
    · cases hl
      rw [tryCollect_eq_ok hrest]
      rfl
  | .done (.error _) :: _, _, h | .start :: _, _, h | .fetched _ :: _, _, h
  | .awaitingPrev _ _ :: _, _, h | .gotPrev _ _ _ :: _, _, h | .proved _ :: _, _, h => by cases h

lemma tryCollect_eq_error : ∀ {phs : List (Phase Input Agg Proof)} {e : String},
    tryCollect phs = some (.error e) →
      ∃ (oks : List (ℕ × Option Proof)) (rest : List (Phase Input Agg Proof)),
        phs = oks.map (fun r => .done (.ok r)) ++ .done (.error e) :: rest
  | .done (.ok r) :: _, _, h => by
    obtain ⟨_ | l', hrest, hl⟩ := Option.map_eq_some'.mp h
    · cases hl
      obtain ⟨oks, rest', rfl⟩ := tryCollect_eq_error hrest
      exact ⟨r :: oks, rest', rfl⟩
    · cases hl
  | .done (.error _) :: rest, _, h => by
    cases h
    exact ⟨[], rest, rfl⟩
  | [], _, h | .start :: _, _, h | .fetched _ :: _, _, h | .awaitingPrev _ _ :: _, _, h
  | .gotPrev _ _ _ :: _, _, h | .proved _ :: _, _, h => by cases h

lemma getElem?_of_map_range {L : List (Phase Input Agg Proof)}
    (h : (List.range n).map s.tasks = L) (i : ℕ) (hi : i < n) : L[i]? = some (s.tasks i) := by
  rw [← h, List.getElem?_map, List.getElem?_range hi]
  rfl

/-- **What `prove` returns.** `Ok` lists, for every block in order, its block number and its
proof unless it was written to disk, both from the proof that block sent. `Err` is the error of a
block's task, all of whose earlier blocks sent their proofs. -/
theorem proveResult_spec (hs : Reachable ops cfg n s) :
    (∀ l, proveResult n s = some (.ok l) →
      l.length = n ∧ ∀ i < n, ∃ p, s.sent i = some p ∧ l[i]? = some (blockResult ops cfg p)) ∧
    ∀ e, proveResult n s = some (.error e) →
      ∃ i < n, s.tasks i = .done (.error e) ∧ ∀ j < i, (s.sent j).isSome := by
  have hi := hs.inv
  refine ⟨fun l h => ?_, fun e h => ?_⟩
  · have heq := tryCollect_eq_ok h
    have hlen : l.length = n := by simpa using (congrArg List.length heq).symm
    refine ⟨hlen, fun i hin => ?_⟩
    have hget := getElem?_of_map_range heq i hin
    rw [List.getElem?_map] at hget
    obtain ⟨r, hr, ht⟩ := Option.map_eq_some'.mp hget
    obtain ⟨p, hp, rfl⟩ := hi.done_ok ht.symm
    exact ⟨p, hp, hr⟩
  · obtain ⟨oks, rest, heq⟩ := tryCollect_eq_error h
    have hlen : n = oks.length + (rest.length + 1) := by simpa using congrArg List.length heq
    refine ⟨oks.length, by omega, ?_, fun j hj => ?_⟩
    · have hget := getElem?_of_map_range heq oks.length (by omega)
      rw [List.getElem?_append_right (by simp), List.length_map, Nat.sub_self,
        List.getElem?_cons_zero] at hget
      exact (Option.some.inj hget).symm
    · have hget := getElem?_of_map_range heq j (by omega)
      rw [List.getElem?_append_left (by simpa using hj), List.getElem?_map] at hget
      obtain ⟨r, -, hr⟩ := Option.map_eq_some'.mp hget
      obtain ⟨p, hp, -⟩ := hi.done_ok hr.symm
      simp [hp]

/-- `prove` returns both block numbers with their proofs after `demoRun`, and block `0`'s error
after it fails. -/
theorem proveResult_spec_demo :
    proveResult 2 demoState = some (.ok [(4, some 4), (9, some 9)]) ∧
      (∃ p, demoState.sent 1 = some p ∧ [(4, some 4), (9, some 9)][1]? =
        some (blockResult demoOps demoCfg p)) ∧
      proveResult 2 demoFailState = some (.error "no input") ∧
      ∃ i < 2, demoFailState.tasks i = .done (.error "no input") ∧
        ∀ j < i, (demoFailState.sent j).isSome :=
  ⟨rfl, ((proveResult_spec (show Reachable demoOps demoCfg 2 demoState from ⟨demoRun, rfl⟩)).1 _
      rfl).2 1 (by decide), rfl,
    (proveResult_spec (show Reachable demoOps demoCfg 2 demoFailState from ⟨demoFailRun, rfl⟩)).2 _
      rfl⟩

end ZkEvm.Prover
