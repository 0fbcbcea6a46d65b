import Polkadot.Network.ImportQueue
import Mathlib.Logic.Relation

/-!
# The import thread

`AsyncImportQueue` drains its queue in a thread of its own, `import_thread`.  `Step`
interleaves the calls of the queue's owner (`import_blocks`, `clear`, and the stop flag
`drop` raises) with the steps of the thread.  The thread imports a popped batch one block per
step, reading the stop flag after each block as the loop of `import_many_blocks` does, and
takes the batch's hashes out of `queue_blocks` at its end; `notify_one` wakes the thread
waiting on the condition variable, and nothing else does.

Run alone, the thread's steps on a popped batch carry out `importBatch`, the whole of
`import_many_blocks` followed by the removal of the batch's hashes
(`threadSteps_importBatch`).  Over every interleaving:

* the thread waits only on an empty queue (`Reachable.waiting_queue_eq_nil`);
* with an owner that never calls `clear` and the service alive (`LiveStep`), the thread is
  never lost: while the stop flag is down and a batch is queued, it has a step of its own
  (`queued_batch_thread_steps`).  A `clear` between `notify_one` and the wake-up empties the
  queue under the thread, which then leaves its loop while the queue runs on;
* `drop` raises the stop flag and joins the thread without notifying it, so on an idle queue
  the join never returns; once the flag is up, every run of the thread's own steps is finite
  (`stop_thread_terminates`), and the client sees at most the import of the block the thread
  is at (`stop_imports_at_most_one`);
* the queue is first in, first out: along any run recorded with the batches queued and those
  the thread finished (`Run`), the finished batches and then the pending ones come in queue
  order, each at most once (`Run.finished_pending_sublist`);
* with an owner that never queues a block a pending batch holds (`FreshStep`), every block of
  a queued batch is reported as importing (`isImporting_of_fresh`); without that restriction
  the hashes of a batch leave `queue_blocks` after its import even when a later batch holds
  the same block, which `is_importing` then no longer reports.
-/

namespace Network

variable {H Hd J Bd O P Ch : Type}

/-! ### The thread and the system -/

/-- Where the import thread is in its loop. -/
inductive ThreadState (H Hd J Bd O P : Type) where
  /-- At the top of the loop, about to lock the queue. -/
  | ready
  /-- In `signal.wait` on an empty queue, the lock released. -/
  | waiting
  /-- Woken by `notify_one`, about to take the lock back and pop the queue. -/
  | notified
  /-- Holding a batch popped from the queue. -/
  | popped (blocks : O × List (BlockData H Hd J Bd P))
  /-- In the loop of `import_many_blocks` on the batch `blocks`, the blocks `rest` still to
  import. -/
  | importing (blocks : O × List (BlockData H Hd J Bd P)) (rest : List (BlockData H Hd J Bd P))
  /-- Out of its loop. -/
  | stopped

/-- The queue data, the client's state and the import thread, with the calls the thread made
on the link. -/
structure System (H Hd J Bd O P Ch : Type) where
  data : QueueData H Hd J Bd O P
  chain : Ch
  thread : ThreadState H Hd J Bd O P
  calls : List (LinkCall H P)

/-- `notify_one`: the waiting thread, if any, wakes. -/
def ThreadState.notifyOne : ThreadState H Hd J Bd O P → ThreadState H Hd J Bd O P
  | .waiting => .notified
  | t => t

/-- The system after `start`: a fresh queue, and the import thread at the top of its loop. -/
def System.start (chain : Ch) : System H Hd J Bd O P Ch :=
  ⟨.new, chain, .ready, []⟩

/-- `pop_front` under the queue lock: the thread holds the batch at the front, or leaves its
loop on an empty queue. -/
def System.popFront (s : System H Hd J Bd O P Ch) : System H Hd J Bd O P Ch :=
  match s.data.queue with
  | [] => { s with thread := .stopped }
  | blocks :: rest => { s with data := { s.data with queue := rest }, thread := .popped blocks }

/-- The store of `drop`: the stop flag up.  `drop` then joins the thread. -/
def System.stop (s : System H Hd J Bd O P Ch) : System H Hd J Bd O P Ch :=
  { s with data := { s.data with isStopping := true } }

section Thread

variable [DecidableEq H] (client : Client H Hd J Bd O Ch)

/-- The owner's `import_blocks`, which ends with `notify_one`. -/
def System.importBlocks (s : System H Hd J Bd O P Ch)
    (blocks : O × List (BlockData H Hd J Bd P)) : System H Hd J Bd O P Ch :=
  { s with data := s.data.importBlocks client blocks, thread := s.thread.notifyOne }

/-- The owner's `clear`. -/
def System.clear (s : System H Hd J Bd O P Ch) : System H Hd J Bd O P Ch :=
  { s with data := s.data.clear }

/-- The end of a batch the thread imported: the batch's hashes out of `queue_blocks`, and
the thread back at the top of its loop. -/
def System.finishBatch (s : System H Hd J Bd O P Ch) (blocks : O × List (BlockData H Hd J Bd P)) :
    System H Hd J Bd O P Ch :=
  { s with
    data := { s.data with queueBlocks := s.data.queueBlocks \ (blocks.2.map (·.hash)).toFinset }
    thread := .ready }

/-- One turn of the loop of `import_many_blocks` in the thread, on the block `block` of the
batch `blocks` with `rest` after it: the block imported and reported on the link, then a
failure resets the best number and ends the batch, a stopping queue ends the thread, and
otherwise the loop goes on. -/
def System.importNext (s : System H Hd J Bd O P Ch) (blocks : O × List (BlockData H Hd J Bd P))
    (block : BlockData H Hd J Bd P) (rest : List (BlockData H Hd J Bd P)) :
    System H Hd J Bd O P Ch :=
  let (chain, importResult) := importSingleBlock client s.chain blocks.1 block
  let s := { s with chain := chain, calls := s.calls ++ (processImportResult importResult).2 }
  if !importResult.isOk then System.finishBatch { s with data := s.data.resetBest } blocks
  else if s.data.isStopping then { s with thread := .stopped }
  else { s with thread := .importing blocks rest }

/-- One step of `import_thread`, `linked` saying whether the service and the client are
still there.  A waiting or stopped thread has no step of its own. -/
def threadStep (linked : Bool) (s : System H Hd J Bd O P Ch) :
    Option (System H Hd J Bd O P Ch) :=
  match s.thread with
  | .ready => some (if s.data.queue.isEmpty then { s with thread := .waiting } else s.popFront)
  | .waiting => none
  | .notified => some s.popFront
  | .popped blocks =>
    if s.data.isStopping then some { s with thread := .stopped }
    else if !linked then some { s with thread := .stopped }
    else some { s with thread := .importing blocks blocks.2 }
  | .importing blocks [] =>
    some (System.finishBatch { s with calls := s.calls ++ [.maintainSync] } blocks)
  | .importing blocks (block :: rest) => some (s.importNext client blocks block rest)
  | .stopped => none

/-- One step of the system: a call of the owner, or a step of the import thread. -/
inductive Step : System H Hd J Bd O P Ch → System H Hd J Bd O P Ch → Prop where
  | importBlocks (s : System H Hd J Bd O P Ch) (blocks : O × List (BlockData H Hd J Bd P)) :
      Step s (s.importBlocks client blocks)
  | clear (s : System H Hd J Bd O P Ch) : Step s s.clear
  | stop (s : System H Hd J Bd O P Ch) : Step s s.stop
  | thread {s s' : System H Hd J Bd O P Ch} (linked : Bool) :
      threadStep client linked s = some s' → Step s s'

/-- The states of the system reachable from `start` by any interleaving. -/
inductive Reachable (chain : Ch) : System H Hd J Bd O P Ch → Prop where
  | start : Reachable chain (.start chain)
  | step {s s' : System H Hd J Bd O P Ch} : Reachable chain s → Step client s s' →
      Reachable chain s'

/-- The system after the thread ran `import_many_blocks` on the batch `blocks` to the end
`run`: the batch's hashes out of `queue_blocks` and the thread back at the top of its loop
if the import ended or failed, the thread out of its loop if the queue was stopping. -/
def System.afterRun (s : System H Hd J Bd O P Ch) (blocks : O × List (BlockData H Hd J Bd P))
    (run : ImportRun H Hd J Bd O P Ch) : System H Hd J Bd O P Ch :=
  let data := run.qdata.getD s.data
  { data :=
      if run.result then
        { data with queueBlocks := data.queueBlocks \ (blocks.2.map (·.hash)).toFinset }
      else data
    chain := run.chain
    thread := if run.result then .ready else .stopped
    calls := s.calls ++ run.calls }

/-- The import of a popped batch as one step: `import_many_blocks` on the queue data, then
the batch's hashes out of `queue_blocks`, or out of the loop if the import stopped. -/
def System.importBatch (s : System H Hd J Bd O P Ch) (blocks : O × List (BlockData H Hd J Bd P)) :
    System H Hd J Bd O P Ch :=
  s.afterRun blocks (importManyBlocks client s.chain (some s.data) blocks)

end Thread

/-! ### The steps of the thread -/

section Steps

variable [DecidableEq H] {client : Client H Hd J Bd O Ch} {s s' : System H Hd J Bd O P Ch}
  {blocks : O × List (BlockData H Hd J Bd P)}

omit [DecidableEq H] in
@[simp]
theorem ThreadState.notifyOne_ne_waiting (t : ThreadState H Hd J Bd O P) :
  t.notifyOne ≠ .waiting
  := by
  cases t <;> simp [ThreadState.notifyOne]

omit [DecidableEq H] in
theorem System.popFront_thread_ne_waiting (s : System H Hd J Bd O P Ch) :
  s.popFront.thread ≠ .waiting
  := by
  unfold System.popFront
  split <;> simp

omit [DecidableEq H] in
@[simp]
theorem System.popFront_isStopping (s : System H Hd J Bd O P Ch) :
  s.popFront.data.isStopping = s.data.isStopping
  := by
  unfold System.popFront
  split <;> rfl

omit [DecidableEq H] in
@[simp]
theorem System.popFront_chain (s : System H Hd J Bd O P Ch) :
  s.popFront.chain = s.chain
  := by
  unfold System.popFront
  split <;> rfl

omit [DecidableEq H] in
/-- Popping leaves the thread holding a batch, or out of its loop. -/
theorem System.popFront_thread (s : System H Hd J Bd O P Ch) :
  s.popFront.thread = .stopped ∨ ∃ blocks, s.popFront.thread = .popped blocks
  := by
  unfold System.popFront
  split
  · exact .inl rfl
  · exact .inr ⟨_, rfl⟩

/-- The turns of the loop of `import_many_blocks`: a failed block ends the batch, a stopping
queue ends the thread, and otherwise the loop goes on. -/
theorem System.importNext_eq {block : BlockData H Hd J Bd P} (rest : List (BlockData H Hd J Bd P))
    {chain : Ch} {result : Except (BlockImportError P) (BlockImportResult H)}
    (h : importSingleBlock client s.chain blocks.1 block = (chain, result)) :
  result.isOk = false ∧ s.importNext client blocks block rest =
      System.finishBatch
        { s with
          data := s.data.resetBest
          chain := chain
          calls := s.calls ++ (processImportResult result).2 } blocks ∨
  result.isOk = true ∧ s.data.isStopping = true ∧ s.importNext client blocks block rest =
      { s with
        chain := chain
        calls := s.calls ++ (processImportResult result).2
        thread := .stopped } ∨
  result.isOk = true ∧ s.data.isStopping = false ∧ s.importNext client blocks block rest =
      { s with
        chain := chain
        calls := s.calls ++ (processImportResult result).2
        thread := .importing blocks rest }
  := by
  simp only [System.importNext, h]
  cases hok : result.isOk <;> cases hs : s.data.isStopping <;> simp [hs]

/-- Where a turn of the loop leaves the thread: back at the top of its loop after a failed
block, out of it on a stopping queue, and at the next block otherwise; the client's state is
the one after the import of the block, and the stop flag and the queue are as they were. -/
theorem System.importNext_spec (client : Client H Hd J Bd O Ch) (s : System H Hd J Bd O P Ch)
    (blocks : O × List (BlockData H Hd J Bd P)) (block : BlockData H Hd J Bd P)
    (rest : List (BlockData H Hd J Bd P)) :
  ((s.importNext client blocks block rest).thread = .ready ∨
    (s.importNext client blocks block rest).thread = .stopped ∧ s.data.isStopping = true ∨
    (s.importNext client blocks block rest).thread = .importing blocks rest ∧
      s.data.isStopping = false) ∧
  (s.importNext client blocks block rest).chain = (importSingleBlock client s.chain blocks.1 block).1 ∧
  (s.importNext client blocks block rest).data.isStopping = s.data.isStopping ∧
  (s.importNext client blocks block rest).data.queue = s.data.queue
  := by
  rcases hr : importSingleBlock client s.chain blocks.1 block with ⟨chain, result⟩
  rcases System.importNext_eq rest hr with ⟨-, heq⟩ | ⟨-, hst, heq⟩ | ⟨-, hst, heq⟩ <;> rw [heq]
  · exact ⟨.inl rfl, rfl, rfl, rfl⟩
  · exact ⟨.inr (.inl ⟨rfl, hst⟩), rfl, rfl, rfl⟩
  · exact ⟨.inr (.inr ⟨rfl, hst⟩), rfl, rfl, rfl⟩

/-- The steps of the import thread. -/
theorem threadStep_eq_some {linked : Bool} (h : threadStep client linked s = some s') :
  s.thread = .ready ∧ s.data.queue = [] ∧ s' = { s with thread := .waiting } ∨
  s.thread = .ready ∧ s.data.queue ≠ [] ∧ s' = s.popFront ∨
  s.thread = .notified ∧ s' = s.popFront ∨
  (∃ blocks, s.thread = .popped blocks ∧
    ((s.data.isStopping = true ∨ linked = false) ∧ s' = { s with thread := .stopped } ∨
      s.data.isStopping = false ∧ linked = true ∧ s' = { s with thread := .importing blocks blocks.2 })) ∨
  (∃ blocks, s.thread = .importing blocks [] ∧
    s' = System.finishBatch { s with calls := s.calls ++ [.maintainSync] } blocks) ∨
  ∃ blocks block rest, s.thread = .importing blocks (block :: rest) ∧
    s' = s.importNext client blocks block rest
  := by
  unfold threadStep at h
  split at h
  · by_cases hq : s.data.queue = [] <;> simp_all [List.isEmpty_iff]
  · cases h
  · simp_all
  · rename_i blocks hp
    refine .inr (.inr (.inr (.inl ⟨blocks, hp, ?_⟩)))
    cases hs : s.data.isStopping <;> cases linked <;> simp_all
  · rename_i blocks hp
    exact .inr (.inr (.inr (.inr (.inl ⟨blocks, hp, (Option.some.inj h).symm⟩))))
  · rename_i blocks block rest hp
    exact .inr (.inr (.inr (.inr (.inr ⟨blocks, block, rest, hp, (Option.some.inj h).symm⟩))))
  · cases h

end Steps

/-! ### The thread alone on a batch -/

section Alone

variable [DecidableEq H] {client : Client H Hd J Bd O Ch} {s : System H Hd J Bd O P Ch}
  {blocks : O × List (BlockData H Hd J Bd P)}

/-- From inside the loop of `import_many_blocks`, the thread alone reaches the end of the
batch that the loop computes, whatever count of imported blocks it starts from. -/
theorem System.importing_run {rest : List (BlockData H Hd J Bd P)}
    (ht : s.thread = .importing blocks rest) (hs : s.data.isStopping = false) (imported : ℕ) :
  Relation.ReflTransGen (fun a b => threadStep client true a = some b) s
    (s.afterRun blocks (importLoop client blocks.1 s.chain (some s.data) imported rest))
  := by
  induction rest generalizing s imported with
  | nil => exact .single (by simp [threadStep, ht]; rfl)
  | cons block rest ih =>
    have hstep : threadStep client true s = some (s.importNext client blocks block rest) := by
      simp [threadStep, ht]
    rcases hr : importSingleBlock client s.chain blocks.1 block with ⟨chain, result⟩
    rw [importLoop_cons]
    rcases System.importNext_eq rest hr with ⟨hok, heq⟩ | ⟨-, hs', -⟩ | ⟨hok, -, heq⟩
    · -- a failed block ends the batch
      refine .single (hstep.trans (congrArg some (heq.trans ?_)))
      simp [hr, hok, System.afterRun, System.finishBatch]
    · simp [hs] at hs'
    · -- the loop goes on with the rest of the batch
      have := ih (s := { s with
        chain := chain
        calls := s.calls ++ (processImportResult result).2
        thread := .importing blocks rest }) rfl hs (imported + (processImportResult result).1)
      refine .head (hstep.trans (congrArg some heq)) ?_
      simpa [hr, hok, hs, System.afterRun] using this

/-- The atomic import refines the thread: run alone from a popped batch, with the stop flag
down and the service alive, the thread's steps go through `import_many_blocks` one block at
a time and end exactly where the one-step `importBatch` does. -/
theorem threadSteps_importBatch (hp : s.thread = .popped blocks)
    (hs : s.data.isStopping = false) :
  Relation.ReflTransGen (fun a b => threadStep client true a = some b) s
    (s.importBatch client blocks)
  := .head (by simp [threadStep, hp, hs])
    (System.importing_run (s := { s with thread := .importing blocks blocks.2 }) rfl hs 0)

/-- A popped batch of two complete blocks, imported by the queuing client. -/
theorem threadSteps_importBatch_pair :
  Relation.ReflTransGen (fun a b => threadStep queuingClient true a = some b)
    ({ System.start () with thread := .popped ((), [⟨7, some 7, none, some (), ()⟩,
      ⟨8, some 8, none, some (), ()⟩]) } : System ℕ ℕ Unit Unit Unit Unit Unit)
    (System.importBatch queuingClient
      { System.start () with thread := .popped ((), [⟨7, some 7, none, some (), ()⟩,
        ⟨8, some 8, none, some (), ()⟩]) }
      ((), [⟨7, some 7, none, some (), ()⟩, ⟨8, some 8, none, some (), ()⟩]))
  := threadSteps_importBatch rfl rfl

end Alone

/-! ### Every interleaving -/

section Interleavings

variable [DecidableEq H] {client : Client H Hd J Bd O Ch} {s s' : System H Hd J Bd O P Ch}

/-- The thread waits only on an empty queue: the step lemma. -/
theorem Step.queue_eq_nil_of_waiting (h : Step client s s')
    (hI : s.thread = .waiting → s.data.queue = []) (hw : s'.thread = .waiting) :
  s'.data.queue = []
  := by
  cases h with
  | importBlocks => exact absurd hw (ThreadState.notifyOne_ne_waiting _)
  | clear => rfl
  | stop => exact hI hw
  | thread linked h =>
    rcases threadStep_eq_some h with ⟨-, hq, rfl⟩ | ⟨-, -, rfl⟩ | ⟨-, rfl⟩ |
      ⟨blocks, -, ⟨-, rfl⟩ | ⟨-, -, rfl⟩⟩ | ⟨blocks, -, rfl⟩ | ⟨blocks, block, rest, -, rfl⟩
    · exact hq
    · exact absurd hw s.popFront_thread_ne_waiting
    · exact absurd hw s.popFront_thread_ne_waiting
    · cases hw
    · cases hw
    · cases hw
    · rcases (s.importNext_spec client blocks block rest).1 with h | ⟨h, -⟩ | ⟨h, -⟩ <;>
        rw [h] at hw <;> cases hw

end Interleavings

/-! ### An owner that never clears the queue -/

section Live

variable [DecidableEq H] (client : Client H Hd J Bd O Ch)

/-- The steps of an owner that never calls `clear`, with the service and the client alive:
`import_blocks`, the stop flag of `drop`, and the steps of the linked thread. -/
inductive LiveStep : System H Hd J Bd O P Ch → System H Hd J Bd O P Ch → Prop where
  | importBlocks (s : System H Hd J Bd O P Ch) (blocks : O × List (BlockData H Hd J Bd P)) :
      LiveStep s (s.importBlocks client blocks)
  | stop (s : System H Hd J Bd O P Ch) : LiveStep s s.stop
  | thread {s s' : System H Hd J Bd O P Ch} : threadStep client true s = some s' → LiveStep s s'

end Live

/-- The thread is not lost: it waits only on an empty queue, wakes only to a batch it can
pop, and is out of its loop only under the stop flag. -/
structure System.Live (s : System H Hd J Bd O P Ch) : Prop where
  waiting : s.thread = .waiting → s.data.queue = []
  notified : s.thread = .notified → s.data.queue ≠ []
  stopped : s.thread = .stopped → s.data.isStopping = true

section LiveRuns

variable [DecidableEq H] {client : Client H Hd J Bd O Ch} {s s' : System H Hd J Bd O P Ch}

omit [DecidableEq H] in
@[simp]
theorem ThreadState.notifyOne_eq_stopped {t : ThreadState H Hd J Bd O P} :
  t.notifyOne = .stopped ↔ t = .stopped
  := by
  cases t <;> simp [ThreadState.notifyOne]

/-- An owner that never clears the queue is an owner of `Step`. -/
theorem LiveStep.step (h : LiveStep client s s') : Step client s s'
  := by
  cases h with
  | importBlocks blocks => exact .importBlocks s blocks
  | stop => exact .stop s
  | thread h => exact .thread true h

omit [DecidableEq H] in
theorem System.Live.start (chain : Ch) : (System.start chain : System H Hd J Bd O P Ch).Live
  := ⟨nofun, nofun, nofun⟩

omit [DecidableEq H] in
/-- Popping a queue that holds a batch leaves the thread holding it. -/
theorem System.popFront_live (hq : s.data.queue ≠ []) : s.popFront.Live
  := by
  unfold System.popFront
  split
  · contradiction
  · exact ⟨nofun, nofun, nofun⟩

/-- The step lemma: without `clear`, a notified thread finds its batch, and the linked thread
leaves its loop only when it reads the stop flag up. -/
theorem LiveStep.live (h : LiveStep client s s') (hL : s.Live) : s'.Live
  := by
  have hw := h.step.queue_eq_nil_of_waiting hL.waiting
  cases h with
  | importBlocks blocks =>
    -- the batch is at the back of the queue, and the thread as it was unless it waited
    exact ⟨hw, fun _ => by simp [System.importBlocks, QueueData.importBlocks],
      fun hs => hL.stopped (by simpa [System.importBlocks] using hs)⟩
  | stop => exact ⟨hw, hL.notified, fun _ => rfl⟩
  | thread h =>
    rcases threadStep_eq_some h with ⟨-, -, rfl⟩ | ⟨-, hq, rfl⟩ | ⟨hn, rfl⟩ |
      ⟨blocks, -, ⟨hst, rfl⟩ | ⟨-, -, rfl⟩⟩ | ⟨blocks, -, rfl⟩ | ⟨blocks, block, rest, -, rfl⟩
    · -- to wait on the empty queue
      exact ⟨hw, by simp, by simp⟩
    · -- the pop of a batch
      exact System.popFront_live hq
    · -- woken, the pop of the batch that notified it
      exact System.popFront_live (hL.notified hn)
    · -- out of the loop: with the service alive, only on the stop flag
      exact ⟨hw, by simp, fun _ => by simpa using hst⟩
    · -- the start of the batch
      exact ⟨hw, by simp, by simp⟩
    · -- the end of the batch
      exact ⟨hw, by simp [System.finishBatch], by simp [System.finishBatch]⟩
    · -- a turn of the import loop
      obtain ⟨hthread, -, hflag, -⟩ := s.importNext_spec client blocks block rest
      rcases hthread with h' | ⟨h', hst⟩ | ⟨h', -⟩
      · exact ⟨hw, by simp [h'], by simp [h']⟩
      · exact ⟨hw, by simp [h'], fun _ => hflag.trans hst⟩
      · exact ⟨hw, by simp [h'], by simp [h']⟩

/-- The run lemma. -/
theorem LiveStep.live_of_run {chain : Ch}
    (h : Relation.ReflTransGen (LiveStep client) (System.start chain) s) :
  s.Live
  := by
  induction h with
  | refl => exact .start chain
  | tail _ hstep ih => exact hstep.live ih

/-- Only a waiting or a stopped thread has no step of its own. -/
theorem threadStep_isSome (hw : s.thread ≠ .waiting) (hs : s.thread ≠ .stopped) (linked : Bool) :
  ∃ s', threadStep client linked s = some s'
  := by
  unfold threadStep
  split <;> simp_all
  split_ifs <;> simp

/-- With an owner that never calls `clear` and the service alive, the import thread is never
lost: over every interleaving, while the stop flag is down and a batch is queued, the thread
has a step of its own. -/
theorem queued_batch_thread_steps {chain : Ch}
    (h : Relation.ReflTransGen (LiveStep client) (System.start chain) s)
    (hs : s.data.isStopping = false) (hq : s.data.queue ≠ []) :
  ∃ s', threadStep client true s = some s'
  := by
  have hL := LiveStep.live_of_run h
  exact threadStep_isSome (fun hw => hq (hL.waiting hw))
    (fun hst => by simp [hL.stopped hst] at hs) true

/-- The thread of a fresh queue goes to wait, two batches are queued, and the woken thread
pops the first: the second batch is queued, and the thread has a step. -/
theorem queued_batch_thread_steps_woken :
  ∃ s, Relation.ReflTransGen (LiveStep recordingClient)
      (System.start [] : System ℕ ℕ Unit Unit Unit Unit (List ℕ)) s ∧
    s.data.queue = [((), [⟨8, some 8, none, some (), ()⟩])] ∧
    ∃ s', threadStep recordingClient true s = some s'
  := have h : Relation.ReflTransGen (LiveStep recordingClient)
        (System.start [] : System ℕ ℕ Unit Unit Unit Unit (List ℕ)) _ :=
      .head (.thread rfl) <| .head (.importBlocks _ ((), [⟨7, some 7, none, some (), ()⟩])) <|
        .head (.importBlocks _ ((), [⟨8, some 8, none, some (), ()⟩])) <| .head (.thread rfl) .refl
    ⟨_, h, rfl, queued_batch_thread_steps h rfl (List.cons_ne_nil _ _)⟩

/-- The owner's `clear` loses the thread: the thread of a fresh queue goes to wait, a batch
notifies it, a `clear` empties the queue before the thread takes the lock back, and the thread
pops nothing and leaves its loop; a batch queued afterwards, the stop flag still down, has no
thread to import it. -/
example :
  ∃ s, Relation.ReflTransGen (Step recordingClient)
      (System.start [] : System ℕ ℕ Unit Unit Unit Unit (List ℕ)) s ∧
    s.data.isStopping = false ∧ s.data.queue ≠ [] ∧ ∀ linked, threadStep recordingClient linked s = none
  := ⟨_, .head (.thread true rfl) <| .head (.importBlocks _ ((), [⟨7, some 7, none, some (), ()⟩])) <|
      .head (.clear _) <| .head (.thread true rfl) <|
      .head (.importBlocks _ ((), [⟨8, some 8, none, some (), ()⟩])) .refl,
    rfl, List.cons_ne_nil _ _, fun _ => rfl⟩

end LiveRuns

/-! ### `drop` -/

/-- How many steps of its own the thread has left once the queue is stopping: from the
middle of a batch, one to end it and two more to pop the next batch and see the flag. -/
def ThreadState.stopRank : ThreadState H Hd J Bd O P → ℕ
  | .waiting | .stopped => 0
  | .popped _ => 1
  | .ready | .notified => 2
  | .importing _ _ => 3

/-- The thread is about to import a block. -/
def ThreadState.ImportsNext (t : ThreadState H Hd J Bd O P) : Prop :=
  ∃ blocks block rest, t = .importing blocks (block :: rest)

section Drop

variable [DecidableEq H] {client : Client H Hd J Bd O Ch} {s s' : System H Hd J Bd O P Ch}
  {linked : Bool}

/-- Under the stop flag, every step of the thread keeps the flag, lowers its rank, and
leaves it not about to import; only a step from the middle of a batch reaches the client,
with the import of the block the thread is at. -/
theorem threadStep_of_stopping (hs : s.data.isStopping = true)
    (h : threadStep client linked s = some s') :
  s'.data.isStopping = true ∧ s'.thread.stopRank < s.thread.stopRank ∧ ¬s'.thread.ImportsNext ∧
    (s'.chain = s.chain ∨ ∃ blocks block rest, s.thread = .importing blocks (block :: rest) ∧
      s'.chain = (importSingleBlock client s.chain blocks.1 block).1)
  := by
  have hpop (hr : s.thread.stopRank = 2) : s.popFront.data.isStopping = true ∧
      s.popFront.thread.stopRank < s.thread.stopRank ∧ ¬s.popFront.thread.ImportsNext ∧
      s.popFront.chain = s.chain := by
    rw [hr]
    rcases s.popFront_thread with h' | ⟨b, h'⟩ <;>
      simp [h', hs, ThreadState.stopRank, ThreadState.ImportsNext]
  rcases threadStep_eq_some h with ⟨hr, -, rfl⟩ | ⟨hr, -, rfl⟩ | ⟨hn, rfl⟩ |
    ⟨blocks, hp, ⟨-, rfl⟩ | ⟨hst, -, -⟩⟩ | ⟨blocks, ht, rfl⟩ | ⟨blocks, block, rest, ht, rfl⟩
  · simp [hs, hr, ThreadState.stopRank, ThreadState.ImportsNext]
  · obtain ⟨h₁, h₂, h₃, h₄⟩ := hpop (by simp [hr, ThreadState.stopRank])
    exact ⟨h₁, h₂, h₃, .inl h₄⟩
  · obtain ⟨h₁, h₂, h₃, h₄⟩ := hpop (by simp [hn, ThreadState.stopRank])
    exact ⟨h₁, h₂, h₃, .inl h₄⟩
  · simp [hs, hp, ThreadState.stopRank, ThreadState.ImportsNext]
  · simp [hs] at hst
  · simp [hs, ht, System.finishBatch, ThreadState.stopRank, ThreadState.ImportsNext]
  · obtain ⟨hthread, hch, hflag, -⟩ := s.importNext_spec client blocks block rest
    refine ⟨hflag.trans hs, ?_, ?_, .inr ⟨blocks, block, rest, ht, hch⟩⟩ <;>
      rcases hthread with h' | ⟨h', -⟩ | ⟨-, hst⟩ <;>
      simp_all [ThreadState.stopRank, ThreadState.ImportsNext]

/-- `drop` on an idle queue never returns: it raises the stop flag and joins the thread
without notifying it, and the thread of a fresh queue, gone to wait, has no step of its own,
so it never leaves its loop. -/
example :
  ∃ s, Relation.ReflTransGen (Step recordingClient)
      (System.start [] : System ℕ ℕ Unit Unit Unit Unit (List ℕ)) s ∧
    s.data.isStopping = true ∧ s.thread = .waiting ∧ ∀ linked, threadStep recordingClient linked s = none
  := ⟨_, .head (.thread true rfl) (.single (.stop _)), rfl, rfl, fun _ => rfl⟩

/-- The run lemma: under the stop flag, a thread not about to import leaves the client
alone over every run of its own steps. -/
theorem ReflTransGen.chain_of_stopping {a b : System H Hd J Bd O P Ch}
    (h : Relation.ReflTransGen (fun a b => ∃ linked, threadStep client linked a = some b) a b)
    (hs : a.data.isStopping = true) (hn : ¬a.thread.ImportsNext) :
  b.chain = a.chain ∧ b.data.isStopping = true ∧ ¬b.thread.ImportsNext
  := by
  induction h with
  | refl => exact ⟨rfl, hs, hn⟩
  | tail _ hstep ih =>
    obtain ⟨linked, hstep⟩ := hstep
    obtain ⟨hc, hs', hn'⟩ := ih
    obtain ⟨hs'', -, hn'', hch⟩ := threadStep_of_stopping hs' hstep
    refine ⟨?_, hs'', hn''⟩
    rcases hch with hch | ⟨blocks, block, rest, ht, -⟩
    · exact hch.trans hc
    · exact absurd ⟨blocks, block, rest, ht⟩ hn'

/-- Once `drop` has raised the stop flag, the client sees at most one more import: over every
run of the thread's own steps, the client's state is the one it had, or the one after
the import of the block the thread was at. -/
theorem stop_imports_at_most_one (hs : s.data.isStopping = true)
    (h : Relation.ReflTransGen (fun a b => ∃ linked, threadStep client linked a = some b) s s') :
  s'.chain = s.chain ∨ ∃ blocks block rest, s.thread = .importing blocks (block :: rest) ∧
    s'.chain = (importSingleBlock client s.chain blocks.1 block).1
  := by
  rcases Relation.ReflTransGen.cases_head h with rfl | ⟨s₁, ⟨linked, hstep⟩, hrest⟩
  · exact .inl rfl
  · obtain ⟨hs₁, -, hn₁, hch⟩ := threadStep_of_stopping hs hstep
    rw [(ReflTransGen.chain_of_stopping hrest hs₁ hn₁).1]
    exact hch

/-- A thread in the middle of a batch of two blocks when the flag goes up: its next step
imports the first block, which the client records, and leaves the loop. -/
theorem stop_imports_at_most_one_pair :
  let s : System ℕ ℕ Unit Unit Unit Unit (List ℕ) :=
    { data := ⟨[], ∅, 0, true⟩, chain := [],
      thread := .importing ((), [⟨7, some 7, none, some (), ()⟩, ⟨8, some 8, none, some (), ()⟩])
        [⟨7, some 7, none, some (), ()⟩, ⟨8, some 8, none, some (), ()⟩],
      calls := [] }
  let s' := s.importNext recordingClient
    ((), [⟨7, some 7, none, some (), ()⟩, ⟨8, some 8, none, some (), ()⟩])
    ⟨7, some 7, none, some (), ()⟩ [⟨8, some 8, none, some (), ()⟩]
  s'.chain = s.chain ∨ ∃ blocks block rest, s.thread = .importing blocks (block :: rest) ∧
    s'.chain = (importSingleBlock recordingClient s.chain blocks.1 block).1
  := stop_imports_at_most_one rfl (.single ⟨true, rfl⟩)

/-- In the witness above the client has recorded block 7 and the thread is out of its loop. -/
example :
  let s : System ℕ ℕ Unit Unit Unit Unit (List ℕ) :=
    { data := ⟨[], ∅, 0, true⟩, chain := [],
      thread := .importing ((), [⟨7, some 7, none, some (), ()⟩, ⟨8, some 8, none, some (), ()⟩])
        [⟨7, some 7, none, some (), ()⟩, ⟨8, some 8, none, some (), ()⟩],
      calls := [] }
  let s' := s.importNext recordingClient
    ((), [⟨7, some 7, none, some (), ()⟩, ⟨8, some 8, none, some (), ()⟩])
    ⟨7, some 7, none, some (), ()⟩ [⟨8, some 8, none, some (), ()⟩]
  s'.chain = [7] ∧ s'.thread = .stopped
  := ⟨rfl, rfl⟩

end Drop

/-! ### An owner that queues fresh blocks -/

/-- The batch the import thread holds, if any. -/
def ThreadState.batch : ThreadState H Hd J Bd O P → List (O × List (BlockData H Hd J Bd P))
  | .popped blocks | .importing blocks _ => [blocks]
  | _ => []

/-- The batches the import thread has still to import: the one it holds, then the queue. -/
def System.pending (s : System H Hd J Bd O P Ch) : List (O × List (BlockData H Hd J Bd P)) :=
  s.thread.batch ++ s.data.queue

/-- No block of one batch has the hash of a block of the other. -/
def ShareNoBlock (blocks blocks' : O × List (BlockData H Hd J Bd P)) : Prop :=
  ∀ block ∈ blocks.2, ∀ block' ∈ blocks'.2, block.hash ≠ block'.hash

section Fresh

variable [DecidableEq H] (client : Client H Hd J Bd O Ch)

/-- A step of the system whose owner queues only batches that share no block with a pending
batch. -/
inductive FreshStep : System H Hd J Bd O P Ch → System H Hd J Bd O P Ch → Prop where
  | importBlocks (s : System H Hd J Bd O P Ch) (blocks : O × List (BlockData H Hd J Bd P)) :
      (∀ pending ∈ s.pending, ShareNoBlock pending blocks) →
      FreshStep s (s.importBlocks client blocks)
  | clear (s : System H Hd J Bd O P Ch) : FreshStep s s.clear
  | stop (s : System H Hd J Bd O P Ch) : FreshStep s s.stop
  | thread {s s' : System H Hd J Bd O P Ch} (linked : Bool) :
      threadStep client linked s = some s' → FreshStep s s'

/-- What makes `is_importing` accurate: every block of a queued batch is in `queue_blocks`, and
no two pending batches share a block. -/
structure System.Accurate (s : System H Hd J Bd O P Ch) : Prop where
  queued : ∀ blocks ∈ s.data.queue, ∀ block ∈ blocks.2, block.hash ∈ s.data.queueBlocks
  disjoint : s.pending.Pairwise ShareNoBlock

end Fresh

section FreshRuns

variable [DecidableEq H] {client : Client H Hd J Bd O Ch} {s s' : System H Hd J Bd O P Ch}

/-- A step of a fresh owner is a step of the system. -/
theorem FreshStep.step (h : FreshStep client s s') :
  Step client s s'
  := by
  cases h with
  | importBlocks => exact .importBlocks _ _
  | clear => exact .clear _
  | stop => exact .stop _
  | thread linked h => exact .thread linked h

omit [DecidableEq H] in
@[simp]
theorem ThreadState.batch_notifyOne (t : ThreadState H Hd J Bd O P) :
  t.notifyOne.batch = t.batch
  := by
  cases t <;> rfl

omit [DecidableEq H] in
theorem System.Accurate.start (chain : Ch) :
  (System.start chain : System H Hd J Bd O P Ch).Accurate
  := ⟨fun _ h => by simp [System.start, QueueData.new] at h, .nil⟩

omit [DecidableEq H] in
/-- A state with the queue and `queue_blocks` of an accurate one, whose pending batches are
among the latter's, is accurate. -/
theorem System.Accurate.of_sublist (hA : s.Accurate) (hq : s'.data.queue = s.data.queue)
    (hqb : s'.data.queueBlocks = s.data.queueBlocks) (hp : s'.pending.Sublist s.pending) :
  s'.Accurate
  := ⟨by rw [hq, hqb]; exact hA.queued, hA.disjoint.sublist hp⟩

omit [DecidableEq H] in
/-- The thread, holding no batch, pops the front of the queue. -/
theorem System.Accurate.popFront (hA : s.Accurate) (hb : s.thread.batch = []) :
  s.popFront.Accurate
  := by
  unfold System.popFront
  split
  · rename_i hq
    exact ⟨fun _ h => by simp [hq] at h, by simp [System.pending, ThreadState.batch, hq]⟩
  · rename_i blocks rest hq
    have hd := hA.disjoint
    rw [System.pending, hb, hq] at hd
    exact ⟨fun b h => hA.queued b (by simp [hq, h]), hd⟩

/-- The owner queues a batch that shares no block with a pending one. -/
theorem System.Accurate.importBlocks (hA : s.Accurate) (blocks : O × List (BlockData H Hd J Bd P))
    (hfresh : ∀ pending ∈ s.pending, ShareNoBlock pending blocks) :
  (s.importBlocks client blocks).Accurate
  := by
  refine ⟨fun b hb block hblock => ?_, ?_⟩
  · simp only [System.importBlocks, QueueData.importBlocks, List.mem_append,
      List.mem_singleton] at hb ⊢
    rcases hb with hb | rfl
    · exact Finset.mem_union_left _ (hA.queued b hb block hblock)
    · exact Finset.mem_union_right _ (List.mem_toFinset.mpr (List.mem_map_of_mem _ hblock))
  · have hp : (s.importBlocks client blocks).pending = s.pending ++ [blocks] := by
      simp [System.pending, System.importBlocks, QueueData.importBlocks]
    rw [hp, List.pairwise_append]
    exact ⟨hA.disjoint, List.pairwise_singleton _ _,
      fun b hb b' hb' => (List.mem_singleton.mp hb') ▸ hfresh b hb⟩

omit [DecidableEq H] in
/-- The owner's `clear`. -/
theorem System.Accurate.clear (hA : s.Accurate) :
  s.clear.Accurate
  := ⟨fun _ h => by simp [System.clear, QueueData.clear] at h,
    hA.disjoint.sublist (by simp [System.pending, System.clear, QueueData.clear])⟩

/-- The end of the batch the thread holds takes its hashes out of `queue_blocks`, and no
queued batch holds one of them: any state with the queue and `queue_blocks` of an accurate
one whose thread holds `blocks` ends the batch accurate. -/
theorem System.Accurate.finishBatch {blocks : O × List (BlockData H Hd J Bd P)}
    {s₀ : System H Hd J Bd O P Ch} (hA : s.Accurate) (hb : s.thread.batch = [blocks])
    (hq : s₀.data.queue = s.data.queue) (hqb : s₀.data.queueBlocks = s.data.queueBlocks) :
  (s₀.finishBatch blocks).Accurate
  := by
  have hd := hA.disjoint
  simp only [System.pending, hb, List.singleton_append, List.pairwise_cons] at hd
  refine ⟨fun b hb' block hblock => ?_, ?_⟩
  · simp only [System.finishBatch, hq] at hb' ⊢
    rw [Finset.mem_sdiff, List.mem_toFinset, hqb]
    refine ⟨hA.queued b hb' block hblock, fun hmem => ?_⟩
    obtain ⟨block₀, h₀, heq⟩ := List.mem_map.mp hmem
    exact hd.1 b hb' block₀ h₀ block hblock heq
  · simpa [System.pending, System.finishBatch, ThreadState.batch, hq] using hd.2

/-- The step lemma: every step of a fresh owner or of the thread keeps `is_importing`
accurate. -/
theorem FreshStep.accurate (h : FreshStep client s s') (hA : s.Accurate) :
  s'.Accurate
  := by
  cases h with
  | importBlocks blocks hfresh => exact hA.importBlocks blocks hfresh
  | clear => exact hA.clear
  | stop => exact hA.of_sublist rfl rfl (List.Sublist.refl _)
  | thread linked h =>
    rcases threadStep_eq_some h with ⟨hr, -, rfl⟩ | ⟨hr, -, rfl⟩ | ⟨hn, rfl⟩ |
      ⟨blocks, hp, ⟨-, rfl⟩ | ⟨-, -, rfl⟩⟩ | ⟨blocks, ht, rfl⟩ | ⟨blocks, block, rest, ht, rfl⟩
    · exact hA.of_sublist rfl rfl (by simp [System.pending, hr, ThreadState.batch])
    · exact hA.popFront (by simp [hr, ThreadState.batch])
    · exact hA.popFront (by simp [hn, ThreadState.batch])
    · exact hA.of_sublist rfl rfl (by simp [System.pending, hp, ThreadState.batch])
    · exact hA.of_sublist rfl rfl (by simp [System.pending, hp, ThreadState.batch])
    · exact hA.finishBatch (by simp [ht, ThreadState.batch]) rfl rfl
    · rcases hr : importSingleBlock client s.chain blocks.1 block with ⟨chain, result⟩
      rcases System.importNext_eq rest hr with ⟨-, heq⟩ | ⟨-, -, heq⟩ | ⟨-, -, heq⟩ <;>
        rw [heq]
      · exact hA.finishBatch (by simp [ht, ThreadState.batch]) rfl rfl
      · exact hA.of_sublist rfl rfl (by simp [System.pending, ht, ThreadState.batch])
      · exact hA.of_sublist rfl rfl (by simp [System.pending, ht, ThreadState.batch])

/-- The run lemma: from `start`, every interleaving of a fresh owner with the thread keeps
`is_importing` accurate. -/
theorem FreshStep.accurate_of_run {chain : Ch}
    (h : Relation.ReflTransGen (FreshStep client) (System.start chain) s) :
  s.Accurate
  := by
  induction h with
  | refl => exact .start chain
  | tail _ hstep ih => exact hstep.accurate ih

/-- Without the restriction on the owner `is_importing` is not accurate: block 7 queued in two
batches of a fresh queue and the first batch imported, block 7 is no longer reported as
importing while the second batch is still queued. -/
example :
  ∃ s, Relation.ReflTransGen (Step recordingClient)
      (System.start [] : System ℕ ℕ Unit Unit Unit Unit (List ℕ)) s ∧
    s.data.queue = [((), [⟨7, some 7, none, some (), ()⟩])] ∧ s.data.isImporting 7 = false
  := ⟨_, .head (.importBlocks _ ((), [⟨7, some 7, none, some (), ()⟩])) <|
      .head (.importBlocks _ ((), [⟨7, some 7, none, some (), ()⟩])) <| .head (.thread true rfl) <|
      .head (.thread true rfl) <| .head (.thread true rfl) <| .single (.thread true rfl), rfl,
    by decide⟩

end FreshRuns

/-! ### Batches in queue order -/

/-- The batch a step of the thread finished: the one it held, when the step sends it back to
the top of its loop. -/
def ThreadState.finished :
    ThreadState H Hd J Bd O P → ThreadState H Hd J Bd O P → List (O × List (BlockData H Hd J Bd P))
  | .importing blocks _, .ready => [blocks]
  | _, _ => []

section Order

variable [DecidableEq H] (client : Client H Hd J Bd O Ch)

/-- A run of the system, with the batches the owner queued and those the thread finished
along it, in order. -/
inductive Run : System H Hd J Bd O P Ch → List (O × List (BlockData H Hd J Bd P)) →
    List (O × List (BlockData H Hd J Bd P)) → System H Hd J Bd O P Ch → Prop where
  | refl (s : System H Hd J Bd O P Ch) : Run s [] [] s
  | importBlocks {s s' : System H Hd J Bd O P Ch} {queued finished}
      (blocks : O × List (BlockData H Hd J Bd P)) :
      Run s queued finished s' → Run s (queued ++ [blocks]) finished (s'.importBlocks client blocks)
  | clear {s s' : System H Hd J Bd O P Ch} {queued finished} :
      Run s queued finished s' → Run s queued finished s'.clear
  | stop {s s' : System H Hd J Bd O P Ch} {queued finished} :
      Run s queued finished s' → Run s queued finished s'.stop
  | thread {s s' s'' : System H Hd J Bd O P Ch} {queued finished} (linked : Bool) :
      Run s queued finished s' → threadStep client linked s' = some s'' →
      Run s queued (finished ++ s'.thread.finished s''.thread) s''

end Order

section OrderRuns

variable [DecidableEq H] {client : Client H Hd J Bd O Ch} {s s' : System H Hd J Bd O P Ch}
  {queued finished : List (O × List (BlockData H Hd J Bd P))}

/-- A recorded run is a run of the system. -/
theorem Run.steps (h : Run client s queued finished s') :
  Relation.ReflTransGen (Step client) s s'
  := by
  induction h with
  | refl => exact .refl
  | importBlocks blocks _ ih => exact ih.tail (.importBlocks _ blocks)
  | clear _ ih => exact ih.tail (.clear _)
  | stop _ ih => exact ih.tail (.stop _)
  | thread linked _ hs ih => exact ih.tail (.thread linked hs)

/-- Every run of the system is recorded by some lists of batches queued and finished. -/
theorem Run.of_steps (h : Relation.ReflTransGen (Step client) s s') :
  ∃ queued finished, Run client s queued finished s'
  := by
  induction h with
  | refl => exact ⟨[], [], .refl _⟩
  | tail _ hstep ih =>
    obtain ⟨queued, finished, hr⟩ := ih
    cases hstep with
    | importBlocks blocks => exact ⟨_, _, hr.importBlocks blocks⟩
    | clear => exact ⟨_, _, hr.clear⟩
    | stop => exact ⟨_, _, hr.stop⟩
    | thread linked hs => exact ⟨_, _, hr.thread linked hs⟩

omit [DecidableEq H] in
@[simp]
theorem System.popFront_pending (s : System H Hd J Bd O P Ch) :
  s.popFront.pending = s.data.queue
  := by
  unfold System.popFront
  split <;> simp_all [System.pending, ThreadState.batch]

@[simp]
theorem System.pending_importBlocks (blocks : O × List (BlockData H Hd J Bd P)) :
  (s.importBlocks client blocks).pending = s.pending ++ [blocks]
  := by
  simp [System.pending, System.importBlocks, QueueData.importBlocks]

/-- The step lemma: a step of the thread finishes the batch it holds, drops it, or keeps it,
and never touches the queue but to pop its front. -/
theorem threadStep_pending {linked : Bool} (h : threadStep client linked s = some s') :
  (s.thread.finished s'.thread ++ s'.pending).Sublist s.pending
  := by
  rcases threadStep_eq_some h with ⟨hr, -, rfl⟩ | ⟨hr, -, rfl⟩ | ⟨hn, rfl⟩ |
    ⟨blocks, hp, ⟨-, rfl⟩ | ⟨-, -, rfl⟩⟩ | ⟨blocks, ht, rfl⟩ | ⟨blocks, block, rest, ht, rfl⟩
  · simp [System.pending, ThreadState.batch, ThreadState.finished, hr]
  · rw [System.popFront_pending]
    simp [System.pending, ThreadState.batch, ThreadState.finished, hr]
  · rw [System.popFront_pending]
    simp [System.pending, ThreadState.batch, ThreadState.finished, hn]
  · simp [System.pending, ThreadState.batch, ThreadState.finished, hp]
  · simp [System.pending, ThreadState.batch, ThreadState.finished, hp]
  · simp [System.pending, ThreadState.batch, ThreadState.finished, System.finishBatch, ht]
  · obtain ⟨hthread, -, -, hq⟩ := s.importNext_spec client blocks block rest
    rcases hthread with h' | ⟨h', -⟩ | ⟨h', -⟩ <;>
      simp [System.pending, ThreadState.batch, ThreadState.finished, ht, h', hq]

/-- The import queue is first in, first out, over every interleaving: along any run, the
batches the thread finished, then those still pending, come in the order of the batches
pending at the start followed by those the owner queued, each at most as often.  The thread
never imports a batch out of order or twice; `clear` and the stop flag only drop batches. -/
theorem Run.finished_pending_sublist (h : Run client s queued finished s') :
  (finished ++ s'.pending).Sublist (s.pending ++ queued)
  := by
  induction h with
  | refl => simp
  | importBlocks blocks _ ih =>
    rw [System.pending_importBlocks, ← List.append_assoc, ← List.append_assoc]
    exact ih.append (List.Sublist.refl _)
  | clear _ ih =>
    refine List.Sublist.trans ?_ ih
    exact (List.Sublist.refl _).append (by simp [System.pending, System.clear, QueueData.clear])
  | stop _ ih => exact ih
  | thread linked _ hs ih =>
    rw [List.append_assoc]
    exact ((List.Sublist.refl _).append (threadStep_pending hs)).trans ih

/-- Two batches queued on a fresh queue, then four steps of the thread: it pops the first,
starts on it, imports its block and finishes it, the second still queued. -/
theorem Run.finished_pending_sublist_start :
  let s₀ : System ℕ ℕ Unit Unit Unit Unit Unit := System.start ()
  let b₁ : Unit × List (BlockData ℕ ℕ Unit Unit Unit) := ((), [⟨7, some 7, none, some (), ()⟩])
  let b₂ : Unit × List (BlockData ℕ ℕ Unit Unit Unit) := ((), [⟨8, some 8, none, some (), ()⟩])
  ∃ s' finished, Run queuingClient s₀ ([] ++ [b₁] ++ [b₂]) finished s' ∧
    (finished ++ s'.pending).Sublist (s₀.pending ++ ([] ++ [b₁] ++ [b₂]))
  := by
  intro s₀ b₁ b₂
  obtain ⟨s', finished, h⟩ : ∃ s' finished, Run queuingClient s₀ ([] ++ [b₁] ++ [b₂]) finished s' :=
    ⟨_, _, ((((((Run.refl s₀).importBlocks b₁).importBlocks b₂).thread true rfl).thread true
      rfl).thread true rfl).thread true rfl⟩
  exact ⟨s', finished, h, Run.finished_pending_sublist h⟩

end OrderRuns

end Network
