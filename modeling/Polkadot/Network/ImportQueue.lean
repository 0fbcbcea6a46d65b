import Mathlib.Data.Finset.Card

/-!
# The block import queue

The import queue of `substrate/network/src/import_queue.rs`.  `importSingleBlock` checks
that a block comes with a header and a justification, asks the client for the block's status
and imports it; `processImportResult` reports the outcome on the link to the sync service;
`importManyBlocks` imports a batch in order, stopping at the first block that fails and,
when the queue is stopping, after the first block.  The client is a state machine left
abstract (`Client`), and the calls on the link are recorded as a list of `LinkCall`s.  With
the stop flag down, a batch reports its imported blocks and then tells the sync service once
how to go on (`importLoop_verdict`), and a failed block resets the best importing number,
whatever batches are still queued (`importLoop_qdata`).

The queue's interface (`import_blocks`, `clear`, `status`, `is_importing`) acts on
`QueueData`; the import thread that drains the queue is in `Polkadot.Network.ImportThread`.
-/

namespace Network

/-- The statuses of the client's `block_status` that `import_single_block` tells apart: in
the chain, or anything else. -/
inductive BlockStatus where
  | inChain
  | notInChain
  deriving DecidableEq

/-- `ImportResult`: what the client's `import` reports. -/
inductive ImportResult where
  | alreadyInChain
  | alreadyQueued
  | queued
  | unknownParent
  | knownBad
  deriving DecidableEq

/-- The client, with its state `Ch`, and the block type, as the queue uses them: the number
and hash of a header, `block_status` and `import`.  An answer `none` is an error of the
client, which the queue only logs. -/
structure Client (H Hd J Bd O Ch : Type) where
  number : Hd → ℕ
  hash : Hd → H
  blockStatus : Ch → H → Option BlockStatus
  importBlock : Ch → O → Hd → J → Option Bd → Ch × Option ImportResult

/-- `BlockData` as the queue reads it: the block's hash, header, body and justification, and
the peer it came from. -/
structure BlockData (H Hd J Bd P : Type) where
  hash : H
  header : Option Hd
  body : Option Bd
  justification : Option J
  origin : P

/-- `BlockImportResult`: a block imported without error. -/
inductive BlockImportResult (H : Type) where
  /-- The block is not imported. -/
  | notImported (hash : H) (number : ℕ)
  /-- Imported known block. -/
  | importedKnown (hash : H) (number : ℕ)
  /-- Imported unknown block. -/
  | importedUnknown (hash : H) (number : ℕ)
  deriving DecidableEq

/-- `BlockImportError`. -/
inductive BlockImportError (P : Type) where
  /-- Disconnect from the peer and go on with the next batch. -/
  | disconnect (peer : P)
  /-- Disconnect from the peer and restart sync. -/
  | disconnectAndRestart (peer : P)
  /-- Restart sync. -/
  | restart
  deriving DecidableEq

/-- The calls of `SyncLinkApi` on the sync service. -/
inductive LinkCall (H P : Type) where
  | blockImported (hash : H) (number : ℕ)
  | maintainSync
  | disconnect (peer : P)
  | disconnectAndRestart (peer : P)
  | restart
  deriving DecidableEq

/-- `AsyncImportQueueData` without its condition variable: the batches waiting, the hashes of
the blocks queued, the best block number ever queued since start or the last failure, and
the stop flag. -/
structure QueueData (H Hd J Bd O P : Type) where
  queue : List (O × List (BlockData H Hd J Bd P))
  queueBlocks : Finset H
  bestImportingNumber : ℕ
  isStopping : Bool

variable {H Hd J Bd O P Ch : Type}

/-! ### Importing a batch -/

section Import

variable (client : Client H Hd J Bd O Ch)

/-- `import_single_block`: a block without a header or a justification disconnects its peer;
a block in the chain is not imported; otherwise the client imports it. -/
def importSingleBlock (chain : Ch) (blockOrigin : O) (block : BlockData H Hd J Bd P) :
    Ch × Except (BlockImportError P) (BlockImportResult H) :=
  match block.header, block.justification with
  | some header, some justification =>
    let number := client.number header
    let hash := client.hash header
    match client.blockStatus chain hash with
    | some .inChain => (chain, .ok (.notImported hash number))
    | some _ =>
      let (chain, result) :=
        client.importBlock chain blockOrigin header justification block.body
      (chain,
        match result with
        | some .alreadyInChain | some .alreadyQueued => .ok (.importedKnown hash number)
        | some .queued => .ok (.importedUnknown hash number)
        | some .unknownParent => .error .restart
        | some .knownBad => .error (.disconnectAndRestart block.origin)
        | none => .error .restart)
    | none => (chain, .error .restart)
  | none, _ | _, none => (chain, .error (.disconnect block.origin))

/-- `process_import_result`: the number of blocks newly imported, and the calls on the
link. -/
def processImportResult :
    Except (BlockImportError P) (BlockImportResult H) → ℕ × List (LinkCall H P)
  | .ok (.notImported _ _) => (0, [])
  | .ok (.importedKnown hash number) => (0, [.blockImported hash number])
  | .ok (.importedUnknown hash number) => (1, [.blockImported hash number])
  | .error (.disconnect peer) => (0, [.disconnect peer])
  | .error (.disconnectAndRestart peer) => (0, [.disconnectAndRestart peer])
  | .error .restart => (0, [.restart])

/-- What `import_many_blocks` leaves: the client's state, the calls made on the link, the
queue data, the count `imported` of blocks newly imported, and the result. -/
structure ImportRun (H Hd J Bd O P Ch : Type) where
  chain : Ch
  calls : List (LinkCall H P)
  qdata : Option (QueueData H Hd J Bd O P)
  imported : ℕ
  result : Bool

/-- The queue data after a failed import: `best_importing_number` back to zero. -/
def QueueData.resetBest (q : QueueData H Hd J Bd O P) : QueueData H Hd J Bd O P :=
  { q with bestImportingNumber := 0 }

/-- The loop of `import_many_blocks` over the blocks left, `imported` blocks imported so far.
A failed block resets the best number and ends the batch with `true`; a stopping queue ends
it after the block with `false`; a batch imported in full asks the link to maintain sync. -/
def importLoop (blocksOrigin : O) (chain : Ch) (qdata : Option (QueueData H Hd J Bd O P))
    (imported : ℕ) : List (BlockData H Hd J Bd P) → ImportRun H Hd J Bd O P Ch
  | [] => ⟨chain, [.maintainSync], qdata, imported, true⟩
  | block :: blocks =>
    let (chain, importResult) := importSingleBlock client chain blocksOrigin block
    let isImportFailed := !importResult.isOk
    let (count, calls) := processImportResult importResult
    if isImportFailed then ⟨chain, calls, qdata.map QueueData.resetBest, imported + count, true⟩
    else if (qdata.map (·.isStopping)).getD false then
      ⟨chain, calls, qdata, imported + count, false⟩
    else
      let run := importLoop blocksOrigin chain qdata (imported + count) blocks
      { run with calls := calls ++ run.calls }

/-- `import_many_blocks`. -/
def importManyBlocks (chain : Ch) (qdata : Option (QueueData H Hd J Bd O P))
    (blocks : O × List (BlockData H Hd J Bd P)) : ImportRun H Hd J Bd O P Ch :=
  importLoop client blocks.1 chain qdata 0 blocks.2

/-- Some block of `blocks`, imported in order from `chain`, fails, the blocks before it
importing without error. -/
def fails (blocksOrigin : O) : Ch → List (BlockData H Hd J Bd P) → Bool
  | _, [] => false
  | chain, block :: blocks =>
    let (chain, importResult) := importSingleBlock client chain blocksOrigin block
    !importResult.isOk || fails blocksOrigin chain blocks

end Import

/-! ### The queue's interface -/

section Queue

variable (client : Client H Hd J Bd O Ch)

/-- `AsyncImportQueueData::new`. -/
def QueueData.new : QueueData H Hd J Bd O P :=
  ⟨[], ∅, 0, false⟩

/-- `ImportQueueStatus`. -/
structure ImportQueueStatus where
  importingCount : ℕ
  bestImportingNumber : ℕ

variable [DecidableEq H]

/-- `clear`: the queue emptied and the best number back to zero. -/
def QueueData.clear (q : QueueData H Hd J Bd O P) : QueueData H Hd J Bd O P :=
  { q with queue := [], queueBlocks := ∅, bestImportingNumber := 0 }

/-- `status`. -/
def QueueData.status (q : QueueData H Hd J Bd O P) : ImportQueueStatus :=
  ⟨q.queueBlocks.card, q.bestImportingNumber⟩

/-- `is_importing`. -/
def QueueData.isImporting (q : QueueData H Hd J Bd O P) (hash : H) : Bool :=
  decide (hash ∈ q.queueBlocks)

/-- `import_blocks`: the batch at the back of the queue, its hashes among the queued ones, and
the number of its last block, if it has a header, as the best one if it is greater. -/
def QueueData.importBlocks (q : QueueData H Hd J Bd O P)
    (blocks : O × List (BlockData H Hd J Bd P)) : QueueData H Hd J Bd O P :=
  let newBestImportingNumber := ((blocks.2.getLast?.bind (·.header)).map client.number).getD 0
  { q with
    queueBlocks := q.queueBlocks ∪ (blocks.2.map (·.hash)).toFinset
    bestImportingNumber :=
      if newBestImportingNumber > q.bestImportingNumber then newBestImportingNumber
      else q.bestImportingNumber
    queue := q.queue ++ [blocks] }

end Queue

/-! ### Clients of the examples -/

/-- A client of numbered blocks for the examples: a header is its block's number and hash, no
block is in the chain, and every import is queued. -/
def queuingClient : Client ℕ ℕ Unit Unit Unit Unit :=
  ⟨id, id, fun _ _ => some .notInChain, fun c _ _ _ _ => (c, some .queued)⟩

/-- A client of numbered blocks whose state is the list of the blocks it imported, in order:
a block of the list is in the chain, and every import is queued and recorded. -/
def recordingClient : Client ℕ ℕ Unit Unit Unit (List ℕ) :=
  ⟨id, id, fun chain hash => some (if hash ∈ chain then .inChain else .notInChain),
    fun chain _ header _ _ => (chain ++ [header], some .queued)⟩

/-! ### A batch -/

section Batch

variable {client : Client H Hd J Bd O Ch} {blockOrigin : O}

/-- No stop flag: no queue data, or queue data whose flag is down. -/
def NotStopping (qdata : Option (QueueData H Hd J Bd O P)) : Prop :=
  (qdata.map (·.isStopping)).getD false = false

/-- A call that reports an imported block, as against one that tells the sync service how to
go on. -/
def LinkCall.isBlockImported : LinkCall H P → Bool
  | .blockImported _ _ => true
  | _ => false

/-- `process_import_result` reports a block imported without error by `block_imported` calls
only, and an error by one other call. -/
theorem processImportResult_calls (r : Except (BlockImportError P) (BlockImportResult H)) :
  (r.isOk = true → ∀ c ∈ (processImportResult r).2, c.isBlockImported = true) ∧
    (r.isOk = false → ∃ last, (processImportResult r).2 = [last] ∧ last.isBlockImported = false)
  := by
  rcases r with (_ | _ | _) | (_ | _ | _) <;>
    simp [processImportResult, LinkCall.isBlockImported, Except.isOk, Except.toBool]

theorem maintainSync_not_mem_processImportResult
    (r : Except (BlockImportError P) (BlockImportResult H)) :
  LinkCall.maintainSync ∉ (processImportResult r).2
  := by
  rcases r with (_ | _ | _) | (_ | _ | _) <;> simp [processImportResult]

theorem importLoop_cons (chain : Ch) (qdata : Option (QueueData H Hd J Bd O P)) (imported : ℕ)
    (block : BlockData H Hd J Bd P) (blocks : List (BlockData H Hd J Bd P)) :
  importLoop client blockOrigin chain qdata imported (block :: blocks) =
    let r := importSingleBlock client chain blockOrigin block
    if !r.2.isOk then
      ⟨r.1, (processImportResult r.2).2, qdata.map QueueData.resetBest,
        imported + (processImportResult r.2).1, true⟩
    else if (qdata.map (·.isStopping)).getD false then
      ⟨r.1, (processImportResult r.2).2, qdata, imported + (processImportResult r.2).1, false⟩
    else
      let run := importLoop client blockOrigin r.1 qdata (imported + (processImportResult r.2).1)
        blocks
      { run with calls := (processImportResult r.2).2 ++ run.calls }
  := rfl

theorem fails_cons (chain : Ch) (block : BlockData H Hd J Bd P)
    (blocks : List (BlockData H Hd J Bd P)) :
  fails client blockOrigin chain (block :: blocks) =
    (!(importSingleBlock client chain blockOrigin block).2.isOk ||
      fails client blockOrigin (importSingleBlock client chain blockOrigin block).1 blocks)
  := rfl

/-- Import stops at the first failure: no block after a failed one reaches the client or the
link. -/
theorem importLoop_append_of_fails {chain : Ch} {qdata : Option (QueueData H Hd J Bd O P)}
    {imported : ℕ} {pre : List (BlockData H Hd J Bd P)} (post : List (BlockData H Hd J Bd P))
    (h : fails client blockOrigin chain pre = true) :
  importLoop client blockOrigin chain qdata imported (pre ++ post) =
    importLoop client blockOrigin chain qdata imported pre
  := by
  induction pre generalizing chain imported with
  | nil => cases h
  | cons block pre ih =>
    rw [fails_cons, Bool.or_eq_true] at h
    simp only [List.cons_append, importLoop_cons]
    split_ifs with hfail hstop
    · rfl
    · rfl
    · rw [ih (h.resolve_left (by simpa using hfail))]

/-- A block without a header ends the batch: the block after it is never imported. -/
theorem importLoop_append_of_fails_incomplete :
  importLoop queuingClient () () none 0 ([⟨8, none, none, none, ()⟩] ++ [⟨7, some 7, none, some (), ()⟩]) =
    importLoop queuingClient () () none 0 [⟨8, none, none, none, ()⟩]
  := importLoop_append_of_fails _ rfl

theorem importLoop_result {chain : Ch} {qdata : Option (QueueData H Hd J Bd O P)}
    {imported : ℕ} (hq : NotStopping qdata) (blocks : List (BlockData H Hd J Bd P)) :
  (importLoop client blockOrigin chain qdata imported blocks).result = true
  := by
  induction blocks generalizing chain imported with
  | nil => rfl
  | cons block blocks ih =>
    rw [NotStopping] at hq
    simp only [importLoop_cons, hq, Bool.false_eq_true, ↓reduceIte]
    split_ifs
    · rfl
    · exact ih

/-- Without the stop flag, a batch is imported in full, and the link asked to maintain sync,
exactly when no block fails. -/
theorem importLoop_maintainSync {chain : Ch} {qdata : Option (QueueData H Hd J Bd O P)}
    {imported : ℕ} (hq : NotStopping qdata) (blocks : List (BlockData H Hd J Bd P)) :
  .maintainSync ∈ (importLoop client blockOrigin chain qdata imported blocks).calls ↔
    fails client blockOrigin chain blocks = false
  := by
  induction blocks generalizing chain imported with
  | nil => simp [importLoop, fails]
  | cons block blocks ih =>
    have hq' : (qdata.map (·.isStopping)).getD false = false := hq
    rw [importLoop_cons, fails_cons]
    by_cases hok : (importSingleBlock client chain blockOrigin block).2.isOk
    · simp only [hok, Bool.not_true, Bool.false_eq_true, ↓reduceIte, hq', Bool.false_or,
        List.mem_append, maintainSync_not_mem_processImportResult, false_or, ih]
    · simp [hok, maintainSync_not_mem_processImportResult]

/-- A complete block of a batch imported without queue data. -/
theorem importLoop_maintainSync_complete :
  .maintainSync ∈ (importLoop queuingClient () () none 0 [⟨7, some 7, none, some (), ()⟩]).calls ↔
    fails queuingClient () () [⟨7, some 7, none, some (), ()⟩] = false
  := importLoop_maintainSync (by rfl) _

/-- Without the stop flag, the best number is reset exactly when a block fails. -/
theorem importLoop_qdata {chain : Ch} {qdata : Option (QueueData H Hd J Bd O P)}
    {imported : ℕ} (hq : NotStopping qdata) (blocks : List (BlockData H Hd J Bd P)) :
  (importLoop client blockOrigin chain qdata imported blocks).qdata =
    if fails client blockOrigin chain blocks then qdata.map QueueData.resetBest else qdata
  := by
  induction blocks generalizing chain imported with
  | nil => rfl
  | cons block blocks ih =>
    have hq' : (qdata.map (·.isStopping)).getD false = false := hq
    rw [importLoop_cons, fails_cons]
    by_cases hok : (importSingleBlock client chain blockOrigin block).2.isOk
    · simp only [hok, Bool.not_true, Bool.false_eq_true, if_false, hq', Bool.false_or, ih]
    · simp [hok]

/-- A block without a justification resets the best number of the queue. -/
theorem importLoop_qdata_incomplete :
  (importLoop queuingClient () () (some ⟨[], ∅, 5, false⟩) 0 [⟨7, some 7, none, none, ()⟩]).qdata =
    if fails queuingClient () () [⟨7, some 7, none, none, ()⟩] then
      some (QueueData.resetBest ⟨[], ∅, 5, false⟩)
    else some ⟨[], ∅, 5, false⟩
  := importLoop_qdata (by rfl) _

/-- A failed import resets the best number that `status` reports while a later batch is still
queued: block 8 without a header and then block 9 queued, the first batch popped and
imported, the best number goes from 9 back to zero with the batch of block 9 still in the
queue. -/
example :
    let q : QueueData ℕ ℕ Unit Unit Unit Unit :=
      (QueueData.new.importBlocks queuingClient ((), [⟨8, none, none, none, ()⟩])).importBlocks
        queuingClient ((), [⟨9, some 9, none, some (), ()⟩])
    q.status.bestImportingNumber = 9 ∧
      ((importManyBlocks queuingClient () (some { q with queue := q.queue.tail })
        ((), [⟨8, none, none, none, ()⟩])).qdata.map fun q' =>
          (q'.queue.length, q'.status.bestImportingNumber)) = some (1, 0)
  := ⟨rfl, rfl⟩

/-- Without the stop flag, a batch tells the sync service once how to go on: its calls on the
link are `block_imported` calls, then one last call that maintains sync, restarts, or
disconnects. -/
theorem importLoop_verdict {chain : Ch} {qdata : Option (QueueData H Hd J Bd O P)}
    {imported : ℕ} (hq : NotStopping qdata) (blocks : List (BlockData H Hd J Bd P)) :
  ∃ progress verdict,
    (importLoop client blockOrigin chain qdata imported blocks).calls = progress ++ [verdict] ∧
    (∀ c ∈ progress, c.isBlockImported = true) ∧ verdict.isBlockImported = false
  := by
  induction blocks generalizing chain imported with
  | nil => exact ⟨[], .maintainSync, rfl, by simp, rfl⟩
  | cons block blocks ih =>
    have hq' : (qdata.map (·.isStopping)).getD false = false := hq
    rw [importLoop_cons]
    generalize importSingleBlock client chain blockOrigin block = r
    obtain ⟨hok, herr⟩ := processImportResult_calls r.2
    cases h : r.2.isOk
    · obtain ⟨last, hl, hlast⟩ := herr h
      exact ⟨[], last, by simp [h, hl], by simp, hlast⟩
    · obtain ⟨progress, verdict, hc, hp, hv⟩ := @ih r.1 (imported + (processImportResult r.2).1)
      refine ⟨(processImportResult r.2).2 ++ progress, verdict, by simp [h, hq', hc], ?_, hv⟩
      simp only [List.mem_append]
      rintro c (hc' | hc')
      exacts [hok h c hc', hp c hc']

/-- A complete block, then one without a header: the first is reported imported, and the
peer of the second disconnected. -/
theorem importLoop_verdict_disconnect :
  ∃ progress verdict,
    (importLoop queuingClient () () none 0
      [⟨7, some 7, none, some (), ()⟩, ⟨8, none, none, none, ()⟩]).calls = progress ++ [verdict] ∧
    (∀ c ∈ progress, c.isBlockImported = true) ∧ verdict.isBlockImported = false
  := importLoop_verdict (by rfl) _

end Batch

end Network
