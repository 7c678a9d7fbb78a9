import Rustgresql.Lib.Since
import Rustgresql.Transaction.DdlTransaction

/-!
# The locks of DDL transactions

Transactions acquire locks of objects, commit and roll back in any order. A transaction holds a lock from the call
that acquires it to the call that ends the transaction, and no two transactions hold a lock of the same object.
-/

namespace Rustgresql

open StateSpec

/-- Rollback all operations in this transaction. The completed operations are put in the order of their completion,
the newest first. -/
def DdlTransactionContext.rollback (newestFirst : List DdlTransactionOperation → List DdlTransactionOperation)
    (self : DdlTransactionContext) : List RollbackInfo × DdlTransactionContext :=
  let completedOps := (self.operations.pairs.map Prod.snd).filter fun op => op.status = .completed
  ((newestFirst completedOps).filterMap DdlTransactionOperation.rollbackInfo,
    -- Mark all operations as rolled back
    { self with operations := HashMap.mapValues (fun op => { op with status := .rolledBack }) self.operations
    }.releaseAllLocks)

namespace DdlTransactionManager

variable (newestFirst : List DdlTransactionOperation → List DdlTransactionOperation)

/-- Rollback a DDL transaction -/
def rollbackTransaction (transactionId : TransactionId) : Call (List RollbackInfo) := do
  match (← get).activeTransactions.lookup transactionId with
  | some context =>
    modify fun m => { m with activeTransactions := m.activeTransactions.erase transactionId }
    let (rollbackOps, c) := ((← get).contexts context).rollback newestFirst
    setContext context c
    -- Remove from global locks
    modify fun m => { m with globalLocks := HashMap.retain (· != transactionId) m.globalLocks }
    return rollbackOps
  | none => throw (.err (.ddlTransaction "Transaction not found"))

/-- A call of one of the transactions -/
inductive LockOp
  | begin (transactionId : TransactionId)
  | acquire (objectName : String) (transactionId : TransactionId)
  | commit (transactionId : TransactionId)
  | rollback (transactionId : TransactionId)

def perform : LockOp → Call Unit
  | .begin transactionId => discard (beginTransaction transactionId)
  | .acquire objectName transactionId => acquireGlobalLock objectName transactionId
  | .commit transactionId => commitTransaction transactionId
  | .rollback transactionId => discard (rollbackTransaction newestFirst transactionId)

/-- Make a call; after a failure the transactions go on. -/
def step (m : DdlTransactionManager) (op : LockOp) : DdlTransactionManager := final (perform newestFirst op) m

/-- The manager after calls of any transactions -/
def run (ops : List LockOp) : DdlTransactionManager := ops.foldl (step newestFirst) new

/-! ## What the calls do to the locks -/

variable {m : DdlTransactionManager} {objectName o : String} {transactionId t : TransactionId}

theorem globalLocks_acquire : (final (acquireGlobalLock objectName transactionId) m).globalLocks =
    if m.Conflicts objectName transactionId then m.globalLocks
    else m.globalLocks.insert objectName transactionId := by
  rw [acquireGlobalLock, final, get_bind]
  by_cases hconflict : m.Conflicts objectName transactionId
  · rw [bind_of_error (require_of_not (not_not.mpr hconflict) _ _), if_pos hconflict]
  · rw [bind_of_ok (require_of hconflict _ _), if_neg hconflict]
    rfl

theorem acquireGlobalLock_ok_iff :
    (∃ m', acquireGlobalLock objectName transactionId m = .ok () m') ↔ ¬ m.Conflicts objectName transactionId := by
  rw [acquireGlobalLock, get_bind]
  by_cases hconflict : m.Conflicts objectName transactionId
  · rw [bind_of_error (require_of_not (not_not.mpr hconflict) _ _)]
    exact iff_of_false nofun (not_not.mpr hconflict)
  · rw [bind_of_ok (require_of hconflict _ _)]
    exact iff_of_true ⟨_, rfl⟩ hconflict

theorem globalLocks_commit : (final (commitTransaction transactionId) m).globalLocks =
    if transactionId ∈ m.activeTransactions then HashMap.retain (· != transactionId) m.globalLocks
    else m.globalLocks := by
  rw [commitTransaction, final, get_bind]
  rcases hactive : m.activeTransactions.lookup transactionId with - | context
  · rw [if_neg (AList.lookup_eq_none.mp hactive)]
    rfl
  · rw [if_pos (AList.lookup_isSome.mp (by rw [hactive, Option.isSome_some]))]
    rfl

theorem globalLocks_rollback : (final (rollbackTransaction newestFirst transactionId) m).globalLocks =
    if transactionId ∈ m.activeTransactions then HashMap.retain (· != transactionId) m.globalLocks
    else m.globalLocks := by
  rw [rollbackTransaction, final, get_bind]
  rcases hactive : m.activeTransactions.lookup transactionId with - | context
  · rw [if_neg (AList.lookup_eq_none.mp hactive)]
    rfl
  · rw [if_pos (AList.lookup_isSome.mp (by rw [hactive, Option.isSome_some]))]
    rfl

/-- The call gives the transaction the lock. -/
def Acquires (objectName : String) (transactionId : TransactionId) (m : DdlTransactionManager) (op : LockOp) : Prop :=
  op = .acquire objectName transactionId ∧ ¬ m.Conflicts objectName transactionId

/-- The call ends the transaction. -/
def Ends (transactionId : TransactionId) (m : DdlTransactionManager) (op : LockOp) : Prop :=
  (op = .commit transactionId ∨ op = .rollback transactionId) ∧ transactionId ∈ m.activeTransactions

/-- The transaction has acquired the lock in the run, and has not ended since. -/
def Holds (ops : List LockOp) (objectName : String) (transactionId : TransactionId) : Prop :=
  Since (step newestFirst) (Acquires objectName transactionId) (Ends transactionId) new ops

theorem lookup_retain_ne (locks : HashMap String TransactionId) :
    (HashMap.retain (· != transactionId) locks).lookup o = some t ↔ locks.lookup o = some t ∧ t ≠ transactionId := by
  rw [HashMap.lookup_retain, Option.filter_eq_some_iff, bne_iff_ne]

/-- A lock goes to the transaction that acquires it, and is free when its holder ends. -/
theorem lookup_step (op : LockOp) : (step newestFirst m op).globalLocks.lookup o = some t ↔
    m.globalLocks.lookup o = some t ∧ ¬ Ends t m op ∨ Acquires o t m op := by
  have hended : ∀ transactionId (locks : HashMap String TransactionId),
      (locks = if transactionId ∈ m.activeTransactions then HashMap.retain (· != transactionId) m.globalLocks
        else m.globalLocks) →
      (locks.lookup o = some t ↔
        m.globalLocks.lookup o = some t ∧ ¬ (transactionId = t ∧ t ∈ m.activeTransactions)) := by
    rintro transactionId locks rfl
    by_cases hactive : transactionId ∈ m.activeTransactions
    · rw [if_pos hactive, lookup_retain_ne, and_congr_right_iff]
      rintro -
      constructor
      · rintro hne ⟨rfl, -⟩
        exact hne rfl
      · rintro hnot rfl
        exact hnot ⟨rfl, hactive⟩
    · rw [if_neg hactive, iff_self_and]
      rintro - ⟨rfl, hmem⟩
      exact hactive hmem
  rw [step]
  cases op with
  | begin transactionId =>
    rw [perform, final_discard]
    simp only [Ends, Acquires, reduceCtorEq, or_self, false_and, not_false_eq_true, and_true, or_false]
    rfl
  | acquire objectName transactionId =>
    rw [perform, globalLocks_acquire]
    simp only [Ends, Acquires, reduceCtorEq, or_self, false_and, not_false_eq_true, and_true, LockOp.acquire.injEq]
    by_cases hconflict : m.Conflicts objectName transactionId
    · rw [if_pos hconflict]
      refine (or_iff_left ?_).symm
      rintro ⟨⟨rfl, rfl⟩, hfree⟩
      exact hfree hconflict
    · rw [if_neg hconflict, HashMap.lookup_insert_eq]
      by_cases ho : o = objectName
      · subst ho
        rw [if_pos rfl, Option.some.injEq]
        constructor
        · rintro rfl
          exact .inr ⟨⟨rfl, rfl⟩, hconflict⟩
        · rintro (hlock | ⟨⟨-, rfl⟩, -⟩)
          · -- without a conflict the holder is the transaction itself
            by_contra hne
            exact hconflict ⟨t, hlock, Ne.symm hne⟩
          · rfl
      · rw [if_neg ho]
        refine (or_iff_left ?_).symm
        rintro ⟨⟨heq, -⟩, -⟩
        exact ho heq.symm
  | commit transactionId =>
    rw [perform, hended transactionId _ globalLocks_commit]
    simp only [Ends, Acquires, reduceCtorEq, or_false, false_and, LockOp.commit.injEq]
  | rollback transactionId =>
    rw [perform, final_discard, hended transactionId _ (globalLocks_rollback newestFirst)]
    simp only [Ends, Acquires, reduceCtorEq, or_false, false_or, false_and, LockOp.rollback.injEq]

/-- The table of locks has the holders. -/
theorem lookup_iff_holds (ops : List LockOp) : (run newestFirst ops).globalLocks.lookup o = some t ↔
    Holds newestFirst ops o t := by
  refine Since.iff_since (P := fun m : DdlTransactionManager => m.globalLocks.lookup o = some t) ?_
    (fun _ op => lookup_step newestFirst op) ops
  exact fun h => absurd (h.symm.trans (AList.lookup_empty o)) nofun

/-- Whatever transactions do in whatever order, at most one of them holds the lock of an object, and the lock is given
to a transaction exactly if no other transaction holds it. -/
theorem locks_exclusive (ops : List LockOp) (objectName : String) :
    (∀ t t', Holds newestFirst ops objectName t → Holds newestFirst ops objectName t' → t = t') ∧
      ∀ t, (∃ m, acquireGlobalLock objectName t (run newestFirst ops) = .ok () m) ↔
        ∀ t', Holds newestFirst ops objectName t' → t' = t := by
  refine ⟨fun t t' h h' => ?_, fun t => ?_⟩
  · rw [← lookup_iff_holds] at h h'
    exact Option.some.inj (h.symm.trans h')
  · rw [acquireGlobalLock_ok_iff, Conflicts]
    simp only [Option.mem_def, lookup_iff_holds]
    push Not
    rfl

end DdlTransactionManager

end Rustgresql
