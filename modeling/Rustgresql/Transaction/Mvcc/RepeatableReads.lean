import Rustgresql.Transaction.Mvcc

/-!
# Repeatable reads

Which calls leave the reads of an open snapshot alone. Nothing in the manager protects a snapshot:
a version without a commit time is visible to every other transaction, so a write, a commit, an
abort or a vacuum changes what a snapshot reads unless the version concerned is hidden behind a
newer one that stays (`Undisturbed`).
-/

namespace Rustgresql

namespace MVCCManager

/-- The snapshot sees the version. -/
def sees (s : Snapshot) (v : RecordVersion) : Bool :=
  v.visibility.isVisible s.transactionId s.timestamp

/-- The snapshot does not see the version, but only because of its delete mark. -/
def hides (s : Snapshot) (v : RecordVersion) : Bool :=
  v.visibility.commitTs ≤ s.timestamp && v.visibility.deletedBy s.timestamp &&
    v.visibility.creatorId != s.transactionId

/-- If the first version with the given number is hidden by a mark that the transaction may renew,
then a newer version is seen. -/
def RenewsCovered (s : Snapshot) (t : TransactionId) (version : UInt32)
    (vs : List RecordVersion) : Prop :=
  match vs.dropWhile fun v => v.version ≠ version with
  | [] => True
  | v :: post => v.visibility.canModify t = true → hides s v = true → ∃ w ∈ post, sees s w = true

instance (s : Snapshot) (t : TransactionId) (version : UInt32) (vs : List RecordVersion) :
    Decidable (RenewsCovered s t version vs) := by
  unfold RenewsCovered
  split <;> infer_instance

/-- The call, made in state `m`, does not touch what the snapshot reads of the record:

* only the owner of the snapshot writes to the record;
* a delete call that renews the mark of a hidden version finds a newer version that is seen;
* what a commit, an abort or a vacuum takes out of sight is covered by a newer version that it
  leaves in sight. -/
def Undisturbed (s : Snapshot) (recordId : RecordId) (m : MVCCManager) : MvccOp → Prop
  | .begin _ => True
  | .insert r _ t _ | .update r _ t _ => r = recordId → t = s.transactionId
  | .delete r t version => r = recordId → RenewsCovered s t version (m.versions recordId)
  | .commit t _ | .abort t =>
      LastMatch.Covered (fun v => sees s v = true ∧ v.visibility.creatorId = t)
        (fun v => sees s v = true ∧ v.visibility.creatorId ≠ t) (m.versions recordId)
  | .vacuum beforeTimestamp =>
      LastMatch.Covered
        (fun v => sees s v = true ∧ vacuumKeeps beforeTimestamp m.activeTransactions v = false)
        (fun v => sees s v = true ∧ vacuumKeeps beforeTimestamp m.activeTransactions v = true)
        (m.versions recordId)

instance (s : Snapshot) (recordId : RecordId) (m : MVCCManager) :
    (op : MvccOp) → Decidable (Undisturbed s recordId m op)
  | .begin _ => isTrue trivial
  | .insert r _ t _ | .update r _ t _ => (inferInstance : Decidable (r = recordId → t = s.transactionId))
  | .delete r t version =>
    (inferInstance : Decidable (r = recordId → RenewsCovered s t version (m.versions recordId)))
  | .commit .. | .abort _ | .vacuum _ => LastMatch.Covered.decidable _ _ _

/-- Every call of a sequence is undisturbed in the state it is made in. -/
def UndisturbedRun (s : Snapshot) (recordId : RecordId) : MVCCManager → List MvccOp → Prop
  | _, [] => True
  | m, op :: ops => Undisturbed s recordId m op ∧ UndisturbedRun s recordId (m.step op) ops

instance UndisturbedRun.decidable (s : Snapshot) (recordId : RecordId) :
    (m : MVCCManager) → (ops : List MvccOp) → Decidable (UndisturbedRun s recordId m ops)
  | _, [] => isTrue trivial
  | m, op :: ops =>
    have := UndisturbedRun.decidable s recordId (m.step op) ops
    inferInstanceAs
      (Decidable (Undisturbed s recordId m op ∧ UndisturbedRun s recordId (m.step op) ops))

theorem sees_iff {s : Snapshot} {v : RecordVersion} : sees s v = true ↔
    v.visibility.commitTs ≤ s.timestamp ∧ v.visibility.deletedBy s.timestamp = false ∧
      v.visibility.creatorId ≠ s.transactionId := VisibilityInfo.isVisible_iff

theorem hides_iff {s : Snapshot} {v : RecordVersion} : hides s v = true ↔
    v.visibility.commitTs ≤ s.timestamp ∧ v.visibility.deletedBy s.timestamp = true ∧
      v.visibility.creatorId ≠ s.transactionId := by
  simp [hides, and_assoc]

/-! ## One call -/

theorem readRecord_eq (recordId : RecordId) (s : Snapshot) (m : MVCCManager) :
    m.readRecord recordId s = (LastMatch.find (sees s) (m.versions recordId)).map (·.data) := by
  rw [readRecord, visibleVersion_eq]
  rfl

theorem find_push {s : Snapshot} {v : RecordVersion} (hv : v.visibility.creatorId = s.transactionId)
    (vs : List RecordVersion) : LastMatch.find (sees s) (vs ++ [v]) = LastMatch.find (sees s) vs := by
  have hunseen : ¬ sees s v = true := by
    rw [sees_iff]
    exact fun h => h.2.2 hv
  rw [LastMatch.find_append, LastMatch.find_cons, if_neg hunseen]
  rfl

/-- A delete mark set after the snapshot was taken hides nothing from it. -/
theorem sees_mark {s : Snapshot} {now : ℕ} (hnow : s.timestamp < now) (t : TransactionId)
    (v : RecordVersion) : sees s (v.mark t now) = (sees s v || hides s v) := by
  have hlater : (v.mark t now).visibility.deletedBy s.timestamp = false := by
    simp [RecordVersion.mark, VisibilityInfo.delete, VisibilityInfo.deletedBy, hnow]
  rw [Bool.eq_iff_iff, Bool.or_eq_true, sees_iff, sees_iff, hides_iff, hlater]
  simp only [RecordVersion.mark, VisibilityInfo.delete]
  cases v.visibility.deletedBy s.timestamp <;> simp

theorem find_marked {s : Snapshot} {now : ℕ} (hnow : s.timestamp < now) {t : TransactionId}
    {version : UInt32} {vs : List RecordVersion}
    (h : RenewsCovered s t version vs) :
    (LastMatch.find (sees s) (marked t now version vs)).map (·.data) =
      (LastMatch.find (sees s) vs).map (·.data) := by
  rcases markFirst_cases t now version vs with
    ⟨e, he⟩ | ⟨pre, v, post, hsplit, hmark, hpre, hv, hmod⟩
  · rw [marked_of_error he]
  · rw [marked_of_ok hmark, hsplit, LastMatch.find_append, LastMatch.find_append, LastMatch.find_cons,
      LastMatch.find_cons, sees_mark hnow]
    cases hpost : LastMatch.find (sees s) post with
    | some w => rfl
    | none =>
      -- nothing newer is seen, so the mark does not bring a hidden version back
      have hhides : hides s v = false := by
        by_contra hhides
        have hfirst : vs.dropWhile (fun v => v.version ≠ version) = v :: post := by
          rw [hsplit, List.dropWhile_append_of_pos (by simpa using hpre),
            List.dropWhile_cons_of_neg (by simpa using hv)]
        rw [RenewsCovered, hfirst] at h
        obtain ⟨w, hw, hseen⟩ := h hmod (by simpa using hhides)
        rw [LastMatch.find_eq_none.mp hpost w hw] at hseen
        cases hseen
      rw [hhides, Bool.or_false]
      cases sees s v <;> rfl

theorem find_stampCommit {s : Snapshot} {now : ℕ} (hnow : s.timestamp < now) {t : TransactionId}
    {vs : List RecordVersion}
    (h : LastMatch.Covered (fun v => sees s v = true ∧ v.visibility.creatorId = t)
      (fun v => sees s v = true ∧ v.visibility.creatorId ≠ t) vs) :
    (LastMatch.find (sees s) (vs.map (·.stampCommit t now))).map (·.data) =
      (LastMatch.find (sees s) vs).map (·.data) := by
  have hother : ∀ v : RecordVersion, v.visibility.creatorId ≠ t → v.stampCommit t now = v :=
    fun v hv => if_neg hv
  have hown : ∀ v : RecordVersion, v.visibility.creatorId = t →
      sees s (v.stampCommit t now) = false := by
    intro v hv
    rw [RecordVersion.stampCommit, if_pos hv]
    simp [sees, VisibilityInfo.isVisible, hnow]
  have hdata : ∀ v : RecordVersion, (v.stampCommit t now).data = v.data := by
    intro v
    rw [RecordVersion.stampCommit]
    split <;> rfl
  have hfind : LastMatch.find (fun v => sees s (v.stampCommit t now)) vs =
      LastMatch.find (sees s) vs := by
    rw [LastMatch.find_eq_find_iff]
    refine h.imp (fun v _ hne => ?_) fun v _ hv => ?_
    · by_cases hv : v.visibility.creatorId = t
      · rw [hown v hv] at hne
        exact ⟨by simpa using hne.symm, hv⟩
      · exact absurd (by rw [hother v hv]) hne
    · exact ⟨by rw [hother v hv.2]; exact hv.1, hv.1⟩
  rw [LastMatch.find_map, hfind, Option.map_map]
  exact congrFun (congrArg Option.map (funext hdata)) _

/-- An undisturbing call leaves the read alone. -/
theorem readRecord_step {s : Snapshot} {recordId : RecordId} {m : MVCCManager} {op : MvccOp}
    (hs : s.timestamp < m.globalTimestamp) (h : Undisturbed s recordId m op) :
    (m.step op).readRecord recordId s = m.readRecord recordId s := by
  rw [readRecord_eq, readRecord_eq, versions_step]
  cases op with
  | begin t => rfl
  | insert r data t version | update r data t version =>
    simp only [onVersions]
    split
    · next hr => rw [find_push (h hr)]
    · rfl
  | delete r t version =>
    simp only [onVersions]
    split
    · next hr => exact find_marked hs (h hr)
    · rfl
  | commit t snapshotTs => exact find_stampCommit hs h
  | abort t =>
    simp only [onVersions]
    rw [LastMatch.find_filter_iff.mpr (h.imp (by simp) (by simp))]
  | vacuum beforeTimestamp =>
    simp only [onVersions]
    rw [LastMatch.find_filter_iff.mpr h]

/-! ## Runs -/

theorem run_append (ops ops' : List MvccOp) (m : MVCCManager) :
    m.run (ops ++ ops') = (m.run ops).run ops' := List.foldl_append

theorem globalTimestamp_run (ops : List MvccOp) (m : MVCCManager) :
    m.globalTimestamp ≤ (m.run ops).globalTimestamp := by
  induction ops generalizing m with
  | nil => exact Nat.le_refl _
  | cons op ops ih => exact (globalTimestamp_step m op).trans (ih (m.step op))

theorem readRecord_run {s : Snapshot} {recordId : RecordId} {ops : List MvccOp} {m : MVCCManager}
    (hs : s.timestamp < m.globalTimestamp) (h : UndisturbedRun s recordId m ops) :
    (m.run ops).readRecord recordId s = m.readRecord recordId s := by
  induction ops generalizing m with
  | nil => rfl
  | cons op ops ih =>
    have hnext := hs.trans_le (globalTimestamp_step m op)
    exact (ih hnext h.2).trans (readRecord_step hs h.1)

/-- Between two moments after a snapshot was taken, in any state of the manager, its reads of a
record stay the same if every call in between is undisturbing. -/
theorem readRecord_repeatable (m : MVCCManager) (transactionId : TransactionId)
    (earlier later : List MvccOp) (recordId : RecordId)
    (h : UndisturbedRun (m.beginTransaction transactionId).1 recordId
      ((m.beginTransaction transactionId).2.run earlier) later) :
    ((m.beginTransaction transactionId).2.run (earlier ++ later)).readRecord recordId
        (m.beginTransaction transactionId).1 =
      ((m.beginTransaction transactionId).2.run earlier).readRecord recordId
        (m.beginTransaction transactionId).1 := by
  rw [run_append]
  have hbegin : m.globalTimestamp < (m.beginTransaction transactionId).2.globalTimestamp :=
    Nat.lt_succ_self _
  exact readRecord_run (hbegin.trans_le (globalTimestamp_run earlier _)) h

/-- Transaction 1 reads record 7 before and after transaction 3 deletes it and commits. -/
theorem readRecord_repeatable_delete :
    let m := new.run [.begin 2, .insert 7 [1] 2 1, .commit 2 1]
    ((m.beginTransaction 1).2.run ([] ++ [.begin 3, .delete 7 3 1, .commit 3 5])).readRecord 7
        (m.beginTransaction 1).1 =
      ((m.beginTransaction 1).2.run []).readRecord 7 (m.beginTransaction 1).1 :=
  readRecord_repeatable (new.run [.begin 2, .insert 7 [1] 2 1, .commit 2 1]) 1 []
    [.begin 3, .delete 7 3 1, .commit 3 5] 7 (by decide)

/-- Transaction 1 reads nothing in record 7, then transaction 2 inserts there without committing,
and transaction 1 reads the insertion. -/
theorem readRecord_not_repeatable :
    let s := (new.beginTransaction 1).1
    let m := (new.beginTransaction 1).2
    m.readRecord 7 s = none ∧ (m.run [.begin 2, .insert 7 [1] 2 1]).readRecord 7 s = some [1] := by
  decide

end MVCCManager

end Rustgresql
