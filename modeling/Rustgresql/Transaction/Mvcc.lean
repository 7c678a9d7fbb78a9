import Rustgresql.Basic
import Rustgresql.Lib.HashMap
import Rustgresql.Lib.LastMatch

/-!
# Multi-version concurrency control (`transaction/mvcc.rs`)

Every record has a chain of versions in the order in which they were added. A version carries the
time at which its creator committed (0 until then) and, once it is deleted, the time of the delete
call. `readRecord` returns the last version of the chain that the stamps make visible.

The clock is a 64-bit counter in the source and a natural number here: it moves by at most one with
every call.

The second half describes a call by what it does to the versions of one record (`versions_step`).
-/

namespace Rustgresql

/-- Record numbers. -/
abbrev RecordId := UInt64

/-- Visibility information for a record version. -/
structure VisibilityInfo where
  creatorId : TransactionId
  deleterId : Option TransactionId
  commitTs : ℕ
  deleteTs : Option ℕ
  deriving DecidableEq, Repr

namespace VisibilityInfo

/-- `VisibilityInfo::new`. -/
def new (transactionId : TransactionId) (commitTs : ℕ) : VisibilityInfo where
  creatorId := transactionId
  deleterId := none
  commitTs := commitTs
  deleteTs := none

/-- `VisibilityInfo::delete`. -/
def delete (transactionId : TransactionId) (deleteTs : ℕ) (v : VisibilityInfo) : VisibilityInfo :=
  { v with deleterId := some transactionId, deleteTs := some deleteTs }

/-- The version carries a delete time that is not after `ts`. -/
def deletedBy (v : VisibilityInfo) (ts : ℕ) : Bool :=
  v.deleteTs.any fun deleteTs => deleteTs ≤ ts

/-- `VisibilityInfo::is_visible`. -/
def isVisible (v : VisibilityInfo) (transactionId : TransactionId) (snapshotTs : ℕ) : Bool :=
  if v.commitTs > snapshotTs then false
  else if v.deletedBy snapshotTs then false
  else if v.creatorId = transactionId then false
  else true

/-- `VisibilityInfo::can_modify`. -/
def canModify (v : VisibilityInfo) (transactionId : TransactionId) : Bool :=
  match v.deleterId with
  | some deleterId => deleterId = transactionId
  | none => true

theorem isVisible_iff {v : VisibilityInfo} {transactionId : TransactionId} {snapshotTs : ℕ} :
    v.isVisible transactionId snapshotTs = true ↔
      v.commitTs ≤ snapshotTs ∧ v.deletedBy snapshotTs = false ∧ v.creatorId ≠ transactionId := by
  simp [isVisible]

end VisibilityInfo

/-- Record version with visibility information. -/
structure RecordVersion where
  data : List UInt8
  visibility : VisibilityInfo
  version : UInt32
  size : UInt32
  deriving DecidableEq, Repr

namespace RecordVersion

/-- `RecordVersion::new`. -/
def new (data : List UInt8) (transactionId : TransactionId) (commitTs : ℕ) (version : UInt32) :
    RecordVersion where
  data := data
  visibility := .new transactionId commitTs
  version := version
  size := UInt32.ofNat data.length

/-- The version with a delete mark. -/
def mark (transactionId : TransactionId) (deleteTs : ℕ) (v : RecordVersion) : RecordVersion :=
  { v with visibility := v.visibility.delete transactionId deleteTs }

/-- The version without its delete mark. -/
def unmark (v : RecordVersion) : RecordVersion :=
  { v with visibility := { v.visibility with deleterId := none, deleteTs := none } }

/-- The version after a commit: stamped if the committing transaction created it. -/
def stampCommit (transactionId : TransactionId) (commitTs : ℕ) (v : RecordVersion) :
    RecordVersion :=
  if v.visibility.creatorId = transactionId then
    { v with visibility := { v.visibility with commitTs } }
  else v

end RecordVersion

/-- Version chain for multiple versions of a record. -/
structure VersionChain where
  versions : List RecordVersion
  latestCommitted : Option ℕ
  deriving DecidableEq, Repr

namespace VersionChain

/-- `VersionChain::new`. -/
def new : VersionChain := ⟨[], none⟩

/-- `VersionChain::add_version`: the index is moved although nothing has committed yet. -/
def addVersion (version : RecordVersion) (c : VersionChain) : VersionChain where
  versions := c.versions ++ [version]
  latestCommitted := some c.versions.length

/-- `VersionChain::get_visible_version`. -/
def getVisibleVersion (c : VersionChain) (transactionId : TransactionId) (snapshotTs : ℕ) :
    Option RecordVersion :=
  c.versions.reverse.find? fun v => v.visibility.isVisible transactionId snapshotTs

/-- `VersionChain::get_latest_committed`. -/
def getLatestCommitted (c : VersionChain) : Option RecordVersion :=
  c.latestCommitted.bind fun idx => c.versions[idx]?

/-- The loop of `VersionChain::delete_version`: mark the first version with the given number. -/
def markFirst (transactionId : TransactionId) (deleteTs : ℕ) (versionToDelete : UInt32) :
    List RecordVersion → Result (List RecordVersion)
  | [] => .error (.err (.transaction "Version not found"))
  | v :: vs =>
    if v.version = versionToDelete then
      if v.visibility.canModify transactionId then .ok (v.mark transactionId deleteTs :: vs)
      else .error (.err (.transaction "Cannot delete version modified by another transaction"))
    else (markFirst transactionId deleteTs versionToDelete vs).map (v :: ·)

/-- `VersionChain::delete_version`: the outcome and the chain it leaves. -/
def deleteVersion (transactionId : TransactionId) (deleteTs : ℕ) (versionToDelete : UInt32)
    (c : VersionChain) : Result Unit × VersionChain :=
  match markFirst transactionId deleteTs versionToDelete c.versions with
  | .ok versions => (.ok (), { c with versions })
  | .error e => (.error e, c)

/-- `VersionChain::has_visible_version`. -/
def hasVisibleVersion (c : VersionChain) (transactionId : TransactionId) (snapshotTs : ℕ) : Bool :=
  (c.getVisibleVersion transactionId snapshotTs).isSome

/-- Keep the versions that pass a test. The index of the latest version stays as it is. -/
def retain (keep : RecordVersion → Bool) (c : VersionChain) : VersionChain :=
  { c with versions := c.versions.filter keep }

/-- The chain still has versions. -/
def isLive (c : VersionChain) : Bool := !c.versions.isEmpty

end VersionChain

/-- Snapshot information for a transaction. -/
structure Snapshot where
  transactionId : TransactionId
  timestamp : ℕ
  activeTransactions : Finset TransactionId
  deriving DecidableEq

/-- MVCC manager. -/
structure MVCCManager where
  versionChains : HashMap RecordId VersionChain
  globalTimestamp : ℕ
  activeTransactions : Finset TransactionId
  deriving DecidableEq

namespace MVCCManager

/-- `MVCCManager::new`. -/
def new : MVCCManager := ⟨∅, 1, ∅⟩

/-- `MVCCManager::begin_transaction`. -/
def beginTransaction (transactionId : TransactionId) (m : MVCCManager) : Snapshot × MVCCManager :=
  let active := insert transactionId m.activeTransactions
  (⟨transactionId, m.globalTimestamp, active⟩,
    { m with globalTimestamp := m.globalTimestamp + 1, activeTransactions := active })

/-- `MVCCManager::commit_transaction`; the snapshot timestamp it is given is not used. -/
def commitTransaction (transactionId : TransactionId) (_snapshotTs : ℕ) (m : MVCCManager) :
    ℕ × MVCCManager :=
  let commitTs := m.globalTimestamp
  (commitTs,
    { versionChains := HashMap.mapValues
        (fun c => { c with versions := c.versions.map (·.stampCommit transactionId commitTs) })
        m.versionChains
      globalTimestamp := m.globalTimestamp + 1
      activeTransactions := m.activeTransactions.erase transactionId })

/-- Shorten every chain to the versions that pass a test and drop the empty chains. -/
def retainVersions (keep : RecordVersion → Bool) (chains : HashMap RecordId VersionChain) :
    HashMap RecordId VersionChain :=
  HashMap.retain VersionChain.isLive (HashMap.mapValues (VersionChain.retain keep) chains)

/-- `MVCCManager::abort_transaction`. -/
def abortTransaction (transactionId : TransactionId) (m : MVCCManager) : MVCCManager :=
  { m with
    versionChains :=
      retainVersions (fun v => v.visibility.creatorId ≠ transactionId) m.versionChains
    activeTransactions := m.activeTransactions.erase transactionId }

/-- Push a version that nothing has committed yet onto the chain of a record. -/
def pushVersion (recordId : RecordId) (data : List UInt8) (transactionId : TransactionId)
    (version : UInt32) (m : MVCCManager) : MVCCManager :=
  let chain := (m.versionChains.lookup recordId).getD .new
  { m with
    versionChains :=
      m.versionChains.insert recordId (chain.addVersion (.new data transactionId 0 version)) }

/-- `MVCCManager::insert_version`. -/
def insertVersion (recordId : RecordId) (data : List UInt8) (transactionId : TransactionId)
    (version : UInt32) (m : MVCCManager) : MVCCManager :=
  m.pushVersion recordId data transactionId version

/-- `MVCCManager::update_version`. -/
def updateVersion (recordId : RecordId) (data : List UInt8) (transactionId : TransactionId)
    (version : UInt32) (m : MVCCManager) : MVCCManager :=
  m.pushVersion recordId data transactionId version

/-- `MVCCManager::delete_version`. A record without a chain is not an error; the clock moves even if
the chain refuses. -/
def deleteVersion (recordId : RecordId) (transactionId : TransactionId) (versionToDelete : UInt32)
    (m : MVCCManager) : Result Unit × MVCCManager :=
  match m.versionChains.lookup recordId with
  | none => (.ok (), m)
  | some chain =>
    let (result, chain) := chain.deleteVersion transactionId m.globalTimestamp versionToDelete
    (result,
      { m with
        versionChains := m.versionChains.insert recordId chain
        globalTimestamp := m.globalTimestamp + 1 })

/-- The version that `read_record` reads. -/
def visibleVersion (recordId : RecordId) (snapshot : Snapshot) (m : MVCCManager) :
    Option RecordVersion :=
  (m.versionChains.lookup recordId).bind fun c =>
    c.getVisibleVersion snapshot.transactionId snapshot.timestamp

/-- `MVCCManager::read_record`. -/
def readRecord (recordId : RecordId) (snapshot : Snapshot) (m : MVCCManager) : Option (List UInt8) :=
  (m.visibleVersion recordId snapshot).map (·.data)

/-- `MVCCManager::record_exists`. -/
def recordExists (recordId : RecordId) (snapshot : Snapshot) (m : MVCCManager) : Bool :=
  match m.versionChains.lookup recordId with
  | some c => c.hasVisibleVersion snapshot.transactionId snapshot.timestamp
  | none => false

/-- `MVCCManager::get_latest_version`. -/
def getLatestVersion (recordId : RecordId) (m : MVCCManager) : Option (List UInt8) :=
  ((m.versionChains.lookup recordId).bind VersionChain.getLatestCommitted).map (·.data)

/-- What `vacuum` keeps: versions committed at or after the timestamp or made by an active
transaction. -/
def vacuumKeeps (beforeTimestamp : ℕ) (active : Finset TransactionId) (v : RecordVersion) : Bool :=
  v.visibility.commitTs ≥ beforeTimestamp || v.visibility.creatorId ∈ active

/-- The number of versions in all chains. -/
def totalVersions (m : MVCCManager) : ℕ :=
  (m.versionChains.entries.map fun e => e.2.versions.length).sum

/-- `MVCCManager::vacuum`: the number of removed versions and the manager. -/
def vacuum (beforeTimestamp : ℕ) (m : MVCCManager) : ℕ × MVCCManager :=
  let m' :=
    { m with
      versionChains :=
        retainVersions (vacuumKeeps beforeTimestamp m.activeTransactions) m.versionChains }
  (m.totalVersions - m'.totalVersions, m')

/-! ## Calls -/

/-- The calls that change the manager. -/
inductive MvccOp
  | begin (transactionId : TransactionId)
  | insert (recordId : RecordId) (data : List UInt8) (transactionId : TransactionId)
      (version : UInt32)
  | update (recordId : RecordId) (data : List UInt8) (transactionId : TransactionId)
      (version : UInt32)
  | delete (recordId : RecordId) (transactionId : TransactionId) (versionToDelete : UInt32)
  | commit (transactionId : TransactionId) (snapshotTs : ℕ)
  | abort (transactionId : TransactionId)
  | vacuum (beforeTimestamp : ℕ)
  deriving DecidableEq

/-- Make one call. -/
def step (m : MVCCManager) : MvccOp → MVCCManager
  | .begin t => (m.beginTransaction t).2
  | .insert r data t version => m.insertVersion r data t version
  | .update r data t version => m.updateVersion r data t version
  | .delete r t version => (m.deleteVersion r t version).2
  | .commit t snapshotTs => (m.commitTransaction t snapshotTs).2
  | .abort t => m.abortTransaction t
  | .vacuum beforeTimestamp => (m.vacuum beforeTimestamp).2

/-- Make calls in order. -/
def run (ops : List MvccOp) (m : MVCCManager) : MVCCManager := ops.foldl step m

/-! ## One record at a time -/

/-- The versions of a record, oldest first; none if the record has no chain. -/
def versions (recordId : RecordId) (m : MVCCManager) : List RecordVersion :=
  ((m.versionChains.lookup recordId).map (·.versions)).getD []

/-- The version list after `delete_version`, whether it marked a version or not. -/
def marked (transactionId : TransactionId) (deleteTs : ℕ) (versionToDelete : UInt32)
    (vs : List RecordVersion) : List RecordVersion :=
  match VersionChain.markFirst transactionId deleteTs versionToDelete vs with
  | .ok vs' => vs'
  | .error _ => vs

/-- What a call at time `now` does to the versions of a record. -/
def onVersions (now : ℕ) (active : Finset TransactionId) (recordId : RecordId) :
    MvccOp → List RecordVersion → List RecordVersion
  | .begin _, vs => vs
  | .insert r data t version, vs => if r = recordId then vs ++ [.new data t 0 version] else vs
  | .update r data t version, vs => if r = recordId then vs ++ [.new data t 0 version] else vs
  | .delete r t version, vs => if r = recordId then marked t now version vs else vs
  | .commit t _, vs => vs.map (·.stampCommit t now)
  | .abort t, vs => vs.filter fun v => v.visibility.creatorId ≠ t
  | .vacuum beforeTimestamp, vs => vs.filter (vacuumKeeps beforeTimestamp active)

theorem visibleVersion_eq (recordId : RecordId) (snapshot : Snapshot) (m : MVCCManager) :
    m.visibleVersion recordId snapshot = LastMatch.find
      (fun v => v.visibility.isVisible snapshot.transactionId snapshot.timestamp)
      (m.versions recordId) := by
  rw [visibleVersion, versions]
  cases m.versionChains.lookup recordId <;> rfl

theorem recordExists_eq (recordId : RecordId) (snapshot : Snapshot) (m : MVCCManager) :
    m.recordExists recordId snapshot = (m.visibleVersion recordId snapshot).isSome := by
  rw [recordExists, visibleVersion]
  cases m.versionChains.lookup recordId <;> rfl

theorem versions_retainVersions (keep : RecordVersion → Bool)
    (chains : HashMap RecordId VersionChain) (recordId : RecordId) :
    (((retainVersions keep chains).lookup recordId).map (·.versions)).getD [] =
      (((chains.lookup recordId).map (·.versions)).getD []).filter keep := by
  rw [retainVersions, HashMap.lookup_retain, HashMap.lookup_mapValues]
  cases chains.lookup recordId with
  | none => rfl
  | some c =>
    simp only [Option.map_some, Option.filter_some, VersionChain.isLive, VersionChain.retain,
      Option.getD_some]
    cases hempty : c.versions.filter keep with
    | nil => rfl
    | cons v vs => rfl

theorem versions_pushVersion (r recordId : RecordId) (data : List UInt8) (t : TransactionId)
    (version : UInt32) (m : MVCCManager) :
    (m.pushVersion r data t version).versions recordId =
      if r = recordId then m.versions recordId ++ [.new data t 0 version]
      else m.versions recordId := by
  simp only [pushVersion, versions, HashMap.lookup_insert_eq]
  split
  · next h =>
    subst h
    rw [if_pos rfl]
    cases m.versionChains.lookup recordId <;> rfl
  · next h => rw [if_neg (Ne.symm h)]

theorem versions_deleteVersion (r recordId : RecordId) (t : TransactionId) (version : UInt32)
    (m : MVCCManager) :
    (m.deleteVersion r t version).2.versions recordId =
      if r = recordId then marked t m.globalTimestamp version (m.versions recordId)
      else m.versions recordId := by
  by_cases h : r = recordId
  · subst h
    rw [if_pos rfl]
    cases hlookup : m.versionChains.lookup r with
    | none =>
      simp only [deleteVersion, versions, hlookup]
      rfl
    | some c =>
      simp only [deleteVersion, versions, hlookup, AList.lookup_insert, VersionChain.deleteVersion,
        marked, Option.map_some, Option.getD_some]
      cases VersionChain.markFirst t m.globalTimestamp version c.versions <;> rfl
  · rw [if_neg h]
    cases hlookup : m.versionChains.lookup r with
    | none => simp only [deleteVersion, hlookup]
    | some c => simp only [deleteVersion, versions, hlookup, AList.lookup_insert_ne (Ne.symm h)]

/-- A call on the manager is a call on the versions of every record. -/
theorem versions_step (m : MVCCManager) (op : MvccOp) (recordId : RecordId) :
    (m.step op).versions recordId =
      onVersions m.globalTimestamp m.activeTransactions recordId op (m.versions recordId) := by
  cases op with
  | begin t => rfl
  | insert r data t version => exact versions_pushVersion r recordId data t version m
  | update r data t version => exact versions_pushVersion r recordId data t version m
  | delete r t version => exact versions_deleteVersion r recordId t version m
  | commit t snapshotTs =>
    simp only [step, commitTransaction, versions, HashMap.lookup_mapValues, onVersions]
    cases m.versionChains.lookup recordId <;> rfl
  | abort t => exact versions_retainVersions _ _ recordId
  | vacuum beforeTimestamp => exact versions_retainVersions _ _ recordId

/-- The clock never runs backwards. -/
theorem globalTimestamp_step (m : MVCCManager) (op : MvccOp) :
    m.globalTimestamp ≤ (m.step op).globalTimestamp := by
  cases op with
  | begin t => exact Nat.le_succ _
  | commit t snapshotTs => exact Nat.le_succ _
  | delete r t version =>
    rw [step, deleteVersion]
    cases m.versionChains.lookup r with
    | none => exact Nat.le_refl _
    | some c => exact Nat.le_succ _
  | insert r data t version | update r data t version | abort t | vacuum beforeTimestamp =>
    exact Nat.le_refl _

theorem activeTransactions_delete (m : MVCCManager) (r : RecordId) (t : TransactionId)
    (version : UInt32) :
    (m.step (.delete r t version)).activeTransactions = m.activeTransactions := by
  rw [step, deleteVersion]
  cases m.versionChains.lookup r <;> rfl

theorem marked_of_ok {t : TransactionId} {now : ℕ} {version : UInt32} {vs vs' : List RecordVersion}
    (h : VersionChain.markFirst t now version vs = .ok vs') : marked t now version vs = vs' := by
  rw [marked, h]

theorem marked_of_error {t : TransactionId} {now : ℕ} {version : UInt32} {vs : List RecordVersion}
    {e : Failure} (h : VersionChain.markFirst t now version vs = .error e) :
    marked t now version vs = vs := by
  rw [marked, h]

/-- The loop of `delete_version` fails, or replaces one version by its marked form: the first with
the given number, which the transaction may modify. -/
theorem markFirst_cases (t : TransactionId) (now : ℕ) (version : UInt32)
    (vs : List RecordVersion) :
    (∃ e, VersionChain.markFirst t now version vs = .error e) ∨
      ∃ pre v post, vs = pre ++ v :: post ∧
        VersionChain.markFirst t now version vs = .ok (pre ++ v.mark t now :: post) ∧
        (∀ w ∈ pre, w.version ≠ version) ∧ v.version = version ∧ v.visibility.canModify t = true := by
  induction vs with
  | nil => exact .inl ⟨_, rfl⟩
  | cons v vs ih =>
    by_cases hv : v.version = version
    · by_cases hmod : v.visibility.canModify t = true
      · refine .inr ⟨[], v, vs, rfl, ?_, by simp, hv, hmod⟩
        rw [VersionChain.markFirst, if_pos hv, if_pos hmod]
        rfl
      · exact .inl ⟨_, (if_pos hv).trans (if_neg hmod)⟩
    · rcases ih with ⟨e, he⟩ | ⟨pre, w, post, hsplit, hmark, hpre, hw, hmod⟩
      · refine .inl ⟨e, ?_⟩
        rw [VersionChain.markFirst, if_neg hv, he]
        rfl
      · refine .inr ⟨v :: pre, w, post, by rw [hsplit]; rfl, ?_, ?_, hw, hmod⟩
        · rw [VersionChain.markFirst, if_neg hv, hmark]
          rfl
        · intro x hx
          rcases List.mem_cons.mp hx with rfl | hx
          · exact hv
          · exact hpre x hx

end MVCCManager

end Rustgresql
