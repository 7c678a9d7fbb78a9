import Rustgresql.Transaction.Mvcc.History
import Rustgresql.Transaction.Mvcc.RepeatableReads

/-!
# Dirty reads

What a snapshot may depend on are the versions and deletions of its own transaction and of
transactions that committed before it was taken; the rest is foreign. A read is `Independent` if it
picks the version that it picks when everything foreign is left out.

Two things go wrong in the source: a version whose creator has not committed carries commit time 0
and is seen by every snapshot, and a delete call hides a version from the next snapshots on without
waiting for the commit. `independent_iff` says that nothing else does.
-/

namespace Rustgresql

open MVCCManager

namespace History

/-- The transaction had committed when the snapshot was taken. -/
def CommittedBefore (h : History) (s : Snapshot) (t : TransactionId) : Prop :=
  0 < h.commitTime t ∧ h.commitTime t < s.timestamp

/-- Another transaction, which had not committed when the snapshot was taken. -/
def Foreign (h : History) (s : Snapshot) (t : TransactionId) : Prop :=
  t ≠ s.transactionId ∧ ¬ h.CommittedBefore s t

instance (h : History) (s : Snapshot) (t : TransactionId) : Decidable (h.CommittedBefore s t) :=
  inferInstanceAs (Decidable (_ ∧ _))

instance (h : History) (s : Snapshot) (t : TransactionId) : Decidable (h.Foreign s t) :=
  inferInstanceAs (Decidable (_ ∧ _))

/-- The version carries the delete mark of a foreign transaction. -/
def ForeignMark (h : History) (s : Snapshot) (v : RecordVersion) : Prop :=
  ∃ t ∈ v.visibility.deleterId, h.Foreign s t

instance (h : History) (s : Snapshot) (v : RecordVersion) : Decidable (h.ForeignMark s v) :=
  inferInstanceAs (Decidable (∃ t ∈ v.visibility.deleterId, h.Foreign s t))

/-- What is left of a version when everything foreign is left out. -/
def withoutForeign (h : History) (s : Snapshot) (v : RecordVersion) : Option RecordVersion :=
  if h.Foreign s v.visibility.creatorId then none
  else if h.ForeignMark s v then some v.unmark
  else some v

/-- The manager without foreign versions and deletions. -/
def purged (h : History) (s : Snapshot) : MVCCManager :=
  { h.manager with
    versionChains := HashMap.mapValues
      (fun c => { c with versions := c.versions.filterMap (h.withoutForeign s) })
      h.manager.versionChains }

/-- A read of the record picks the version that it picks without foreign versions and deletions. -/
def Independent (h : History) (s : Snapshot) (r : RecordId) : Prop :=
  h.manager.visibleVersion r s = LastMatch.find
    (fun v => (h.withoutForeign s v).any (sees s)) (h.manager.versions r)

/-- The version comes from a transaction that has not committed and is seen, or was committed in
time and is hidden by a foreign mark only. -/
def Dirty (h : History) (s : Snapshot) (v : RecordVersion) : Prop :=
  (v.visibility.commitTs = 0 ∧ sees s v = true) ∨
    (v.visibility.commitTs ≠ 0 ∧ hides s v = true ∧ h.ForeignMark s v)

/-- An independent read returns what it returns from the purged manager. -/
theorem Independent.readRecord {h : History} {s : Snapshot} {r : RecordId}
    (hind : h.Independent s r) : h.manager.readRecord r s = (h.purged s).readRecord r s := by
  have hdata : ∀ v w : RecordVersion, h.withoutForeign s v = some w → w.data = v.data := by
    intro v w hw
    unfold withoutForeign at hw
    split at hw
    · cases hw
    · split at hw <;> (rw [← Option.some.inj hw]; try rfl)
  have hversions : (h.purged s).versions r =
      (h.manager.versions r).filterMap (h.withoutForeign s) := by
    simp only [purged, versions, HashMap.lookup_mapValues]
    cases h.manager.versionChains.lookup r <;> rfl
  rw [MVCCManager.readRecord, hind, readRecord_eq, hversions, LastMatch.find_filterMap]
  cases hfind : LastMatch.find (fun v => (h.withoutForeign s v).any (sees s))
      (h.manager.versions r) with
  | none => rfl
  | some v =>
    cases hw : h.withoutForeign s v with
    | none =>
      have hseen := LastMatch.apply_of_find hfind
      rw [hw] at hseen
      cases hseen
    | some w => rw [Option.map_some, Option.bind_some, hw, Option.map_some, hdata v w hw]

/-- Stamps show whether a creator is foreign: it is if it has not committed, or not in time. -/
theorem Sound.foreign_creator {h : History} (hs : Sound h) {s : Snapshot} (hmem : s ∈ h.snapshots)
    {r : RecordId} {v : RecordVersion} (hv : v ∈ h.manager.versions r) :
    h.Foreign s v.visibility.creatorId ↔ v.visibility.creatorId ≠ s.transactionId ∧
      (v.visibility.commitTs = 0 ∨ s.timestamp < v.visibility.commitTs) := by
  rw [Foreign, CommittedBefore, ← hs.stamped r v hv]
  have hne : v.visibility.commitTs ≠ 0 → s.timestamp ≠ v.visibility.commitTs := by
    intro hpos
    rw [hs.stamped r v hv] at hpos ⊢
    exact hs.snapshot_ne s hmem _ ((h.commitTime_cases _).resolve_left hpos)
  refine and_congr_right fun _ => ?_
  omega

theorem sees_unmark (s : Snapshot) (v : RecordVersion) :
    sees s v.unmark = (sees s v || hides s v) := by
  have hnone : v.unmark.visibility.deletedBy s.timestamp = false := rfl
  rw [Bool.eq_iff_iff, Bool.or_eq_true, sees_iff, sees_iff, hides_iff, hnone]
  simp only [RecordVersion.unmark]
  cases v.visibility.deletedBy s.timestamp <;> simp

/-- What the purged manager sees of a version. -/
theorem Sound.any_withoutForeign {h : History} (hs : Sound h) {s : Snapshot}
    (hmem : s ∈ h.snapshots) {r : RecordId} {v : RecordVersion} (hv : v ∈ h.manager.versions r) :
    (h.withoutForeign s v).any (sees s) = true ↔ v.visibility.commitTs ≠ 0 ∧
      (sees s v = true ∨ hides s v = true ∧ h.ForeignMark s v) := by
  have hcreator := hs.foreign_creator hmem hv
  have hown : sees s v = true ∨ hides s v = true → v.visibility.creatorId ≠ s.transactionId ∧
      v.visibility.commitTs ≤ s.timestamp := by
    rw [sees_iff, hides_iff]
    rintro (h | h)
    · exact ⟨h.2.2, h.1⟩
    · exact ⟨h.2.2, h.1⟩
  unfold withoutForeign
  split
  · next hforeign =>
    obtain ⟨-, htime⟩ := hcreator.mp hforeign
    refine ⟨by rintro ⟨⟩, ?_⟩
    rintro ⟨hpos, hseen⟩
    have := (hown (hseen.imp_right And.left)).2
    omega
  · next hforeign =>
    have hpos : sees s v = true ∨ hides s v = true → v.visibility.commitTs ≠ 0 :=
      fun hseen hzero => hforeign (hcreator.mpr ⟨(hown hseen).1, .inl hzero⟩)
    split
    · next hmark =>
      rw [Option.any_some, sees_unmark, Bool.or_eq_true]
      exact ⟨fun h => ⟨hpos h, h.imp_right fun h => ⟨h, hmark⟩⟩, fun h => h.2.imp_right And.left⟩
    · next hmark =>
      rw [Option.any_some]
      exact ⟨fun h => ⟨hpos (.inl h), .inl h⟩,
        fun h => h.2.resolve_right fun h => hmark h.2⟩

/-- In every legal run, a read is independent exactly when every dirty version of the record is
followed by a committed version that the snapshot sees; an independent read returns what it returns
from the manager without foreign versions and deletions. -/
theorem independent_iff {ops : List MvccOp} (hlegal : Legal start ops) {s : Snapshot}
    (hmem : s ∈ (start.play ops).snapshots) (r : RecordId) :
    ((start.play ops).Independent s r ↔
      LastMatch.Covered ((start.play ops).Dirty s)
        (fun v => v.visibility.commitTs ≠ 0 ∧ sees s v = true)
        ((start.play ops).manager.versions r)) ∧
    ((start.play ops).Independent s r → (start.play ops).manager.readRecord r s =
      ((start.play ops).purged s).readRecord r s) := by
  set h := start.play ops
  have hs : Sound h := sound_of_legal hlegal
  refine ⟨?_, Independent.readRecord⟩
  rw [Independent, visibleVersion_eq]
  refine LastMatch.find_eq_find_iff.trans (LastMatch.covered_congr (fun v hv => ?_) fun v hv => ?_)
  · have hpurged := hs.any_withoutForeign hmem hv
    have hboth : sees s v = true → ¬ hides s v = true := by
      rw [sees_iff, hides_iff]
      rintro ⟨-, hnot, -⟩ ⟨-, hdel, -⟩
      rw [hnot] at hdel
      cases hdel
    rw [ne_eq, Bool.eq_iff_iff, hpurged, Dirty]
    show ¬ (sees s v = true ↔ _) ↔ _
    tauto
  · have hpurged := hs.any_withoutForeign hmem hv
    rw [hpurged]
    show sees s v = true ∧ _ ↔ _
    tauto

/-- Transaction 1 reads what transaction 2 committed before it began. -/
theorem independent_committed :
    let h := start.play [.begin 2, .insert 7 [1] 2 1, .commit 2 1, .begin 1]
    let s : Snapshot := ⟨1, 3, {1}⟩
    (h.Independent s 7 ↔ LastMatch.Covered (h.Dirty s)
      (fun v => v.visibility.commitTs ≠ 0 ∧ sees s v = true) (h.manager.versions 7)) ∧
    (h.Independent s 7 → h.manager.readRecord 7 s = (h.purged s).readRecord 7 s) :=
  independent_iff (by decide) (by decide) 7

/-- Transaction 1 reads what transaction 2 inserted and has not committed. -/
theorem dirty_read :
    let h := start.play [.begin 1, .begin 2, .insert 7 [1] 2 1]
    Legal start [.begin 1, .begin 2, .insert 7 [1] 2 1] ∧
      ∃ s ∈ h.snapshots, h.manager.readRecord 7 s = some [1] ∧ (h.purged s).readRecord 7 s = none := by
  decide

end History

end Rustgresql
