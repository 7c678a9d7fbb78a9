import Rustgresql.Transaction.Mvcc.Chains
import Rustgresql.Transaction.Mvcc.RepeatableReads

/-!
# Vacuum

`vacuum` removes every version that was committed before a timestamp, the newest of a record
included, and leaves the index of the latest version where it was. `keepsReads_iff` says when that
changes nothing: a record loses no version, or its index is already out of range and every version
it loses is covered by one it keeps.
-/

namespace Rustgresql

namespace MVCCManager

/-- The index of the latest version is not before the last version of the chain. -/
def LatestBehind (m : MVCCManager) : Prop :=
  EveryChain (fun c => ∃ i, c.latestCommitted = some i ∧ c.versions.length ≤ i + 1) m

theorem chainInvariant_latestBehind :
    ChainInvariant fun c => ∃ i, c.latestCommitted = some i ∧ c.versions.length ≤ i + 1 where
  new _ := ⟨0, rfl, Nat.le_refl _⟩
  push c version _ := ⟨c.versions.length, rfl, by simp [VersionChain.addVersion]⟩
  edit c versions hlen := fun ⟨i, hi, h⟩ => ⟨i, hi, hlen.le.trans h⟩
  retain c keep _ := fun ⟨i, hi, h⟩ => ⟨i, hi, (List.length_filter_le _ _).trans h⟩

/-! ## What vacuum leaves -/

/-- After a vacuum every snapshot at or after its timestamp reads the version that it read before,
and the latest version of every record is what it was. -/
def KeepsReads (beforeTimestamp : ℕ) (m : MVCCManager) : Prop :=
  ∀ r, (∀ s : Snapshot, beforeTimestamp ≤ s.timestamp →
      (m.vacuum beforeTimestamp).2.visibleVersion r s = m.visibleVersion r s) ∧
    (m.vacuum beforeTimestamp).2.getLatestVersion r = m.getLatestVersion r

/-- The index of the latest version is out of range. -/
def LatestStale (r : RecordId) (m : MVCCManager) : Prop :=
  ∀ c ∈ m.versionChains.lookup r, ∀ i ∈ c.latestCommitted, c.versions.length ≤ i

/-- Every record loses nothing, or has a stale index and loses only versions that are covered by
versions it keeps, for every snapshot at or after the timestamp. -/
def VacuumSafe (beforeTimestamp : ℕ) (m : MVCCManager) : Prop :=
  ∀ r, (∀ v ∈ m.versions r, vacuumKeeps beforeTimestamp m.activeTransactions v = true) ∨
    LatestStale r m ∧ ∀ s : Snapshot, beforeTimestamp ≤ s.timestamp →
      LastMatch.Covered
        (fun v => sees s v = true ∧ vacuumKeeps beforeTimestamp m.activeTransactions v = false)
        (fun v => sees s v = true ∧ vacuumKeeps beforeTimestamp m.activeTransactions v = true)
        (m.versions r)

theorem visibleVersion_vacuum_iff (beforeTimestamp : ℕ) (m : MVCCManager) (r : RecordId)
    (s : Snapshot) :
    (m.vacuum beforeTimestamp).2.visibleVersion r s = m.visibleVersion r s ↔
      LastMatch.Covered
        (fun v => sees s v = true ∧ vacuumKeeps beforeTimestamp m.activeTransactions v = false)
        (fun v => sees s v = true ∧ vacuumKeeps beforeTimestamp m.activeTransactions v = true)
        (m.versions r) := by
  rw [visibleVersion_eq, visibleVersion_eq]
  have hversions : (m.vacuum beforeTimestamp).2.versions r =
      (m.versions r).filter (vacuumKeeps beforeTimestamp m.activeTransactions) :=
    versions_step m (.vacuum beforeTimestamp) r
  rw [hversions]
  exact LastMatch.find_filter_iff

theorem getLatestVersion_of_stale {m : MVCCManager} {r : RecordId} (h : LatestStale r m) :
    m.getLatestVersion r = none := by
  rw [getLatestVersion]
  cases hlookup : m.versionChains.lookup r with
  | none => rfl
  | some c =>
    rw [Option.bind_some, VersionChain.getLatestCommitted]
    cases hi : c.latestCommitted with
    | none => rfl
    | some i =>
      rw [Option.bind_some, List.getElem?_eq_none (h c hlookup i hi)]
      rfl

theorem lookup_vacuum (beforeTimestamp : ℕ) (m : MVCCManager) (r : RecordId) :
    (m.vacuum beforeTimestamp).2.versionChains.lookup r =
      ((m.versionChains.lookup r).map
        (VersionChain.retain (vacuumKeeps beforeTimestamp m.activeTransactions))).filter
          VersionChain.isLive := by
  rw [vacuum, retainVersions, HashMap.lookup_retain, HashMap.lookup_mapValues]

theorem stale_vacuum {beforeTimestamp : ℕ} {m : MVCCManager} {r : RecordId}
    (h : ∀ c ∈ m.versionChains.lookup r, ∀ i ∈ c.latestCommitted,
      (c.versions.filter (vacuumKeeps beforeTimestamp m.activeTransactions)).length ≤ i) :
    LatestStale r (m.vacuum beforeTimestamp).2 := by
  intro c hc i hi
  rw [lookup_vacuum, Option.mem_def, Option.filter_eq_some_iff, Option.map_eq_some_iff] at hc
  obtain ⟨⟨c', hc', rfl⟩, -⟩ := hc
  exact h c' hc' i hi

/-- A record that loses nothing keeps its latest version. -/
theorem getLatestVersion_vacuum_of_kept {beforeTimestamp : ℕ} {m : MVCCManager} {r : RecordId}
    (h : ∀ v ∈ m.versions r, vacuumKeeps beforeTimestamp m.activeTransactions v = true) :
    (m.vacuum beforeTimestamp).2.getLatestVersion r = m.getLatestVersion r := by
  rw [getLatestVersion, getLatestVersion, lookup_vacuum]
  rw [versions] at h
  cases hlookup : m.versionChains.lookup r with
  | none => rfl
  | some c =>
    rw [hlookup, Option.map_some, Option.getD_some] at h
    have hsame : c.retain (vacuumKeeps beforeTimestamp m.activeTransactions) = c := by
      rw [VersionChain.retain, List.filter_eq_self.mpr h]
    rw [Option.map_some, hsame, Option.filter_some, VersionChain.isLive]
    cases hversions : c.versions with
    | cons v vs => rfl
    | nil =>
      simp only [List.isEmpty_nil, Option.bind_some, VersionChain.getLatestCommitted, hversions]
      cases c.latestCommitted <;> rfl

/-- A record that loses a version keeps its latest version only if the index was stale. -/
theorem stale_of_getLatestVersion_vacuum {beforeTimestamp : ℕ} {m : MVCCManager} {r : RecordId}
    (hbehind : LatestBehind m)
    (hlost : ∃ v ∈ m.versions r, vacuumKeeps beforeTimestamp m.activeTransactions v = false)
    (h : (m.vacuum beforeTimestamp).2.getLatestVersion r = m.getLatestVersion r) :
    LatestStale r m := by
  intro c hc i hi
  by_contra hin
  obtain ⟨j, hj, hlen⟩ := hbehind r c hc
  obtain rfl : j = i := by rw [Option.mem_def, hj] at hi; exact Option.some.inj hi
  have hshorter : (c.versions.filter (vacuumKeeps beforeTimestamp m.activeTransactions)).length <
      c.versions.length := by
    obtain ⟨v, hv, hdrop⟩ := hlost
    rw [versions, hc] at hv
    exact List.length_filter_lt_length_iff_exists.mpr ⟨v, hv, by simp [hdrop]⟩
  have hafter : (m.vacuum beforeTimestamp).2.getLatestVersion r = none := by
    refine getLatestVersion_of_stale (stale_vacuum fun c' hc' i' hi' => ?_)
    obtain rfl : c' = c := by rw [Option.mem_def, hc] at hc'; exact (Option.some.inj hc').symm
    obtain rfl : i' = j := by rw [Option.mem_def, hj] at hi'; exact (Option.some.inj hi').symm
    omega
  obtain ⟨v, hv⟩ : ∃ v, c.versions[j]? = some v :=
    ⟨_, List.getElem?_eq_getElem (not_le.mp hin)⟩
  have hbefore : m.getLatestVersion r = some v.data := by
    rw [getLatestVersion, hc, Option.bind_some, VersionChain.getLatestCommitted, hj,
      Option.bind_some, hv]
    rfl
  rw [hafter, hbefore] at h
  cases h

/-- A vacuum keeps the reads of a manager exactly when it is safe. -/
theorem keepsReads_iff {m : MVCCManager} (hbehind : LatestBehind m) (beforeTimestamp : ℕ) :
    KeepsReads beforeTimestamp m ↔ VacuumSafe beforeTimestamp m := by
  constructor
  · intro h r
    by_cases hall : ∀ v ∈ m.versions r,
        vacuumKeeps beforeTimestamp m.activeTransactions v = true
    · exact .inl hall
    · obtain ⟨hreads, hlatest⟩ := h r
      refine .inr ⟨stale_of_getLatestVersion_vacuum hbehind (by simpa using hall) hlatest, ?_⟩
      exact fun s hs => (visibleVersion_vacuum_iff beforeTimestamp m r s).mp (hreads s hs)
  · intro h r
    rcases h r with hall | ⟨hstale, hcovered⟩
    · refine ⟨fun s _ => (visibleVersion_vacuum_iff beforeTimestamp m r s).mpr ?_,
        getLatestVersion_vacuum_of_kept hall⟩
      exact LastMatch.Covered.of_forall_not fun v hv hlost => by
        rw [hall v hv] at hlost
        cases hlost.2
    · refine ⟨fun s hs => (visibleVersion_vacuum_iff beforeTimestamp m r s).mpr (hcovered s hs), ?_⟩
      have hafter : LatestStale r (m.vacuum beforeTimestamp).2 :=
        stale_vacuum fun c hc i hi => (List.length_filter_le _ _).trans (hstale c hc i hi)
      rw [getLatestVersion_of_stale hafter, getLatestVersion_of_stale hstale]

theorem readRecord_of_keepsReads {beforeTimestamp : ℕ} {m : MVCCManager}
    (h : KeepsReads beforeTimestamp m) (r : RecordId) {s : Snapshot}
    (hs : beforeTimestamp ≤ s.timestamp) :
    (m.vacuum beforeTimestamp).2.readRecord r s = m.readRecord r s := by
  rw [readRecord, readRecord, (h r).1 s hs]

end MVCCManager

end Rustgresql
