import Rustgresql.Transaction.Mvcc

/-!
# Histories

The manager keeps no record of who committed when. A `History` runs the manager next to what an
observer of the calls knows: the snapshots handed out, the commits in order, and the writes that
took effect in the order in which they were made.

`Legal` call sequences use transaction numbers the way the transaction manager does: a transaction
writes, commits and aborts only between its begin and its end, and does not begin again after its
end. `Sound` is what every legal history satisfies (`sound_of_legal`).
-/

namespace Rustgresql

open MVCCManager

/-- What a write does to a record. -/
inductive Action
  | put (data : List UInt8) (version : UInt32)
  | remove (version : UInt32)
  deriving DecidableEq, Repr

/-- A write that took effect. -/
structure Write where
  transactionId : TransactionId
  recordId : RecordId
  action : Action
  deriving DecidableEq, Repr

/-- The manager and what an observer of its calls knows. -/
structure History where
  manager : MVCCManager
  snapshots : List Snapshot
  commits : List (TransactionId × ℕ)
  writes : List Write
  ended : Finset TransactionId

namespace History

/-- Before the first call. -/
def start : History := ⟨.new, [], [], [], ∅⟩

/-- The commit time of a transaction; 0 if it has not committed. -/
def commitTime (h : History) (t : TransactionId) : ℕ := (h.commits.lookup t).getD 0

/-- The delete call marks a version. -/
def TakesEffect (m : MVCCManager) (r : RecordId) (t : TransactionId) (version : UInt32) : Prop :=
  ∃ vs, VersionChain.markFirst t m.globalTimestamp version (m.versions r) = .ok vs

instance (m : MVCCManager) (r : RecordId) (t : TransactionId) (version : UInt32) :
    Decidable (TakesEffect m r t version) :=
  match h : VersionChain.markFirst t m.globalTimestamp version (m.versions r) with
  | .ok vs => isTrue ⟨vs, h⟩
  | .error e => isFalse fun ⟨vs, hvs⟩ => by rw [h] at hvs; cases hvs

/-- The write that a call makes, if it takes effect. -/
def writeOf (m : MVCCManager) : MvccOp → Option Write
  | .insert r data t version | .update r data t version => some ⟨t, r, .put data version⟩
  | .delete r t version => if TakesEffect m r t version then some ⟨t, r, .remove version⟩ else none
  | _ => none

/-- Make a call and note what it did. -/
def record (h : History) (op : MvccOp) : History where
  manager := h.manager.step op
  snapshots := match op with
    | .begin t => h.snapshots ++ [(h.manager.beginTransaction t).1]
    | _ => h.snapshots
  commits := match op with
    | .commit t _ => h.commits ++ [(t, h.manager.globalTimestamp)]
    | _ => h.commits
  writes := h.writes ++ (writeOf h.manager op).toList
  ended := match op with
    | .commit t _ | .abort t => insert t h.ended
    | _ => h.ended

/-- The call respects the life of its transaction. -/
def Allowed (h : History) : MvccOp → Prop
  | .begin t => t ∉ h.ended
  | .insert _ _ t _ | .update _ _ t _ | .delete _ t _ | .commit t _ | .abort t =>
    t ∈ h.manager.activeTransactions
  | .vacuum _ => True

instance (h : History) (op : MvccOp) : Decidable (Allowed h op) := by
  cases op <;> unfold Allowed <;> infer_instance

/-- Every call of a sequence is allowed when it is made. -/
def Legal : History → List MvccOp → Prop
  | _, [] => True
  | h, op :: ops => Allowed h op ∧ Legal (h.record op) ops

instance Legal.decidable : (h : History) → (ops : List MvccOp) → Decidable (Legal h ops)
  | _, [] => isTrue trivial
  | h, op :: ops =>
    have := Legal.decidable (h.record op) ops
    inferInstanceAs (Decidable (Allowed h op ∧ Legal (h.record op) ops))

/-- The history of a call sequence. -/
def play (ops : List MvccOp) (h : History) : History := ops.foldl record h

theorem manager_play (ops : List MvccOp) (h : History) :
    (h.play ops).manager = h.manager.run ops := by
  induction ops generalizing h with
  | nil => rfl
  | cons op ops ih => exact ih (h.record op)

/-- What every allowed call keeps holds after every legal sequence. -/
theorem Legal.induction {I : History → Prop}
    (hstep : ∀ h op, I h → Allowed h op → I (h.record op)) {h : History} {ops : List MvccOp}
    (hI : I h) (hlegal : Legal h ops) : I (h.play ops) := by
  induction ops generalizing h with
  | nil => exact hI
  | cons op ops ih => exact ih (hstep h op hI hlegal.1) hlegal.2

end History

namespace MVCCManager

/-- Where a version comes from: it was there and the call did not touch it, or the call pushed,
marked or stamped it. -/
theorem mem_onVersions {now : ℕ} {active : Finset TransactionId} {r : RecordId} {op : MvccOp}
    {vs : List RecordVersion} {v : RecordVersion} (h : v ∈ onVersions now active r op vs) :
    (v ∈ vs ∧ ∀ t ts, op = .commit t ts → v.visibility.creatorId ≠ t) ∨
    (∃ data t version, (op = .insert r data t version ∨ op = .update r data t version) ∧
      v = .new data t 0 version) ∨
    (∃ t version w, op = .delete r t version ∧ w ∈ vs ∧ v = w.mark t now ∧
      ∃ vs', VersionChain.markFirst t now version vs = .ok vs') ∨
    (∃ t ts w, op = .commit t ts ∧ w ∈ vs ∧ w.visibility.creatorId = t ∧
      v = { w with visibility := { w.visibility with commitTs := now } }) := by
  cases op with
  | begin t => exact .inl ⟨h, fun _ _ hop => by cases hop⟩
  | insert r' data t version =>
    simp only [onVersions] at h
    split at h
    · next hr =>
      subst hr
      rcases List.mem_append.mp h with h | h
      · exact .inl ⟨h, fun _ _ hop => by cases hop⟩
      · exact .inr (.inl ⟨data, t, version, .inl rfl, List.mem_singleton.mp h⟩)
    · exact .inl ⟨h, fun _ _ hop => by cases hop⟩
  | update r' data t version =>
    simp only [onVersions] at h
    split at h
    · next hr =>
      subst hr
      rcases List.mem_append.mp h with h | h
      · exact .inl ⟨h, fun _ _ hop => by cases hop⟩
      · exact .inr (.inl ⟨data, t, version, .inr rfl, List.mem_singleton.mp h⟩)
    · exact .inl ⟨h, fun _ _ hop => by cases hop⟩
  | delete r' t version =>
    simp only [onVersions] at h
    split at h
    · next hr =>
      subst hr
      rcases markFirst_cases t now version vs with ⟨e, he⟩ | ⟨pre, w, post, hsplit, hmark, -, -, -⟩
      · rw [marked_of_error he] at h
        exact .inl ⟨h, fun _ _ hop => by cases hop⟩
      · rw [marked_of_ok hmark] at h
        rcases List.mem_append.mp h with h | h
        · exact .inl ⟨by rw [hsplit]; exact List.mem_append_left _ h, fun _ _ hop => by cases hop⟩
        · rcases List.mem_cons.mp h with rfl | h
          · exact .inr (.inr (.inl ⟨t, version, w, rfl, by rw [hsplit]; simp, rfl, _, hmark⟩))
          · exact .inl ⟨by rw [hsplit]; simp [h], fun _ _ hop => by cases hop⟩
    · exact .inl ⟨h, fun _ _ hop => by cases hop⟩
  | commit t ts =>
    obtain ⟨w, hw, rfl⟩ := List.mem_map.mp h
    by_cases ht : w.visibility.creatorId = t
    · refine .inr (.inr (.inr ⟨t, ts, w, rfl, hw, ht, ?_⟩))
      rw [RecordVersion.stampCommit, if_pos ht]
    · rw [RecordVersion.stampCommit, if_neg ht]
      refine .inl ⟨hw, ?_⟩
      rintro t' ts' ⟨⟩
      exact ht
  | abort t => exact .inl ⟨(List.mem_filter.mp h).1, fun _ _ hop => by cases hop⟩
  | vacuum b => exact .inl ⟨(List.mem_filter.mp h).1, fun _ _ hop => by cases hop⟩

end MVCCManager

namespace History

/-! ## Commit times -/

theorem commitTime_cases (h : History) (t : TransactionId) :
    h.commitTime t = 0 ∨ (t, h.commitTime t) ∈ h.commits := by
  rw [commitTime]
  cases hlookup : h.commits.lookup t with
  | none => exact .inl rfl
  | some c =>
    obtain ⟨pre, post, hsplit, -⟩ := List.lookup_eq_some_iff.mp hlookup
    exact .inr (by rw [hsplit]; simp)

theorem commitTime_commit {h : History} {t : TransactionId} (ht : ∀ c ∈ h.commits, c.1 ≠ t) (ts : ℕ)
    (x : TransactionId) : (h.record (.commit t ts)).commitTime x =
      if x = t then h.manager.globalTimestamp else h.commitTime x := by
  simp only [commitTime, record, List.lookup_append]
  by_cases hx : x = t
  · subst hx
    have hnone : h.commits.lookup x = none := by
      rw [List.lookup_eq_none_iff]
      intro c hc
      simpa using (ht c hc).symm
    rw [hnone, if_pos rfl, List.lookup_cons_self]
    rfl
  · have hnone : [(t, h.manager.globalTimestamp)].lookup x = none := by
      rw [List.lookup_eq_none_iff]
      simpa using hx
    rw [hnone, if_neg hx, Option.or_none]

theorem commitTime_record {h : History} {op : MvccOp} (hop : ∀ t ts, op ≠ .commit t ts)
    (x : TransactionId) : (h.record op).commitTime x = h.commitTime x := by
  cases op with
  | commit t ts => exact absurd rfl (hop t ts)
  | _ => rfl

/-! ## What every legal history satisfies -/

/-- The clock is ahead of everything that was stamped; commit times are distinct from each other and
from snapshot times; a version is stamped with the commit time of its creator. -/
structure Sound (h : History) : Prop where
  clock_pos : 0 < h.manager.globalTimestamp
  active_not_ended : ∀ t ∈ h.manager.activeTransactions, t ∉ h.ended
  committed_ended : ∀ c ∈ h.commits, c.1 ∈ h.ended
  committed_pos : ∀ c ∈ h.commits, 0 < c.2
  committed_before : ∀ c ∈ h.commits, c.2 < h.manager.globalTimestamp
  commits_sorted : h.commits.Pairwise fun c d => c.1 ≠ d.1 ∧ c.2 < d.2
  snapshot_before : ∀ s ∈ h.snapshots, s.timestamp < h.manager.globalTimestamp
  snapshot_ne : ∀ s ∈ h.snapshots, ∀ c ∈ h.commits, s.timestamp ≠ c.2
  stamped : ∀ r, ∀ v ∈ h.manager.versions r,
    v.visibility.commitTs = h.commitTime v.visibility.creatorId

theorem sound_start : Sound start where
  clock_pos := Nat.one_pos
  active_not_ended := by rintro t ⟨⟩
  committed_ended := by rintro c ⟨⟩
  committed_pos := by rintro c ⟨⟩
  committed_before := by rintro c ⟨⟩
  commits_sorted := .nil
  snapshot_before := by rintro s ⟨⟩
  snapshot_ne := by rintro s ⟨⟩
  stamped := by rintro r v ⟨⟩

namespace Sound

variable {h : History}

theorem not_committed (hs : Sound h) {t : TransactionId}
    (ht : t ∈ h.manager.activeTransactions) : ∀ c ∈ h.commits, c.1 ≠ t :=
  fun c hc hct => hs.active_not_ended t ht (hct ▸ hs.committed_ended c hc)

theorem commitTime_of_active (hs : Sound h) {t : TransactionId}
    (ht : t ∈ h.manager.activeTransactions) : h.commitTime t = 0 := by
  rcases h.commitTime_cases t with hzero | hmem
  · exact hzero
  · exact absurd rfl (hs.not_committed ht _ hmem)

/-- The stamp of every version after a call. -/
theorem stamped_record (hs : Sound h) {op : MvccOp} (hop : Allowed h op) (r : RecordId) :
    ∀ v ∈ (h.record op).manager.versions r,
      v.visibility.commitTs = (h.record op).commitTime v.visibility.creatorId := by
  intro v hv
  rw [show (h.record op).manager = h.manager.step op from rfl, versions_step] at hv
  rcases mem_onVersions hv with ⟨hold, hnot⟩ | ⟨data, t, version, hpush, rfl⟩ |
    ⟨t, version, w, rfl, hw, rfl, -⟩ | ⟨t, ts, w, rfl, hw, rfl, rfl⟩
  · by_cases hcommit : ∃ t ts, op = .commit t ts
    · obtain ⟨t, ts, rfl⟩ := hcommit
      rw [commitTime_commit (hs.not_committed hop), if_neg (hnot t ts rfl)]
      exact hs.stamped r v hold
    · rw [commitTime_record fun t ts heq => hcommit ⟨t, ts, heq⟩]
      exact hs.stamped r v hold
  · have hactive : t ∈ h.manager.activeTransactions := by
      rcases hpush with rfl | rfl <;> exact hop
    have hnot : ∀ t' ts, op ≠ .commit t' ts := by
      rcases hpush with rfl | rfl <;> nofun
    exact ((commitTime_record hnot t).trans (hs.commitTime_of_active hactive)).symm
  · have hnot : ∀ t' ts, MvccOp.delete r t version ≠ .commit t' ts := nofun
    exact (hs.stamped r w hw).trans (commitTime_record hnot _).symm
  · rw [commitTime_commit (hs.not_committed hop), if_pos rfl]

end Sound

theorem sound_record {h : History} {op : MvccOp} (hs : Sound h) (hop : Allowed h op) :
    Sound (h.record op) := by
  have hclock := globalTimestamp_step h.manager op
  have hstamped := hs.stamped_record hop
  cases op with
  | begin t =>
    have htick : h.manager.globalTimestamp < (h.manager.step (.begin t)).globalTimestamp :=
      Nat.lt_succ_self _
    refine ⟨hs.clock_pos.trans htick, ?_, hs.committed_ended, hs.committed_pos,
      fun c hc => (hs.committed_before c hc).trans htick, hs.commits_sorted, ?_, ?_, hstamped⟩
    · intro x hx
      rcases Finset.mem_insert.mp hx with rfl | hx
      · exact hop
      · exact hs.active_not_ended x hx
    · intro s hmem
      rcases List.mem_append.mp hmem with hmem | hmem
      · exact (hs.snapshot_before s hmem).trans htick
      · rw [List.mem_singleton.mp hmem]
        exact htick
    · intro s hmem c hc
      rcases List.mem_append.mp hmem with hmem | hmem
      · exact hs.snapshot_ne s hmem c hc
      · rw [List.mem_singleton.mp hmem]
        exact (hs.committed_before c hc).ne'
  | commit t ts =>
    have htick : h.manager.globalTimestamp < (h.manager.step (.commit t ts)).globalTimestamp :=
      Nat.lt_succ_self _
    refine ⟨hs.clock_pos.trans htick, ?_, ?_, ?_, ?_, ?_,
      fun s hmem => (hs.snapshot_before s hmem).trans htick, ?_, hstamped⟩
    · intro x hx hended
      obtain ⟨hne, hx⟩ := Finset.mem_erase.mp hx
      exact (Finset.mem_insert.mp hended).elim hne (hs.active_not_ended x hx)
    · intro c hc
      rcases List.mem_append.mp hc with hc | hc
      · exact Finset.mem_insert_of_mem (hs.committed_ended c hc)
      · rw [List.mem_singleton.mp hc]
        exact Finset.mem_insert_self _ _
    · intro c hc
      rcases List.mem_append.mp hc with hc | hc
      · exact hs.committed_pos c hc
      · rw [List.mem_singleton.mp hc]
        exact hs.clock_pos
    · intro c hc
      rcases List.mem_append.mp hc with hc | hc
      · exact (hs.committed_before c hc).trans htick
      · rw [List.mem_singleton.mp hc]
        exact htick
    · refine List.pairwise_append.mpr ⟨hs.commits_sorted, List.pairwise_singleton _ _, ?_⟩
      intro c hc d hd
      rw [List.mem_singleton.mp hd]
      exact ⟨hs.not_committed hop c hc, hs.committed_before c hc⟩
    · intro s hmem c hc
      rcases List.mem_append.mp hc with hc | hc
      · exact hs.snapshot_ne s hmem c hc
      · rw [List.mem_singleton.mp hc]
        exact (hs.snapshot_before s hmem).ne
  | abort t =>
    refine ⟨hs.clock_pos, ?_, fun c hc => Finset.mem_insert_of_mem (hs.committed_ended c hc),
      hs.committed_pos, hs.committed_before, hs.commits_sorted, hs.snapshot_before,
      hs.snapshot_ne, hstamped⟩
    intro x hx hended
    obtain ⟨hne, hx⟩ := Finset.mem_erase.mp hx
    exact (Finset.mem_insert.mp hended).elim hne (hs.active_not_ended x hx)
  | insert r data t version | update r data t version | vacuum b =>
    exact ⟨hs.clock_pos, hs.active_not_ended, hs.committed_ended, hs.committed_pos,
      hs.committed_before, hs.commits_sorted, hs.snapshot_before, hs.snapshot_ne, hstamped⟩
  | delete r t version =>
    have hactive : (h.manager.step (.delete r t version)).activeTransactions =
        h.manager.activeTransactions := activeTransactions_delete h.manager r t version
    refine ⟨hs.clock_pos.trans_le hclock, ?_, hs.committed_ended, hs.committed_pos,
      fun c hc => (hs.committed_before c hc).trans_le hclock, hs.commits_sorted,
      fun s hmem => (hs.snapshot_before s hmem).trans_le hclock, hs.snapshot_ne, hstamped⟩
    intro x hx
    exact hs.active_not_ended x (hactive ▸ hx)

theorem sound_of_legal {ops : List MvccOp} (h : Legal start ops) : Sound (start.play ops) :=
  Legal.induction (fun _ _ => sound_record) sound_start h

end History

end Rustgresql
