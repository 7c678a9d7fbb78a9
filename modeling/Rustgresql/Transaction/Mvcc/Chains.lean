import Rustgresql.Transaction.Mvcc

/-!
# Version chains under calls

Calls push onto a chain, edit its versions in place, or shorten it. A property of chains that
survives these survives every call (`ChainInvariant.step`).

`versions_step` follows the versions of a record through a call; `latest_step` does the same for the
index of the latest version and `globalTimestamp_eq` for the clock.
-/

namespace Rustgresql

namespace MVCCManager

/-- Every chain of the manager satisfies `P`. -/
def EveryChain (P : VersionChain → Prop) (m : MVCCManager) : Prop :=
  ∀ r c, m.versionChains.lookup r = some c → P c

/-- What a property of chains has to survive. -/
structure ChainInvariant (P : VersionChain → Prop) : Prop where
  new : ∀ version, P (VersionChain.new.addVersion version)
  push : ∀ c version, P c → P (c.addVersion version)
  edit : ∀ c versions, versions.length = c.versions.length → P c → P { c with versions }
  retain : ∀ c keep, (c.retain keep).isLive = true → P c → P (c.retain keep)

theorem length_marked (t : TransactionId) (now : ℕ) (version : UInt32) (vs : List RecordVersion) :
    (marked t now version vs).length = vs.length := by
  rcases markFirst_cases t now version vs with ⟨e, he⟩ | ⟨pre, v, post, hsplit, hmark, -, -, -⟩
  · rw [marked_of_error he]
  · rw [marked_of_ok hmark, hsplit, List.length_append, List.length_append]
    rfl

theorem deleteVersion_snd (c : VersionChain) (t : TransactionId) (now : ℕ) (version : UInt32) :
    (c.deleteVersion t now version).2 = { c with versions := marked t now version c.versions } := by
  rw [VersionChain.deleteVersion]
  cases h : VersionChain.markFirst t now version c.versions with
  | ok vs => rw [marked_of_ok h]
  | error e => rw [marked_of_error h]

namespace ChainInvariant

variable {P : VersionChain → Prop} {m : MVCCManager}

theorem pushVersion (hP : ChainInvariant P) (h : EveryChain P m) (r : RecordId) (data : List UInt8)
    (t : TransactionId) (version : UInt32) : EveryChain P (m.pushVersion r data t version) := by
  intro r' c hc
  rw [MVCCManager.pushVersion, HashMap.lookup_insert_eq] at hc
  split at hc
  · rw [← Option.some.inj hc]
    cases hlookup : m.versionChains.lookup r with
    | none => exact hP.new _
    | some c₀ => exact hP.push c₀ _ (h r c₀ hlookup)
  · exact h r' c hc

theorem retainVersions (hP : ChainInvariant P) (h : EveryChain P m) (keep : RecordVersion → Bool) :
    ∀ r c, (MVCCManager.retainVersions keep m.versionChains).lookup r = some c → P c := by
  intro r c hc
  rw [MVCCManager.retainVersions, HashMap.lookup_retain, Option.filter_eq_some_iff,
    HashMap.lookup_mapValues, Option.map_eq_some_iff] at hc
  obtain ⟨⟨c₀, hc₀, rfl⟩, hlive⟩ := hc
  exact hP.retain c₀ keep hlive (h r c₀ hc₀)

theorem deleteVersion (hP : ChainInvariant P) (h : EveryChain P m) (r : RecordId)
    (t : TransactionId) (version : UInt32) : EveryChain P (m.deleteVersion r t version).2 := by
  intro r' c hc
  rw [MVCCManager.deleteVersion] at hc
  cases hlookup : m.versionChains.lookup r with
  | none =>
    rw [hlookup] at hc
    exact h r' c hc
  | some c₀ =>
    rw [hlookup] at hc
    simp only [HashMap.lookup_insert_eq, deleteVersion_snd] at hc
    split at hc
    · rw [← Option.some.inj hc]
      exact hP.edit c₀ _ (length_marked _ _ _ _) (h r c₀ hlookup)
    · exact h r' c hc

/-- One call keeps a chain invariant. -/
theorem step (hP : ChainInvariant P) (h : EveryChain P m) (op : MvccOp) :
    EveryChain P (m.step op) := by
  cases op with
  | begin t => exact h
  | insert r data t version | update r data t version => exact hP.pushVersion h r data t version
  | delete r t version => exact hP.deleteVersion h r t version
  | commit t ts =>
    intro r c hc
    simp only [MVCCManager.step, commitTransaction, HashMap.lookup_mapValues,
      Option.map_eq_some_iff] at hc
    obtain ⟨c₀, hc₀, rfl⟩ := hc
    exact hP.edit c₀ _ (List.length_map _) (h r c₀ hc₀)
  | abort t => exact hP.retainVersions h _
  | vacuum b => exact hP.retainVersions h _

/-- A whole run keeps a chain invariant. -/
theorem run (hP : ChainInvariant P) (ops : List MvccOp) (h : EveryChain P m) :
    EveryChain P (m.run ops) := by
  induction ops generalizing m with
  | nil => exact h
  | cons op ops ih => exact ih (hP.step h op)

end ChainInvariant

theorem everyChain_new (P : VersionChain → Prop) : EveryChain P new := by
  rintro r c ⟨⟩

/-! ## Chains are not empty -/

theorem chainInvariant_isLive : ChainInvariant fun c => c.isLive = true where
  new _ := rfl
  push c version _ := by simp [VersionChain.isLive, VersionChain.addVersion]
  edit c versions hlen h := by
    have hpos : 0 < c.versions.length := by simpa [VersionChain.isLive, List.length_pos_iff] using h
    rw [← hlen, List.length_pos_iff] at hpos
    simpa [VersionChain.isLive] using hpos
  retain c keep hlive _ := hlive

/-- A record has a chain exactly when it has versions. -/
theorem lookup_eq_none_iff {m : MVCCManager} (h : EveryChain (fun c => c.isLive = true) m)
    (r : RecordId) : m.versionChains.lookup r = none ↔ m.versions r = [] := by
  rw [versions]
  cases hlookup : m.versionChains.lookup r with
  | none => simp
  | some c => simpa [VersionChain.isLive] using h r c hlookup

/-! ## The index of the latest version -/

/-- The index of the latest version of a record, if it has a chain. -/
def latest (recordId : RecordId) (m : MVCCManager) : Option ℕ :=
  (m.versionChains.lookup recordId).bind (·.latestCommitted)

/-- The index is lost with the chain. -/
def latestOf (vs : List RecordVersion) (latest : Option ℕ) : Option ℕ :=
  if vs.isEmpty then none else latest

/-- What a call does to the index of a record. -/
def onLatest (active : Finset TransactionId) (recordId : RecordId) :
    MvccOp → List RecordVersion → Option ℕ → Option ℕ
  | .insert r _ _ _, vs, i | .update r _ _ _, vs, i => if r = recordId then some vs.length else i
  | .abort t, vs, i => latestOf (vs.filter fun v => v.visibility.creatorId ≠ t) i
  | .vacuum beforeTimestamp, vs, i => latestOf (vs.filter (vacuumKeeps beforeTimestamp active)) i
  | .begin _, _, i | .delete _ _ _, _, i | .commit _ _, _, i => i

theorem getLatestVersion_eq (r : RecordId) (m : MVCCManager) :
    m.getLatestVersion r = ((m.latest r).bind fun i => (m.versions r)[i]?).map (·.data) := by
  rw [getLatestVersion, latest, versions]
  cases m.versionChains.lookup r <;> rfl

theorem latest_pushVersion (r recordId : RecordId) (data : List UInt8) (t : TransactionId)
    (version : UInt32) (m : MVCCManager) :
    (m.pushVersion r data t version).latest recordId =
      if r = recordId then some (m.versions recordId).length else m.latest recordId := by
  simp only [pushVersion, latest, versions, HashMap.lookup_insert_eq]
  split
  · next h =>
    subst h
    rw [if_pos rfl]
    cases m.versionChains.lookup recordId <;> rfl
  · next h => rw [if_neg (Ne.symm h)]

theorem latest_retainVersions (keep : RecordVersion → Bool) (recordId : RecordId)
    (m : MVCCManager) :
    ((retainVersions keep m.versionChains).lookup recordId).bind (·.latestCommitted) =
      latestOf ((m.versions recordId).filter keep) (m.latest recordId) := by
  rw [retainVersions, HashMap.lookup_retain, HashMap.lookup_mapValues, versions, latest]
  cases m.versionChains.lookup recordId with
  | none => rfl
  | some c =>
    rw [Option.map_some, Option.map_some, Option.filter_some, VersionChain.isLive,
      VersionChain.retain, Option.getD_some, latestOf]
    cases hempty : c.versions.filter keep with
    | nil => rfl
    | cons v vs => rfl

theorem latest_deleteVersion (r recordId : RecordId) (t : TransactionId) (version : UInt32)
    (m : MVCCManager) : (m.deleteVersion r t version).2.latest recordId = m.latest recordId := by
  rw [deleteVersion]
  cases hlookup : m.versionChains.lookup r with
  | none => rfl
  | some c =>
    simp only [latest, HashMap.lookup_insert_eq, deleteVersion_snd]
    split
    · next h => rw [h, hlookup]; rfl
    · rfl

/-- A call on the manager is a call on the index of every record. -/
theorem latest_step (m : MVCCManager) (op : MvccOp) (recordId : RecordId) :
    (m.step op).latest recordId =
      onLatest m.activeTransactions recordId op (m.versions recordId) (m.latest recordId) := by
  cases op with
  | begin t => rfl
  | insert r data t version => exact latest_pushVersion r recordId data t version m
  | update r data t version => exact latest_pushVersion r recordId data t version m
  | delete r t version => exact latest_deleteVersion r recordId t version m
  | commit t snapshotTs =>
    simp only [step, commitTransaction, latest, HashMap.lookup_mapValues, onLatest]
    cases m.versionChains.lookup recordId <;> rfl
  | abort t => exact latest_retainVersions _ recordId m
  | vacuum beforeTimestamp => exact latest_retainVersions _ recordId m

/-! ## The clock -/

/-- The calls that move the clock: a delete does if the record has a chain. -/
def ticks (m : MVCCManager) : MvccOp → Bool
  | .begin _ | .commit _ _ => true
  | .delete r _ _ => !(m.versions r).isEmpty
  | _ => false

theorem globalTimestamp_eq {m : MVCCManager} (h : EveryChain (fun c => c.isLive = true) m)
    (op : MvccOp) :
    (m.step op).globalTimestamp = m.globalTimestamp + (m.ticks op).toNat := by
  cases op with
  | delete r t version =>
    have hnone := lookup_eq_none_iff h r
    rw [step, deleteVersion, ticks]
    cases hlookup : m.versionChains.lookup r with
    | none => simp [hnone.mp hlookup]
    | some c =>
      have hsome : (m.versions r).isEmpty = false := by
        rw [List.isEmpty_eq_false_iff]
        intro hempty
        rw [hnone.mpr hempty] at hlookup
        cases hlookup
      rw [hsome]
      rfl
  | _ => rfl

end MVCCManager

end Rustgresql
