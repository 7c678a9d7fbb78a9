import Rustgresql.Transaction.Mvcc.History
import Rustgresql.Transaction.Mvcc.RepeatableReads

/-!
# The latest committed version

What a record should hold once all its writers have committed: replay their writes in the order of
the commits (`redo`, `replay`). The manager searches the chain from its newest end instead and looks
at delete marks only, so it finds the last version that was *pushed* and not marked.
`readRecord_latest` says when the two agree.
-/

namespace Rustgresql

open MVCCManager

/-- The version that a write creates. -/
def Action.put? : Action → Option (List UInt8 × UInt32)
  | .put data version => some (data, version)
  | .remove _ => none

/-- A write on the current version of a record; removing clears it if the number is the current
one. -/
def Action.apply (current : Option (List UInt8 × UInt32)) : Action → Option (List UInt8 × UInt32)
  | .put data version => some (data, version)
  | .remove version => current.filter fun c => c.2 ≠ version

/-- The version that a sequence of writes leaves. -/
def replay (actions : List Action) : Option (List UInt8 × UInt32) :=
  actions.foldl Action.apply none

/-- Whatever a replay leaves was written last. -/
theorem getLast?_of_replay {actions : List Action} {x : List UInt8 × UInt32}
    (h : replay actions = some x) : (actions.filterMap Action.put?).getLast? = some x := by
  induction actions using List.reverseRecOn with
  | nil => cases h
  | append_singleton actions a ih =>
    rw [replay, List.foldl_append] at h
    rw [List.filterMap_append]
    cases a with
    | put data version =>
      rw [← h]
      exact List.getLast?_concat
    | remove version =>
      obtain ⟨hcurrent, -⟩ := Option.filter_eq_some_iff.mp h
      have hnil : [Action.remove version].filterMap Action.put? = [] := rfl
      rw [hnil, List.append_nil]
      exact ih hcurrent

/-- The last element of a concatenation is the last of the last list that has any. -/
theorem getLast?_flatMap {α β : Type} {f : α → List β} {l : List α} {x : β}
    (h : (l.flatMap f).getLast? = some x) :
    ∃ a, (l.filter fun a => !(f a).isEmpty).getLast? = some a ∧ (f a).getLast? = some x := by
  induction l using List.reverseRecOn with
  | nil => cases h
  | append_singleton l a ih =>
    rw [List.flatMap_append, List.flatMap_singleton] at h
    rw [List.filter_append]
    cases hfa : f a with
    | nil =>
      rw [hfa, List.append_nil] at h
      have hnil : [a].filter (fun a => !(f a).isEmpty) = [] := by simp [hfa]
      rw [hnil, List.append_nil]
      exact ih h
    | cons b bs =>
      have hone : [a].filter (fun a => !(f a).isEmpty) = [a] := by simp [hfa]
      rw [hfa, List.getLast?_append_of_ne_nil _ (List.cons_ne_nil b bs)] at h
      exact ⟨a, by rw [hone, List.getLast?_concat], by rw [hfa, h]⟩

namespace History

/-- What a transaction did to a record, in order. -/
def actionsOf (h : History) (t : TransactionId) (r : RecordId) : List Action :=
  (h.writes.filter fun w => w.transactionId = t ∧ w.recordId = r).map (·.action)

/-- The committed writes to a record, in the order of the commits. -/
def redo (h : History) (r : RecordId) : List Action :=
  h.commits.flatMap fun c => h.actionsOf c.1 r

/-- The versions that a transaction wrote to a record, in order. -/
def puts (h : History) (t : TransactionId) (r : RecordId) : List (List UInt8 × UInt32) :=
  (h.actionsOf t r).filterMap Action.put?

/-- The commit time of the last transaction, in the order of the commits, that wrote a version of
the record. -/
def lastPutTime (h : History) (r : RecordId) : ℕ :=
  ((h.commits.filter fun c => !(h.puts c.1 r).isEmpty).getLast?.map (·.2)).getD 0

/-- The versions in a chain that a transaction created. -/
def contents (t : TransactionId) (vs : List RecordVersion) : List (List UInt8 × UInt32) :=
  vs.filterMap fun v => if v.visibility.creatorId = t then some (v.data, v.version) else none

/-- The chains hold what was written: of each transaction everything, or nothing after its end; and
delete marks come from writers, before their commit. -/
structure Written (h : History) : Prop where
  sound : Sound h
  writers : ∀ w ∈ h.writes,
    w.transactionId ∈ h.manager.activeTransactions ∨ w.transactionId ∈ h.ended
  contents : ∀ t r, contents t (h.manager.versions r) = h.puts t r ∨
    contents t (h.manager.versions r) = [] ∧ t ∈ h.ended
  marks : ∀ r, ∀ v ∈ h.manager.versions r, ∀ d, v.visibility.deleteTs = some d →
    d < h.manager.globalTimestamp ∧ ∃ w ∈ h.writes, w.recordId = r ∧
      (0 < h.commitTime w.transactionId → d < h.commitTime w.transactionId)

/-! ## One call -/

/-- The version of the record that a call pushes for the transaction. -/
def pushed (t : TransactionId) (r : RecordId) : MvccOp → List (List UInt8 × UInt32)
  | .insert r' data t' version | .update r' data t' version =>
    if t' = t ∧ r' = r then [(data, version)] else []
  | _ => []

theorem puts_record (h : History) (op : MvccOp) (t : TransactionId) (r : RecordId) :
    (h.record op).puts t r = h.puts t r ++ pushed t r op := by
  have hwrites : (h.record op).writes = h.writes ++ (writeOf h.manager op).toList := rfl
  simp only [puts, actionsOf, hwrites, List.filter_append, List.map_append, List.filterMap_append]
  congr 1
  cases op with
  | insert r' data t' version | update r' data t' version =>
    by_cases hmine : t' = t ∧ r' = r
    · simp [writeOf, pushed, hmine, Action.put?]
    · simp [writeOf, pushed, hmine]
  | delete r' t' version =>
    simp only [writeOf, pushed]
    split
    · by_cases hmine : t' = t ∧ r' = r
      · simp [hmine, Action.put?]
      · simp [hmine]
    · rfl
  | begin t' | commit t' ts | abort t' | vacuum b => rfl

theorem contents_append (t : TransactionId) (vs ws : List RecordVersion) :
    contents t (vs ++ ws) = contents t vs ++ contents t ws := List.filterMap_append

theorem contents_cons (t : TransactionId) (v : RecordVersion) (vs : List RecordVersion) :
    contents t (v :: vs) =
      (if v.visibility.creatorId = t then [(v.data, v.version)] else []) ++ contents t vs := by
  rw [contents, List.filterMap_cons]
  split <;> simp_all [contents]

theorem contents_push (t t' : TransactionId) (r r' : RecordId) (data : List UInt8)
    (version : UInt32) (vs : List RecordVersion) :
    contents t (if r' = r then vs ++ [.new data t' 0 version] else vs) =
      contents t vs ++ if t' = t ∧ r' = r then [(data, version)] else [] := by
  by_cases hr : r' = r
  · rw [if_pos hr, contents_append, contents_cons]
    simp only [hr, and_true]
    exact congrArg _ (List.append_nil _)
  · rw [if_neg hr, if_neg fun h => hr h.2, List.append_nil]

theorem contents_marked (t t' : TransactionId) (now : ℕ) (version : UInt32)
    (vs : List RecordVersion) : contents t (marked t' now version vs) = contents t vs := by
  rcases markFirst_cases t' now version vs with ⟨e, he⟩ | ⟨pre, v, post, hsplit, hmark, -, -, -⟩
  · rw [marked_of_error he]
  · rw [marked_of_ok hmark, hsplit, contents_append, contents_append, contents_cons, contents_cons]
    rfl

theorem contents_stampCommit (t t' : TransactionId) (now : ℕ) (vs : List RecordVersion) :
    contents t (vs.map (·.stampCommit t' now)) = contents t vs := by
  rw [contents, List.filterMap_map]
  refine List.filterMap_congr fun v _ => ?_
  simp only [Function.comp_apply, RecordVersion.stampCommit]
  split <;> rfl

theorem contents_filter {t : TransactionId} {k : RecordVersion → Bool} {vs : List RecordVersion}
    (hk : ∀ v ∈ vs, v.visibility.creatorId = t → k v = true) :
    contents t (vs.filter k) = contents t vs := by
  induction vs with
  | nil => rfl
  | cons v vs ih =>
    have htail := ih fun w hw => hk w (List.mem_cons_of_mem _ hw)
    rw [contents_cons, List.filter_cons]
    split
    · rw [contents_cons, htail]
    · next hdrop =>
      have hother : v.visibility.creatorId ≠ t := fun ht => hdrop (hk v List.mem_cons_self ht)
      rw [if_neg hother, htail]
      rfl

theorem contents_eq_nil {t : TransactionId} {vs : List RecordVersion}
    (h : ∀ v ∈ vs, v.visibility.creatorId ≠ t) : contents t vs = [] :=
  List.filterMap_eq_nil_iff.mpr fun v hv => if_neg (h v hv)

/-- A call pushes versions at the end of what a transaction has in the chain, or removes all of it
after the end of the transaction. -/
theorem contents_step {h : History} (hs : Sound h) (op : MvccOp) (t : TransactionId)
    (r : RecordId) :
    contents t ((h.manager.step op).versions r) =
        contents t (h.manager.versions r) ++ pushed t r op ∨
      contents t ((h.manager.step op).versions r) = [] ∧ pushed t r op = [] ∧
        (t ∉ h.manager.activeTransactions ∨ op = .abort t) := by
  rw [versions_step]
  cases op with
  | begin t' => exact .inl (List.append_nil _).symm
  | insert r' data t' version => exact .inl (contents_push t t' r r' data version _)
  | update r' data t' version => exact .inl (contents_push t t' r r' data version _)
  | delete r' t' version =>
    left
    simp only [onVersions, pushed, List.append_nil]
    split
    · exact contents_marked t t' _ version _
    · rfl
  | commit t' ts =>
    left
    simp only [onVersions, pushed, List.append_nil]
    exact contents_stampCommit t t' _ _
  | abort t' =>
    by_cases ht : t = t'
    · subst ht
      exact .inr ⟨contents_eq_nil fun v hv => by simpa using (List.mem_filter.mp hv).2, rfl, .inr rfl⟩
    · left
      simp only [onVersions, pushed, List.append_nil]
      exact contents_filter fun v _ hv => by simpa [hv] using ht
  | vacuum b =>
    simp only [onVersions, pushed, List.append_nil]
    by_cases hactive : t ∈ h.manager.activeTransactions
    · exact .inl (contents_filter fun v _ hv => by simp [vacuumKeeps, hv, hactive])
    · -- the versions of an ended transaction carry one stamp and stay or go together
      have hstamp : ∀ v ∈ h.manager.versions r, v.visibility.creatorId = t →
          vacuumKeeps b h.manager.activeTransactions v = decide (h.commitTime t ≥ b) := by
        intro v hv ht
        rw [vacuumKeeps, hs.stamped r v hv, ht]
        simp [hactive]
      by_cases hb : h.commitTime t ≥ b
      · exact .inl (contents_filter fun v hv ht => by rw [hstamp v hv ht]; simpa using hb)
      · refine .inr ⟨contents_eq_nil fun v hv ht => ?_, trivial, .inl hactive⟩
        obtain ⟨hv, hkeep⟩ := List.mem_filter.mp hv
        rw [hstamp v hv ht] at hkeep
        exact hb (of_decide_eq_true hkeep)

theorem pushed_eq_nil {h : History} (hs : Sound h) {op : MvccOp} (hop : Allowed h op)
    {t : TransactionId} (ht : t ∈ h.ended) (r : RecordId) : pushed t r op = [] := by
  cases op with
  | insert r' data t' version | update r' data t' version =>
    refine if_neg fun hmine => ?_
    exact hs.active_not_ended t' hop (hmine.1 ▸ ht)
  | _ => rfl

theorem exists_write {h : History} {t : TransactionId} {r : RecordId} (hputs : h.puts t r ≠ []) :
    ∃ w ∈ h.writes, w.transactionId = t ∧ w.recordId = r := by
  obtain ⟨x, hx⟩ := List.exists_mem_of_ne_nil _ hputs
  obtain ⟨a, ha, -⟩ := List.mem_filterMap.mp hx
  obtain ⟨w, hmem, -⟩ := List.mem_map.mp ha
  obtain ⟨hmem, hmine⟩ := List.mem_filter.mp hmem
  exact ⟨w, hmem, of_decide_eq_true hmine⟩

theorem ended_subset (h : History) (op : MvccOp) : h.ended ⊆ (h.record op).ended := by
  cases op with
  | commit t ts | abort t => exact Finset.subset_insert _ _
  | _ => exact subset_rfl

/-- A delete call that marks a version moves the clock. -/
theorem globalTimestamp_delete {m : MVCCManager} {r : RecordId} {t : TransactionId}
    {version : UInt32} (h : TakesEffect m r t version) :
    m.globalTimestamp < (m.step (.delete r t version)).globalTimestamp := by
  obtain ⟨vs, hvs⟩ := h
  rw [step, deleteVersion]
  cases hlookup : m.versionChains.lookup r with
  | none =>
    rw [versions, hlookup] at hvs
    cases hvs
  | some c => exact Nat.lt_succ_self _

namespace Written

variable {h : History}

theorem writers_record (hw : Written h) {op : MvccOp} (hop : Allowed h op) :
    ∀ w ∈ (h.record op).writes, w.transactionId ∈ (h.record op).manager.activeTransactions ∨
      w.transactionId ∈ (h.record op).ended := by
  have hold : ∀ x, x ∈ h.manager.activeTransactions ∨ x ∈ h.ended →
      x ∈ (h.record op).manager.activeTransactions ∨ x ∈ (h.record op).ended := by
    intro x hx
    cases op with
    | begin t => exact hx.imp_left (Finset.mem_insert_of_mem ·)
    | commit t ts | abort t =>
      by_cases hxt : x = t
      · exact .inr (hxt ▸ Finset.mem_insert_self _ _)
      · exact hx.imp (fun hx => Finset.mem_erase.mpr ⟨hxt, hx⟩) (Finset.mem_insert_of_mem ·)
    | delete r t version =>
      have hactive : (h.manager.step (.delete r t version)).activeTransactions =
          h.manager.activeTransactions := activeTransactions_delete h.manager r t version
      exact hx.imp_left fun hx => hactive.symm ▸ hx
    | insert r data t version | update r data t version | vacuum b => exact hx
  intro w hmem
  rcases List.mem_append.mp hmem with hmem | hmem
  · exact hold _ (hw.writers w hmem)
  · refine hold _ (.inl ?_)
    cases op with
    | insert r data t version | update r data t version =>
      cases Option.mem_toList.mp hmem
      exact hop
    | delete r t version =>
      rw [Option.mem_toList, writeOf] at hmem
      split at hmem
      · cases hmem
        exact hop
      · cases hmem
    | _ => cases Option.mem_toList.mp hmem

theorem contents_record (hw : Written h) {op : MvccOp} (hop : Allowed h op) (t : TransactionId)
    (r : RecordId) :
    History.contents t ((h.record op).manager.versions r) = (h.record op).puts t r ∨
      History.contents t ((h.record op).manager.versions r) = [] ∧ t ∈ (h.record op).ended := by
  rw [puts_record]
  rcases contents_step hw.sound op t r with hstep | ⟨hnil, hpushed, hgone⟩
  · rcases hw.contents t r with hputs | ⟨hempty, hended⟩
    · exact .inl (by rw [← hputs]; exact hstep)
    · refine .inr ⟨hstep.trans ?_, ended_subset h op hended⟩
      rw [hempty, pushed_eq_nil hw.sound hop hended]
      rfl
  · rcases hgone with hinactive | rfl
    · by_cases hwrote : h.puts t r = []
      · exact .inl (by rw [hwrote, hpushed]; exact hnil)
      · obtain ⟨w, hmem, hwt, -⟩ := exists_write hwrote
        have hended := (hw.writers w hmem).resolve_left (hwt ▸ hinactive)
        exact .inr ⟨hnil, ended_subset h op (hwt ▸ hended)⟩
    · exact .inr ⟨hnil, Finset.mem_insert_self _ _⟩

theorem marks_record (hw : Written h) {op : MvccOp} (hop : Allowed h op) (r : RecordId) :
    ∀ v ∈ (h.record op).manager.versions r, ∀ d, v.visibility.deleteTs = some d →
      d < (h.record op).manager.globalTimestamp ∧ ∃ w ∈ (h.record op).writes, w.recordId = r ∧
        (0 < (h.record op).commitTime w.transactionId →
          d < (h.record op).commitTime w.transactionId) := by
  have hclock := globalTimestamp_step h.manager op
  -- a mark that was there was set before now, so also before a commit that happens now
  have hold : ∀ v ∈ h.manager.versions r, ∀ d, v.visibility.deleteTs = some d →
      d < (h.record op).manager.globalTimestamp ∧ ∃ w ∈ (h.record op).writes, w.recordId = r ∧
        (0 < (h.record op).commitTime w.transactionId →
          d < (h.record op).commitTime w.transactionId) := by
    intro v hv d hd
    obtain ⟨hbefore, w, hmem, hwr, hcommit⟩ := hw.marks r v hv d hd
    refine ⟨hbefore.trans_le hclock, w, List.mem_append_left _ hmem, hwr, ?_⟩
    by_cases hop' : ∃ t ts, op = .commit t ts
    · obtain ⟨t, ts, rfl⟩ := hop'
      rw [commitTime_commit (hw.sound.not_committed hop)]
      split
      · exact fun _ => hbefore
      · exact hcommit
    · rw [commitTime_record fun t ts heq => hop' ⟨t, ts, heq⟩]
      exact hcommit
  intro v hv d hd
  rw [show (h.record op).manager = h.manager.step op from rfl, versions_step] at hv
  rcases mem_onVersions hv with ⟨hmem, -⟩ | ⟨data, t, version, hpush, rfl⟩ |
    ⟨t, version, w, rfl, hmem, rfl, hmark⟩ | ⟨t, ts, w, rfl, hmem, -, rfl⟩
  · exact hold v hmem d hd
  · cases hd
  · cases hd
    have heffect : TakesEffect h.manager r t version := hmark
    have hnot : ∀ t' ts, MvccOp.delete r t version ≠ .commit t' ts := nofun
    refine ⟨globalTimestamp_delete heffect, ⟨t, r, .remove version⟩, ?_, rfl, ?_⟩
    · refine List.mem_append_right _ (Option.mem_toList.mpr ?_)
      rw [writeOf, if_pos heffect]
    · rw [commitTime_record hnot, hw.sound.commitTime_of_active hop]
      exact fun hpos => absurd hpos (lt_irrefl 0)
  · exact hold w hmem d hd

end Written

theorem written_start : Written start where
  sound := sound_start
  writers := by rintro w ⟨⟩
  contents := fun _ _ => .inl rfl
  marks := by rintro r v ⟨⟩

theorem written_of_legal {ops : List MvccOp} (h : Legal start ops) : Written (start.play ops) :=
  Legal.induction (fun _ _ hw hop => ⟨sound_record hw.sound hop, hw.writers_record hop,
    hw.contents_record hop, hw.marks_record hop⟩) written_start h

/-! ## Reads after all writers have committed -/

/-- The chain shows the outcome of the replay. If the replay leaves nothing, every version is
marked; otherwise the last version of the last committed writer is there and unmarked, and
everything pushed behind it was committed earlier and is marked. -/
def ShowsReplay (h : History) (r : RecordId) : Prop :=
  match replay (h.redo r) with
  | none => ∀ v ∈ h.manager.versions r, v.visibility.deleteTs ≠ none
  | some _ => ∃ pre v post, h.manager.versions r = pre ++ v :: post ∧
      v.visibility.deleteTs = none ∧ v.visibility.commitTs = h.lastPutTime r ∧
      ∀ w ∈ post, w.visibility.deleteTs ≠ none ∧ w.visibility.commitTs < h.lastPutTime r

/-- What a replay leaves is the last version of the last committed writer. -/
theorem lastPut_of_replay {h : History} {r : RecordId} {x : List UInt8 × UInt32}
    (hreplay : replay (h.redo r) = some x) :
    ∃ c ∈ h.commits, c.2 = h.lastPutTime r ∧ (h.puts c.1 r).getLast? = some x := by
  have hlast := getLast?_of_replay hreplay
  rw [redo, List.filterMap_flatMap] at hlast
  obtain ⟨c, hc, hx⟩ := getLast?_flatMap hlast
  refine ⟨c, (List.mem_filter.mp (List.mem_of_getLast? hc)).1, ?_, hx⟩
  rw [lastPutTime]
  exact (congrArg (fun o => (o.map (·.2)).getD 0) hc).symm

theorem Sound.eq_of_commitTime {h : History} (hs : Sound h) {t : TransactionId}
    {c : TransactionId × ℕ} (hc : c ∈ h.commits) (ht : h.commitTime t = c.2) : t = c.1 := by
  have hmem : (t, h.commitTime t) ∈ h.commits := by
    refine (h.commitTime_cases t).resolve_left fun hzero => ?_
    have := hs.committed_pos c hc
    omega
  have hnodup : (h.commits.map (·.2)).Nodup :=
    List.pairwise_map.mpr (hs.commits_sorted.imp fun hcd => hcd.2.ne)
  exact congrArg Prod.fst (List.inj_on_of_nodup_map hnodup hmem hc ht)

/-- A transaction with a version in the chain of a record wrote to it. -/
theorem Written.exists_write_of_mem {h : History} (hw : Written h) {r : RecordId}
    {v : RecordVersion} (hv : v ∈ h.manager.versions r) :
    ∃ w ∈ h.writes, w.transactionId = v.visibility.creatorId ∧ w.recordId = r := by
  have hmem : (v.data, v.version) ∈
      History.contents v.visibility.creatorId (h.manager.versions r) :=
    List.mem_filterMap.mpr ⟨v, hv, if_pos rfl⟩
  refine exists_write fun hnil => ?_
  rcases hw.contents v.visibility.creatorId r with hputs | ⟨hempty, -⟩
  · rw [hputs, hnil] at hmem
    cases hmem
  · rw [hempty] at hmem
    cases hmem

/-- The version with the last commit time, if nothing of that time is pushed behind it, is the last
that the last committed writer put there. -/
theorem Written.data_of_lastPut {h : History} (hw : Written h) {r : RecordId}
    {x : List UInt8 × UInt32} (hreplay : replay (h.redo r) = some x)
    {pre post : List RecordVersion} {v : RecordVersion}
    (hsplit : h.manager.versions r = pre ++ v :: post)
    (hv : v.visibility.commitTs = h.lastPutTime r)
    (hpost : ∀ w ∈ post, w.visibility.commitTs < h.lastPutTime r) : v.data = x.1 := by
  obtain ⟨c, hc, htime, hlast⟩ := lastPut_of_replay hreplay
  have hstamp : ∀ w ∈ h.manager.versions r,
      w.visibility.commitTs = h.commitTime w.visibility.creatorId := hw.sound.stamped r
  have hvmem : v ∈ h.manager.versions r := by rw [hsplit]; simp
  have hcreator : v.visibility.creatorId = c.1 :=
    hw.sound.eq_of_commitTime hc (by rw [← hstamp v hvmem, hv, htime])
  have hbehind : History.contents c.1 post = [] := by
    refine contents_eq_nil fun w hmem hwc => ?_
    have hwmem : w ∈ h.manager.versions r := by rw [hsplit]; simp [hmem]
    have hlt := hpost w hmem
    rw [hstamp w hwmem, hwc, ← hcreator, ← hstamp v hvmem, hv] at hlt
    exact lt_irrefl _ hlt
  have hcontents : History.contents c.1 (h.manager.versions r) =
      History.contents c.1 pre ++ [(v.data, v.version)] := by
    rw [hsplit, contents_append, contents_cons, if_pos hcreator, hbehind]
    rfl
  have hputs : History.contents c.1 (h.manager.versions r) = h.puts c.1 r := by
    refine (hw.contents c.1 r).resolve_right fun hnil => ?_
    rw [hcontents] at hnil
    simp at hnil
  rw [← hputs, hcontents, List.getLast?_concat] at hlast
  rw [← Option.some.inj hlast]

/-- In every legal run, once every transaction that wrote a record has committed, a later snapshot
of another transaction reads what the replay of the writes leaves, if the chain shows it. -/
theorem readRecord_latest {ops : List MvccOp} (hlegal : Legal start ops) {s : Snapshot}
    {r : RecordId}
    (hwriters : ∀ w ∈ (start.play ops).writes, w.recordId = r →
      0 < (start.play ops).commitTime w.transactionId ∧
        (start.play ops).commitTime w.transactionId < s.timestamp ∧
        w.transactionId ≠ s.transactionId)
    (hshows : (start.play ops).ShowsReplay r) :
    (start.play ops).manager.readRecord r s =
      (replay ((start.play ops).redo r)).map Prod.fst := by
  set h := start.play ops
  have hw : Written h := written_of_legal hlegal
  have hunseen : ∀ v ∈ h.manager.versions r, v.visibility.deleteTs ≠ none → sees s v = false := by
    intro v hv hmark
    obtain ⟨d, hd⟩ := Option.ne_none_iff_exists'.mp hmark
    obtain ⟨-, w, hmem, hwr, hbefore⟩ := hw.marks r v hv d hd
    obtain ⟨hpos, hlt, -⟩ := hwriters w hmem hwr
    have hdeleted : v.visibility.deletedBy s.timestamp = true := by
      simpa [VisibilityInfo.deletedBy, hd] using ((hbefore hpos).trans hlt).le
    rw [Bool.eq_false_iff, ne_eq, sees_iff, hdeleted]
    exact fun h => by cases h.2.1
  rw [readRecord_eq]
  unfold ShowsReplay at hshows
  split at hshows
  · next hreplay =>
    have hnone : LastMatch.find (sees s) (h.manager.versions r) = none :=
      LastMatch.find_eq_none.mpr fun v hv => hunseen v hv (hshows v hv)
    rw [hnone, hreplay]
    rfl
  · next x hreplay =>
    obtain ⟨pre, v, post, hsplit, hunmarked, htime, hpost⟩ := hshows
    have hdata := hw.data_of_lastPut hreplay hsplit htime fun w hmem => (hpost w hmem).2
    have hvmem : v ∈ h.manager.versions r := by rw [hsplit]; simp
    obtain ⟨w, hwrite, hcreator, hwr⟩ := hw.exists_write_of_mem hvmem
    obtain ⟨-, hlt, hother⟩ := hwriters w hwrite hwr
    rw [hcreator] at hlt hother
    have hseen : sees s v = true := by
      rw [sees_iff, hw.sound.stamped r v hvmem]
      exact ⟨hlt.le, by rw [VisibilityInfo.deletedBy, hunmarked]; rfl, hother⟩
    have hfind : LastMatch.find (sees s) (h.manager.versions r) = some v := by
      rw [hsplit]
      refine LastMatch.find_of_split hseen fun w hmem => hunseen w ?_ (hpost w hmem).1
      rw [hsplit]
      simp [hmem]
    rw [hfind, hreplay, Option.map_some, Option.map_some, hdata]

/-- Transaction 1 inserts, transaction 2 updates and deletes the older version, both commit, and
transaction 3 reads the update. -/
theorem readRecord_latest_update :
    let h := start.play [.begin 1, .insert 7 [1] 1 1, .commit 1 1, .begin 2, .update 7 [2] 2 2,
      .delete 7 2 1, .commit 2 3, .begin 3]
    h.manager.readRecord 7 ⟨3, 6, {3}⟩ = (replay (h.redo 7)).map Prod.fst :=
  readRecord_latest (by decide) (by decide)
    ⟨[⟨[1], ⟨1, some 2, 2, some 4⟩, 1, 1⟩], ⟨[2], ⟨2, none, 5, none⟩, 2, 1⟩, [], by decide, rfl,
      by decide, by decide⟩

/-- Transaction 2 pushes its update before transaction 1 does, and commits after it. Transaction 3
reads the update of transaction 1, although the last commit was that of transaction 2. -/
theorem readRecord_not_latest :
    let ops := [.begin 1, .begin 2, .update 7 [2] 2 1, .update 7 [1] 1 2, .commit 1 1, .commit 2 2,
      .begin 3]
    let h := start.play ops
    Legal start ops ∧ (∀ w ∈ h.writes, w.recordId = 7 → 0 < h.commitTime w.transactionId ∧
      h.commitTime w.transactionId < 5 ∧ w.transactionId ≠ 3) ∧
      (∃ s ∈ h.snapshots, s.transactionId = 3 ∧ s.timestamp = 5 ∧
        h.manager.readRecord 7 s = some [1]) ∧ (replay (h.redo 7)).map Prod.fst = some [2] := by
  decide

end History

end Rustgresql
