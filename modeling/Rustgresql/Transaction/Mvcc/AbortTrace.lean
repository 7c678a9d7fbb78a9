import Rustgresql.Transaction.Mvcc.Chains
import Rustgresql.Transaction.Mvcc.History

/-!
# What an abort leaves behind

Two runs are compared: one with all calls, and its shadow, which leaves out what one transaction
writes. The clock of the shadow falls behind, because a delete moves the clock; `shadowTime` converts
the times of the run. As long as the transaction is active, records on which it has no versions have
the same chain in both runs, up to its delete marks and the conversion of times; of other records
the versions of the other transactions agree (`RecordShadow`).

An abort removes the versions of the transaction. It leaves its delete marks and does not repair the
index of the latest version, so it leaves no trace if there is no such mark and no chain that it
shares with others (`Untangled`).
-/

namespace Rustgresql

open MVCCManager

namespace History

/-! ## Times -/

/-- The time in the shadow: the number of earlier moments that were not dropped. -/
def shadowTime (dropped : Finset ℕ) (time : ℕ) : ℕ := Nat.count (· ∉ dropped) time

theorem shadowTime_succ_of_notMem {dropped : Finset ℕ} {time : ℕ} (h : time ∉ dropped) :
    shadowTime dropped (time + 1) = shadowTime dropped time + 1 :=
  Nat.count_succ_eq_succ_count h

theorem shadowTime_succ_insert (dropped : Finset ℕ) (time : ℕ) :
    shadowTime (insert time dropped) (time + 1) = shadowTime (insert time dropped) time :=
  Nat.count_succ_eq_count (by simp)

/-- Dropping a moment leaves the times up to it as they are. -/
theorem shadowTime_insert (dropped : Finset ℕ) {moment time : ℕ} (h : time ≤ moment) :
    shadowTime (insert moment dropped) time = shadowTime dropped time := by
  induction time with
  | zero => rfl
  | succ time ih =>
    have hne : time ≠ moment := by omega
    have hiff : time ∉ insert moment dropped ↔ time ∉ dropped := by simp [hne]
    rw [shadowTime, Nat.count_succ, if_congr hiff rfl rfl]
    rw [shadowTime] at ih
    rw [ih (by omega), shadowTime, shadowTime, Nat.count_succ]

/-- Conversion keeps the order with respect to a moment that was not dropped. -/
theorem shadowTime_le_iff {dropped : Finset ℕ} {moment : ℕ} (h : moment ∉ dropped) (time : ℕ) :
    shadowTime dropped time ≤ shadowTime dropped moment ↔ time ≤ moment := by
  refine ⟨fun hle => ?_, fun hle => Nat.count_monotone _ hle⟩
  by_contra hlt
  exact absurd (Nat.count_strict_mono h (not_le.mp hlt)) (not_lt.mpr hle)

/-! ## Versions and their shadows -/

/-- The version is not one of transaction `t`. -/
def isOther (t : TransactionId) (v : RecordVersion) : Bool := v.visibility.creatorId ≠ t

/-- A version and its shadow, delete marks aside. -/
structure SameBody (dropped : Finset ℕ) (now : ℕ) (v w : RecordVersion) : Prop where
  data : w.data = v.data
  version : w.version = v.version
  size : w.size = v.size
  creator : w.visibility.creatorId = v.visibility.creatorId
  commitTs_lt : v.visibility.commitTs < now
  commitTs : w.visibility.commitTs = shadowTime dropped v.visibility.commitTs

/-- The delete marks of a version and its shadow. -/
structure SameMark (dropped : Finset ℕ) (now : ℕ) (v w : RecordVersion) : Prop where
  deleterId : w.visibility.deleterId = v.visibility.deleterId
  deleteTs_lt : ∀ d ∈ v.visibility.deleteTs, d < now
  deleteTs : w.visibility.deleteTs = v.visibility.deleteTs.map (shadowTime dropped)

/-- A version and its shadow. The shadow lacks the delete mark of transaction `t`. -/
structure Twin (t : TransactionId) (dropped : Finset ℕ) (now : ℕ) (v w : RecordVersion) : Prop where
  body : SameBody dropped now v w
  mark : v.visibility.deleterId = some t ∨ SameMark dropped now v w

/-- The versions and the index of a record in the run and in the shadow. -/
structure RecordShadow (t : TransactionId) (dropped : Finset ℕ) (now : ℕ)
    (vs : List RecordVersion) (i : Option ℕ) (ws : List RecordVersion) (j : Option ℕ) : Prop where
  others : List.Forall₂ (SameBody dropped now) (vs.filter (isOther t)) ws
  unmixed : (∀ v ∈ vs, isOther t v = true) → List.Forall₂ (Twin t dropped now) vs ws ∧ i = j

section Versions

variable {t : TransactionId} {dropped dropped' : Finset ℕ} {now now' : ℕ} {v w : RecordVersion}
  {vs ws : List RecordVersion} {i j : Option ℕ}

/-- The conversion that `dropped'` gives at `now'` continues the one of `dropped` at `now`. -/
structure Continues (dropped : Finset ℕ) (now : ℕ) (dropped' : Finset ℕ) (now' : ℕ) : Prop where
  le : now ≤ now'
  same : ∀ time < now, shadowTime dropped' time = shadowTime dropped time

theorem SameBody.continue (h : SameBody dropped now v w) (hc : Continues dropped now dropped' now') :
    SameBody dropped' now' v w :=
  { h with
    commitTs_lt := h.commitTs_lt.trans_le hc.le
    commitTs := by rw [hc.same _ h.commitTs_lt, h.commitTs] }

theorem SameMark.continue (h : SameMark dropped now v w) (hc : Continues dropped now dropped' now') :
    SameMark dropped' now' v w where
  deleterId := h.deleterId
  deleteTs_lt d hd := (h.deleteTs_lt d hd).trans_le hc.le
  deleteTs := by
    rw [h.deleteTs]
    exact Option.map_congr fun d hd => (hc.same d (h.deleteTs_lt d hd)).symm

theorem Twin.continue (h : Twin t dropped now v w) (hc : Continues dropped now dropped' now') :
    Twin t dropped' now' v w :=
  ⟨h.body.continue hc, h.mark.imp_right fun h => h.continue hc⟩

theorem RecordShadow.continue (h : RecordShadow t dropped now vs i ws j)
    (hc : Continues dropped now dropped' now') : RecordShadow t dropped' now' vs i ws j where
  others := h.others.imp fun _ _ h => h.continue hc
  unmixed hall := ⟨(h.unmixed hall).1.imp fun _ _ h => h.continue hc, (h.unmixed hall).2⟩

theorem filter_isOther_of_all (h : ∀ v ∈ vs, isOther t v = true) : vs.filter (isOther t) = vs :=
  List.filter_eq_self.mpr h

theorem RecordShadow.nil : RecordShadow t dropped now [] none [] none :=
  ⟨.nil, fun _ => ⟨.nil, rfl⟩⟩

/-- The versions of the shadow are those of the other transactions. -/
theorem RecordShadow.shadow_other (h : RecordShadow t dropped now vs i ws j) :
    ∀ w ∈ ws, isOther t w = true := by
  have hcreators : (vs.filter (isOther t)).map (isOther t) = ws.map (isOther t) := by
    rw [← List.forall₂_eq_eq_eq, List.forall₂_map_left_iff, List.forall₂_map_right_iff]
    exact h.others.imp fun v w h => by rw [isOther, isOther, h.creator]
  intro w hw
  have hmem : isOther t w ∈ (vs.filter (isOther t)).map (isOther t) := by
    rw [hcreators]
    exact List.mem_map_of_mem hw
  obtain ⟨v, hv, hvw⟩ := List.mem_map.mp hmem
  rw [← hvw]
  exact (List.mem_filter.mp hv).2

/-! ### Pushing -/

/-- Another transaction pushes a version in both runs. -/
theorem RecordShadow.push (h : RecordShadow t dropped now vs i ws j) (hnow : 0 < now)
    {x : TransactionId} (hx : x ≠ t) (data : List UInt8) (version : UInt32) :
    RecordShadow t dropped now (vs ++ [.new data x 0 version]) (some vs.length)
      (ws ++ [.new data x 0 version]) (some ws.length) := by
  have hbody : SameBody dropped now (.new data x 0 version) (.new data x 0 version) :=
    ⟨rfl, rfl, rfl, rfl, hnow, rfl⟩
  have hmark : SameMark dropped now (.new data x 0 version) (.new data x 0 version) :=
    ⟨rfl, by rintro d ⟨⟩, rfl⟩
  have hnew : isOther t (.new data x 0 version) = true := decide_eq_true hx
  constructor
  · rw [List.filter_append, List.filter_cons_of_pos hnew]
    exact List.rel_append h.others (.cons hbody .nil)
  · intro hall
    have htwins := (h.unmixed fun v hv => hall v (List.mem_append_left _ hv)).1
    exact ⟨List.rel_append htwins (.cons ⟨hbody, .inr hmark⟩ .nil), by rw [htwins.length_eq]⟩

/-- Transaction `t` pushes a version in the run. -/
theorem RecordShadow.push_own (h : RecordShadow t dropped now vs i ws j) (data : List UInt8)
    (version : UInt32) (i' : Option ℕ) :
    RecordShadow t dropped now (vs ++ [.new data t 0 version]) i' ws j := by
  have hnew : isOther t (.new data t 0 version) = false := decide_eq_false (by simp [RecordVersion.new, VisibilityInfo.new])
  constructor
  · rw [List.filter_append, List.filter_cons_of_neg (by rw [hnew]; exact Bool.false_ne_true),
      List.filter_nil, List.append_nil]
    exact h.others
  · intro hall
    have hcontra := hall (.new data t 0 version) (by simp)
    rw [hnew] at hcontra
    cases hcontra

/-! ### Marking -/

theorem marked_cons (x : TransactionId) (time : ℕ) (version : UInt32) (v : RecordVersion)
    (vs : List RecordVersion) : marked x time version (v :: vs) =
      if v.version = version then
        if v.visibility.canModify x then v.mark x time :: vs else v :: vs
      else v :: marked x time version vs := by
  by_cases hversion : v.version = version
  · rw [if_pos hversion]
    by_cases hcan : v.visibility.canModify x = true
    · rw [if_pos hcan]
      exact marked_of_ok ((if_pos hversion).trans (if_pos hcan))
    · rw [if_neg hcan]
      exact marked_of_error ((if_pos hversion).trans (if_neg hcan))
  · rw [if_neg hversion, marked, VersionChain.markFirst, if_neg hversion, marked]
    cases VersionChain.markFirst x time version vs <;> rfl

/-- Marks change no more than the delete marks. -/
theorem map_unmark_marked (x : TransactionId) (time : ℕ) (version : UInt32)
    (vs : List RecordVersion) :
    (marked x time version vs).map RecordVersion.unmark = vs.map RecordVersion.unmark := by
  induction vs with
  | nil => rfl
  | cons v vs ih =>
    rw [marked_cons]
    split
    · split <;> rfl
    · rw [List.map_cons, ih, List.map_cons]

theorem filter_isOther_marked (x : TransactionId) (time : ℕ) (version : UInt32)
    (vs : List RecordVersion) :
    ((marked x time version vs).filter (isOther t)).map RecordVersion.unmark =
      (vs.filter (isOther t)).map RecordVersion.unmark := by
  have hfilter : ∀ l : List RecordVersion, (l.map RecordVersion.unmark).filter (isOther t) =
      (l.filter (isOther t)).map RecordVersion.unmark := fun l => by rw [List.filter_map]; rfl
  rw [← hfilter, map_unmark_marked, hfilter]

/-- Whether versions have the same bodies does not depend on their marks. -/
theorem sameBody_congr {vs vs' ws ws' : List RecordVersion}
    (hv : vs'.map RecordVersion.unmark = vs.map RecordVersion.unmark)
    (hw : ws'.map RecordVersion.unmark = ws.map RecordVersion.unmark)
    (h : List.Forall₂ (SameBody dropped now) vs ws) :
    List.Forall₂ (SameBody dropped now) vs' ws' := by
  have hunmark : ∀ l l' : List RecordVersion, List.Forall₂ (SameBody dropped now)
      (l.map RecordVersion.unmark) (l'.map RecordVersion.unmark) ↔
        List.Forall₂ (SameBody dropped now) l l' := by
    intro l l'
    rw [List.forall₂_map_left_iff, List.forall₂_map_right_iff]
    exact ⟨fun h => h.imp fun _ _ h => ⟨h.1, h.2, h.3, h.4, h.5, h.6⟩,
      fun h => h.imp fun _ _ h => ⟨h.1, h.2, h.3, h.4, h.5, h.6⟩⟩
  rw [← hunmark, hv, hw, hunmark]
  exact h

/-- Another transaction marks a version in both runs. -/
theorem twins_marked {x : TransactionId} (hx : x ≠ t) {time : ℕ} (htime : time < now)
    (version : UInt32) (h : List.Forall₂ (Twin t dropped now) vs ws) :
    List.Forall₂ (Twin t dropped now) (marked x time version vs)
      (marked x (shadowTime dropped time) version ws) := by
  induction h with
  | nil => exact .nil
  | @cons v w vs ws hvw hrest ih =>
    rw [marked_cons, marked_cons, hvw.body.version]
    by_cases hversion : v.version = version
    · rw [if_pos hversion, if_pos hversion]
      have hbody := hvw.body
      rcases hvw.mark with howner | hsame
      · -- the mark of `t` keeps the other transaction off in the run only
        have hcannot : v.visibility.canModify x = false := by
          rw [VisibilityInfo.canModify, howner]
          exact decide_eq_false (Ne.symm hx)
        rw [hcannot, if_neg Bool.false_ne_true]
        split
        · exact .cons ⟨⟨hbody.1, hbody.2, hbody.3, hbody.4, hbody.5, hbody.6⟩, .inl howner⟩ hrest
        · exact .cons hvw hrest
      · have hcan : w.visibility.canModify x = v.visibility.canModify x := by
          rw [VisibilityInfo.canModify, hsame.deleterId, VisibilityInfo.canModify]
        rw [hcan]
        split
        · refine .cons ⟨⟨hbody.1, hbody.2, hbody.3, hbody.4, hbody.5, hbody.6⟩, .inr ?_⟩ hrest
          refine ⟨rfl, ?_, rfl⟩
          rintro d ⟨⟩
          exact htime
        · exact .cons hvw hrest
    · rw [if_neg hversion, if_neg hversion]
      exact .cons hvw ih

/-- Transaction `t` marks a version in the run. -/
theorem twins_marked_own (time : ℕ) (version : UInt32)
    (h : List.Forall₂ (Twin t dropped now) vs ws) :
    List.Forall₂ (Twin t dropped now) (marked t time version vs) ws := by
  induction h with
  | nil => exact .nil
  | @cons v w vs ws hvw hrest ih =>
    have hbody := hvw.body
    rw [marked_cons]
    split
    · split
      · exact .cons ⟨⟨hbody.1, hbody.2, hbody.3, hbody.4, hbody.5, hbody.6⟩, .inl rfl⟩ hrest
      · exact .cons hvw hrest
    · exact .cons hvw ih

theorem all_isOther_marked (x : TransactionId) (time : ℕ) (version : UInt32)
    (h : ∀ v ∈ marked x time version vs, isOther t v = true) : ∀ v ∈ vs, isOther t v = true := by
  intro v hv
  have hmem : v.unmark ∈ (marked x time version vs).map RecordVersion.unmark := by
    rw [map_unmark_marked]
    exact List.mem_map_of_mem hv
  obtain ⟨w, hw, hwv⟩ := List.mem_map.mp hmem
  have hcreator : w.visibility.creatorId = v.visibility.creatorId :=
    congrArg (·.visibility.creatorId) hwv
  rw [isOther, ← hcreator]
  exact h w hw

theorem RecordShadow.mark (h : RecordShadow t dropped now vs i ws j) {x : TransactionId}
    (hx : x ≠ t) {time : ℕ} (htime : time < now) (version : UInt32) :
    RecordShadow t dropped now (marked x time version vs) i
      (marked x (shadowTime dropped time) version ws) j where
  others := sameBody_congr (filter_isOther_marked x time version vs)
    (map_unmark_marked x _ version ws) h.others
  unmixed hall := by
    obtain ⟨htwins, hij⟩ := h.unmixed (all_isOther_marked x time version hall)
    exact ⟨twins_marked hx htime version htwins, hij⟩

theorem RecordShadow.mark_own (h : RecordShadow t dropped now vs i ws j) (time : ℕ)
    (version : UInt32) : RecordShadow t dropped now (marked t time version vs) i ws j where
  others := sameBody_congr (filter_isOther_marked t time version vs) rfl h.others
  unmixed hall := by
    obtain ⟨htwins, hij⟩ := h.unmixed (all_isOther_marked t time version hall)
    exact ⟨twins_marked_own time version htwins, hij⟩

/-! ### Stamping and removing -/

/-- A transaction commits in both runs. -/
theorem RecordShadow.stamp (h : RecordShadow t dropped now vs i ws j) (x : TransactionId) {time : ℕ}
    (htime : time < now) :
    RecordShadow t dropped now (vs.map (·.stampCommit x time)) i
      (ws.map (·.stampCommit x (shadowTime dropped time))) j := by
  have hbody : ∀ v w, SameBody dropped now v w → SameBody dropped now (v.stampCommit x time)
      (w.stampCommit x (shadowTime dropped time)) := by
    intro v w hvw
    rw [RecordVersion.stampCommit, RecordVersion.stampCommit, hvw.creator]
    split
    · exact { hvw with commitTs_lt := htime, commitTs := rfl }
    · exact hvw
  have hmarks : ∀ (v : RecordVersion) (time : ℕ),
      (v.stampCommit x time).visibility.deleterId = v.visibility.deleterId ∧
        (v.stampCommit x time).visibility.deleteTs = v.visibility.deleteTs := by
    intro v time
    rw [RecordVersion.stampCommit]
    split <;> exact ⟨rfl, rfl⟩
  have hother : ∀ v : RecordVersion, isOther t (v.stampCommit x time) = isOther t v := by
    intro v
    rw [RecordVersion.stampCommit]
    split <;> rfl
  constructor
  · have hfilter : (vs.map (·.stampCommit x time)).filter (isOther t) =
        (vs.filter (isOther t)).map (·.stampCommit x time) := by
      rw [List.filter_map]
      exact congrArg _ (List.filter_congr fun v _ => hother v)
    rw [hfilter, List.forall₂_map_left_iff, List.forall₂_map_right_iff]
    exact h.others.imp hbody
  · intro hall
    obtain ⟨htwins, hij⟩ := h.unmixed fun v hv => by
      rw [← hother v]
      exact hall _ (List.mem_map_of_mem hv)
    refine ⟨?_, hij⟩
    rw [List.forall₂_map_left_iff, List.forall₂_map_right_iff]
    refine htwins.imp fun v w hvw => ⟨hbody v w hvw.body, ?_⟩
    obtain ⟨hid, hts⟩ := hmarks v time
    obtain ⟨hid', hts'⟩ := hmarks w (shadowTime dropped time)
    rw [hid]
    refine hvw.mark.imp_right fun hmark => ⟨?_, ?_, ?_⟩
    · rw [hid, hid', hmark.deleterId]
    · rw [hts]
      exact hmark.deleteTs_lt
    · rw [hts, hts', hmark.deleteTs]

/-- Two lists related element by element are shortened in the same places. -/
theorem forall₂_filter {R : RecordVersion → RecordVersion → Prop} {p q : RecordVersion → Bool}
    (h : List.Forall₂ R vs ws) (hpq : vs.map p = ws.map q) :
    List.Forall₂ R (vs.filter p) (ws.filter q) := by
  induction h with
  | nil => exact .nil
  | @cons v w vs ws hvw hrest ih =>
    rw [List.map_cons, List.map_cons, List.cons.injEq] at hpq
    rw [List.filter_cons, List.filter_cons, hpq.1]
    split
    · exact .cons hvw (ih hpq.2)
    · exact ih hpq.2

theorem latestOf_congr (hlen : vs.length = ws.length) (hij : i = j) :
    latestOf vs i = latestOf ws j := by
  cases vs <;> cases ws <;> first | rfl | exact hij | cases hlen

/-- Both runs remove versions, and agree on those of the other transactions; nothing of `t` goes. -/
theorem RecordShadow.filter (h : RecordShadow t dropped now vs i ws j)
    {p q : RecordVersion → Bool} (hown : ∀ v ∈ vs, isOther t v = false → p v = true)
    (hpq : (vs.filter (isOther t)).map p = ws.map q) :
    RecordShadow t dropped now (vs.filter p) (latestOf (vs.filter p) i) (ws.filter q)
      (latestOf (ws.filter q) j) where
  others := by
    rw [List.filter_comm]
    exact forall₂_filter h.others hpq
  unmixed hall := by
    have hother : ∀ v ∈ vs, isOther t v = true := by
      intro v hv
      by_contra hnot
      have hfalse := Bool.eq_false_iff.mpr hnot
      exact hnot (hall v (List.mem_filter.mpr ⟨hv, hown v hv hfalse⟩))
    obtain ⟨htwins, hij⟩ := h.unmixed hother
    rw [filter_isOther_of_all hother] at hpq
    have hrest := forall₂_filter htwins hpq
    exact ⟨hrest, latestOf_congr hrest.length_eq hij⟩

/-- Transaction `t` aborts in the run, and no record has versions of `t` and of others. -/
theorem RecordShadow.abort_own (h : RecordShadow t dropped now vs i ws j)
    (hunmixed : (∀ v ∈ vs, isOther t v = false) ∨ ∀ v ∈ vs, isOther t v = true) :
    RecordShadow t dropped now (vs.filter (isOther t)) (latestOf (vs.filter (isOther t)) i)
      (ws.filter (isOther t)) (latestOf (ws.filter (isOther t)) j) := by
  have hws : ws.filter (isOther t) = ws := List.filter_eq_self.mpr h.shadow_other
  rw [hws]
  rcases hunmixed with hown | hother
  · have hnil : vs.filter (isOther t) = [] :=
      List.filter_eq_nil_iff.mpr fun v hv => by rw [hown v hv]; exact Bool.false_ne_true
    have hothers := h.others
    rw [hnil] at hothers ⊢
    obtain rfl : ws = [] := List.length_eq_zero_iff.mp hothers.length_eq.symm
    exact .nil
  · obtain ⟨htwins, hij⟩ := h.unmixed hother
    rw [filter_isOther_of_all hother]
    exact ⟨h.others, fun _ => ⟨htwins, latestOf_congr htwins.length_eq hij⟩⟩

end Versions

/-! ## The run and its shadow -/

/-- The transaction whose write a call is. -/
def writer : MvccOp → Option TransactionId
  | .insert _ _ t _ | .update _ _ t _ | .delete _ t _ => some t
  | _ => none

/-- The calls that are not writes of transaction `t`. -/
def without (t : TransactionId) (ops : List MvccOp) : List MvccOp :=
  ops.filter fun op => writer op ≠ some t

/-- A snapshot and its shadow. -/
structure SameSnapshot (dropped : Finset ℕ) (now : ℕ) (s s' : Snapshot) : Prop where
  transactionId : s'.transactionId = s.transactionId
  timestamp_lt : s.timestamp < now
  timestamp_notMem : s.timestamp ∉ dropped
  timestamp : s'.timestamp = shadowTime dropped s.timestamp

/-- A history and its shadow, in which transaction `t` has written nothing. As long as `t` has
versions in the run, it is active. -/
structure Shadow (t : TransactionId) (dropped : Finset ℕ) (h h' : History) : Prop where
  live : EveryChain (fun c => c.isLive = true) h.manager
  live' : EveryChain (fun c => c.isLive = true) h'.manager
  clock_pos : 0 < h.manager.globalTimestamp
  clock : shadowTime dropped h.manager.globalTimestamp = h'.manager.globalTimestamp
  dropped_lt : ∀ d ∈ dropped, d < h.manager.globalTimestamp
  active : h'.manager.activeTransactions = h.manager.activeTransactions
  snapshots : List.Forall₂ (SameSnapshot dropped h.manager.globalTimestamp) h.snapshots h'.snapshots
  owner : ∀ r, ∀ v ∈ h.manager.versions r, v.visibility.creatorId = t →
    t ∈ h.manager.activeTransactions
  records : ∀ r, RecordShadow t dropped h.manager.globalTimestamp (h.manager.versions r)
    (h.manager.latest r) (h'.manager.versions r) (h'.manager.latest r)

/-- The call leaves the run and its shadow comparable: when `t` aborts, every record has only
versions of `t`, or only versions of others without a delete mark of `t`; and a vacuum tells the
versions of the others apart in the same way in both runs. -/
def Untangled (t : TransactionId) (m m' : MVCCManager) : MvccOp → Prop
  | .abort x => x = t → ∀ r ∈ m.versionChains.keys,
      (∀ v ∈ m.versions r, isOther t v = false) ∨
        ∀ v ∈ m.versions r, isOther t v = true ∧ v.visibility.deleterId ≠ some t
  | .vacuum b => ∀ r ∈ m.versionChains.keys,
      ((m.versions r).filter (isOther t)).map (vacuumKeeps b m.activeTransactions) =
        (m'.versions r).map (vacuumKeeps b m'.activeTransactions)
  | _ => True

/-- One call in the shadow. -/
def recordOther (t : TransactionId) (h : History) (op : MvccOp) : History :=
  if writer op ≠ some t then h.record op else h

/-- Every call of a sequence is untangled when it is made. -/
def UntangledRun (t : TransactionId) : History → History → List MvccOp → Prop
  | _, _, [] => True
  | h, h', op :: ops =>
    Untangled t h.manager h'.manager op ∧ UntangledRun t (h.record op) (recordOther t h' op) ops

theorem versions_of_notMem_keys {m : MVCCManager} {r : RecordId} (h : r ∉ m.versionChains.keys) :
    m.versions r = [] := by
  rw [versions, AList.lookup_eq_none.mpr h]
  rfl

section Steps

variable {t : TransactionId} {dropped dropped' : Finset ℕ} {now : ℕ} {h h' : History}

theorem SameSnapshot.continue {s s' : Snapshot} (hs : SameSnapshot dropped now s s') {now' : ℕ}
    (hc : Continues dropped now dropped' now') (hnew : ∀ d ∈ dropped', d ∈ dropped ∨ now ≤ d) :
    SameSnapshot dropped' now' s s' where
  transactionId := hs.transactionId
  timestamp_lt := hs.timestamp_lt.trans_le hc.le
  timestamp_notMem hmem := (hnew _ hmem).elim hs.timestamp_notMem hs.timestamp_lt.not_ge
  timestamp := by rw [hs.timestamp, hc.same _ hs.timestamp_lt]

/-- How the conversion of times goes on when the clocks of the run and of the shadow move by `a` and
`b`: a move of the run alone is dropped. -/
theorem Shadow.tick (hs : Shadow t dropped h h') {a b : Bool} (hab : b = true → a = true) :
    ∃ dropped', Continues dropped h.manager.globalTimestamp dropped'
        (h.manager.globalTimestamp + a.toNat) ∧
      (∀ d ∈ dropped', d ∈ dropped ∨ h.manager.globalTimestamp ≤ d) ∧
      (∀ d ∈ dropped', d < h.manager.globalTimestamp + a.toNat) ∧
      shadowTime dropped' h.manager.globalTimestamp = h'.manager.globalTimestamp ∧
      shadowTime dropped' (h.manager.globalTimestamp + a.toNat) =
        h'.manager.globalTimestamp + b.toNat ∧
      (b = true → h.manager.globalTimestamp ∉ dropped') := by
  set now := h.manager.globalTimestamp
  have hnow : now ∉ dropped := fun hmem => absurd (hs.dropped_lt now hmem) (lt_irrefl _)
  cases a with
  | false =>
    cases b with
    | true => cases hab rfl
    | false => exact ⟨dropped, ⟨Nat.le_refl _, fun _ _ => rfl⟩, fun d hd => .inl hd, hs.dropped_lt,
        hs.clock, hs.clock, nofun⟩
  | true =>
    cases b with
    | true =>
      refine ⟨dropped, ⟨Nat.le_succ _, fun _ _ => rfl⟩, fun d hd => .inl hd,
        fun d hd => (hs.dropped_lt d hd).trans (Nat.lt_succ_self _), hs.clock, ?_, fun _ => hnow⟩
      rw [Bool.toNat_true, shadowTime_succ_of_notMem hnow, hs.clock]
    | false =>
      have hsame : ∀ time ≤ now, shadowTime (insert now dropped) time = shadowTime dropped time :=
        fun time => shadowTime_insert dropped
      refine ⟨insert now dropped, ⟨Nat.le_succ _, fun time ht => hsame time ht.le⟩, ?_, ?_, ?_, ?_,
        nofun⟩
      · intro d hd
        exact (Finset.mem_insert.mp hd).symm.imp_right fun heq => heq.ge
      · intro d hd
        rcases Finset.mem_insert.mp hd with rfl | hd
        · exact Nat.lt_succ_self _
        · exact (hs.dropped_lt d hd).trans (Nat.lt_succ_self _)
      · rw [hsame now (Nat.le_refl _), hs.clock]
      · rw [Bool.toNat_true, shadowTime_succ_insert, hsame now (Nat.le_refl _), hs.clock]
        rfl

/-- The records after a call that both runs make. -/
theorem Shadow.records_step (hs : Shadow t dropped h h') {op : MvccOp} (hop : writer op ≠ some t)
    (hcond : Untangled t h.manager h'.manager op)
    (hc : Continues dropped h.manager.globalTimestamp dropped'
      (h.manager.globalTimestamp + (h.manager.ticks op).toNat))
    (hclock : shadowTime dropped' h.manager.globalTimestamp = h'.manager.globalTimestamp)
    (r : RecordId) :
    RecordShadow t dropped' (h.manager.globalTimestamp + (h.manager.ticks op).toNat)
      ((h.manager.step op).versions r) ((h.manager.step op).latest r)
      ((h'.manager.step op).versions r) ((h'.manager.step op).latest r) := by
  have hr := (hs.records r).continue hc
  have hpos : 0 < h.manager.globalTimestamp + (h.manager.ticks op).toNat :=
    hs.clock_pos.trans_le (Nat.le_add_right _ _)
  rw [versions_step, versions_step, latest_step, latest_step]
  cases op with
  | begin x => exact hr
  | insert r' data x version =>
    simp only [onVersions, onLatest]
    split
    · exact hr.push hpos (fun heq => hop (congrArg some heq)) data version
    · exact hr
  | update r' data x version =>
    simp only [onVersions, onLatest]
    split
    · exact hr.push hpos (fun heq => hop (congrArg some heq)) data version
    · exact hr
  | delete r' x version =>
    have hx : x ≠ t := fun heq => hop (congrArg some heq)
    simp only [onVersions, onLatest]
    split
    · next heq =>
      subst heq
      by_cases hempty : h.manager.versions r' = []
      · have hempty' : h'.manager.versions r' = [] := by
          have hlen := hr.others.length_eq
          rw [hempty] at hlen
          exact List.length_eq_zero_iff.mp hlen.symm
        rw [hempty, hempty'] at hr ⊢
        exact hr
      · have htick : h.manager.ticks (.delete r' x version) = true := by simp [ticks, hempty]
        rw [htick] at hr ⊢
        rw [← hclock]
        exact hr.mark hx (Nat.lt_succ_self _) version
    · exact hr
  | commit x ts =>
    rw [onVersions, onVersions, ← hclock]
    exact hr.stamp x (Nat.lt_succ_self _)
  | abort x =>
    by_cases hx : x = t
    · subst hx
      refine hr.abort_own ?_
      by_cases hmem : r ∈ h.manager.versionChains.keys
      · exact (hcond rfl r hmem).imp_right fun hall v hv => (hall v hv).1
      · rw [versions_of_notMem_keys hmem]
        exact .inl (List.forall_mem_nil _)
    · refine hr.filter (fun v _ hv => ?_) ?_
      · have hvt : v.visibility.creatorId = t := by simpa [isOther] using hv
        exact decide_eq_true (by rw [hvt]; exact Ne.symm hx)
      · rw [← List.forall₂_eq_eq_eq, List.forall₂_map_left_iff, List.forall₂_map_right_iff]
        exact hr.others.imp fun v w hvw => by rw [hvw.creator]
  | vacuum b =>
    refine hr.filter (fun v hv hvt => ?_) ?_
    · have hactive := hs.owner r v hv (by simpa [isOther] using hvt)
      have hcreator : v.visibility.creatorId = t := by simpa [isOther] using hvt
      rw [vacuumKeeps, hcreator, Bool.or_eq_true]
      exact .inr (decide_eq_true hactive)
    · by_cases hmem : r ∈ h.manager.versionChains.keys
      · exact hcond r hmem
      · have hlen := hr.others.length_eq
        rw [versions_of_notMem_keys hmem] at hlen ⊢
        rw [List.length_eq_zero_iff.mp hlen.symm]
        rfl

/-- A call that is not a commit of `t` keeps `t` active as long as it has versions. -/
theorem Shadow.owner_step (hs : Shadow t dropped h h') {op : MvccOp}
    (hop : writer op = some t → t ∈ h.manager.activeTransactions)
    (hcommit : ∀ ts, op ≠ .commit t ts) (r : RecordId) :
    ∀ v ∈ (h.manager.step op).versions r, v.visibility.creatorId = t →
      t ∈ (h.manager.step op).activeTransactions := by
  intro v hv hvt
  rw [versions_step] at hv
  have hactive : t ∈ h.manager.activeTransactions := by
    rcases mem_onVersions hv with ⟨hold, -⟩ | ⟨data, x, version, hpush, rfl⟩ |
      ⟨x, version, w, rfl, hw, rfl, -⟩ | ⟨x, ts, w, rfl, hw, hwx, rfl⟩
    · exact hs.owner r v hold hvt
    · obtain rfl : x = t := hvt
      rcases hpush with rfl | rfl <;> exact hop rfl
    · exact hs.owner r w hw hvt
    · exact hs.owner r w hw hvt
  cases op with
  | begin x => exact Finset.mem_insert_of_mem hactive
  | commit x ts => exact Finset.mem_erase.mpr ⟨fun heq => hcommit ts (heq ▸ rfl), hactive⟩
  | abort x =>
    refine Finset.mem_erase.mpr ⟨fun heq => ?_, hactive⟩
    have hne := (List.mem_filter.mp hv).2
    simp [hvt, heq] at hne
  | delete r' x version =>
    rw [activeTransactions_delete]
    exact hactive
  | insert r' data x version | update r' data x version | vacuum b => exact hactive

/-- The clock of the shadow only moves with that of the run. -/
theorem Shadow.ticks_le (hs : Shadow t dropped h h') (op : MvccOp)
    (htick : h'.manager.ticks op = true) : h.manager.ticks op = true := by
  cases op with
  | delete r x version =>
    have hlen := (hs.records r).others.length_eq
    simp only [ticks, Bool.not_eq_true', List.isEmpty_eq_false_iff] at htick ⊢
    rintro hempty
    rw [hempty] at hlen
    exact htick (List.length_eq_zero_iff.mp hlen.symm)
  | begin x | commit x ts => rfl
  | insert r data x version | update r data x version | abort x | vacuum b => cases htick

theorem Shadow.active_step (hs : Shadow t dropped h h') (op : MvccOp) :
    (h'.manager.step op).activeTransactions = (h.manager.step op).activeTransactions := by
  cases op with
  | delete r x version => rw [activeTransactions_delete, activeTransactions_delete, hs.active]
  | begin x => exact congrArg (insert x) hs.active
  | commit x ts | abort x => exact congrArg (Finset.erase · x) hs.active
  | insert r data x version | update r data x version | vacuum b => exact hs.active

/-- Both runs make a call. -/
theorem Shadow.record (hs : Shadow t dropped h h') {op : MvccOp} (hop : writer op ≠ some t)
    (hcommit : ∀ ts, op ≠ .commit t ts) (hcond : Untangled t h.manager h'.manager op) :
    ∃ dropped', Shadow t dropped' (h.record op) (h'.record op) := by
  obtain ⟨dropped', hc, hnew, hlt, hclock, hclock', hkept⟩ := hs.tick (hs.ticks_le op)
  have hnow := globalTimestamp_eq hs.live op
  have hsnap := hs.snapshots.imp fun _ _ h => h.continue hc hnew
  refine ⟨dropped', chainInvariant_isLive.step hs.live op, chainInvariant_isLive.step hs.live' op,
    hs.clock_pos.trans_le (globalTimestamp_step _ op), ?_, ?_, hs.active_step op, ?_,
    hs.owner_step (fun h => absurd h hop) hcommit, ?_⟩
  · exact (congrArg _ hnow).trans (hclock'.trans (globalTimestamp_eq hs.live' op).symm)
  · exact fun d hd => (hlt d hd).trans_eq hnow.symm
  · show List.Forall₂ (SameSnapshot dropped' (h.manager.step op).globalTimestamp) _ _
    rw [hnow]
    cases op with
    | begin x =>
      refine List.rel_append hsnap (.cons ⟨rfl, Nat.lt_succ_self _, hkept rfl, hclock.symm⟩ .nil)
    | _ => exact hsnap
  · intro r
    show RecordShadow t dropped' (h.manager.step op).globalTimestamp _ _ _ _
    rw [hnow]
    exact hs.records_step hop hcond hc hclock r

/-- Transaction `t` writes in the run. -/
theorem Shadow.write (hs : Shadow t dropped h h') {op : MvccOp} (hop : writer op = some t)
    (hactive : t ∈ h.manager.activeTransactions) :
    ∃ dropped', Shadow t dropped' (h.record op) h' := by
  obtain ⟨dropped', hc, hnew, hlt, hclock, hclock', -⟩ :=
    hs.tick (a := h.manager.ticks op) (b := false) nofun
  have hnow := globalTimestamp_eq hs.live op
  have hsnap : List.Forall₂ (SameSnapshot dropped' (h.manager.step op).globalTimestamp)
      h.snapshots h'.snapshots := by
    rw [hnow]
    exact hs.snapshots.imp fun _ _ h => h.continue hc hnew
  have hrecords : ∀ r, RecordShadow t dropped' (h.manager.step op).globalTimestamp
      ((h.manager.step op).versions r) ((h.manager.step op).latest r) (h'.manager.versions r)
      (h'.manager.latest r) := by
    intro r
    have hr := (hs.records r).continue hc
    rw [hnow, versions_step, latest_step]
    cases op with
    | insert r' data x version | update r' data x version =>
      obtain rfl : x = t := Option.some.inj hop
      simp only [onVersions, onLatest]
      split
      · exact hr.push_own data version _
      · exact hr
    | delete r' x version =>
      obtain rfl : x = t := Option.some.inj hop
      simp only [onVersions, onLatest]
      split
      · exact hr.mark_own _ version
      · exact hr
    | begin x | commit x ts | abort x | vacuum b => cases hop
  have hcommit : ∀ ts, op ≠ .commit t ts := by
    rintro ts rfl
    cases hop
  have howner := hs.owner_step (fun _ => hactive) hcommit
  refine ⟨dropped', chainInvariant_isLive.step hs.live op, hs.live',
    hs.clock_pos.trans_le (globalTimestamp_step _ op), (congrArg _ hnow).trans hclock',
    fun d hd => (hlt d hd).trans_eq hnow.symm, ?_, ?_, howner, hrecords⟩
  · cases op with
    | delete r x version => exact hs.active.trans (activeTransactions_delete _ _ _ _).symm
    | insert r data x version | update r data x version => exact hs.active
    | begin x | commit x ts | abort x | vacuum b => cases hop
  · cases op with
    | begin x => cases hop
    | _ => exact hsnap

/-! ## After the abort -/

/-- No version carries a trace of transaction `t`. -/
def Traceless (t : TransactionId) (m : MVCCManager) : Prop :=
  ∀ r, ∀ v ∈ m.versions r, isOther t v = true ∧ v.visibility.deleterId ≠ some t

theorem traceless_abort {m m' : MVCCManager} (hcond : Untangled t m m' (.abort t)) :
    Traceless t (m.step (.abort t)) := by
  intro r v hv
  rw [versions_step] at hv
  obtain ⟨hmem, hother⟩ := List.mem_filter.mp hv
  by_cases hkey : r ∈ m.versionChains.keys
  · rcases hcond rfl r hkey with hown | hclean
    · exact absurd hother (by rw [← isOther, hown v hmem]; exact Bool.false_ne_true)
    · exact hclean v hmem
  · rw [versions_of_notMem_keys hkey] at hmem
    cases hmem

theorem traceless_step {m : MVCCManager} (htr : Traceless t m) {op : MvccOp}
    (hop : writer op ≠ some t) : Traceless t (m.step op) := by
  intro r v hv
  rw [versions_step] at hv
  rcases mem_onVersions hv with ⟨hold, -⟩ | ⟨data, x, version, hpush, rfl⟩ |
    ⟨x, version, w, rfl, hw, rfl, -⟩ | ⟨x, ts, w, rfl, hw, -, rfl⟩
  · exact htr r v hold
  · refine ⟨decide_eq_true fun heq => hop ?_, nofun⟩
    obtain rfl : x = t := heq
    rcases hpush with rfl | rfl <;> rfl
  · exact ⟨(htr r w hw).1, fun heq => hop heq⟩
  · exact htr r w hw

/-- Without traces, the records of the run and of the shadow agree in everything but their times. -/
theorem Shadow.twins (hs : Shadow t dropped h h') (htr : Traceless t h.manager) (r : RecordId) :
    List.Forall₂ (fun v w => SameBody dropped h.manager.globalTimestamp v w ∧
        SameMark dropped h.manager.globalTimestamp v w)
      (h.manager.versions r) (h'.manager.versions r) ∧
    h.manager.latest r = h'.manager.latest r := by
  obtain ⟨htwins, hlatest⟩ := (hs.records r).unmixed fun v hv => (htr r v hv).1
  refine ⟨?_, hlatest⟩
  have hboth := (List.forall₂_and_left _ _).mpr ⟨fun v hv => (htr r v hv).2, htwins⟩
  exact hboth.imp fun v w hvw => ⟨hvw.2.body, hvw.2.mark.resolve_left hvw.1⟩

theorem isVisible_twin {v w : RecordVersion} {s s' : Snapshot} (hbody : SameBody dropped now v w)
    (hmark : SameMark dropped now v w) (hs : SameSnapshot dropped now s s') :
    w.visibility.isVisible s'.transactionId s'.timestamp =
      v.visibility.isVisible s.transactionId s.timestamp := by
  have hle := shadowTime_le_iff hs.timestamp_notMem
  have hdeleted : w.visibility.deletedBy s'.timestamp = v.visibility.deletedBy s.timestamp := by
    rw [VisibilityInfo.deletedBy, VisibilityInfo.deletedBy, hmark.deleteTs, hs.timestamp]
    cases v.visibility.deleteTs with
    | none => rfl
    | some d => exact decide_eq_decide.mpr (hle d)
  rw [Bool.eq_iff_iff, VisibilityInfo.isVisible_iff, VisibilityInfo.isVisible_iff, hdeleted,
    hs.transactionId, hs.timestamp, hbody.creator, hbody.commitTs, hle]

/-- Searches of related lists find the same data. -/
theorem find_data {R : RecordVersion → RecordVersion → Prop} {p q : RecordVersion → Bool}
    {vs ws : List RecordVersion} (hR : List.Forall₂ R vs ws)
    (hpq : ∀ v w, R v w → q w = p v ∧ w.data = v.data) :
    (LastMatch.find q ws).map (·.data) = (LastMatch.find p vs).map (·.data) := by
  induction hR with
  | nil => rfl
  | @cons v w vs ws hvw hrest ih =>
    obtain ⟨htest, hdata⟩ := hpq v w hvw
    rw [LastMatch.find_cons, LastMatch.find_cons, Option.map_or, Option.map_or, ih, htest]
    congr 1
    split
    · exact congrArg some hdata
    · rfl

theorem deleteVersion_fst {m : MVCCManager} (hlive : EveryChain (fun c => c.isLive = true) m)
    (r : RecordId) (x : TransactionId) (version : UInt32) :
    (m.deleteVersion r x version).1 = if m.versions r = [] then .ok () else
      (VersionChain.markFirst x m.globalTimestamp version (m.versions r)).map fun _ => () := by
  have hnone := lookup_eq_none_iff hlive r
  rw [deleteVersion]
  cases hlookup : m.versionChains.lookup r with
  | none => rw [if_pos (hnone.mp hlookup)]
  | some c =>
    have hversions : m.versions r = c.versions := by
      rw [versions, hlookup]
      rfl
    have hsome : m.versions r ≠ [] := fun hempty => by
      rw [hnone.mpr hempty] at hlookup
      cases hlookup
    rw [if_neg hsome, hversions]
    simp only [VersionChain.deleteVersion]
    cases VersionChain.markFirst x m.globalTimestamp version c.versions <;> rfl

/-- A delete call has the same outcome on related lists. -/
theorem markFirst_twins {vs ws : List RecordVersion}
    (htwins : List.Forall₂ (fun v w => SameBody dropped now v w ∧ SameMark dropped now v w) vs ws)
    (x : TransactionId) (time time' : ℕ) (version : UInt32) :
    (VersionChain.markFirst x time' version ws).map (fun _ => ()) =
      (VersionChain.markFirst x time version vs).map fun _ => () := by
  induction htwins with
  | nil => rfl
  | @cons v w vs ws hvw hrest ih =>
    have hcan : w.visibility.canModify x = v.visibility.canModify x := by
      rw [VisibilityInfo.canModify, VisibilityInfo.canModify, hvw.2.deleterId]
    rw [VersionChain.markFirst, VersionChain.markFirst, hvw.1.version, hcan]
    split
    · split <;> rfl
    · cases hvs : VersionChain.markFirst x time version vs <;>
        cases hws : VersionChain.markFirst x time' version ws <;> rw [hvs, hws] at ih <;>
        cases ih <;> rfl

/-- What the other transactions observe is the same in both histories. -/
def SameObservations (h h' : History) : Prop :=
  List.Forall₂ (fun s s' => s'.transactionId = s.transactionId ∧
      ∀ r, h'.manager.readRecord r s' = h.manager.readRecord r s ∧
        h'.manager.recordExists r s' = h.manager.recordExists r s) h.snapshots h'.snapshots ∧
  ∀ r, h'.manager.getLatestVersion r = h.manager.getLatestVersion r ∧
    ∀ x version, (h'.manager.deleteVersion r x version).1 = (h.manager.deleteVersion r x version).1

theorem Shadow.observations (hs : Shadow t dropped h h') (htr : Traceless t h.manager) :
    SameObservations h h' := by
  have htwins := hs.twins htr
  constructor
  · refine hs.snapshots.imp fun s s' hss => ⟨hss.transactionId, fun r => ?_⟩
    have hread : h'.manager.readRecord r s' = h.manager.readRecord r s := by
      rw [readRecord, readRecord, visibleVersion_eq, visibleVersion_eq]
      exact find_data (htwins r).1 fun v w hvw => ⟨isVisible_twin hvw.1 hvw.2 hss, hvw.1.data⟩
    refine ⟨hread, ?_⟩
    have hsome := congrArg Option.isSome hread
    rw [readRecord, readRecord, Option.isSome_map, Option.isSome_map] at hsome
    rw [recordExists_eq, recordExists_eq, hsome]
  · intro r
    obtain ⟨hlist, hlatest⟩ := htwins r
    have hdata : (h'.manager.versions r).map (·.data) = (h.manager.versions r).map (·.data) := by
      rw [← List.forall₂_eq_eq_eq, List.forall₂_map_left_iff, List.forall₂_map_right_iff]
      exact hlist.flip.imp fun v w hvw => hvw.1.data
    refine ⟨?_, fun x version => ?_⟩
    · rw [getLatestVersion_eq, getLatestVersion_eq, hlatest]
      cases h'.manager.latest r with
      | none => rfl
      | some i =>
        rw [Option.bind_some, Option.bind_some, ← List.getElem?_map, ← List.getElem?_map, hdata]
    · have hnil : h'.manager.versions r = [] ↔ h.manager.versions r = [] := by
        rw [← List.length_eq_zero_iff, ← hlist.length_eq, List.length_eq_zero_iff]
      rw [deleteVersion_fst hs.live', deleteVersion_fst hs.live, if_congr hnil rfl rfl,
        markFirst_twins hlist]

end Steps

/-! ## Runs -/

section Runs

variable {t : TransactionId}

theorem play_without (t : TransactionId) (ops : List MvccOp) (h : History) :
    h.play (without t ops) = ops.foldl (recordOther t) h := by
  rw [play, without, List.foldl_filter]
  congr 1
  funext h op
  simp [recordOther]

/-- A transaction that has ended makes no more calls. -/
theorem not_ended_of_legal {pre post : List MvccOp} {h : History} (hsound : Sound h)
    (hlegal : Legal h (pre ++ .abort t :: post)) : t ∉ h.ended := by
  induction pre generalizing h with
  | nil => exact hsound.active_not_ended t hlegal.1
  | cons op pre ih =>
    intro hended
    refine ih (sound_record hsound hlegal.1) hlegal.2 ?_
    cases op with
    | commit x ts | abort x => exact Finset.mem_insert_of_mem hended
    | begin x | insert r data x version | update r data x version | delete r x version | vacuum b =>
      exact hended

/-- Up to the abort, the run stays comparable with its shadow. -/
theorem shadow_until_abort {pre post : List MvccOp} {dropped : Finset ℕ} {h h' : History}
    (hs : Shadow t dropped h h') (hsound : Sound h) (hlegal : Legal h (pre ++ .abort t :: post))
    (hrun : UntangledRun t h h' (pre ++ .abort t :: post)) :
    ∃ dropped', Shadow t dropped' (h.play pre) (pre.foldl (recordOther t) h') ∧
      Sound (h.play pre) ∧ Legal (h.play pre) (.abort t :: post) ∧
      UntangledRun t (h.play pre) (pre.foldl (recordOther t) h') (.abort t :: post) := by
  induction pre generalizing dropped h h' with
  | nil => exact ⟨dropped, hs, hsound, hlegal, hrun⟩
  | cons op pre ih =>
    have hnext := sound_record hsound hlegal.1
    obtain ⟨dropped', hs'⟩ : ∃ dropped', Shadow t dropped' (h.record op) (recordOther t h' op) := by
      by_cases hop : writer op = some t
      · rw [recordOther, if_neg (not_not.mpr hop)]
        refine hs.write hop ?_
        have hallowed := hlegal.1
        cases op with
        | insert r data x version | update r data x version | delete r x version =>
          obtain rfl : x = t := Option.some.inj hop
          exact hallowed
        | begin x | commit x ts | abort x | vacuum b => cases hop
      · rw [recordOther, if_pos hop]
        refine hs.record hop ?_ hrun.1
        rintro ts rfl
        exact not_ended_of_legal hnext hlegal.2 (Finset.mem_insert_self t _)
    exact ih hs' hnext hlegal.2 hrun.2

/-- After the abort, the run stays comparable with its shadow and free of traces. -/
theorem shadow_after_abort {post : List MvccOp} {dropped : Finset ℕ} {h h' : History}
    (hs : Shadow t dropped h h') (htr : Traceless t h.manager) (hended : t ∈ h.ended)
    (hsound : Sound h) (hlegal : Legal h post) (hrun : UntangledRun t h h' post) :
    ∃ dropped', Shadow t dropped' (h.play post) (post.foldl (recordOther t) h') ∧
      Traceless t (h.play post).manager := by
  induction post generalizing dropped h h' with
  | nil => exact ⟨dropped, hs, htr⟩
  | cons op post ih =>
    have hnot : t ∉ h.manager.activeTransactions := fun hmem => hsound.active_not_ended t hmem hended
    have hallowed := hlegal.1
    have hop : writer op ≠ some t := by
      intro hop
      cases op with
      | insert r data x version | update r data x version | delete r x version =>
        obtain rfl : x = t := Option.some.inj hop
        exact hnot hallowed
      | begin x | commit x ts | abort x | vacuum b => cases hop
    have hcommit : ∀ ts, op ≠ .commit t ts := by
      rintro ts rfl
      exact hnot hallowed
    have hended' : t ∈ (h.record op).ended := by
      cases op with
      | commit x ts | abort x => exact Finset.mem_insert_of_mem hended
      | begin x | insert r data x version | update r data x version | delete r x version
        | vacuum b => exact hended
    obtain ⟨dropped', hs'⟩ := hs.record hop hcommit hrun.1
    have hrun' := hrun.2
    rw [recordOther, if_pos hop] at hrun'
    obtain ⟨dropped'', hfinal, htraceless⟩ := ih hs' (traceless_step htr hop) hended'
      (sound_record hsound hlegal.1) hlegal.2 hrun'
    refine ⟨dropped'', ?_, htraceless⟩
    rw [List.foldl_cons, recordOther, if_pos hop]
    exact hfinal

theorem shadow_start : Shadow t ∅ start start where
  live := everyChain_new _
  live' := everyChain_new _
  clock_pos := Nat.one_pos
  clock := rfl
  dropped_lt := nofun
  active := rfl
  snapshots := .nil
  owner := by rintro r v ⟨⟩
  records _ := .nil

/-- In every legal run in which transaction `t` aborts, if every call is untangled, then whatever
others observe after the abort is what they observe in the run without the writes of `t`. -/
theorem abort_traceless {pre post : List MvccOp}
    (hlegal : Legal start (pre ++ .abort t :: post))
    (hrun : UntangledRun t start start (pre ++ .abort t :: post)) :
    SameObservations (start.play (pre ++ .abort t :: post))
      (start.play (without t (pre ++ .abort t :: post))) := by
  obtain ⟨dropped, hs, hsound, hlegal, hrun⟩ :=
    shadow_until_abort shadow_start sound_start hlegal hrun
  set h := start.play pre
  have hnot : writer (.abort t) ≠ some t := nofun
  obtain ⟨dropped', hs'⟩ := hs.record hnot nofun hrun.1
  have hrun' := hrun.2
  rw [recordOther, if_pos hnot] at hrun'
  obtain ⟨dropped'', hfinal, htr⟩ := shadow_after_abort hs' (traceless_abort hrun.1)
    (Finset.mem_insert_self t _) (sound_record hsound hlegal.1) hlegal.2 hrun'
  have hplay : start.play (pre ++ .abort t :: post) = (h.record (.abort t)).play post :=
    List.foldl_append
  have hplay' : start.play (without t (pre ++ .abort t :: post)) =
      post.foldl (recordOther t) ((pre.foldl (recordOther t) start).record (.abort t)) := by
    rw [play_without, List.foldl_append, List.foldl_cons, recordOther, if_pos hnot]
  rw [hplay, hplay']
  exact hfinal.observations htr

end Runs

/-- Transaction 2 writes only a record of its own, deletes it again and aborts. -/
theorem abort_traceless_own :
    let ops := [.begin 1, .insert 7 [1] 1 1, .commit 1 1, .begin 2, .insert 8 [9] 2 1,
      .delete 8 2 1] ++ .abort 2 :: [.begin 3]
    SameObservations (start.play ops) (start.play (without 2 ops)) :=
  let m := (start.play [.begin 1, .insert 7 [1] 1 1, .commit 1 1, .begin 2, .insert 8 [9] 2 1,
    .delete 8 2 1]).manager
  have hown : ∀ v ∈ m.versions 8, isOther 2 v = false := by decide
  have hother : ∀ v ∈ m.versions 7, isOther 2 v = true ∧ v.visibility.deleterId ≠ some 2 := by
    decide
  have hunmixed : ∀ r ∈ ([8, 7] : List RecordId), (∀ v ∈ m.versions r, isOther 2 v = false) ∨
      ∀ v ∈ m.versions r, isOther 2 v = true ∧ v.visibility.deleterId ≠ some 2 :=
    List.forall_mem_cons.mpr ⟨.inl hown, List.forall_mem_singleton.mpr (.inr hother)⟩
  abort_traceless (by decide)
    ⟨trivial, trivial, trivial, trivial, trivial, trivial, fun _ => hunmixed, trivial, trivial⟩

/-- Transaction 2 updates and deletes what transaction 1 committed, and aborts. Afterwards the
latest version is gone and its delete mark still hides the record from transaction 3. -/
theorem abort_leaves_trace :
    let ops := [.begin 1, .insert 7 [1] 1 1, .commit 1 1, .begin 2, .update 7 [2] 2 2,
      .delete 7 2 1, .abort 2, .begin 3]
    let h := start.play ops
    let h' := start.play (without 2 ops)
    Legal start ops ∧
      h.manager.getLatestVersion 7 = none ∧ h'.manager.getLatestVersion 7 = some [1] ∧
      (∃ s ∈ h.snapshots, s.transactionId = 3 ∧ h.manager.readRecord 7 s = none) ∧
      (∃ s ∈ h'.snapshots, s.transactionId = 3 ∧ h'.manager.readRecord 7 s = some [1]) ∧
      (h.manager.deleteVersion 7 3 1).1 =
        .error (.err (.transaction "Cannot delete version modified by another transaction")) ∧
      (h'.manager.deleteVersion 7 3 1).1 = .ok () := by
  decide

end History

end Rustgresql
