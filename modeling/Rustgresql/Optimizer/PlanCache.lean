import Rustgresql.Basic
import Rustgresql.Lib.Best
import Rustgresql.Lib.HashMap
import Rustgresql.Lib.StateSpec

/-!
# Query plan caching (`optimizer/plan_cache.rs`)

Plans are cached under the texts of their queries. Before a plan is looked up or stored, plans that are too old or have
not been used for too long are cleaned up from time to time. When a plan is stored in a full cache the plan whose last
use is earliest is evicted first, also when a plan is only replaced: `honours_run_iff`.

The clock is read several times in a call. `clock` is the sequence of its readings in nanoseconds; nothing here
depends on them being in order.
-/

namespace Rustgresql

open StateSpec

/-- The order in which a map is gone through -/
structure IterationOrder (κ ν : Type) where
  list : HashMap κ ν → List (κ × ν)
  perm : ∀ m, (list m).Perm m.pairs

/-- The order in which the entries were inserted -/
def IterationOrder.insertion (κ ν : Type) : IterationOrder κ ν := ⟨HashMap.pairs, fun _ => .refl _⟩

/-- Cached plan information -/
structure CachedPlan (P : Type) where
  plan : P
  createdAt : ℤ
  usageCount : ℕ
  lastUsed : ℤ

/-- Plan cache configuration -/
structure PlanCacheConfig where
  maxSize : ℕ
  /-- Maximum age before expiration -/
  maxAgeSecs : ℤ
  /-- Maximum time unused before considered stale -/
  maxUnusedSecs : ℤ
  /-- How often to run cleanup -/
  cleanupIntervalSecs : ℕ

/-- Plan cache statistics -/
structure PlanCacheStats where
  size : ℕ
  maxSize : ℕ
  totalUsage : ℕ
  hits : ℕ
  misses : ℕ
  evictions : ℕ
  expirations : ℕ

/-- Plan cache for storing and retrieving execution plans, and how often the clock has been read -/
structure PlanCache (P : Type) where
  cache : HashMap String (CachedPlan P)
  config : PlanCacheConfig
  stats : PlanCacheStats
  lastCleanup : ℤ
  readings : ℕ

namespace CachedPlan

variable {P : Type}

/-- `Duration::num_seconds` -/
def numSeconds (nanos : ℤ) : ℤ := nanos.tdiv 1000000000

def new (now : ℤ) (plan : P) : CachedPlan P := { plan, createdAt := now, usageCount := 0, lastUsed := now }

def markUsed (now : ℤ) (c : CachedPlan P) : CachedPlan P := { c with usageCount := c.usageCount + 1, lastUsed := now }

def isExpired (now maxAgeSecs : ℤ) (c : CachedPlan P) : Bool := maxAgeSecs < numSeconds (now - c.createdAt)

def isStale (now maxUnusedSecs : ℤ) (c : CachedPlan P) : Bool := maxUnusedSecs < numSeconds (now - c.lastUsed)

end CachedPlan

namespace PlanCache

variable {P : Type} (clock : ℕ → ℤ) (order : IterationOrder String (CachedPlan P))

/-- Create plan cache with specific configuration -/
def withConfig (config : PlanCacheConfig) : PlanCache P where
  cache := ∅
  config
  stats := ⟨0, config.maxSize, 0, 0, 0, 0, 0⟩
  lastCleanup := clock 0
  readings := 1

def len (s : PlanCache P) : ℕ := s.cache.entries.length

/-! ## Clean-up and eviction -/

/-- The keys of the plans that are too old or unused, and how often the clock has been read then -/
def keysToRemove (config : PlanCacheConfig) : ℕ → List (String × CachedPlan P) → List String × ℕ
  | n, [] => ([], n)
  | n, (key, plan) :: entries =>
    if plan.isExpired (clock n) config.maxAgeSecs then
      let rest := keysToRemove config (n + 1) entries
      (key :: rest.1, rest.2)
    else if plan.isStale (clock (n + 1)) config.maxUnusedSecs then
      let rest := keysToRemove config (n + 2) entries
      (key :: rest.1, rest.2)
    else keysToRemove config (n + 2) entries

/-- Cleanup expired and stale plans -/
def cleanupExpiredAndStale (s : PlanCache P) : PlanCache P :=
  let keys := keysToRemove clock s.config s.readings (order.list s.cache)
  let cache := keys.1.foldl (fun m key => m.erase key) s.cache
  { s with
    cache
    stats := { s.stats with expirations := s.stats.expirations + keys.1.length, size := cache.entries.length }
    readings := keys.2 }

/-- Run cleanup if needed -/
def maybeCleanup (s : PlanCache P) : PlanCache P :=
  let now := clock s.readings
  let s' := { s with readings := s.readings + 1 }
  -- `as u64`
  let secsSinceCleanup := (CachedPlan.numSeconds (now - s.lastCleanup) % 2 ^ 64).toNat
  if s.config.cleanupIntervalSecs ≤ secsSinceCleanup then
    { cleanupExpiredAndStale clock order s' with lastCleanup := now }
  else s'

/-- The first plan of those whose last use is earliest -/
def leastRecentlyUsed (s : PlanCache P) : Option (String × CachedPlan P) :=
  match order.list s.cache with
  | [] => none
  | e :: entries => some (Best.best (fun a b => a.2.lastUsed < b.2.lastUsed) e entries)

/-- Evict least recently used plan -/
def evictLru (s : PlanCache P) : Option (PlanCache P) :=
  (leastRecentlyUsed order s).map fun lru =>
    let cache := s.cache.erase lru.1
    { s with cache, stats := { s.stats with evictions := s.stats.evictions + 1, size := cache.entries.length } }

/-- If new max_size is smaller, evict excess entries. The first number bounds the turns of the loop. -/
def evictExcess : ℕ → PlanCache P → PlanCache P
  | 0, s => s
  | n + 1, s =>
    if s.config.maxSize < s.len then
      match evictLru order s with
      | some s' => evictExcess n s'
      | none => s
    else s

/-! ## Calls -/

/-- Get cached plan for query -/
def get (queryKey : String) (s : PlanCache P) : Option (CachedPlan P) × PlanCache P :=
  let s := maybeCleanup clock order s
  match s.cache.lookup queryKey with
  | some cachedPlan =>
    let cachedPlan := cachedPlan.markUsed (clock s.readings)
    (some cachedPlan, { s with
      cache := s.cache.insert queryKey cachedPlan
      stats := { s.stats with hits := s.stats.hits + 1, totalUsage := s.stats.totalUsage + 1 }
      -- the clock is read once more for the hit ratio
      readings := s.readings + 2 })
  | none => (none, { s with stats := { s.stats with misses := s.stats.misses + 1 } })

/-- Store a plan where there is room for it. -/
def store (queryKey : String) (plan : P) (s : PlanCache P) : Option P × PlanCache P :=
  let cache := s.cache.insert queryKey (.new (clock s.readings) plan)
  ((s.cache.lookup queryKey).map CachedPlan.plan,
    { s with cache, stats := { s.stats with size := cache.entries.length }, readings := s.readings + 1 })

/-- Store plan in cache -/
def put (queryKey : String) (plan : P) (s : PlanCache P) : Option P × PlanCache P :=
  let s := maybeCleanup clock order s
  if s.config.maxSize ≤ s.len then
    match evictLru order s with
    | some s' => store clock queryKey plan s'
    -- Couldn't evict any eligible plans
    | none => (none, s)
  else store clock queryKey plan s

/-- Remove plan from cache -/
def remove (queryKey : String) (s : PlanCache P) : Option P × PlanCache P :=
  match s.cache.lookup queryKey with
  | some old =>
    let cache := s.cache.erase queryKey
    (some old.plan, { s with cache, stats := { s.stats with size := cache.entries.length } })
  | none => (none, s)

/-- Clear all cached plans -/
def clear (s : PlanCache P) : PlanCache P := { s with cache := ∅, stats := { s.stats with size := 0 } }

/-- Update configuration -/
def updateConfig (updater : PlanCacheConfig → PlanCacheConfig) (s : PlanCache P) : PlanCache P :=
  let s := { s with config := updater s.config, stats := { s.stats with maxSize := (updater s.config).maxSize } }
  evictExcess order s.len s

/-- The calls of the cache -/
inductive Call (P : Type)
  | get (queryKey : String)
  | put (queryKey : String) (plan : P)
  | remove (queryKey : String)
  | clear
  | updateConfig (updater : PlanCacheConfig → PlanCacheConfig)

def step (s : PlanCache P) : Call P → PlanCache P
  | .get queryKey => (s.get clock order queryKey).2
  | .put queryKey plan => (s.put clock order queryKey plan).2
  | .remove queryKey => (s.remove queryKey).2
  | .clear => s.clear
  | .updateConfig updater => s.updateConfig order updater

/-! ## The invariant -/

/-- There are no more plans than there may be, and the statistics say how many there are. -/
structure Inv (s : PlanCache P) : Prop where
  len_le : s.len ≤ s.config.maxSize
  size_eq : s.stats.size = s.len

/-- A plan whose last use is earliest is evicted. -/
def IsEviction (m m' : HashMap String (CachedPlan P)) : Prop :=
  ∃ key plan, m.lookup key = some plan ∧ (∀ k p, m.lookup k = some p → plan.lastUsed ≤ p.lastUsed) ∧
    m' = m.erase key

section Steps

variable {clock order} {s s' : PlanCache P}

/-! ### Clean-up -/

/-- The plans of a cache that are left are as they were. -/
def IsPart (m' m : HashMap String (CachedPlan P)) : Prop := ∀ k p, m'.lookup k = some p → m.lookup k = some p

theorem foldl_erase_spec (keys : List String) (m : HashMap String (CachedPlan P)) :
    (keys.foldl (fun m key => m.erase key) m).entries.length ≤ m.entries.length ∧
      IsPart (keys.foldl (fun m key => m.erase key) m) m := by
  induction keys generalizing m with
  | nil => exact ⟨le_rfl, fun _ _ h => h⟩
  | cons key keys ih =>
    obtain ⟨hlen, hpart⟩ := ih (m.erase key)
    refine ⟨hlen.trans (HashMap.length_erase_le m key), fun k p h => ?_⟩
    have hlookup := hpart k p h
    rw [HashMap.lookup_erase_eq] at hlookup
    split_ifs at hlookup
    exact hlookup

theorem maybeCleanup_evictions (s : PlanCache P) :
    (maybeCleanup clock order s).stats.evictions = s.stats.evictions := by
  unfold maybeCleanup
  dsimp only
  split_ifs <;> rfl

theorem inv_maybeCleanup (h : s.Inv) : (maybeCleanup clock order s).Inv := by
  unfold maybeCleanup
  dsimp only
  split_ifs
  · exact ⟨((foldl_erase_spec _ s.cache).1).trans h.len_le, rfl⟩
  · exact ⟨h.len_le, h.size_eq⟩

/-! ### Eviction -/

theorem leastRecentlyUsed_spec {lru : String × CachedPlan P} (h : leastRecentlyUsed order s = some lru) :
    s.cache.lookup lru.1 = some lru.2 ∧ ∀ k p, s.cache.lookup k = some p → lru.2.lastUsed ≤ p.lastUsed := by
  have hmem (e : String × CachedPlan P) : e ∈ order.list s.cache ↔ s.cache.lookup e.1 = some e.2 :=
    (order.perm s.cache).mem_iff.trans HashMap.mem_pairs
  unfold leastRecentlyUsed at h
  rcases hlist : order.list s.cache with - | ⟨e, entries⟩
  · rw [hlist] at h
    cases h
  · rw [hlist] at h hmem
    obtain rfl := Option.some.inj h
    refine ⟨(hmem _).mp Best.best_mem, fun k p hk => not_lt.mp ?_⟩
    exact @Best.best_spec _ (fun a b : String × CachedPlan P => a.2.lastUsed < b.2.lastUsed) _ e entries
      (fun _ => lt_irrefl _) (fun _ _ _ => lt_trans) (k, p) ((hmem (k, p)).mpr hk)

theorem leastRecentlyUsed_eq_none_iff : leastRecentlyUsed order s = none ↔ s.len = 0 := by
  have hlength : (order.list s.cache).length = s.len := by
    rw [(order.perm s.cache).length_eq, HashMap.pairs, List.length_map]
    rfl
  unfold leastRecentlyUsed
  rcases hlist : order.list s.cache with - | ⟨e, entries⟩
  · rw [hlist] at hlength
    simpa using hlength.symm
  · rw [hlist] at hlength
    simp [← hlength]

/-- An eviction takes the least recently used plan out. -/
theorem evictLru_eq_some (h : evictLru order s = some s') : ∃ lru, leastRecentlyUsed order s = some lru ∧
    s'.cache = s.cache.erase lru.1 ∧ s'.len + 1 = s.len ∧ s'.stats.size = s'.len ∧ s'.config = s.config := by
  obtain ⟨lru, hlru, rfl⟩ := Option.map_eq_some_iff.mp h
  exact ⟨lru, hlru, rfl, HashMap.length_erase_of_lookup (leastRecentlyUsed_spec hlru).1, rfl, rfl⟩

theorem isEviction_of_evictLru (h : evictLru order s = some s') : IsEviction s.cache s'.cache := by
  obtain ⟨lru, hlru, hcache, -⟩ := evictLru_eq_some h
  obtain ⟨hlookup, hearliest⟩ := leastRecentlyUsed_spec hlru
  exact ⟨lru.1, lru.2, hlookup, hearliest, hcache⟩

theorem evictLru_eq_none_iff : evictLru order s = none ↔ s.len = 0 := by
  rw [evictLru, Option.map_eq_none_iff, leastRecentlyUsed_eq_none_iff]

/-- Enough turns of the loop leave no more plans than there may be. -/
theorem evictExcess_spec (n : ℕ) (hsize : s.stats.size = s.len) (hn : s.len ≤ n) :
    (evictExcess order n s).Inv ∧ Relation.ReflTransGen IsEviction s.cache (evictExcess order n s).cache := by
  induction n generalizing s with
  | zero => exact ⟨⟨(Nat.le_zero.mp hn).trans_le (Nat.zero_le _), hsize⟩, .refl⟩
  | succ n ih =>
    rw [evictExcess]
    split_ifs with hexcess
    · rcases hevict : evictLru order s with - | s'
      · rw [evictLru_eq_none_iff.mp hevict] at hexcess
        exact absurd hexcess (Nat.not_lt_zero _)
      · obtain ⟨lru, -, -, hlen, hsize', -⟩ := evictLru_eq_some hevict
        obtain ⟨hinv, hevictions⟩ := ih hsize' (by omega)
        exact ⟨hinv, .head (isEviction_of_evictLru hevict) hevictions⟩
    · exact ⟨⟨Nat.le_of_not_lt hexcess, hsize⟩, .refl⟩

/-! ### Calls -/

theorem store_spec (queryKey : String) (plan : P) (hlen : s.len ≤ s.config.maxSize)
    (hroom : s.len < s.config.maxSize ∨ (s.cache.lookup queryKey).isSome) :
    (store clock queryKey plan s).2.Inv ∧
      ∀ k, (store clock queryKey plan s).2.cache.lookup k =
        if k = queryKey then some (.new (clock s.readings) plan) else s.cache.lookup k := by
  refine ⟨⟨?_, rfl⟩, fun k => HashMap.lookup_insert_eq ..⟩
  show (s.cache.insert queryKey _).entries.length ≤ s.config.maxSize
  rw [HashMap.length_insert]
  rcases hroom with hroom | hpresent
  · exact (Nat.succ_le_succ (HashMap.length_erase_le s.cache queryKey)).trans hroom
  · obtain ⟨old, hold⟩ := Option.isSome_iff_exists.mp hpresent
    rw [HashMap.length_erase_of_lookup hold]
    exact hlen

theorem inv_get (h : s.Inv) (queryKey : String) : (s.get clock order queryKey).2.Inv := by
  have hclean : (maybeCleanup clock order s).Inv := inv_maybeCleanup h
  unfold get
  dsimp only
  split
  · next cachedPlan hlookup =>
    have hlength : ((maybeCleanup clock order s).cache.insert queryKey
        (cachedPlan.markUsed (clock (maybeCleanup clock order s).readings))).entries.length =
        (maybeCleanup clock order s).len := by
      rw [HashMap.length_insert, HashMap.length_erase_of_lookup hlookup]
      rfl
    exact ⟨hlength.trans_le hclean.len_le, hclean.size_eq.trans hlength.symm⟩
  · exact ⟨hclean.len_le, hclean.size_eq⟩

theorem inv_remove (h : s.Inv) (queryKey : String) : (s.remove queryKey).2.Inv := by
  unfold remove
  split
  · exact ⟨(HashMap.length_erase_le s.cache queryKey).trans h.len_le, rfl⟩
  · exact h

/-- What is left of a full cache when a plan is stored -/
theorem put_cases (queryKey : String) (plan : P) (s : PlanCache P) :
    let t := maybeCleanup clock order s
    (t.len < t.config.maxSize ∧ s.put clock order queryKey plan = store clock queryKey plan t) ∨
    (∃ t', t.config.maxSize ≤ t.len ∧ evictLru order t = some t' ∧
      s.put clock order queryKey plan = store clock queryKey plan t') ∨
    (t.config.maxSize ≤ t.len ∧ t.len = 0 ∧ s.put clock order queryKey plan = (none, t)) := by
  intro t
  unfold put
  dsimp only
  split_ifs with hfull
  · rcases hevict : evictLru order t with - | t'
    · refine .inr (.inr ⟨hfull, evictLru_eq_none_iff.mp hevict, ?_⟩)
      rfl
    · exact .inr (.inl ⟨t', hfull, rfl, rfl⟩)
  · exact .inl ⟨Nat.lt_of_not_le hfull, rfl⟩

theorem inv_put (h : s.Inv) (queryKey : String) (plan : P) : (s.put clock order queryKey plan).2.Inv := by
  have hclean : (maybeCleanup clock order s).Inv := inv_maybeCleanup h
  rcases put_cases queryKey plan s with ⟨hroom, hput⟩ | ⟨t', hfull, hevict, hput⟩ | ⟨-, -, hput⟩
  · rw [hput]
    exact (store_spec queryKey plan hclean.len_le (.inl hroom)).1
  · obtain ⟨lru, -, -, hlen, -, hconfig⟩ := evictLru_eq_some hevict
    have hle := hclean.len_le
    rw [hput]
    rw [← hconfig] at hle
    exact (store_spec queryKey plan (by omega) (.inl (by omega))).1
  · rw [hput]
    exact hclean

end Steps

/-! ## Runs -/

section Runs

/-- What a call does to the plans of the cache. The statistics are right afterwards, whatever is evicted is a plan
whose last use is earliest, and no other plan is evicted when one is replaced. -/
def Honours (s : PlanCache P) (call : Call P) : Prop :=
  (s.step clock order call).Inv ∧
    match call with
    | .put queryKey plan =>
      let cleaned := (maybeCleanup clock order s).cache
      (∃ m, Relation.ReflTransGen IsEviction cleaned m ∧ ((s.step clock order call).cache = m ∨
        ∃ stored, stored.plan = plan ∧ (s.step clock order call).cache = m.insert queryKey stored)) ∧
      ((s.cache.lookup queryKey).isSome → ∀ k ≠ queryKey, (cleaned.lookup k).isSome →
        ((s.step clock order call).cache.lookup k).isSome)
    | .updateConfig _ => Relation.ReflTransGen IsEviction s.cache (s.step clock order call).cache
    | _ => (s.step clock order call).stats.evictions = s.stats.evictions

/-- If a plan is replaced then the cache is not full after the clean-up, or it is the least recently used. -/
def ReplacesSafely (s : PlanCache P) (call : Call P) : Prop :=
  match call with
  | .put queryKey _ => (s.cache.lookup queryKey).isSome →
    let t := maybeCleanup clock order s
    t.len < t.config.maxSize ∨ ∀ lru ∈ leastRecentlyUsed order t, lru.1 = queryKey
  | _ => True

variable {clock order} {s : PlanCache P}

theorem honours_get (h : s.Inv) (queryKey : String) : Honours clock order s (.get queryKey) := by
  refine ⟨inv_get h queryKey, ?_⟩
  show (s.get clock order queryKey).2.stats.evictions = s.stats.evictions
  unfold get
  dsimp only
  split <;> exact maybeCleanup_evictions s

theorem honours_remove (h : s.Inv) (queryKey : String) : Honours clock order s (.remove queryKey) := by
  refine ⟨inv_remove h queryKey, ?_⟩
  show (s.remove queryKey).2.stats.evictions = s.stats.evictions
  unfold remove
  split <;> rfl

theorem honours_updateConfig (h : s.Inv) (updater : PlanCacheConfig → PlanCacheConfig) :
    Honours clock order s (.updateConfig updater) :=
  evictExcess_spec s.len h.size_eq le_rfl

theorem store_cache (queryKey : String) (plan : P) (t : PlanCache P) :
    (store clock queryKey plan t).2.cache = t.cache.insert queryKey (.new (clock t.readings) plan) := rfl

/-- Storing a plan under a key that is present takes no other plan out exactly if the cache is not full, or the plan
is the least recently used. -/
theorem honours_put_iff (h : s.Inv) (queryKey : String) (plan : P) :
    Honours clock order s (.put queryKey plan) ↔ ReplacesSafely clock order s (.put queryKey plan) := by
  have hinv : (s.step clock order (.put queryKey plan)).Inv := inv_put h queryKey plan
  have hstep : s.step clock order (.put queryKey plan) = (s.put clock order queryKey plan).2 := rfl
  rcases put_cases queryKey plan s with ⟨hroom, hput⟩ | ⟨t', hfull, hevict, hput⟩ | ⟨hfull, hnone, hput⟩
  · have hcache := @store_cache _ clock queryKey plan (maybeCleanup clock order s)
    rw [hput] at hstep
    rw [← hstep] at hcache
    refine iff_of_true ⟨hinv, ⟨_, .refl, .inr ⟨_, rfl, hcache⟩⟩, fun _ k hk hpresent => ?_⟩ fun _ => .inl hroom
    rwa [hcache, HashMap.lookup_insert_eq, if_neg hk]
  · -- a plan is evicted before the new one is stored
    obtain ⟨lru, hlru, herase, -⟩ := evictLru_eq_some hevict
    have hcache := @store_cache _ clock queryKey plan t'
    rw [hput] at hstep
    rw [← hstep, herase] at hcache
    have hlookup (k : String) (hk : k ≠ queryKey) : ((s.step clock order (.put queryKey plan)).cache.lookup k) =
        if k = lru.1 then none else (maybeCleanup clock order s).cache.lookup k := by
      rw [hcache, HashMap.lookup_insert_eq, if_neg hk, HashMap.lookup_erase_eq]
    have hkeeps : (∀ k ≠ queryKey, ((maybeCleanup clock order s).cache.lookup k).isSome →
        ((s.step clock order (.put queryKey plan)).cache.lookup k).isSome) ↔ lru.1 = queryKey := by
      constructor
      · intro hkeep
        by_contra hne
        have hgone := hkeep lru.1 hne (by rw [(leastRecentlyUsed_spec hlru).1]; rfl)
        rw [hlookup lru.1 hne, if_pos rfl] at hgone
        cases hgone
      · intro heq k hk hpresent
        rwa [hlookup k hk, if_neg (heq ▸ hk)]
    constructor
    · rintro ⟨-, -, hkeep⟩ hpresent
      refine .inr fun lru' hlru' => ?_
      obtain rfl : lru = lru' := Option.some.inj (hlru.symm.trans hlru')
      exact hkeeps.mp (hkeep hpresent)
    · intro hsafe
      refine ⟨hinv, ⟨_, .single (isEviction_of_evictLru hevict), .inr ⟨_, rfl, hcache.trans (by rw [herase])⟩⟩, ?_⟩
      intro hpresent
      rcases hsafe hpresent with hroom | heq
      · exact absurd hroom (Nat.not_lt_of_le hfull)
      · exact hkeeps.mpr (heq lru hlru)
  · have hunused : leastRecentlyUsed order (maybeCleanup clock order s) = none :=
      leastRecentlyUsed_eq_none_iff.mpr hnone
    rw [hput] at hstep
    refine iff_of_true ⟨hinv, ⟨_, .refl, .inl (congrArg PlanCache.cache hstep)⟩, fun _ k _ hpresent => ?_⟩ fun _ => .inr ?_
    · rwa [hstep]
    · intro lru hlru
      rw [hunused] at hlru
      cases hlru

theorem honours_run_iff_replacesSafely (h : s.Inv) (call : Call P) :
    Honours clock order s call ↔ ReplacesSafely clock order s call := by
  cases call with
  | get queryKey => exact iff_of_true (honours_get h queryKey) trivial
  | put queryKey plan => exact honours_put_iff h queryKey plan
  | remove queryKey => exact iff_of_true (honours_remove h queryKey) trivial
  | clear => exact iff_of_true ⟨⟨Nat.zero_le _, rfl⟩, rfl⟩ trivial
  | updateConfig updater => exact iff_of_true (honours_updateConfig h updater) trivial

theorem inv_step (h : s.Inv) (call : Call P) : (s.step clock order call).Inv := by
  cases call with
  | get queryKey => exact inv_get h queryKey
  | put queryKey plan => exact inv_put h queryKey plan
  | remove queryKey => exact inv_remove h queryKey
  | clear => exact ⟨Nat.zero_le _, rfl⟩
  | updateConfig updater => exact (honours_updateConfig h updater).1

variable (clock order)

/-- The cache is as it should be after every call of a run exactly if no plan is replaced in a full cache, unless it is
the least recently used. -/
theorem honours_run_iff (config : PlanCacheConfig) (calls : List (Call P)) :
    (∀ pre call post, calls = pre ++ call :: post →
      Honours clock order (pre.foldl (step clock order) (withConfig clock config)) call) ↔
    ∀ pre call post, calls = pre ++ call :: post →
      ReplacesSafely clock order (pre.foldl (step clock order) (withConfig clock config)) call :=
  forall_step_iff (I := Inv) ⟨Nat.zero_le _, rfl⟩ (fun _ call h _ => inv_step h call)
    (fun _ call h => honours_run_iff_replacesSafely h call) calls

end Runs

/-- A plan is replaced in a full cache, and another plan is evicted. -/
theorem not_honours_replace : let calls : List (Call ℕ) := [.put "a" 1, .put "b" 2, .put "b" 3]
    ¬ ∀ pre call post, calls = pre ++ call :: post →
      Honours Int.ofNat (.insertion _ _) (pre.foldl (step Int.ofNat (.insertion _ _))
        (withConfig Int.ofNat ⟨2, 3600, 1800, 300⟩)) call := by
  intro calls h
  have hkeep := (h [.put "a" 1, .put "b" 2] (.put "b" 3) [] rfl).2.2 rfl "a" (by decide) rfl
  cases hkeep

end PlanCache

end Rustgresql
