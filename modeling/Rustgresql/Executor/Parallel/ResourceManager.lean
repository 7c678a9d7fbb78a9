import Rustgresql.Lib.HashMap
import Rustgresql.Lib.StateSpec
import Rustgresql.Usize

/-!
# Resource manager (`executor/parallel/resource_manager.rs`)

Workers ask whether a resource is available, take it and give it back. `accounts_iff`: the memory
tracker's usage stays the sum of the memory grants exactly in the runs that never take more than there
is, and that give back under the number of a grant what the tracker keeps under this number.
-/

namespace Rustgresql

/-- Types of resources that can be managed -/
inductive ResourceType
  | memory | cpu | io | network | locks
  deriving DecidableEq

/-- Resource constraints for parallel execution -/
structure ResourceConstraints where
  maxTotalMemory : UInt64
  maxConcurrentWorkers : UInt64
  maxConcurrentIo : UInt64

/-- Resource allocation request -/
structure ResourceRequest where
  requesterId : UInt64
  resourceType : ResourceType
  amount : UInt64

/-- Resource allocation grant -/
structure ResourceGrant where
  grantId : UInt64
  requesterId : UInt64
  resourceType : ResourceType
  amount : UInt64

/-- Resource usage tracking -/
structure ResourceUsage where
  allocated : ℕ
  inUse : ℕ
  peakUsage : ℕ
  activeAllocations : ℕ
  totalAllocations : ℕ

/-- Memory tracker for individual allocations, which it numbers itself -/
structure MemoryTracker where
  currentUsage : ℕ
  peakUsage : ℕ
  allocations : HashMap UInt64 UInt64
  nextAllocationId : UInt64

/-- CPU tracker -/
structure CpuTracker where
  activeCores : ℕ

/-- I/O tracker for concurrent I/O operations -/
structure IoTracker where
  activeOperations : ℕ
  peakOperations : ℕ
  totalOperations : ℕ

def MemoryTracker.new : MemoryTracker := ⟨0, 0, ∅, 1⟩

def MemoryTracker.deallocate (self : MemoryTracker) (allocationId : UInt64) : Bool × MemoryTracker :=
  match self.allocations.lookup allocationId with
  | some size =>
    (true, { self with
      allocations := self.allocations.erase allocationId
      currentUsage := self.currentUsage - size.toNat })
  | none => (false, self)

def CpuTracker.releaseCores (self : CpuTracker) (cores : UInt64) : CpuTracker :=
  ⟨self.activeCores - cores.toNat⟩

/-- Resource manager for coordinating parallel execution resources -/
structure ResourceManager where
  constraints : ResourceConstraints
  memoryTracker : MemoryTracker
  cpuTracker : CpuTracker
  ioTracker : IoTracker
  usage : HashMap ResourceType ResourceUsage
  activeGrants : HashMap UInt64 ResourceGrant
  nextGrantId : UInt64

/-- Create a new resource manager -/
def ResourceManager.new (constraints : ResourceConstraints) : ResourceManager where
  constraints := constraints
  memoryTracker := .new
  cpuTracker := ⟨0⟩
  ioTracker := ⟨0, 0, 0⟩
  usage := .ofPairs [(.memory, ⟨0, 0, 0, 0, 0⟩), (.cpu, ⟨0, 0, 0, 0, 0⟩), (.io, ⟨0, 0, 0, 0, 0⟩)]
  activeGrants := ∅
  nextGrantId := 1

def ResourceUsage.release (self : ResourceUsage) (amount : UInt64) : ResourceUsage :=
  { self with
    inUse := self.inUse - amount.toNat
    activeAllocations := self.activeAllocations - 1 }

section Steps

variable (overflowChecks : Bool)

def MemoryTracker.allocate (self : MemoryTracker) (size : UInt64) : Result (UInt64 × MemoryTracker) := do
  let allocationId := self.nextAllocationId
  let currentUsage ← Usize.add overflowChecks self.currentUsage size.toNat
  return (allocationId, {
    currentUsage := currentUsage
    peakUsage := max self.peakUsage currentUsage
    allocations := self.allocations.insert allocationId size
    nextAllocationId := allocationId + 1 })

def CpuTracker.allocateCores (self : CpuTracker) (cores : UInt64) : Result CpuTracker :=
  CpuTracker.mk <$> Usize.add overflowChecks self.activeCores cores.toNat

def IoTracker.startOperation (self : IoTracker) : Result IoTracker := do
  let activeOperations ← Usize.add overflowChecks self.activeOperations 1
  return { self with
    activeOperations := activeOperations
    peakOperations := max self.peakOperations activeOperations }

def IoTracker.completeOperation (self : IoTracker) : Result IoTracker := do
  let totalOperations ← Usize.add overflowChecks self.totalOperations 1
  return { self with activeOperations := self.activeOperations - 1, totalOperations := totalOperations }

def ResourceUsage.grant (self : ResourceUsage) (amount : UInt64) : Result ResourceUsage := do
  let allocated ← Usize.add overflowChecks self.allocated amount.toNat
  let inUse ← Usize.add overflowChecks self.inUse amount.toNat
  let activeAllocations ← Usize.add overflowChecks self.activeAllocations 1
  let totalAllocations ← Usize.add overflowChecks self.totalAllocations 1
  return ⟨allocated, inUse, max self.peakUsage inUse, activeAllocations, totalAllocations⟩

namespace ResourceManager

/-- Check if resources are available for allocation -/
def checkAvailability (self : ResourceManager) (resourceType : ResourceType) (amount : UInt64) :
    Result Bool :=
  let within (used : ℕ) (limit : UInt64) : Result Bool := do
    let needed ← Usize.add overflowChecks used amount.toNat
    return needed ≤ limit.toNat
  match resourceType with
  | .memory => within self.memoryTracker.currentUsage self.constraints.maxTotalMemory
  | .cpu => within self.cpuTracker.activeCores self.constraints.maxConcurrentWorkers
  | .io => within self.ioTracker.activeOperations self.constraints.maxConcurrentIo
  -- other resource types are not implemented
  | .network | .locks => .ok true

/-- Usage tracking of a grant. -/
def trackGrant (self : ResourceManager) (request : ResourceRequest) : Result ResourceManager :=
  match self.usage.lookup request.resourceType with
  | some resourceUsage => do
    let tracked ← resourceUsage.grant overflowChecks request.amount
    return { self with usage := self.usage.insert request.resourceType tracked }
  | none => .ok self

/-- The tracker of the resource. -/
def allocateTracked (self : ResourceManager) (request : ResourceRequest) : Result ResourceManager :=
  match request.resourceType with
  | .memory => do
    let (_, memoryTracker) ← self.memoryTracker.allocate overflowChecks request.amount
    return { self with memoryTracker := memoryTracker }
  | .cpu => do
    return { self with cpuTracker := ← self.cpuTracker.allocateCores overflowChecks request.amount }
  | .io => do
    return { self with ioTracker := ← self.ioTracker.startOperation overflowChecks }
  | .network | .locks => .ok self

/-- Internal method to grant a resource -/
def grantResource (self : ResourceManager) (request : ResourceRequest) :
    Result (ResourceGrant × ResourceManager) := do
  let grantId := self.nextGrantId
  let grant : ResourceGrant := ⟨grantId, request.requesterId, request.resourceType, request.amount⟩
  let tracked ← { self with nextGrantId := grantId + 1 }.trackGrant overflowChecks request
  let allocated ← tracked.allocateTracked overflowChecks request
  return (grant, { allocated with activeGrants := allocated.activeGrants.insert grantId grant })

/-- The tracker of the resource. -/
def deallocateTracked (self : ResourceManager) (grantId : UInt64) (grant : ResourceGrant) :
    Result ResourceManager :=
  match grant.resourceType with
  | .memory => .ok { self with memoryTracker := (self.memoryTracker.deallocate grantId).2 }
  | .cpu => .ok { self with cpuTracker := self.cpuTracker.releaseCores grant.amount }
  | .io => do
    return { self with ioTracker := ← self.ioTracker.completeOperation overflowChecks }
  | .network | .locks => .ok self

/-- Internal method to deallocate a resource -/
def deallocateResource (self : ResourceManager) (grantId : UInt64) : Result ResourceManager :=
  match self.activeGrants.lookup grantId with
  | none => .error (.err (.internal s!"Resource grant {grantId} not found"))
  | some grant =>
    { self with
      activeGrants := self.activeGrants.erase grantId
      usage := self.usage.adjust grant.resourceType (·.release grant.amount)
    }.deallocateTracked overflowChecks grantId grant

/-! ## Workers -/

/-- A manager, and the requests that were found available and are not granted yet. -/
structure Workers where
  manager : ResourceManager
  available : List ResourceRequest

/-- What one of the workers does next. `grant i` is for the `i`-th request that was found available. -/
inductive Step
  | check (request : ResourceRequest)
  | grant (i : ℕ)
  | deallocate (grantId : UInt64)

/-- One step. A worker whose grant is unknown is told so. -/
def Workers.step (s : Workers) : Step → Result Workers
  | .check request => do
    let available ← s.manager.checkAvailability overflowChecks request.resourceType request.amount
    return if available then { s with available := s.available ++ [request] } else s
  | .grant i =>
    match s.available[i]? with
    | some request => do
      let (_, manager) ← s.manager.grantResource overflowChecks request
      return ⟨manager, s.available.eraseIdx i⟩
    | none => .ok s
  | .deallocate grantId =>
    match s.manager.deallocateResource overflowChecks grantId with
    | .ok manager => .ok { s with manager := manager }
    | .error (.err _) => .ok s
    | .error e => .error e

/-- Steps one after the other, until a worker panics. -/
def Workers.run (constraints : ResourceConstraints) (steps : List Step) : Result Workers :=
  steps.foldl (fun r step => r >>= (Workers.step overflowChecks · step)) (.ok ⟨.new constraints, []⟩)

end ResourceManager

end Steps

/-! ## What a step does to the memory -/

/-- The memory that a request asks for. -/
def ResourceRequest.memory (request : ResourceRequest) : ℕ :=
  if request.resourceType = .memory then request.amount.toNat else 0

/-- The memory that a grant is for. -/
def ResourceGrant.memory (grant : ResourceGrant) : ℕ :=
  if grant.resourceType = .memory then grant.amount.toNat else 0

/-- What the tracker keeps under a number. -/
def MemoryTracker.kept (self : MemoryTracker) (allocationId : UInt64) : ℕ :=
  (self.allocations.lookup allocationId).elim 0 UInt64.toNat

theorem MemoryTracker.deallocate_currentUsage (self : MemoryTracker) (allocationId : UInt64) :
    (self.deallocate allocationId).2.currentUsage = self.currentUsage - self.kept allocationId := by
  unfold deallocate kept
  rcases self.allocations.lookup allocationId with - | size
  · rfl
  · rfl

variable {overflowChecks : Bool}

theorem MemoryTracker.allocate_currentUsage {self t : MemoryTracker} {size allocationId : UInt64}
    (h : self.allocate overflowChecks size = .ok (allocationId, t)) :
    t.currentUsage = (self.currentUsage + size.toNat) % Usize.size := by
  unfold allocate at h
  obtain ⟨currentUsage, hadd, h⟩ := Result.bind_eq_ok.mp h
  obtain ⟨-, rfl⟩ := Prod.mk.inj (Except.ok.inj h)
  exact Usize.add_eq_ok hadd

namespace ResourceManager

variable {m m' : ResourceManager} {request : ResourceRequest} {grant : ResourceGrant} {grantId : UInt64}

theorem trackGrant_spec (h : m.trackGrant overflowChecks request = .ok m') :
    ∃ usage, m' = { m with usage := usage } := by
  unfold trackGrant at h
  split at h
  · obtain ⟨tracked, -, h⟩ := Result.bind_eq_ok.mp h
    exact ⟨_, (Except.ok.inj h).symm⟩
  · exact ⟨m.usage, (Except.ok.inj h).symm⟩

theorem allocateTracked_spec (hsize : m.memoryTracker.currentUsage < Usize.size)
    (h : m.allocateTracked overflowChecks request = .ok m') :
    m'.memoryTracker.currentUsage = (m.memoryTracker.currentUsage + request.memory) % Usize.size ∧
      m'.activeGrants = m.activeGrants ∧ m'.constraints = m.constraints := by
  -- the other trackers leave the memory tracker alone
  have hother (hother : request.resourceType ≠ .memory) :
      m.memoryTracker.currentUsage = (m.memoryTracker.currentUsage + request.memory) % Usize.size := by
    rw [ResourceRequest.memory, if_neg hother, Nat.add_zero, Nat.mod_eq_of_lt hsize]
  unfold allocateTracked at h
  split at h
  · next hmemory =>
    obtain ⟨⟨allocationId, t⟩, hallocate, h⟩ := Result.bind_eq_ok.mp h
    obtain rfl := Except.ok.inj h
    refine ⟨?_, rfl, rfl⟩
    rw [ResourceRequest.memory, if_pos hmemory]
    exact MemoryTracker.allocate_currentUsage hallocate
  · next hcpu =>
    obtain ⟨t, -, h⟩ := Result.bind_eq_ok.mp h
    obtain rfl := Except.ok.inj h
    exact ⟨hother (by rw [hcpu]; nofun), rfl, rfl⟩
  · next hio =>
    obtain ⟨t, -, h⟩ := Result.bind_eq_ok.mp h
    obtain rfl := Except.ok.inj h
    exact ⟨hother (by rw [hio]; nofun), rfl, rfl⟩
  · next hnetwork =>
    obtain rfl := Except.ok.inj h
    exact ⟨hother (by rw [hnetwork]; nofun), rfl, rfl⟩
  · next hlocks =>
    obtain rfl := Except.ok.inj h
    exact ⟨hother (by rw [hlocks]; nofun), rfl, rfl⟩

/-- A grant is stored under the next number, and its memory is added to the usage. -/
theorem grantResource_spec (hsize : m.memoryTracker.currentUsage < Usize.size)
    (h : m.grantResource overflowChecks request = .ok (grant, m')) :
    m'.memoryTracker.currentUsage = (m.memoryTracker.currentUsage + request.memory) % Usize.size ∧
      m'.activeGrants = m.activeGrants.insert m.nextGrantId grant ∧ grant.memory = request.memory ∧
      m'.constraints = m.constraints := by
  unfold grantResource at h
  obtain ⟨tracked, htrack, h⟩ := Result.bind_eq_ok.mp h
  obtain ⟨allocated, hallocate, h⟩ := Result.bind_eq_ok.mp h
  obtain ⟨rfl, rfl⟩ := Prod.mk.inj (Except.ok.inj h)
  obtain ⟨usage, rfl⟩ := trackGrant_spec htrack
  obtain ⟨husage, hgrants, hconstraints⟩ := allocateTracked_spec (by exact hsize) hallocate
  exact ⟨husage, congrArg (AList.insert m.nextGrantId _) hgrants, rfl, hconstraints⟩

/-- The memory that comes back when a grant is given back. -/
def freed (m : ResourceManager) (grantId : UInt64) (grant : ResourceGrant) : ℕ :=
  if grant.resourceType = .memory then m.memoryTracker.kept grantId else 0

theorem deallocateTracked_spec (h : m.deallocateTracked overflowChecks grantId grant = .ok m') :
    m'.memoryTracker.currentUsage = m.memoryTracker.currentUsage - m.freed grantId grant ∧
      m'.activeGrants = m.activeGrants ∧ m'.constraints = m.constraints := by
  have hother (hother : grant.resourceType ≠ .memory) :
      m.memoryTracker.currentUsage = m.memoryTracker.currentUsage - m.freed grantId grant := by
    rw [freed, if_neg hother, Nat.sub_zero]
  unfold deallocateTracked at h
  split at h
  · next hmemory =>
    obtain rfl := Except.ok.inj h
    refine ⟨?_, rfl, rfl⟩
    rw [freed, if_pos hmemory]
    exact MemoryTracker.deallocate_currentUsage _ _
  · next hcpu =>
    obtain rfl := Except.ok.inj h
    exact ⟨hother (by rw [hcpu]; nofun), rfl, rfl⟩
  · next hio =>
    obtain ⟨t, -, h⟩ := Result.bind_eq_ok.mp h
    obtain rfl := Except.ok.inj h
    exact ⟨hother (by rw [hio]; nofun), rfl, rfl⟩
  · next hnetwork =>
    obtain rfl := Except.ok.inj h
    exact ⟨hother (by rw [hnetwork]; nofun), rfl, rfl⟩
  · next hlocks =>
    obtain rfl := Except.ok.inj h
    exact ⟨hother (by rw [hlocks]; nofun), rfl, rfl⟩

/-- A grant that is given back is removed, and what the tracker keeps under its number is freed. -/
theorem deallocateResource_spec (h : m.deallocateResource overflowChecks grantId = .ok m') :
    ∃ grant, m.activeGrants.lookup grantId = some grant ∧
      m'.memoryTracker.currentUsage = m.memoryTracker.currentUsage - m.freed grantId grant ∧
      m'.activeGrants = m.activeGrants.erase grantId ∧ m'.constraints = m.constraints := by
  unfold deallocateResource at h
  split at h
  · cases h
  · next grant hlookup => exact ⟨grant, hlookup, deallocateTracked_spec h⟩

/-- Only an unknown grant is an error. -/
theorem lookup_of_err {e : RustgreSQLError}
    (h : m.deallocateResource overflowChecks grantId = .error (.err e)) :
    m.activeGrants.lookup grantId = none := by
  unfold deallocateResource at h
  split at h
  · next hnone => exact hnone
  · next grant hlookup =>
    exfalso
    unfold deallocateTracked at h
    split at h
    -- only the number of completed operations is checked
    case h_3 =>
      obtain hcomplete | ⟨_, -, h⟩ := Result.bind_eq_error.mp h
      · obtain hadd | ⟨_, -, h⟩ := Result.bind_eq_error.mp hcomplete
        · exact Usize.add_ne_err e hadd
        · cases h
      · cases h
    all_goals cases h

/-! ## Runs -/

/-- The usage is the sum of the memory grants, at most the maximum, and zero without grants. -/
structure Accounts (m : ResourceManager) : Prop where
  sum : m.memoryTracker.currentUsage = m.activeGrants.total ResourceGrant.memory
  bounded : m.memoryTracker.currentUsage ≤ m.constraints.maxTotalMemory.toNat
  released : m.activeGrants = ∅ → m.memoryTracker.currentUsage = 0

theorem accounts_iff_sum : m.Accounts ↔
    m.memoryTracker.currentUsage = m.activeGrants.total ResourceGrant.memory ∧
      m.memoryTracker.currentUsage ≤ m.constraints.maxTotalMemory.toNat := by
  refine ⟨fun h => ⟨h.sum, h.bounded⟩, fun ⟨hsum, hbounded⟩ => ⟨hsum, hbounded, fun hempty => ?_⟩⟩
  rw [hsum, hempty]
  rfl

theorem accounts_new (constraints : ResourceConstraints) : (new constraints).Accounts :=
  ⟨rfl, Nat.zero_le _, fun _ => rfl⟩

theorem Accounts.lt_size (h : m.Accounts) : m.memoryTracker.currentUsage < Usize.size :=
  lt_of_le_of_lt h.bounded (Usize.toNat_lt_size _)

theorem memory_lt (grant : ResourceGrant) : grant.memory < Usize.size := by
  unfold ResourceGrant.memory
  split
  · exact Usize.toNat_lt_size _
  · exact Usize.size_pos

/-- The memory of the grant that has a number. -/
def memoryOf (m : ResourceManager) (grantId : UInt64) : ℕ :=
  (m.activeGrants.lookup grantId).elim 0 ResourceGrant.memory

theorem memoryOf_lt (m : ResourceManager) (grantId : UInt64) : m.memoryOf grantId < Usize.size := by
  unfold memoryOf
  rcases m.activeGrants.lookup grantId with - | grant
  · exact Usize.size_pos
  · exact memory_lt grant

/-- A grant keeps the accounts if it fits, and if it takes no other memory grant's number. -/
theorem accounts_grantResource (hm : m.Accounts)
    (h : m.grantResource overflowChecks request = .ok (grant, m')) :
    m'.Accounts ↔
      m.memoryTracker.currentUsage + request.memory ≤ m.constraints.maxTotalMemory.toNat ∧
        m.memoryOf m.nextGrantId = 0 := by
  obtain ⟨husage, hgrants, hmemory, hconstraints⟩ := grantResource_spec hm.lt_size h
  have htotal : m'.activeGrants.total ResourceGrant.memory + m.memoryOf m.nextGrantId =
      grant.memory + m.activeGrants.total ResourceGrant.memory := by
    rw [hgrants]
    exact HashMap.total_insert _ _ _ _
  have hsum := hm.sum
  have hold := m.memoryOf_lt m.nextGrantId
  have hnew := memory_lt grant
  have hused := hm.lt_size
  have hmax := Usize.toNat_lt_size m.constraints.maxTotalMemory
  rw [accounts_iff_sum, husage, hconstraints]
  rcases Nat.lt_or_ge (m.memoryTracker.currentUsage + request.memory) Usize.size with hfits | hwraps
  · rw [Nat.mod_eq_of_lt hfits]
    omega
  · rw [Nat.mod_eq_sub_mod hwraps, Nat.mod_eq_of_lt (by omega)]
    omega

/-- A grant that is given back keeps the accounts if the tracker frees its memory. -/
theorem accounts_deallocateResource (hm : m.Accounts) (hlookup : m.activeGrants.lookup grantId = some grant)
    (h : m.deallocateResource overflowChecks grantId = .ok m') :
    m'.Accounts ↔ min (m.freed grantId grant) m.memoryTracker.currentUsage = grant.memory := by
  obtain ⟨grant', hlookup', husage, hgrants, hconstraints⟩ := deallocateResource_spec h
  obtain rfl : grant = grant' := Option.some.inj (hlookup.symm.trans hlookup')
  have htotal : m'.activeGrants.total ResourceGrant.memory + grant.memory =
      m.activeGrants.total ResourceGrant.memory := by
    have herase := HashMap.total_erase ResourceGrant.memory m.activeGrants grantId
    rw [hlookup] at herase
    rw [hgrants]
    exact herase
  have hsum := hm.sum
  have hbounded := hm.bounded
  rw [accounts_iff_sum, husage, hconstraints]
  omega

/-- A grant fits and has a number of its own; what is given back is kept under the number of its
grant. -/
def Step.Safe (s : Workers) : Step → Prop
  | .check _ => True
  | .grant i => ∀ request, s.available[i]? = some request →
    s.manager.memoryTracker.currentUsage + request.memory ≤ s.manager.constraints.maxTotalMemory.toNat ∧
      s.manager.memoryOf s.manager.nextGrantId = 0
  | .deallocate grantId => ∀ grant, s.manager.activeGrants.lookup grantId = some grant →
    min (s.manager.freed grantId grant) s.manager.memoryTracker.currentUsage = grant.memory

/-- The accounts after a step. -/
theorem accounts_step {s s' : Workers} {step : Step} (hs : s.manager.Accounts)
    (h : s.step overflowChecks step = .ok s') : s'.manager.Accounts ↔ step.Safe s := by
  rcases step with request | i | grantId
  · unfold Workers.step at h
    obtain ⟨available, -, h⟩ := Result.bind_eq_ok.mp h
    obtain rfl := Except.ok.inj h
    refine iff_of_true ?_ trivial
    rcases available
    · exact hs
    · exact hs
  · simp only [Workers.step] at h
    split at h
    · next request hrequest =>
      obtain ⟨⟨grant, manager⟩, hgrant, h⟩ := Result.bind_eq_ok.mp h
      obtain rfl := Except.ok.inj h
      simp only [Step.Safe, hrequest, Option.some.injEq, forall_eq']
      exact accounts_grantResource hs hgrant
    · next hnone =>
      obtain rfl := Except.ok.inj h
      refine iff_of_true hs fun request hrequest => ?_
      rw [hnone] at hrequest
      cases hrequest
  · simp only [Workers.step] at h
    rcases hdeallocate : s.manager.deallocateResource overflowChecks grantId with e | manager
    · rw [hdeallocate] at h
      rcases e with e | msg | -
      · obtain rfl := Except.ok.inj h
        refine iff_of_true hs fun grant hgrant => ?_
        rw [lookup_of_err hdeallocate] at hgrant
        cases hgrant
      · cases h
      · cases h
    · rw [hdeallocate] at h
      obtain rfl := Except.ok.inj h
      obtain ⟨grant, hlookup, -⟩ := deallocateResource_spec hdeallocate
      simp only [Step.Safe, hlookup, Option.some.injEq, forall_eq']
      exact accounts_deallocateResource hs hlookup hdeallocate

/-- In a run in which no worker panics, the accounts hold after every step if and only if every step is
safe. -/
theorem accounts_iff (overflowChecks : Bool) (constraints : ResourceConstraints) (steps : List Step) :
    (∀ pre, pre <+: steps → ∀ s, Workers.run overflowChecks constraints pre = .ok s → s.manager.Accounts) ↔
      ∀ pre step post, steps = pre ++ step :: post → ∀ s s',
        Workers.run overflowChecks constraints pre = .ok s → s.step overflowChecks step = .ok s' →
          step.Safe s := by
  let Holds : Result Workers → Prop := fun r => ∀ s, r = .ok s → s.manager.Accounts
  have hnew : Holds (.ok ⟨.new constraints, []⟩) := by
    rintro s ⟨⟩
    exact accounts_new constraints
  refine (StateSpec.forall_prefix_iff hnew steps).trans ?_
  refine StateSpec.forall_step_iff (I := Holds)
    (G := fun r step => Holds (r >>= (Workers.step overflowChecks · step)))
    (C := fun r step => ∀ s s', r = .ok s → s.step overflowChecks step = .ok s' → step.Safe s)
    hnew (fun _ _ _ h => h) ?_ steps
  intro r step hr
  constructor
  · intro h s s' hs hstep
    exact (accounts_step (hr s hs) hstep).mp (h s' (Result.bind_eq_ok.mpr ⟨s, hs, hstep⟩))
  · intro h s' hs'
    obtain ⟨s, hs, hstep⟩ := Result.bind_eq_ok.mp hs'
    exact (accounts_step (hr s hs) hstep).mpr (h s s' hs hstep)

/-- A memory grant comes after one for a processor and is given back. -/
def memoryAfterCpu : List Step :=
  [.check ⟨1, .cpu, 1⟩, .grant 0, .check ⟨2, .memory, 100⟩, .grant 0, .deallocate 2]

/-- The memory that is given back stays in use, because the tracker keeps it under the number 1. -/
theorem not_accounts_memoryAfterCpu : ¬ ∀ (overflowChecks : Bool) (constraints : ResourceConstraints)
    (steps pre : List Step), pre <+: steps →
      ∀ s, Workers.run overflowChecks constraints pre = .ok s → s.manager.Accounts := by
  intro h
  have hrun : (Workers.run true ⟨1000, 4, 64⟩ memoryAfterCpu).toOption.map (fun s =>
      (s.manager.memoryTracker.currentUsage, s.manager.activeGrants.total ResourceGrant.memory)) =
        some (100, 0) := by
    decide +kernel
  rcases hrun' : Workers.run true ⟨1000, 4, 64⟩ memoryAfterCpu with e | s
  · rw [hrun'] at hrun
    cases hrun
  · rw [hrun'] at hrun
    obtain ⟨husage, htotal⟩ := Prod.mk.inj (Option.some.inj hrun)
    have hsum := (h true ⟨1000, 4, 64⟩ _ _ (List.prefix_refl memoryAfterCpu) s hrun').sum
    omega

end ResourceManager

end Rustgresql
