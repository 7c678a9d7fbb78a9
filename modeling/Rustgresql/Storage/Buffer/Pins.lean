import Rustgresql.Storage.Buffer

/-!
# Pins

How the calls on the buffer pool change the pin counts of its frames. Only `unpin_page` and
`delete_page` take pins away; `fetch_page` adds one whenever it gives out a page, and may add one also
when it fails.
-/

namespace Rustgresql

open StateSpec

namespace BufferPoolManager

variable {n : ℕ} {φ : Type} {m m' : BufferPoolManager n φ}

/-- How often the frames are pinned. -/
def pins (m : BufferPoolManager n φ) (i : Fin n) : ℕ := (m.bufferPool.frames i).pinCount.toNat

theorem pins_of_frames (h : m'.bufferPool.frames = m.bufferPool.frames) : pins m' = pins m := by
  funext i
  rw [pins, pins, h]

theorem pins_of_pool (h : m'.bufferPool = m.bufferPool) : pins m' = pins m :=
  pins_of_frames (congrArg _ h)

/-- A changed frame is pinned as often as the change says. -/
theorem pins_of_update {i : Fin n} {f : BufferFrame}
    (h : m'.bufferPool.frames = Function.update m.bufferPool.frames i f) :
    pins m' = Function.update (pins m) i f.pinCount.toNat := by
  funext j
  rw [pins, h]
  by_cases hij : j = i
  · rw [hij, Function.update_self, Function.update_self]
  · rw [Function.update_of_ne hij, Function.update_of_ne hij, pins]

/-- A change of a frame that leaves its pin count. -/
theorem pins_setFrame {i : Fin n} {f : BufferFrame → BufferFrame}
    (hf : (f (m.bufferPool.frames i)).pinCount = (m.bufferPool.frames i).pinCount) :
    Spec (setFrame i f) m
      (fun _ m' => pins m' = pins m ∧ m'.bufferPool.pageToFrame = m.bufferPool.pageToFrame)
      (fun _ _ => False) := by
  refine ⟨(pins_of_update rfl).trans ?_, rfl⟩
  rw [hf]
  exact Function.update_eq_self i (pins m)

/-- One more pin on a frame. -/
theorem lt_update_succ (q : Fin n → ℕ) (i : Fin n) : q < Function.update q i (q i + 1) := by
  refine Pi.lt_def.mpr ⟨fun j => ?_, i, ?_⟩
  · by_cases hij : j = i
    · rw [hij, Function.update_self]
      exact Nat.le_succ _
    · rw [Function.update_of_ne hij]
  · rw [Function.update_self]
    exact Nat.lt_succ_self _

/-- Pinning adds one pin, or the count is full and nothing happens. -/
theorem pin_cases (i : Fin n) (m : BufferPoolManager n φ) :
    (∃ m', pin i m = .ok () m' ∧ pins m i + 1 < 2 ^ 32 ∧
        pins m' = Function.update (pins m) i (pins m i + 1) ∧
        m'.bufferPool.pageToFrame = m.bufferPool.pageToFrame) ∨
      ∃ e, pin i m = .error e m ∧ ¬ pins m i + 1 < 2 ^ 32 := by
  by_cases hfits : pins m i + 1 < 2 ^ 32
  · refine .inl ⟨_, pin_of_fits hfits, hfits, ?_, rfl⟩
    have hcount : ((m.bufferPool.frames i).pinCount + 1).toNat = pins m i + 1 := by
      rw [UInt32.toNat_add]
      exact Nat.mod_eq_of_lt hfits
    rw [← hcount]
    exact pins_of_update (f := { m.bufferPool.frames i with
      pinCount := (m.bufferPool.frames i).pinCount + 1 }) rfl
  · refine .inr ⟨.panic "attempt to add with overflow", ?_, hfits⟩
    rw [pin, get_bind]
    exact bind_of_error (require_of_not hfits _ _)

/-- The search for a frame leaves the frames and the map from pages to frames. -/
theorem pins_findAvailableFrame (m : BufferPoolManager n φ) :
    Spec findAvailableFrame m (fun _ m' => pins m' = pins m) (fun _ m' => pins m' = pins m) := by
  rcases findAvailableFrame_cases m with ⟨i, lruList, hfound⟩ | ⟨hnone, -⟩
  · exact Spec.of_ok hfound.run rfl
  · unfold Spec
    rw [hnone]
    rfl

/-- Unpinning takes at most one pin, off the frame of the page. -/
theorem pins_unpinPage {q : Fin n → ℕ} {p : PageId} (dirty : Bool) (hq : q ≤ pins m)
    (hmore : ∀ i, m.bufferPool.pageToFrame.lookup p = some i → q i < pins m i) :
    Spec (unpinPage p dirty) m (fun _ m' => q ≤ pins m') (fun _ m' => q ≤ pins m') := by
  rcases unpinPage_cases p dirty m with ⟨⟨e, hrun⟩, -⟩ | ⟨i, hlookup, hpin, hrun⟩
  · unfold Spec
    rw [hrun]
    exact hq
  · have hlt := hmore i hlookup
    have hone : (1 : UInt32) ≤ (m.bufferPool.frames i).pinCount := by
      rw [UInt32.le_iff_toNat_le]
      exact Nat.one_le_of_lt hlt
    refine Spec.of_ok hrun fun j => ?_
    rw [pins_of_update rfl]
    by_cases hij : j = i
    · rw [hij, Function.update_self, UInt32.toNat_sub_of_le _ _ hone]
      exact Nat.le_sub_one_of_lt hlt
    · rw [Function.update_of_ne hij]
      exact hq j

/-- Remapping leads the page to the frame. -/
theorem lookup_remap_self (i : Fin n) (p : PageId) (b : BufferPool n) :
    (remap i p b).pageToFrame.lookup p = some i := AList.lookup_insert _

/-- The pins are `q`, and the page is in that frame. -/
def PinsAt (q : Fin n → ℕ) (p : PageId) (i : Fin n) (m : BufferPoolManager n φ) : Prop :=
  pins m = q ∧ m.bufferPool.pageToFrame.lookup p = some i

variable {q : Fin n → ℕ} {p : PageId} {i : Fin n}

theorem PinsAt.spec_onFm {α : Type} (h : PinsAt q p i m) (act : EStateM Failure φ α) :
    Spec (onFm act) m (fun _ => PinsAt q p i) (fun _ m' => pins m' = q) :=
  (BufferPoolManager.spec_onFm act m).mono
    (fun _ _ h' => ⟨(pins_of_pool h'.1).trans h.1, h'.1 ▸ h.2⟩)
    fun _ _ h' => (pins_of_pool h'.1).trans h.1

theorem PinsAt.spec_setFrame (h : PinsAt q p i m) {f : BufferFrame → BufferFrame}
    (hf : (f (m.bufferPool.frames i)).pinCount = (m.bufferPool.frames i).pinCount)
    {E : Failure → BufferPoolManager n φ → Prop} :
    Spec (setFrame i f) m (fun _ => PinsAt q p i) E :=
  (pins_setFrame hf).mono (fun _ _ h' => ⟨h'.1.trans h.1, h'.2 ▸ h.2⟩) fun _ _ h' => h'.elim

theorem PinsAt.spec_pin (h : PinsAt q p i m) :
    Spec (pin i) m (fun _ => PinsAt (Function.update q i (q i + 1)) p i) (fun _ m' => pins m' = q) := by
  rcases pin_cases i m with ⟨m', hrun, -, hpins, hmap⟩ | ⟨e, hrun, -⟩
  · refine Spec.of_ok hrun ⟨?_, ?_⟩
    · rw [hpins, h.1]
    · rw [hmap, h.2]
  · unfold Spec
    rw [hrun]
    exact h.1

section Calls

variable [FileManager φ]

/-- Loading a page into a frame pins the frame, unless it fails before. -/
theorem pins_loadInto (p : PageId) (i : Fin n) (m : BufferPoolManager n φ) :
    Spec (loadInto p i) m (fun _ => PinsAt (Function.update (pins m) i (pins m i + 1)) p i)
      (fun _ m' => pins m' = pins m) := by
  unfold loadInto
  refine Spec.bind (Q := fun s m' => m = s ∧ m = m') ⟨rfl, rfl⟩ ?_
  rintro _ _ ⟨rfl, rfl⟩
  refine ((pool_writeBack _ _).mono (fun _ _ => pins_of_pool) fun _ _ => pins_of_pool).bind ?_
  intro _ m₁ h₁
  -- the maps are changed before the page is read
  refine Spec.bind (Q := fun _ => PinsAt (pins m) p i)
    ⟨(pins_of_frames (frames_remap i p _)).trans h₁, lookup_remap_self i p _⟩ ?_
  intro _ m₂ h₂
  refine (h₂.spec_onFm _).bind fun page m₃ h₃ => ?_
  refine (h₃.spec_setFrame rfl).bind fun _ m₄ h₄ => ?_
  refine h₄.spec_pin.bind fun _ m₅ h₅ => ?_
  exact (h₅.spec_setFrame rfl).bind fun _ m₆ h₆ => h₆

/-- Loading a page that is not in the buffer pins one frame, or fails and pins none. -/
theorem pins_loadPage (p : PageId) (m : BufferPoolManager n φ) :
    Spec (loadPage p) m
      (fun _ m' => ∃ i, pins m' = Function.update (pins m) i (pins m i + 1) ∧
        m'.bufferPool.pageToFrame.lookup p = some i)
      (fun _ m' => pins m' = pins m) := by
  unfold loadPage
  refine (pins_findAvailableFrame m).bind fun i m₁ h₁ => ?_
  refine (pins_loadInto p i m₁).mono (fun _ m' h => ⟨i, ?_, h.2⟩) fun _ m' h => h.trans h₁
  rw [h.1, h₁]

/-- The page is in a frame whose pin count is full, or it is in no frame and cannot be loaded. -/
def Unfetchable (p : PageId) (m : BufferPoolManager n φ) : Prop :=
  match m.bufferPool.pageToFrame.lookup p with
  | some i => 2 ^ 32 ≤ pins m i + 1
  | none => ∃ e m', loadPage p m = .error e m'

/-- No pin has changed if the page is unfetchable, and there are more pins if it is not. -/
def Counted (p : PageId) (m m' : BufferPoolManager n φ) : Prop :=
  Unfetchable p m ∧ pins m' = pins m ∨ ¬ Unfetchable p m ∧ pins m < pins m'

theorem Counted.le {p : PageId} (h : Counted p m m') : pins m ≤ pins m' := by
  rcases h with ⟨-, h⟩ | ⟨-, h⟩
  · exact h.ge
  · exact h.le

/-- A fetched page is in a frame that has one more pin than before. -/
theorem pins_fetchPage (p : PageId) (m : BufferPoolManager n φ) :
    Spec (fetchPage p) m
      (fun _ m' => ¬ Unfetchable p m ∧ pins m < pins m' ∧
        ∃ i, m'.bufferPool.pageToFrame.lookup p = some i ∧ pins m i < pins m' i)
      (fun _ m' => Counted p m m') := by
  cases hlookup : m.bufferPool.pageToFrame.lookup p with
  | none =>
    have hspec := pins_loadPage p m
    have hiff : Unfetchable p m ↔ ∃ e m', loadPage p m = .error e m' := by
      rw [Unfetchable, hlookup]
    unfold Spec
    rw [fetchPage_of_miss hlookup]
    cases hrun : loadPage p m with
    | ok page m' =>
      obtain ⟨i, hpins, hi⟩ := hspec.post hrun
      refine ⟨?_, ?_, i, hi, ?_⟩
      · rw [hiff, hrun]
        rintro ⟨e, m'', h⟩
        cases h
      · rw [hpins]
        exact lt_update_succ _ i
      · rw [hpins, Function.update_self]
        exact Nat.lt_succ_self _
    | error e m' => exact .inl ⟨hiff.mpr ⟨e, m', hrun⟩, hspec.fail hrun⟩
  | some i =>
    have hiff : Unfetchable p m ↔ ¬ pins m i + 1 < 2 ^ 32 := by
      rw [Unfetchable, hlookup, not_lt]
    unfold Spec
    rw [fetchPage, get_bind, hlookup]
    dsimp only
    rcases pin_cases i m with ⟨m₁, hpin, hfits, hpins, hmap⟩ | ⟨e, hpin, hfull⟩
    · have hnot : ¬ Unfetchable p m := hiff.not.mpr (not_not_intro hfits)
      have hlt : pins m < pins m₁ := hpins ▸ lt_update_succ _ i
      rw [bind_of_ok hpin]
      refine Spec.bind (Q := fun _ m' => pins m' = pins m₁ ∧
        m'.bufferPool.pageToFrame.lookup p = some i) ⟨rfl, ?_⟩ ?_
      · show m₁.bufferPool.pageToFrame.lookup p = some i
        rw [hmap, hlookup]
      rintro _ m₂ ⟨h₂, hlookup₂⟩
      refine Spec.bind (Q := fun s m' => m₂ = s ∧ m₂ = m') ⟨rfl, rfl⟩ ?_
      rintro _ _ ⟨rfl, rfl⟩
      split
      · refine Spec.pure ⟨hnot, h₂ ▸ hlt, i, hlookup₂, ?_⟩
        rw [h₂, hpins, Function.update_self]
        exact Nat.lt_succ_self _
      · -- the frame has lost its page, and another frame may be pinned as well
        refine (pins_loadPage p m₂).mono ?_ fun _ m' h => .inr ⟨hnot, h ▸ h₂ ▸ hlt⟩
        rintro _ m' ⟨j, hpins', hj⟩
        rw [h₂] at hpins'
        refine ⟨hnot, hlt.trans (hpins' ▸ lt_update_succ _ j), j, hj, ?_⟩
        rw [hpins', Function.update_self]
        exact Nat.lt_succ_of_le (hlt.le j)
    · rw [bind_of_error hpin]
      exact .inl ⟨hiff.mpr hfull, rfl⟩

/-- `new_page` takes no pin away. -/
theorem pins_newPage (t : PageType) (m : BufferPoolManager n φ) :
    Spec (newPage t) m (fun _ m' => pins m ≤ pins m') (fun _ m' => pins m ≤ pins m') := by
  unfold newPage
  refine ((spec_onFm _ m).mono (fun _ _ h => pins_of_pool h.1) fun _ _ h =>
    (pins_of_pool h.1).ge).bind fun p m₁ h₁ => ?_
  have hfetch : Spec (fetchPage p) m₁ (fun _ m' => pins m ≤ pins m') (fun _ m' => pins m ≤ pins m') :=
    (pins_fetchPage p m₁).mono (fun _ _ h => h₁.ge.trans h.2.1.le) fun _ _ h => h₁.ge.trans h.le
  exact hfetch.bind fun _ _ h => h

end Calls

end BufferPoolManager

end Rustgresql
