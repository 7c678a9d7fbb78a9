import Mathlib

/-!
# Files as byte strings with a cursor

A `ByteFile` holds the bytes of a file, the position of its cursor and a script of faults: each call
consumes the head of the script, and `some n` there makes the call fail, a write having stored its
first `n` bytes. An empty script is a file that stores bytes faithfully; the lemmas of this module
describe every call on such a file.
-/

namespace ByteFile

/-- Why a call on a file failed. -/
inductive IoError
  | failed
  | invalidInput
  | unexpectedEof
  deriving DecidableEq, Repr

end ByteFile

open ByteFile in
/-- The state of an open file. -/
structure ByteFile where
  bytes : List UInt8
  cursor : ℕ
  faults : List (Option ℕ)
  deriving DecidableEq, Repr

namespace ByteFile

/-- A computation on an open file. -/
abbrev Io := EStateM IoError ByteFile

/-- A freshly created empty file on which no call fails. -/
def empty : ByteFile := ⟨[], 0, []⟩

/-- Bytes `new` stored at `pos`; a gap before `pos` reads as zeros. -/
def overwrite (bytes : List UInt8) (pos : ℕ) (new : List UInt8) : List UInt8 :=
  bytes.take pos ++ List.replicate (pos - bytes.length) 0 ++ new ++ bytes.drop (pos + new.length)

/-- Start a call: on a scripted fault store what `partialWrite` says and fail. -/
def guarded {α : Type} (partialWrite : ℕ → ByteFile → ByteFile) (act : Io α) : Io α := fun f =>
  match f.faults with
  | [] => act f
  | none :: rest => act { f with faults := rest }
  | some n :: rest => .error .failed (partialWrite n { f with faults := rest })

/-- Move the cursor to an absolute position; offsets beyond the signed 64-bit range are refused. -/
def seekStart (pos : ℕ) : Io Unit :=
  guarded (fun _ f => f) fun f =>
    if pos < 2 ^ 63 then .ok () { f with cursor := pos } else .error .invalidInput f

/-- Move the cursor to the end of the file. -/
def seekEnd : Io Unit :=
  guarded (fun _ f => f) fun f => .ok () { f with cursor := f.bytes.length }

/-- Move the cursor forward, possibly past the end of the file. -/
def seekForward (n : ℕ) : Io Unit :=
  guarded (fun _ f => f) fun f => .ok () { f with cursor := f.cursor + n }

/-- Read at most `n` bytes; fewer only at the end of the file. -/
def read (n : ℕ) : Io (List UInt8) :=
  guarded (fun _ f => f) fun f =>
    .ok ((f.bytes.drop f.cursor).take n)
      { f with cursor := f.cursor + ((f.bytes.drop f.cursor).take n).length }

/-- Read exactly `n` bytes or fail. -/
def readExact (n : ℕ) : Io (List UInt8) :=
  guarded (fun _ f => f) fun f =>
    if n ≤ (f.bytes.drop f.cursor).length then
      .ok ((f.bytes.drop f.cursor).take n) { f with cursor := f.cursor + n }
    else .error .unexpectedEof { f with cursor := f.bytes.length }

/-- Store bytes at the cursor. -/
def store (bs : List UInt8) (f : ByteFile) : ByteFile :=
  { f with bytes := overwrite f.bytes f.cursor bs, cursor := f.cursor + bs.length }

/-- Write all of `bs` at the cursor. -/
def writeAll (bs : List UInt8) : Io Unit :=
  guarded (fun n => store (bs.take n)) fun f => .ok () (store bs f)

/-- Hand buffered bytes to the operating system. -/
def flush : Io Unit :=
  guarded (fun _ f => f) fun f => .ok () f

/-- Force the file to disk. -/
def syncAll : Io Unit :=
  guarded (fun _ f => f) fun f => .ok () f

/-! ## Calls on a file without faults -/

section Faithful

variable {f : ByteFile}

theorem seekStart_run (h : f.faults = []) {pos : ℕ} (hpos : pos < 2 ^ 63) :
    seekStart pos f = .ok () { f with cursor := pos } := by
  simp only [seekStart, guarded, h, if_pos hpos]

theorem seekEnd_run (h : f.faults = []) :
    seekEnd f = .ok () { f with cursor := f.bytes.length } := by
  simp only [seekEnd, guarded, h]

theorem seekForward_run (h : f.faults = []) (n : ℕ) :
    seekForward n f = .ok () { f with cursor := f.cursor + n } := by
  simp only [seekForward, guarded, h]

theorem read_run (h : f.faults = []) (n : ℕ) :
    read n f = .ok ((f.bytes.drop f.cursor).take n)
      { f with cursor := f.cursor + ((f.bytes.drop f.cursor).take n).length } := by
  simp only [read, guarded, h]

theorem readExact_run (h : f.faults = []) {n : ℕ} (hn : n ≤ (f.bytes.drop f.cursor).length) :
    readExact n f = .ok ((f.bytes.drop f.cursor).take n) { f with cursor := f.cursor + n } := by
  simp only [readExact, guarded, h, if_pos hn]

theorem writeAll_run (h : f.faults = []) (bs : List UInt8) :
    writeAll bs f = .ok () (store bs f) := by
  simp only [writeAll, guarded, h]

theorem flush_run (h : f.faults = []) : flush f = .ok () f := by
  simp only [flush, guarded, h]

theorem syncAll_run (h : f.faults = []) : syncAll f = .ok () f := by
  simp only [syncAll, guarded, h]

end Faithful

/-! ## Calls on a file with faults -/

/-- None of the next `n` calls fails. -/
def NoFault (n : ℕ) (faults : List (Option ℕ)) : Prop := ∀ fault ∈ faults.take n, fault = none

theorem NoFault.zero (faults : List (Option ℕ)) : NoFault 0 faults := nofun

theorem noFault_add {m n : ℕ} {faults : List (Option ℕ)} :
    NoFault (m + n) faults ↔ NoFault m faults ∧ NoFault n (faults.drop m) := by
  simp only [NoFault, List.take_add, List.mem_append, or_imp, forall_and]

/-- The computation makes `n` calls. If none of them fails it does `g` to the bytes and the cursor;
otherwise it fails. -/
def Runs {ε : Type} (n : ℕ) (act : EStateM ε ByteFile Unit) (g : List UInt8 × ℕ → List UInt8 × ℕ) : Prop :=
  ∀ p faults, (NoFault n faults →
      act ⟨p.1, p.2, faults⟩ = .ok () ⟨(g p).1, (g p).2, faults.drop n⟩) ∧
    (¬ NoFault n faults → ∃ e f, act ⟨p.1, p.2, faults⟩ = .error e f)

theorem Runs.pure {ε : Type} : Runs 0 (Pure.pure () : EStateM ε ByteFile Unit) id :=
  fun _ faults => ⟨fun _ => rfl, fun h => absurd (NoFault.zero faults) h⟩

theorem Runs.seq {ε : Type} {m n : ℕ} {act act' : EStateM ε ByteFile Unit}
    {g g' : List UInt8 × ℕ → List UInt8 × ℕ} (h : Runs m act g) (h' : Runs n act' g') :
    Runs (m + n) (act >>= fun _ => act') (g' ∘ g) := by
  intro p faults
  by_cases hm : NoFault m faults
  · have hfirst := (h p faults).1 hm
    obtain ⟨hok, herror⟩ := h' (g p) (faults.drop m)
    have hbind : (act >>= fun _ => act') ⟨p.1, p.2, faults⟩ = act' ⟨(g p).1, (g p).2, faults.drop m⟩ := by
      simp only [bind, EStateM.bind, hfirst]
    rw [hbind, noFault_add, ← List.drop_drop]
    exact ⟨fun hnone => hok hnone.2, fun hfault => herror fun hn => hfault ⟨hm, hn⟩⟩
  · obtain ⟨e, f, hfirst⟩ := (h p faults).2 hm
    refine ⟨fun hnone => absurd (noFault_add.mp hnone).1 hm, fun _ => ⟨e, f, ?_⟩⟩
    simp only [bind, EStateM.bind, hfirst]

/-- One call -/
theorem Runs.guarded {partialWrite : ℕ → ByteFile → ByteFile} {act : Io Unit}
    {g : List UInt8 × ℕ → List UInt8 × ℕ}
    (h : ∀ p faults, act ⟨p.1, p.2, faults⟩ = .ok () ⟨(g p).1, (g p).2, faults⟩) :
    Runs 1 (ByteFile.guarded partialWrite act) g := by
  intro p faults
  match faults with
  | [] => exact ⟨fun _ => h p [], fun hfault => absurd nofun hfault⟩
  | none :: rest =>
    refine ⟨fun _ => h p rest, fun hfault => absurd (fun fault hmem => ?_) hfault⟩
    exact List.mem_singleton.mp hmem
  | some k :: rest =>
    refine ⟨fun hnone => ?_, fun _ => ⟨_, _, rfl⟩⟩
    cases hnone (some k) List.mem_cons_self

theorem Runs.seekEnd : Runs 1 seekEnd fun p => (p.1, p.1.length) := .guarded fun _ _ => rfl

theorem Runs.writeAll (bs : List UInt8) :
    Runs 1 (writeAll bs) fun p => (overwrite p.1 p.2 bs, p.2 + bs.length) := .guarded fun _ _ => rfl

theorem Runs.flush : Runs 1 flush id := .guarded fun _ _ => rfl

theorem Runs.syncAll : Runs 1 syncAll id := .guarded fun _ _ => rfl

/-! ## What was written is what is read -/

/-- The bytes stored at `pos` are read back from `pos`. -/
theorem take_drop_overwrite (bytes : List UInt8) (pos : ℕ) (new : List UInt8) :
    ((overwrite bytes pos new).drop pos).take new.length = new := by
  have hlen : (bytes.take pos ++ List.replicate (pos - bytes.length) (0 : UInt8)).length = pos := by
    rw [List.length_append, List.length_take, List.length_replicate]
    omega
  rw [overwrite, List.append_assoc, List.drop_left' hlen, List.take_left]

/-- The bytes have that part at a position. -/
def HasAt (bytes : List UInt8) (pos : ℕ) (part : List UInt8) : Prop := (bytes.drop pos).take part.length = part

theorem hasAt_overwrite (bytes : List UInt8) (pos : ℕ) (new : List UInt8) : HasAt (overwrite bytes pos new) pos new :=
  take_drop_overwrite bytes pos new

/-- Bytes before and after those that are written -/
theorem getElem?_overwrite {bytes new : List UInt8} {pos i : ℕ} (hi : i < bytes.length)
    (h : i < pos ∨ pos + new.length ≤ i) : (overwrite bytes pos new)[i]? = bytes[i]? := by
  rcases h with hbefore | hafter
  · have hlen : i < (bytes.take pos).length := by
      rw [List.length_take]
      omega
    rw [overwrite, List.append_assoc, List.append_assoc, List.getElem?_append_left hlen,
      List.getElem?_take_of_lt hbefore]
  · have hlen : (bytes.take pos ++ List.replicate (pos - bytes.length) (0 : UInt8) ++ new).length =
        pos + new.length := by
      rw [List.length_append, List.length_append, List.length_take, List.length_replicate]
      omega
    rw [overwrite, List.getElem?_append_right (by omega), hlen, List.getElem?_drop]
    congr 1
    omega

/-- A part that ends before the bytes that are written, or begins after them, stays. -/
theorem HasAt.overwrite {bytes new part : List UInt8} {pos start : ℕ} (hpart : HasAt bytes start part)
    (h : start + part.length ≤ pos ∨ pos + new.length ≤ start) : HasAt (overwrite bytes pos new) start part := by
  have hlen := congrArg List.length hpart
  rw [List.length_take, List.length_drop] at hlen
  unfold HasAt at hpart ⊢
  conv_rhs => rw [← hpart]
  refine List.ext_getElem? fun i => ?_
  rw [List.getElem?_take, List.getElem?_take]
  split_ifs with hi
  · rw [List.getElem?_drop, List.getElem?_drop]
    exact getElem?_overwrite (by omega) (by omega)
  · rfl

/-- Writing at the end of the file appends. -/
theorem overwrite_end (bytes new : List UInt8) :
    overwrite bytes bytes.length new = bytes ++ new := by
  simp [overwrite]

end ByteFile
