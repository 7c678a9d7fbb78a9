import Rustgresql.Lib.ByteFile

/-!
# Errors and identifiers

The error type of the engine and the identifiers that its modules share. A call returns a value,
returns an error, panics, or waits forever; `Failure` is what it leaves behind if it does not return a
value, and `Result` is the outcome of a call that keeps no state.
-/

namespace Rustgresql

/-- Page numbers of the database file. -/
abbrev PageId := UInt64

/-- Transaction numbers. -/
abbrev TransactionId := UInt64

/-- Log sequence numbers. -/
abbrev LSN := UInt64

/-- The error values of `error.rs` that the modelled layers return. -/
inductive RustgreSQLError
  | io (e : ByteFile.IoError)
  | serialization (msg : String)
  | pageNotFound (pageId : PageId)
  | transaction (msg : String)
  | storage (msg : String)
  | index (msg : String)
  | corruption (msg : String)
  | internal (msg : String)
  | execution (msg : String)
  | type (msg : String)
  | notFound (msg : String)
  | alreadyExists (msg : String)
  | invalidOperation (msg : String)
  | column (msg : String)
  | constraint (msg : String)
  | procedure (msg : String)
  | parse (msg : String)
  | ddl (msg : String)
  | dependentObjects (msg : String)
  deriving DecidableEq, Repr

/-- The text of an operating-system error. -/
def ioErrorText : ByteFile.IoError → String
  | .failed => "Input/output error (os error 5)"
  | .invalidInput => "Invalid argument (os error 22)"
  | .unexpectedEof => "failed to fill whole buffer"

/-- The `#[error(...)]` text of an error. -/
def RustgreSQLError.display : RustgreSQLError → String
  | .io e => s!"I/O error: {ioErrorText e}"
  | .serialization msg => s!"Serialization error: {msg}"
  | .pageNotFound pageId => s!"Page not found: {pageId}"
  | .transaction msg => s!"Transaction error: {msg}"
  | .storage msg => s!"Storage error: {msg}"
  | .index msg => s!"Index error: {msg}"
  | .corruption msg => s!"Database corruption detected: {msg}"
  | .internal msg => s!"Internal error: {msg}"
  | .execution msg => s!"Execution error: {msg}"
  | .type msg => s!"Type error: {msg}"
  | .notFound msg => s!"Not found: {msg}"
  | .alreadyExists msg => s!"Already exists: {msg}"
  | .invalidOperation msg => s!"Invalid operation: {msg}"
  | .column msg => s!"Column error: {msg}"
  | .constraint msg => s!"Constraint error: {msg}"
  | .procedure msg => s!"Procedure error: {msg}"
  | .parse msg => s!"Parse error: {msg}"
  | .ddl msg => s!"DDL error: {msg}"
  | .dependentObjects msg => s!"Dependent objects: {msg}"

/-- The text of a `bincode` decoding error. The engine only copies it into its own errors. -/
def bincodeErrorText : String := "io error: unexpected end of file"

/-- How a call can end without a value: with an `Err`, by a panic, or not at all, because it waits for
a lock that it holds itself. -/
inductive Failure
  | err (e : RustgreSQLError)
  | panic (msg : String)
  | deadlock
  deriving DecidableEq, Repr

/-- The outcome of a call that keeps no state. -/
abbrev Result := Except Failure

theorem Result.bind_eq_ok {α β : Type} {x : Result α} {f : α → Result β} {b : β} :
    x >>= f = .ok b ↔ ∃ a, x = .ok a ∧ f a = .ok b := by
  rcases x with e | a
  · simp [bind, Except.bind]
  · simp [bind, Except.bind]

theorem Result.bind_eq_error {α β : Type} {x : Result α} {f : α → Result β} {e : Failure} :
    x >>= f = .error e ↔ x = .error e ∨ ∃ a, x = .ok a ∧ f a = .error e := by
  rcases x with e' | a
  · simp [bind, Except.bind]
  · simp [bind, Except.bind]

theorem Result.map_eq_ok {α β : Type} {x : Result α} {f : α → β} {b : β} :
    f <$> x = .ok b ↔ ∃ a, x = .ok a ∧ f a = b := by
  rcases x with e | a
  · simp [Functor.map, Except.map]
  · simp [Functor.map, Except.map]

/-- A loop whose steps all succeed. -/
theorem Result.foldlM_eq_ok {σ α : Type} {f : σ → α → Result σ} {g : σ → α → σ} {l : List α}
    (h : ∀ a ∈ l, ∀ s, f s a = .ok (g s a)) (s : σ) : l.foldlM f s = .ok (l.foldl g s) := by
  induction l generalizing s with
  | nil => rfl
  | cons a l ih =>
    obtain ⟨ha, hl⟩ := List.forall_mem_cons.mp h
    rw [List.foldlM_cons, ha, List.foldl_cons]
    exact ih hl (g s a)

/-- The steps of a loop that succeeds have all succeeded. -/
theorem Result.exists_of_foldlM {σ α : Type} {f : σ → α → Result σ} {l : List α} {s s' : σ}
    (h : l.foldlM f s = .ok s') : ∀ a ∈ l, ∃ s₁ s₂, f s₁ a = .ok s₂ := by
  induction l generalizing s with
  | nil => nofun
  | cons a l ih =>
    rw [List.foldlM_cons] at h
    obtain ⟨s₂, ha, hl⟩ := Result.bind_eq_ok.mp h
    exact List.forall_mem_cons.mpr ⟨⟨s, s₂, ha⟩, ih hl⟩

/-- `Vec::resize`: cut or pad a vector to exactly `n` elements. -/
def resize {α : Type} (l : List α) (n : ℕ) (a : α) : List α :=
  l.take n ++ List.replicate (n - l.length) a

@[simp] theorem resize_length {α : Type} (l : List α) (n : ℕ) (a : α) :
    (resize l n a).length = n := by
  rw [resize, List.length_append, List.length_take, List.length_replicate]
  omega

theorem resize_of_length {α : Type} {l : List α} {n : ℕ} (h : l.length = n) (a : α) :
    resize l n a = l := by
  simp [resize, ← h]

end Rustgresql
