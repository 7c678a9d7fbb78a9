import Rustgresql.Executor.Scanner
import Rustgresql.I64
import Rustgresql.Lib.PrefixCode
import Rustgresql.Lib.Wire

/-!
# Keys of stored rows

A row is stored under the values of its primary key, which are serialized one after another without separators.
`generateRowKey_eq_iff`: the keys of two rows are equal exactly if the rows hold the same values in all columns of
the primary key. Values are the same if they are of one kind and hold the same; the two zeros are different
values here, and one NaN is the same as itself.
-/

namespace Rustgresql

open Wire Codec

/-- Row data stored in the database -/
structure TableScanner.RowData where
  values : Row
  rowId : Option UInt64

/-! ## Serialized values -/

section Serialization

-- the text under which the serializer writes a timestamp
variable (timestampText : ℤ → String)

namespace Value

/-- The variant index under which `bincode` stores a kind of value. -/
def variantIndex : Value → UInt32
  | integer _ => 0
  | string _ => 1
  | boolean _ => 2
  | float _ => 3
  | timestamp _ => 4
  | list _ => 5
  | null => 6

mutual

/-- What `bincode` writes after the variant index. -/
def payload : Value → List UInt8
  | integer i => i64.encode i
  | string s => Codec.string.encode s
  | boolean b => [if b then 1 else 0]
  | float bits => u64.encode bits
  | timestamp nanos => Codec.string.encode (timestampText nanos)
  | list vs => u64.encode (UInt64.ofNat vs.length) ++ serializeAll vs
  | null => []

def serializeAll : List Value → List UInt8
  | [] => []
  | v :: vs => u32.encode v.variantIndex ++ payload v ++ serializeAll vs

end

/-- The `bincode` form of a value. -/
def serialize (v : Value) : List UInt8 := u32.encode v.variantIndex ++ v.payload timestampText

mutual

/-- The value is one of the machine: its integers are of 64 bits, and its texts and lists fit into memory. -/
def Fits : Value → Prop
  | integer i => I64.InRange i
  | string s => (utf8 s).length < 2 ^ 64
  | timestamp nanos => (utf8 (timestampText nanos)).length < 2 ^ 64
  | list vs => vs.length < 2 ^ 64 ∧ FitAll vs
  | _ => True

def FitAll : List Value → Prop
  | [] => True
  | v :: vs => v.Fits ∧ FitAll vs

end

variable {timestampText}

/-- What follows two values tells them apart no more than the values do. -/
theorem serialize_append_inj (v w : Value)
    (hpayload : v.variantIndex = w.variantIndex → ∀ l l', v.payload timestampText ++ l = w.payload timestampText ++ l' →
      v = w ∧ l = l') {l l' : List UInt8}
    (h : v.serialize timestampText ++ l = w.serialize timestampText ++ l') : v = w ∧ l = l' := by
  rw [serialize, serialize, List.append_assoc, List.append_assoc] at h
  obtain ⟨hvariant, hrest⟩ := u32.encode_append_inj (u32_valid _) (u32_valid _) h
  exact hpayload hvariant l l' hrest

mutual

theorem payload_append_inj (htext : Function.Injective timestampText) : ∀ (v w : Value), v.Fits timestampText → w.Fits timestampText →
    v.variantIndex = w.variantIndex → ∀ l l', v.payload timestampText ++ l = w.payload timestampText ++ l' →
    v = w ∧ l = l'
  | integer i, w, hv, hw, hvariant, l, l', h => by
    cases w
    case integer j =>
      obtain ⟨rfl, hl⟩ := i64.encode_append_inj ⟨hv.1, Int.lt_of_le_sub_one hv.2⟩ ⟨hw.1, Int.lt_of_le_sub_one hw.2⟩ h
      exact ⟨rfl, hl⟩
    all_goals simp [variantIndex] at hvariant
  | string s, w, hv, hw, hvariant, l, l', h => by
    cases w
    case string t =>
      obtain ⟨rfl, hl⟩ := Codec.string.encode_append_inj hv hw h
      exact ⟨rfl, hl⟩
    all_goals simp [variantIndex] at hvariant
  | boolean b, w, _, _, hvariant, l, l', h => by
    cases w
    case boolean c => cases b <;> cases c <;> simp_all [payload]
    all_goals simp [variantIndex] at hvariant
  | float x, w, _, _, hvariant, l, l', h => by
    cases w
    case float y =>
      obtain ⟨rfl, hl⟩ := u64.encode_append_inj (u64_valid _) (u64_valid _) h
      exact ⟨rfl, hl⟩
    all_goals simp [variantIndex] at hvariant
  | timestamp m, w, hv, hw, hvariant, l, l', h => by
    cases w
    case timestamp n =>
      obtain ⟨hmn, hl⟩ := Codec.string.encode_append_inj hv hw h
      exact ⟨congrArg timestamp (htext hmn), hl⟩
    all_goals simp [variantIndex] at hvariant
  | list vs, w, hv, hw, hvariant, l, l', h => by
    cases w
    case list ws =>
      rw [payload, payload, List.append_assoc, List.append_assoc] at h
      obtain ⟨hlength, hrest⟩ := u64.encode_append_inj (u64_valid _) (u64_valid _) h
      have hsame : vs.length = ws.length := by
        have hnat := congrArg UInt64.toNat hlength
        rwa [UInt64.toNat_ofNat_of_lt' hv.1, UInt64.toNat_ofNat_of_lt' hw.1] at hnat
      obtain ⟨rfl, hl⟩ := serializeAll_append_inj htext vs ws hv.2 hw.2 hsame l l' hrest
      exact ⟨rfl, hl⟩
    all_goals simp [variantIndex] at hvariant
  | null, w, _, _, hvariant, l, l', h => by
    cases w
    case null => exact ⟨rfl, h⟩
    all_goals simp [variantIndex] at hvariant

theorem serializeAll_append_inj (htext : Function.Injective timestampText) : ∀ (vs ws : List Value), FitAll timestampText vs → FitAll timestampText ws →
    vs.length = ws.length → ∀ l l', serializeAll timestampText vs ++ l = serializeAll timestampText ws ++ l' →
    vs = ws ∧ l = l'
  | [], [], _, _, _, l, l', h => ⟨rfl, h⟩
  | v :: vs, w :: ws, hv, hw, hlength, l, l', h => by
    rw [serializeAll, serializeAll, List.append_assoc, List.append_assoc (_ ++ _)] at h
    obtain ⟨rfl, hrest⟩ := serialize_append_inj v w (payload_append_inj htext v w hv.1 hw.1) h
    obtain ⟨rfl, hl⟩ := serializeAll_append_inj htext vs ws hv.2 hw.2 (Nat.succ.inj hlength) l l' hrest
    exact ⟨rfl, hl⟩

end

/-- The serialized values are a prefix code. -/
theorem isPrefixCode_serialize (htext : Function.Injective timestampText) :
    PrefixCode.IsPrefixCode {v | v.Fits timestampText} (serialize timestampText) :=
  fun v hv w hw _ _ h => serialize_append_inj v w (payload_append_inj htext v w hv hw) h

end Value

end Serialization

/-! ## The key of a row -/

namespace TableDef

/-- Find primary key columns -/
def primaryKeyColumns (t : TableDef) : List ℕ :=
  (t.columns.zipIdx.filter fun p => p.1.primaryKey).map Prod.snd

/-- The rows hold identical values in all columns of the primary key. -/
def SamePrimaryKey (t : TableDef) (row row' : Row) : Prop :=
  ∀ (i : ℕ) (column : ColumnDef), t.columns[i]? = some column → column.primaryKey = true → row[i]? = row'[i]?

theorem mem_primaryKeyColumns {t : TableDef} {i : ℕ} :
    i ∈ t.primaryKeyColumns ↔ ∃ column, t.columns[i]? = some column ∧ column.primaryKey = true := by
  simp only [primaryKeyColumns, List.mem_map, List.mem_filter, Prod.exists, List.mem_zipIdx_iff_getElem?,
    exists_eq_right]

end TableDef

namespace TableScanner

/-- Generate a key for row storage. Without a primary key the key is the number of the row, or the time. -/
def generateRowKey (timestampText : ℤ → String) (now : ℕ) (t : TableDef) (rowData : RowData) :
    Result (List UInt8) :=
  if t.primaryKeyColumns ≠ [] then
    .ok (t.primaryKeyColumns.flatMap fun i =>
      match rowData.values[i]? with
      | some v => v.serialize timestampText
      | none => [])
  else
    match rowData.rowId with
    | some id => .ok (u64.encode id)
    -- a timestamp-based key as last resort, of 128 bits
    | none => .ok ((fixed 16).encode (now % 2 ^ 128))

variable {timestampText : ℤ → String}

/-- Keys of several columns are read off column by column. -/
theorem flatMap_serialize_inj (htext : Function.Injective timestampText) {row row' : Row}
    (hrow : ∀ v ∈ row, v.Fits timestampText) (hrow' : ∀ v ∈ row', v.Fits timestampText) {columns : List ℕ}
    (hcolumns : ∀ i ∈ columns, i < row.length ∧ i < row'.length)
    (h : (columns.flatMap fun i =>
        match row[i]? with
        | some v => v.serialize timestampText
        | none => []) =
      columns.flatMap fun i =>
        match row'[i]? with
        | some v => v.serialize timestampText
        | none => []) :
    ∀ i ∈ columns, row[i]? = row'[i]? := by
  induction columns with
  | nil => simp
  | cons i columns ih =>
    obtain ⟨⟨hi, hi'⟩, htail⟩ := List.forall_mem_cons.mp hcolumns
    simp only [List.flatMap_cons, List.getElem?_eq_getElem hi, List.getElem?_eq_getElem hi'] at h
    obtain ⟨hvalue, hrest⟩ := Value.isPrefixCode_serialize htext _ (hrow _ (List.getElem_mem hi)) _
      (hrow' _ (List.getElem_mem hi')) _ _ h
    refine List.forall_mem_cons.mpr ⟨?_, ih htail hrest⟩
    rw [List.getElem?_eq_getElem hi, List.getElem?_eq_getElem hi', hvalue]

/-- The keys of two rows of full width are equal exactly if the rows hold identical values in all columns of the
primary key. -/
theorem generateRowKey_eq_iff (htext : Function.Injective timestampText) {t : TableDef}
    (hprimary : ∃ column ∈ t.columns, column.primaryKey = true) {row row' : RowData}
    (hrow : ∀ v ∈ row.values, v.Fits timestampText) (hrow' : ∀ v ∈ row'.values, v.Fits timestampText)
    (hwidth : row.values.length = t.columns.length) (hwidth' : row'.values.length = t.columns.length) (now now' : ℕ) :
    generateRowKey timestampText now t row = generateRowKey timestampText now' t row' ↔
      t.SamePrimaryKey row.values row'.values := by
  have hsome : t.primaryKeyColumns ≠ [] := by
    obtain ⟨column, hmem, hcolumn⟩ := hprimary
    obtain ⟨i, hi⟩ := List.mem_iff_getElem?.mp hmem
    exact List.ne_nil_of_mem (TableDef.mem_primaryKeyColumns.mpr ⟨column, hi, hcolumn⟩)
  have hcolumns : ∀ i ∈ t.primaryKeyColumns, i < row.values.length ∧ i < row'.values.length := by
    intro i hi
    obtain ⟨column, hcolumn, -⟩ := TableDef.mem_primaryKeyColumns.mp hi
    obtain ⟨hlt, -⟩ := List.getElem?_eq_some_iff.mp hcolumn
    omega
  rw [generateRowKey, generateRowKey, if_pos hsome, if_pos hsome, Except.ok.injEq]
  constructor
  · intro h i column hcolumn hprimary
    exact flatMap_serialize_inj htext hrow hrow' hcolumns h i
      (TableDef.mem_primaryKeyColumns.mpr ⟨column, hcolumn, hprimary⟩)
  · intro h
    refine List.flatMap_congr fun i hi => ?_
    obtain ⟨column, hcolumn, hprimary⟩ := TableDef.mem_primaryKeyColumns.mp hi
    rw [h i column hcolumn hprimary]

theorem generateRowKey_eq_iff_twoColumns :
    let column (columnId : ℕ) (name : String) : ColumnDef :=
      { columnId, name, dataType := .integer, nullable := false, defaultValue := none, primaryKey := true,
        unique := false, checkConstraint := none }
    let t : TableDef := ⟨1, "t", 1, [column 1 "a", column 2 "b"], []⟩
    let text (nanos : ℤ) := String.ofList (List.replicate (Equiv.intEquivNat nanos) '0')
    generateRowKey text 0 t ⟨[.integer 1, .integer 2], none⟩ ≠
      generateRowKey text 0 t ⟨[.integer 1, .integer 3], none⟩ := by
  intro column t text
  have htext : Function.Injective text := fun m n h => by
    have hlength := congrArg (fun s : String => s.toList.length) h
    simpa [text] using hlength
  have hrow : ∀ n ∈ [(2 : ℤ), 3], ∀ v ∈ [Value.integer 1, .integer n], v.Fits text := by
    simp [Value.Fits, I64.InRange, I64.min, I64.max]
  have hprimary : ∃ column ∈ t.columns, column.primaryKey = true := ⟨column 1 "a", List.mem_cons_self, rfl⟩
  have hkeys := @generateRowKey_eq_iff text htext t hprimary ⟨[.integer 1, .integer 2], none⟩
    ⟨[.integer 1, .integer 3], none⟩ (hrow 2 (by simp)) (hrow 3 (by simp)) rfl rfl 0 0
  intro heq
  simpa using hkeys.mp heq 1 (column 2 "b") rfl rfl

end TableScanner

end Rustgresql
