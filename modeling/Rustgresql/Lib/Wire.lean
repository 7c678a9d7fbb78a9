import Mathlib
import Rustgresql.Lib.HashMap

/-!
# Prefix codecs over little-endian bytes

A `Codec` pairs an encoder with a decoder that reads one value off the front of a byte string and
hands back the rest. The encoding is the fixed-width one: integers are little-endian, an option is a
tag byte, a sequence is its 64-bit length followed by its elements, and an enumeration is a 32-bit
index.

Two laws matter. `decode_encode` says that a valid value reads back, whatever follows it.
`Codec.Canonical` is the converse: whatever the decoder accepts is the encoding of its result. The
converse is what shows that a *wrong* reading fails: `Codec.Canonical.decode_take` says that a
value cannot be read from fewer bytes than its own encoding.
-/

namespace Wire

/-! ## Little-endian numbers -/

/-- The `n` low-order bytes of `x`, least significant first. -/
def leBytes : ℕ → ℕ → List UInt8
  | 0, _ => []
  | n + 1, x => UInt8.ofNat (x % 256) :: leBytes n (x / 256)

/-- The number spelled by a little-endian byte string. -/
def leNat : List UInt8 → ℕ
  | [] => 0
  | b :: bs => b.toNat + 256 * leNat bs

@[simp] theorem leBytes_length (n x : ℕ) : (leBytes n x).length = n := by
  induction n generalizing x with
  | zero => rfl
  | succ n ih => simp [leBytes, ih]

theorem leNat_lt (bs : List UInt8) : leNat bs < 256 ^ bs.length := by
  induction bs with
  | nil => simp [leNat]
  | cons b bs ih =>
    have hb : b.toNat < 256 := b.toNat_lt
    rw [leNat, List.length_cons, pow_succ]
    omega

theorem leNat_leBytes {n x : ℕ} (h : x < 256 ^ n) : leNat (leBytes n x) = x := by
  induction n generalizing x with
  | zero => simp_all [leBytes, leNat]
  | succ n ih =>
    have hdiv : x / 256 < 256 ^ n := by
      rw [pow_succ] at h
      exact Nat.div_lt_of_lt_mul (by omega)
    have hmod : (UInt8.ofNat (x % 256)).toNat = x % 256 :=
      UInt8.toNat_ofNat_of_lt' (Nat.mod_lt _ (by decide))
    rw [leBytes, leNat, ih hdiv, hmod]
    omega

theorem leBytes_leNat (bs : List UInt8) : leBytes bs.length (leNat bs) = bs := by
  induction bs with
  | nil => rfl
  | cons b bs ih =>
    have hb : b.toNat < 256 := b.toNat_lt
    have hmod : (b.toNat + 256 * leNat bs) % 256 = b.toNat := by omega
    have hdiv : (b.toNat + 256 * leNat bs) / 256 = leNat bs := by omega
    rw [List.length_cons, leBytes, leNat, hmod, hdiv, ih, UInt8.ofNat_toNat]

/-! ## Codecs -/

/-- An encoder together with a decoder of one value from the front of a byte string. `Valid` holds
of the values that the encoding can carry. -/
structure Codec (α : Type) where
  encode : α → List UInt8
  decode : List UInt8 → Option (α × List UInt8)
  Valid : α → Prop
  decode_encode : ∀ {a : α}, Valid a → ∀ rest, decode (encode a ++ rest) = some (a, rest)

namespace Codec

variable {α β : Type}

/-- Whatever the decoder accepts is a valid value followed by the bytes it did not read. -/
structure Canonical (c : Codec α) : Prop where
  split : ∀ {bs : List UInt8} {a : α} {rest : List UInt8},
    c.decode bs = some (a, rest) → bs = c.encode a ++ rest ∧ c.Valid a

/-- Read one value and ignore what follows it. -/
def deserialize (c : Codec α) (bs : List UInt8) : Option α :=
  (c.decode bs).map Prod.fst

theorem deserialize_encode (c : Codec α) {a : α} (h : c.Valid a) (rest : List UInt8) :
    c.deserialize (c.encode a ++ rest) = some a := by
  rw [deserialize, c.decode_encode h, Option.map_some]

theorem deserialize_encode' (c : Codec α) {a : α} (h : c.Valid a) :
    c.deserialize (c.encode a) = some a := by
  simpa using c.deserialize_encode h []

/-- A decoder cannot read a value from fewer bytes than the value's own encoding. -/
theorem Canonical.decode_take {c : Codec α} (hc : c.Canonical) {a : α} (ha : c.Valid a)
    {n : ℕ} (hn : n < (c.encode a).length) (t : List UInt8) :
    c.decode ((c.encode a ++ t).take n) = none := by
  cases hd : c.decode ((c.encode a ++ t).take n) with
  | none => rfl
  | some p =>
    obtain ⟨a', rest⟩ := p
    obtain ⟨hbytes, ha'⟩ := hc.split hd
    have hsplit : c.encode a ++ t = c.encode a' ++ (rest ++ (c.encode a ++ t).drop n) := by
      rw [← List.append_assoc, ← hbytes, List.take_append_drop]
    -- both sides decode, so the two values agree and the shorter reading is too short
    have hsame : a = a' := by
      have h := c.decode_encode ha t
      rw [hsplit, c.decode_encode ha'] at h
      exact (congrArg Prod.fst (Option.some.inj h)).symm
    have hlen := congrArg List.length hbytes
    rw [← hsame, List.length_take, List.length_append, List.length_append] at hlen
    omega

theorem Canonical.deserialize_take {c : Codec α} (hc : c.Canonical) {a : α} (ha : c.Valid a)
    {n : ℕ} (hn : n < (c.encode a).length) (t : List UInt8) :
    c.deserialize ((c.encode a ++ t).take n) = none := by
  rw [deserialize, hc.decode_take ha hn, Option.map_none]

/-! ## Integers -/

/-- Fixed-width little-endian numbers of `n` bytes. -/
def fixed (n : ℕ) : Codec ℕ where
  encode x := leBytes n x
  decode bs := if n ≤ bs.length then some (leNat (bs.take n), bs.drop n) else none
  Valid x := x < 256 ^ n
  decode_encode := by
    intro x hx rest
    have htake : (leBytes n x ++ rest).take n = leBytes n x :=
      List.take_left' (leBytes_length n x)
    have hdrop : (leBytes n x ++ rest).drop n = rest :=
      List.drop_left' (leBytes_length n x)
    rw [if_pos (by simp), htake, hdrop, leNat_leBytes hx]

theorem fixed_canonical (n : ℕ) : (fixed n).Canonical := by
  refine ⟨fun {bs x rest} h => ?_⟩
  simp only [fixed] at h
  split at h
  · rename_i hlen
    obtain ⟨rfl, rfl⟩ := Prod.mk.inj (Option.some.inj h)
    have htake : (bs.take n).length = n := List.length_take_of_le hlen
    refine ⟨?_, ?_⟩
    · have := leBytes_leNat (bs.take n)
      rw [htake] at this
      rw [show (fixed n).encode (leNat (bs.take n)) = bs.take n from this, List.take_append_drop]
    · have := leNat_lt (bs.take n)
      rwa [htake] at this
  · cases h

/-- Carry a codec along a change of representation: `get` undoes `put`. -/
def via (c : Codec α) (put : β → α) (get : α → Option β) (h : ∀ b, get (put b) = some b) :
    Codec β where
  encode b := c.encode (put b)
  decode bs := (c.decode bs).bind fun p => (get p.1).map fun b => (b, p.2)
  Valid b := c.Valid (put b)
  decode_encode := by
    intro b hb rest
    rw [c.decode_encode hb, Option.bind_some, h, Option.map_some]

theorem via_decode {c : Codec α} {put : β → α} {get : α → Option β}
    {h : ∀ b, get (put b) = some b} {bs rest : List UInt8} {b : β}
    (hd : (c.via put get h).decode bs = some (b, rest)) :
    ∃ a, c.decode bs = some (a, rest) ∧ get a = some b := by
  simp only [Codec.via, Option.bind_eq_some_iff, Option.map_eq_some_iff, Prod.mk.injEq] at hd
  obtain ⟨⟨a, r⟩, hdec, b', hget, rfl, rfl⟩ := hd
  exact ⟨a, hdec, hget⟩

theorem Canonical.via {c : Codec α} (hc : c.Canonical) {put : β → α} {get : α → Option β}
    {h : ∀ b, get (put b) = some b} (hput : ∀ a b, c.Valid a → get a = some b → put b = a) :
    (c.via put get h).Canonical := by
  refine ⟨fun {bs b rest} hd => ?_⟩
  obtain ⟨a, hdec, hget⟩ := via_decode hd
  obtain ⟨hbytes, hvalid⟩ := hc.split hdec
  have hab : put b = a := hput a b hvalid hget
  exact ⟨by rw [hbytes]; simp only [Codec.via, hab],
    by simpa only [Codec.via, hab] using hvalid⟩

/-- 32-bit numbers. -/
def u32 : Codec UInt32 :=
  (fixed 4).via UInt32.toNat (fun n => some (UInt32.ofNat n)) (by simp)

/-- 64-bit numbers. -/
def u64 : Codec UInt64 :=
  (fixed 8).via UInt64.toNat (fun n => some (UInt64.ofNat n)) (by simp)

theorem u32_valid (x : UInt32) : u32.Valid x :=
  show x.toNat < 256 ^ 4 from x.toNat_lt

theorem u64_valid (x : UInt64) : u64.Valid x :=
  show x.toNat < 256 ^ 8 from x.toNat_lt

@[simp] theorem u32_length (x : UInt32) : (u32.encode x).length = 4 :=
  leBytes_length 4 x.toNat

@[simp] theorem u64_length (x : UInt64) : (u64.encode x).length = 8 :=
  leBytes_length 8 x.toNat

theorem u32_canonical : u32.Canonical :=
  (fixed_canonical 4).via fun a b ha h => by
    rw [← Option.some.inj h]
    exact UInt32.toNat_ofNat_of_lt' ha

theorem u64_canonical : u64.Canonical :=
  (fixed_canonical 8).via fun a b ha h => by
    rw [← Option.some.inj h]
    exact UInt64.toNat_ofNat_of_lt' ha

/-- Signed 64-bit numbers, in two's complement. -/
def i64 : Codec ℤ where
  encode i := (fixed 8).encode (i % 2 ^ 64).toNat
  decode bs := ((fixed 8).decode bs).map fun p => ((p.1 : ℤ).bmod (2 ^ 64), p.2)
  Valid i := -2 ^ 63 ≤ i ∧ i < 2 ^ 63
  decode_encode := by
    intro i hi rest
    have hvalid : (fixed 8).Valid (i % 2 ^ 64).toNat := show (i % 2 ^ 64).toNat < 256 ^ 8 by omega
    have hdecode := (fixed 8).decode_encode hvalid rest
    have hmod : ((i % 2 ^ 64).toNat : ℤ) = i % (2 ^ 64 : ℕ) := by
      rw [Int.toNat_of_nonneg (by omega)]
      rfl
    rw [hdecode, Option.map_some, hmod, Int.emod_bmod, Int.bmod_eq_of_le (by omega) (by omega)]

/-- What follows an encoded value does not make it another value. -/
theorem encode_append_inj (c : Codec α) {a b : α} (ha : c.Valid a) (hb : c.Valid b) {l l' : List UInt8}
    (h : c.encode a ++ l = c.encode b ++ l') : a = b ∧ l = l' := by
  have hdecode := c.decode_encode ha l
  rw [h, c.decode_encode hb] at hdecode
  obtain ⟨rfl, rfl⟩ := Prod.mk.inj (Option.some.inj hdecode)
  exact ⟨rfl, rfl⟩

/-! ## Compound values -/

/-- One value after another. -/
def seq (c : Codec α) (d : Codec β) : Codec (α × β) where
  encode p := c.encode p.1 ++ d.encode p.2
  decode bs := (c.decode bs).bind fun p => (d.decode p.2).map fun q => ((p.1, q.1), q.2)
  Valid p := c.Valid p.1 ∧ d.Valid p.2
  decode_encode := by
    intro p hp rest
    rw [List.append_assoc, c.decode_encode hp.1, Option.bind_some, d.decode_encode hp.2,
      Option.map_some]

theorem seq_decode {c : Codec α} {d : Codec β} {bs rest : List UInt8} {p : α × β}
    (h : (c.seq d).decode bs = some (p, rest)) :
    ∃ mid, c.decode bs = some (p.1, mid) ∧ d.decode mid = some (p.2, rest) := by
  simp only [Codec.seq, Option.bind_eq_some_iff, Option.map_eq_some_iff, Prod.mk.injEq] at h
  obtain ⟨⟨a, r⟩, hdec, ⟨b, r'⟩, hdec', rfl, rfl⟩ := h
  exact ⟨r, hdec, hdec'⟩

theorem Canonical.seq {c : Codec α} {d : Codec β} (hc : c.Canonical) (hd : d.Canonical) :
    (c.seq d).Canonical := by
  refine ⟨fun {bs p rest} h => ?_⟩
  obtain ⟨mid, hdec, hdec'⟩ := seq_decode h
  obtain ⟨rfl, ha⟩ := hc.split hdec
  obtain ⟨rfl, hb⟩ := hd.split hdec'
  exact ⟨by simp only [Codec.seq, List.append_assoc], ha, hb⟩

/-- An optional value behind a tag byte. -/
def option (c : Codec α) : Codec (Option α) where
  encode
    | none => [0]
    | some a => 1 :: c.encode a
  decode
    | [] => none
    | tag :: bs =>
      if tag = 0 then some (none, bs)
      else if tag = 1 then (c.decode bs).map fun p => (some p.1, p.2)
      else none
  Valid o := ∀ a ∈ o, c.Valid a
  decode_encode := by
    intro o ho rest
    cases o with
    | none => rfl
    | some a =>
      have hone : ¬ (1 : UInt8) = 0 := by decide
      simp only [List.cons_append, if_neg hone, if_pos]
      rw [c.decode_encode (ho a rfl), Option.map_some]

theorem Canonical.option {c : Codec α} (hc : c.Canonical) : c.option.Canonical := by
  refine ⟨fun {bs o rest} h => ?_⟩
  cases bs with
  | nil => cases h
  | cons tag bs =>
    simp only [Codec.option] at h
    split at h
    · rename_i htag
      obtain ⟨rfl, rfl⟩ := Prod.mk.inj (Option.some.inj h)
      exact ⟨by rw [htag]; rfl, fun a ha => by cases ha⟩
    · split at h
      · rename_i htag
        obtain ⟨⟨a, r⟩, hdec, hp⟩ := Option.map_eq_some_iff.mp h
        obtain ⟨rfl, rfl⟩ := Prod.mk.inj hp
        obtain ⟨hbytes, ha⟩ := hc.split hdec
        refine ⟨by rw [htag, hbytes]; rfl, ?_⟩
        intro a' ha'
        rwa [← Option.some.inj ha']
      · cases h

/-- A byte string behind its 64-bit length. -/
def bytes : Codec (List UInt8) where
  encode l := u64.encode (UInt64.ofNat l.length) ++ l
  decode bs := (u64.decode bs).bind fun p =>
    if p.1.toNat ≤ p.2.length then some (p.2.take p.1.toNat, p.2.drop p.1.toNat) else none
  Valid l := l.length < 2 ^ 64
  decode_encode := by
    intro l hl rest
    have hlen : (UInt64.ofNat l.length).toNat = l.length := UInt64.toNat_ofNat_of_lt' hl
    rw [List.append_assoc, u64.decode_encode (u64_valid _), Option.bind_some]
    simp only [hlen, List.length_append, Nat.le_add_right, if_true, List.take_left,
      List.drop_left]

theorem bytes_canonical : bytes.Canonical := by
  refine ⟨fun {bs l rest} h => ?_⟩
  simp only [bytes, Option.bind_eq_some_iff] at h
  obtain ⟨⟨n, r⟩, hdec, h⟩ := h
  split at h
  · rename_i hn
    obtain ⟨rfl, rfl⟩ := Prod.mk.inj (Option.some.inj h)
    have hlen : (r.take n.toNat).length = n.toNat := List.length_take_of_le hn
    obtain ⟨hbytes, -⟩ := u64_canonical.split hdec
    refine ⟨?_, ?_⟩
    · rw [hbytes]
      simp only [bytes, hlen, UInt64.ofNat_toNat, List.append_assoc, List.take_append_drop]
    · show (r.take n.toNat).length < 2 ^ 64
      rw [hlen]
      exact n.toNat_lt
  · cases h

/-- Read `n` values in a row. -/
def decodeN (c : Codec α) : ℕ → List UInt8 → Option (List α × List UInt8)
  | 0, bs => some ([], bs)
  | n + 1, bs => (c.decode bs).bind fun p => (c.decodeN n p.2).map fun q => (p.1 :: q.1, q.2)

theorem decodeN_encode (c : Codec α) {l : List α} (hl : ∀ a ∈ l, c.Valid a) (rest : List UInt8) :
    c.decodeN l.length (l.flatMap c.encode ++ rest) = some (l, rest) := by
  induction l with
  | nil => rfl
  | cons a l ih =>
    have ha : c.Valid a := hl a (by simp)
    have htail : ∀ b ∈ l, c.Valid b := fun b hb => hl b (by simp [hb])
    rw [List.flatMap_cons, List.append_assoc, List.length_cons, decodeN, c.decode_encode ha,
      Option.bind_some, ih htail, Option.map_some]

/-- A sequence behind its 64-bit length. -/
def vec (c : Codec α) : Codec (List α) where
  encode l := u64.encode (UInt64.ofNat l.length) ++ l.flatMap c.encode
  decode bs := (u64.decode bs).bind fun p => c.decodeN p.1.toNat p.2
  Valid l := l.length < 2 ^ 64 ∧ ∀ a ∈ l, c.Valid a
  decode_encode := by
    intro l hl rest
    have hlen : (UInt64.ofNat l.length).toNat = l.length := UInt64.toNat_ofNat_of_lt' hl.1
    rw [List.append_assoc, u64.decode_encode (u64_valid _), Option.bind_some]
    simp only [hlen]
    exact c.decodeN_encode hl.2 rest

theorem vec_length (c : Codec α) (l : List α) :
    (c.vec.encode l).length = 8 + (l.map fun a => (c.encode a).length).sum := by
  simp only [Codec.vec, List.length_append, Codec.u64_length, List.length_flatMap]

theorem fromUTF8?_toUTF8 (s : String) : String.fromUTF8? s.toUTF8 = some s := by
  have h : s.toUTF8.IsValidUTF8 := s.isValidUTF8
  rw [String.fromUTF8?, dif_pos h]
  rfl

theorem toUTF8_of_fromUTF8? {b : ByteArray} {s : String} (h : String.fromUTF8? b = some s) :
    s.toUTF8 = b := by
  unfold String.fromUTF8? at h
  split at h
  · rw [← Option.some.inj h]; rfl
  · cases h

/-- The UTF-8 bytes of a text. -/
def utf8 (s : String) : List UInt8 := s.toUTF8.data.toList

/-- Text behind its length in UTF-8 bytes. -/
def string : Codec String :=
  bytes.via utf8 (fun l => String.fromUTF8? ⟨l.toArray⟩)
    fromUTF8?_toUTF8

theorem string_canonical : string.Canonical :=
  bytes_canonical.via fun l s _ h => by
    rw [utf8, toUTF8_of_fromUTF8? h]

/-- A map behind the number of its entries; the entries stand in iteration order. -/
def hashMap [DecidableEq α] (c : Codec α) (d : Codec β) : Codec (HashMap α β) :=
  (c.seq d).vec.via HashMap.pairs (fun l => some (HashMap.ofPairs l))
    (fun m => congrArg some m.ofPairs_pairs)

/-! ## Shifted readings

A byte string that is a prefix of itself behind a few extra bytes repeats those bytes. -/

/-- `xs` read behind `p` starts with `xs` again only if `xs` repeats `p`. -/
theorem getElem?_of_shift {p xs : List α} (h : xs <+: p ++ xs) (hp : 0 < p.length) {i : ℕ}
    (hi : i < xs.length) : xs[i]? = p[i % p.length]? := by
  induction i using Nat.strong_induction_on with
  | _ i ih =>
    have hread : (p ++ xs)[i]? = xs[i]? := by
      obtain ⟨rest, hrest⟩ := h
      rw [← hrest, List.getElem?_append_left hi]
    rcases lt_or_ge i p.length with hlt | hge
    · rw [← hread, List.getElem?_append_left hlt, Nat.mod_eq_of_lt hlt]
    · rw [← hread, List.getElem?_append_right hge, ih (i - p.length) (by omega) (by omega),
        ← Nat.mod_eq_sub_mod hge]

/-- A stretch of a string that repeats `p`. -/
theorem take_drop_of_shift {p xs : List α} (h : xs <+: p ++ xs) (hp : 0 < p.length) (d : α)
    {i n : ℕ} (hn : i + n ≤ xs.length) :
    (xs.drop i).take n = (List.range n).map fun j => p.getD ((i + j) % p.length) d := by
  refine List.ext_getElem? fun j => ?_
  rw [List.getElem?_take, List.getElem?_map]
  split
  · next hj =>
    have hmod : (i + j) % p.length < p.length := Nat.mod_lt _ hp
    rw [List.getElem?_drop, getElem?_of_shift h hp (by omega), List.getElem?_range hj,
      Option.map_some, List.getD_eq_getElem?_getD, List.getElem?_eq_getElem hmod,
      Option.getD_some]
  · next hj =>
    rw [List.getElem?_eq_none (by simpa using hj), Option.map_none]

/-- A string that reads back from behind `p` repeats `p`. -/
theorem prefix_of_shift {p xs tail rest : List α} (h : p ++ (xs ++ tail) = xs ++ rest) :
    xs <+: p ++ xs := by
  have hxs : xs <+: p ++ (xs ++ tail) := ⟨rest, h.symm⟩
  have hpxs : p ++ xs <+: p ++ (xs ++ tail) := ⟨tail, by rw [List.append_assoc]⟩
  exact List.prefix_of_prefix_length_le hxs hpxs (by simp)

/-- The length that stands before a byte string. -/
theorem take_bytes {l : List UInt8} (hl : l.length < 2 ^ 64) (rest : List UInt8) :
    leNat ((bytes.encode l ++ rest).take 8) = l.length := by
  have hlen : (UInt64.ofNat l.length).toNat = l.length := UInt64.toNat_ofNat_of_lt' hl
  have hhead : (u64.encode (UInt64.ofNat l.length)).length = 8 := u64_length _
  show leNat ((u64.encode (UInt64.ofNat l.length) ++ l ++ rest).take 8) = l.length
  rw [List.append_assoc, List.take_left' hhead]
  show leNat (leBytes 8 (UInt64.ofNat l.length).toNat) = l.length
  rw [hlen, leNat_leBytes (show l.length < 256 ^ 8 from hl)]

end Codec

end Wire
