import Rustgresql.Transaction.Wal.Record

/-!
# Checksums of log records

`update_checksum` and `verify` serialize a record, but neither feeds the bytes to the digest. The checksum
that is stored is that of no bytes, which is zero, and every record with this checksum verifies: a changed
byte is never noticed (`not_detectsCorruption`).
-/

namespace Rustgresql

open Wire

namespace WALRecord

/-- The serialized header and data -/
def image (r : WALRecord) : List UInt8 := WALRecordHeader.codec.encode r.header ++ r.payload

/-- Two records differ in one byte of header or data. -/
def DiffersInByte (r r' : WALRecord) : Prop :=
  ∃ pre b b' post, r.image = pre ++ b :: post ∧ r'.image = pre ++ b' :: post ∧ b ≠ b'

/-- A record whose checksum was updated verifies, its checksum is that of its header with checksum zero and
its data, and no record that differs from it in one byte verifies. -/
structure DetectsCorruption (r : WALRecord) : Prop where
  verifies : r.updateChecksum.verify
  stored : r.updateChecksum.header.checksum =
    Crc32c.checksum (image { r with header := { r.updateChecksum.header with checksum := 0 } })
  detects : ∀ r', DiffersInByte r.updateChecksum r' → ¬ r'.verify

theorem checksum_nil : Crc32c.checksum [] = 0 := by decide

theorem verify_iff (r : WALRecord) : r.verify ↔ r.header.checksum = 0 := by
  rw [verify, checksum_nil, beq_iff_eq, eq_comm]

/-- Updating the checksum changes nothing. -/
theorem updateChecksum_eq (r : WALRecord) : r.updateChecksum = r := by
  have hchecksum : (if r.header.checksum ≠ 0 then r.header.checksum else Crc32c.checksum []) = r.header.checksum := by
    rw [checksum_nil, ite_not]
    exact ite_eq_right_iff.mpr Eq.symm
  rw [updateChecksum, hchecksum]

/-- A number with the lowest bit the other way -/
def flip (lsn : LSN) : LSN := if lsn.toNat % 2 = 0 then .ofNat (lsn.toNat + 1) else .ofNat (lsn.toNat - 1)

theorem toNat_flip (lsn : LSN) :
    (flip lsn).toNat / 256 = lsn.toNat / 256 ∧ (flip lsn).toNat % 256 ≠ lsn.toNat % 256 := by
  have hlt : lsn.toNat < 2 ^ 64 := lsn.toNat_lt
  rw [flip]
  split_ifs with h
  · have hfits : lsn.toNat + 1 < UInt64.size := by rw [UInt64.size]; omega
    rw [UInt64.toNat_ofNat_of_lt' hfits]
    omega
  · have hfits : lsn.toNat - 1 < UInt64.size := by rw [UInt64.size]; omega
    rw [UInt64.toNat_ofNat_of_lt' hfits]
    omega

/-- The byte with the lowest bit comes first. -/
theorem exists_encode_flip (lsn : LSN) : ∃ b b' post,
    Codec.u64.encode lsn = b :: post ∧ Codec.u64.encode (flip lsn) = b' :: post ∧ b ≠ b' := by
  obtain ⟨hdiv, hmod⟩ := toNat_flip lsn
  refine ⟨.ofNat (lsn.toNat % 256), .ofNat ((flip lsn).toNat % 256), leBytes 7 (lsn.toNat / 256), rfl, ?_, fun h => ?_⟩
  · rw [← hdiv]
    rfl
  · have hfits (n : ℕ) : n % 256 < UInt8.size := Nat.mod_lt _ (by decide)
    have htoNat := congrArg UInt8.toNat h
    rw [UInt8.toNat_ofNat_of_lt' (hfits _), UInt8.toNat_ofNat_of_lt' (hfits _)] at htoNat
    exact hmod htoNat.symm

theorem image_eq (r : WALRecord) : ∃ post, ∀ lsn, image { r with header := { r.header with lsn } } =
    Codec.u64.encode lsn ++ post := by
  refine ⟨(Codec.u64.option.seq <| Codec.u64.seq <| WALRecordType.codec.seq <| Codec.u32.seq Codec.u32).encode
    (r.header.prevLsn, r.header.transactionId, r.header.recordType, r.header.dataSize, r.header.checksum) ++
      r.payload, fun lsn => ?_⟩
  exact List.append_assoc ..

/-- A record that verifies is not the only one: so does another that differs in the first byte. -/
theorem exists_verify (r : WALRecord) (h : r.verify) : ∃ r', DiffersInByte r r' ∧ r'.verify := by
  obtain ⟨post, himage⟩ := image_eq r
  obtain ⟨b, b', rest, hb, hb', hne⟩ := exists_encode_flip r.header.lsn
  refine ⟨{ r with header := { r.header with lsn := flip r.header.lsn } }, ⟨[], b, b', rest ++ post, ?_, ?_, hne⟩, ?_⟩
  · exact (himage r.header.lsn).trans (by rw [hb]; rfl)
  · exact (himage (flip r.header.lsn)).trans (by rw [hb']; rfl)
  · rwa [verify_iff] at h ⊢

/-- No record's checksum detects a changed byte. -/
theorem not_detectsCorruption (r : WALRecord) : ¬ r.DetectsCorruption := by
  intro h
  obtain ⟨hverifies, -, hdetects⟩ := h
  rw [updateChecksum_eq] at hverifies hdetects
  obtain ⟨r', hdiffers, hverify⟩ := exists_verify r hverifies
  exact hdetects r' hdiffers hverify

/-- An update record verifies with its new data changed. -/
theorem changed_data_verifies : ¬ ∀ r : WALRecord, r.DetectsCorruption := by
  intro h
  let old : List UInt8 := [0x6f, 0x6c, 0x64]
  let changed := update 1 100 none 42 10 old [0xff, 0x65, 0x77]
  refine (h (update 1 100 none 42 10 old [0x6e, 0x65, 0x77])).detects changed ?_ (by decide)
  exact ⟨changed.image.take (changed.image.length - 3), 0x6e, 0xff, [0x65, 0x77], by decide, by decide, by decide⟩

end WALRecord

end Rustgresql
