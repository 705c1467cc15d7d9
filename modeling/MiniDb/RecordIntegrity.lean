import MiniDb.Foundation.BurstErrors
import MiniDb.WalCodec

/-!
The checksum of a log record. It is taken with its own four bytes set to zero, so
damage there leaves the computed checksum and changes the stored one, while damage to
four other bytes leaves the stored checksum and changes the computed one. Either way
they no longer agree.
-/
namespace MiniDb.Wal
open ByteString Outcome List

/-- The strings are the same but for `width` bytes at `offset`. -/
structure DamagedWithin (bytes damaged : List UInt8) (offset width : Nat) : Prop where
  length : damaged.length = bytes.length
  outside : ∀ i, i < offset ∨ offset + width ≤ i → damaged[i]? = bytes[i]?

namespace DamagedWithin
variable {bs dmg : List UInt8} {off w : Nat}

section
variable (h : DamagedWithin bs dmg off w)
include h

theorem take_eq : dmg.take off = bs.take off := by
  apply ext_getElem?
  intro i
  rw [getElem?_take, getElem?_take]
  split
  · exact h.outside i (.inl ‹_›)
  · rfl

theorem drop_eq : dmg.drop (off + w) = bs.drop (off + w) := by
  apply ext_getElem?
  intro i
  rw [getElem?_drop, getElem?_drop]
  exact h.outside _ (.inr (Nat.le_add_right _ _))

theorem slice_eq {start cnt : Nat} (ha : start + cnt ≤ off ∨ off + w ≤ start) :
    slice dmg start cnt = slice bs start cnt := by
  apply ext_getElem?
  intro i
  rw [slice, slice, getElem?_take, getElem?_take]
  split
  · rename_i hlt
    rw [getElem?_drop, getElem?_drop]
    exact h.outside _ (by omega)
  · rfl

/-- The damage is in the bytes where it may be. -/
theorem eq_of_slice (hl : slice dmg off w = slice bs off w) : dmg = bs := by
  have hs : ∀ l : List UInt8, l = l.take off ++ (slice l off w ++ l.drop (off + w)) :=
    fun l => by rw [← drop_eq_slice_append, take_append_drop]
  rw [hs dmg, hs bs, h.take_eq, hl, h.drop_eq]

theorem zeroed (start cnt : Nat) :
    DamagedWithin (zeroed bs start cnt) (zeroed dmg start cnt) off w := by
  refine ⟨by rw [ByteString.zeroed, ByteString.zeroed, length_mapIdx, length_mapIdx, h.length], ?_⟩
  intro i hi
  rw [ByteString.zeroed, ByteString.zeroed, getElem?_mapIdx, getElem?_mapIdx, h.outside i hi]

/-- Damage inside the field that is set to zero is gone. -/
theorem zeroed_same : ByteString.zeroed dmg off w = ByteString.zeroed bs off w := by
  apply ext_getElem?
  intro i
  rw [ByteString.zeroed, ByteString.zeroed, getElem?_mapIdx, getElem?_mapIdx]
  by_cases hi : off ≤ i ∧ i < off + w
  · have hl := h.length
    by_cases hlt : i < bs.length
    · rw [getElem?_eq_getElem hlt, getElem?_eq_getElem (hl ▸ hlt)]
      simp [hi]
    · rw [getElem?_eq_none (not_lt.mp hlt), getElem?_eq_none (by omega)]
  · rw [h.outside i (by omega)]

end

theorem checksum_same (h : DamagedWithin bs dmg 40 4) : recordChecksum dmg = recordChecksum bs := by
  rw [recordChecksum, recordChecksum, h.zeroed_same]

end DamagedWithin

theorem slice_zeroed {bs : List UInt8} {off w start cnt : Nat}
    (ha : off + w ≤ start ∨ start + cnt ≤ off) :
    slice (zeroed bs start cnt) off w = slice bs off w := by
  apply ext_getElem?
  intro i
  rw [slice, slice, getElem?_take, getElem?_take]
  split
  · rw [getElem?_drop, getElem?_drop, zeroed, getElem?_mapIdx]
    cases bs[off + i]? with
    | none => rfl
    | some byte => rw [Option.map_some, if_neg (by omega)]
  · rfl

/-- Four damaged bytes outside the checksum change it. -/
theorem DamagedWithin.eq_of_checksum {bs dmg : List UInt8} {off : Nat}
    (h : DamagedWithin bs dmg off 4) (ha : off + 4 ≤ 40 ∨ 44 ≤ off)
    (hs : recordChecksum dmg = recordChecksum bs) : dmg = bs := by
  have hz := h.zeroed 40 4
  have hp : ∀ l : List UInt8, l = l.take off ++ (slice l off 4 ++ l.drop (off + 4)) :=
    fun l => by rw [← drop_eq_slice_append, take_append_drop]
  have hl : (slice (ByteString.zeroed bs 40 4) off 4).length =
      (slice (ByteString.zeroed dmg 40 4) off 4).length := by
    simp only [slice, length_take, length_drop, hz.length]
  have hh : (slice (ByteString.zeroed dmg 40 4) off 4).length ≤ 4 := by
    rw [slice, length_take]
    exact min_le_left _ _
  rw [recordChecksum, recordChecksum, hp (ByteString.zeroed dmg 40 4),
    hp (ByteString.zeroed bs 40 4), hz.take_eq, hz.drop_eq] at hs
  have hb := crc32c_burst hl hh hs
  rw [slice_zeroed ha, slice_zeroed ha] at hb
  exact h.eq_of_slice hb

/-- A record is decoded where it was encoded, and not from anything that differs from its
encoding in four consecutive bytes apart from the checksum, or in the checksum. -/
theorem record_integrity {record : LogRecord} {lsn : Nat} {bs : List UInt8}
    (h : encodeWalRecord record lsn = .ok bs) :
    decodeWalRecord bs lsn = .ok { record with lsn } ∧ ∀ dmg, dmg ≠ bs →
        ((∃ off, (off + 4 ≤ 40 ∨ 44 ≤ off) ∧ DamagedWithin bs dmg off 4) ∨
          DamagedWithin bs dmg 40 4) → ∃ error, decodeWalRecord dmg lsn = .error error := by
  have hdecode := decode_encode h
  refine ⟨hdecode, fun dmg hne hdamage => ?_⟩
  cases hresult : decodeWalRecord dmg lsn with
  | error error => exact ⟨error, rfl⟩
  | ok found =>
    exfalso
    obtain ⟨_, _, hsum, _⟩ := decodeWalRecord_ok.mp hdecode
    obtain ⟨_, _, hfound, _⟩ := decodeWalRecord_ok.mp hresult
    rcases hdamage with ⟨off, hapart, hdamage⟩ | hdamage
    · -- the stored checksum is the one of the record
      have hstored : readUint32 dmg 40 = readUint32 bs 40 :=
        congrArg leValue (hdamage.slice_eq (by omega))
      exact hne (hdamage.eq_of_checksum hapart (by rw [hfound, hstored, hsum]))
    · -- the computed checksum is the one of the record
      have hstored : leValue (slice dmg 40 4) = leValue (slice bs 40 4) := by
        have hsame := hdamage.checksum_same
        rw [hfound, hsum] at hsame
        exact hsame
      have hlength : (slice dmg 40 4).length = (slice bs 40 4).length := by
        simp only [slice, length_take, length_drop, hdamage.length]
      refine hne (hdamage.eq_of_slice ?_)
      rw [← leBytes_leValue (slice dmg 40 4), hlength, hstored, leBytes_leValue]

/-- A commit record whose first byte is damaged. -/
theorem record_integrity_commit :
    ∃ bs, encodeWalRecord ⟨.commit, 1, 0xFFFFFFFFFFFFFFFF, [], 0⟩ 64 = .ok bs ∧
      decodeWalRecord bs 64 = .ok ⟨.commit, 1, 0xFFFFFFFFFFFFFFFF, [], 64⟩ ∧
      ∃ error, decodeWalRecord (bs.set 0 0) 64 = .error error := by
  have hencode : encodeWalRecord ⟨.commit, 1, 0xFFFFFFFFFFFFFFFF, [], 0⟩ 64 = .ok _ :=
    encodeWalRecord_ok.mpr ⟨by decide, rfl⟩
  obtain ⟨hdecode, hdamaged⟩ := record_integrity hencode
  refine ⟨_, hencode, hdecode, hdamaged _ ?_ (.inl ⟨0, by decide, ⟨length_set, ?_⟩⟩)⟩
  · intro hsame
    exact absurd (congrArg head? hsame) (by decide)
  · intro i hi
    exact getElem?_set_ne (by omega)

end MiniDb.Wal
