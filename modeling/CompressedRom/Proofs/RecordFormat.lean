import CompressedRom.Proofs.ByteLayout
import CompressedRom.Record

/-!
# The format of inode records

A record is written as three words, in which the fields stand side by side. `Record.make` builds
just the records whose fields have room, and writing and reading lose nothing either way:
`Record.pack_lossless`.
-/

namespace CompressedRom.Record

@[simp] lemma size_pack (r : Record) : r.pack.size = size := by
  unfold pack
  rw [ByteArray.size_append, ByteArray.size_append, Bytes.size_ofWord, Bytes.size_ofWord,
    Bytes.size_ofWord]
  rfl

lemma wordAt_pack (r : Record) :
    r.pack.wordAt 0 = r.mode.bits.toNat + r.uid.toNat * 2 ^ 16 ∧
      r.pack.wordAt 4 = r.sizeField + r.gid.toNat * 2 ^ 24 ∧
      r.pack.wordAt 8 = r.nameLen / 4 + r.offset / 4 * 2 ^ 6 := by
  have hmode := r.mode.bits.toNat_lt
  have huid := r.uid.toNat_lt
  have hgid := r.gid.toNat_lt
  have hsize := r.sizeField_lt
  have hname := r.nameLen_lt
  have hoffset := r.offset_lt
  unfold pack
  refine ⟨?_, ?_, ?_⟩
  · rw [ByteArray.append_assoc, Bytes.wordAt_append_left (by simp), Bytes.wordAt_ofWord (by omega)]
  · rw [ByteArray.append_assoc, Bytes.wordAt_append_right (by simp), Bytes.size_ofWord,
      Bytes.wordAt_append_left (by simp), Bytes.wordAt_ofWord (by omega)]
  · rw [Bytes.wordAt_append_right (by simp), ByteArray.size_append, Bytes.size_ofWord,
      Bytes.size_ofWord, Bytes.wordAt_ofWord (by omega)]

lemma unpack?_pack (r : Record) : unpack? r.pack = some r := by
  obtain ⟨hfirst, hsecond, hthird⟩ := r.wordAt_pack
  have hmode : UInt16.ofNat (r.mode.bits.toNat + r.uid.toNat * 2 ^ 16) = r.mode.bits := by
    apply UInt16.toNat_inj.1
    have := r.mode.bits.toNat_lt
    rw [UInt16.toNat_ofNat']
    omega
  have huid : UInt16.ofNat ((r.mode.bits.toNat + r.uid.toNat * 2 ^ 16) / 2 ^ 16) = r.uid := by
    apply UInt16.toNat_inj.1
    have := r.mode.bits.toNat_lt
    have := r.uid.toNat_lt
    rw [UInt16.toNat_ofNat']
    omega
  have hgid : UInt8.ofNat ((r.sizeField + r.gid.toNat * 2 ^ 24) / 2 ^ 24) = r.gid := by
    apply UInt8.toNat_inj.1
    have := r.sizeField_lt
    have := r.gid.toNat_lt
    rw [UInt8.toNat_ofNat']
    omega
  have hsize : (r.sizeField + r.gid.toNat * 2 ^ 24) % 2 ^ 24 = r.sizeField := by
    have := r.sizeField_lt
    omega
  have hname : (r.nameLen / 4 + r.offset / 4 * 2 ^ 6) % 2 ^ 6 * 4 = r.nameLen := by
    have := r.nameLen_lt
    have := r.nameLen_mod
    omega
  have hoffset : (r.nameLen / 4 + r.offset / 4 * 2 ^ 6) / 2 ^ 6 * 4 = r.offset := by
    have := r.nameLen_lt
    have := r.offset_mod
    omega
  unfold unpack?
  simp only [size_pack, if_pos, Mode.ofBits_eq, hfirst, hsecond, hthird, hmode, huid, hgid, hsize,
    hname, hoffset]

/-- Every record is what its fields make. -/
lemma make_fields (r : Record) :
    make r.mode r.uid r.sizeField r.gid r.nameLen r.offset = .ok r := by
  have hsize := r.sizeField_lt
  have hname := r.nameLen_lt
  have hname' := r.nameLen_mod
  have hoffset := r.offset_lt
  have hoffset' := r.offset_mod
  unfold make
  rw [dif_pos (by unfold maxFileSize; omega), dif_pos (by unfold maxNameLen; omega),
    dif_pos (by unfold maxOffset; omega)]

/-- The fields that a record has room for: a size of 24 bits, and a length of the name and an offset
in units of four bytes, six bits and 26 bits of them. -/
def HasRoom (sizeField nameLen offset : Nat) : Prop :=
  sizeField < 2 ^ 24 ∧ (nameLen % 4 = 0 ∧ nameLen ≤ 252) ∧ offset % 4 = 0 ∧ offset ≤ 2 ^ 28 - 4

lemma make_of_hasRoom {sizeField nameLen offset : Nat} (h : HasRoom sizeField nameLen offset)
    (mode : Mode) (uid : UInt16) (gid : UInt8) :
    ∃ r, make mode uid sizeField gid nameLen offset = .ok r ∧ r.mode = mode ∧ r.uid = uid ∧
      r.sizeField = sizeField ∧ r.gid = gid ∧ r.nameLen = nameLen ∧ r.offset = offset := by
  obtain ⟨hsize, ⟨hname, hname'⟩, hoffset, hoffset'⟩ := h
  unfold make
  rw [dif_pos (by unfold maxFileSize; omega), dif_pos (by unfold maxNameLen; omega),
    dif_pos (by unfold maxOffset; omega)]
  exact ⟨_, rfl, rfl, rfl, rfl, rfl, rfl, rfl⟩

lemma make_of_not_hasRoom {sizeField nameLen offset : Nat}
    (h : ¬HasRoom sizeField nameLen offset) (mode : Mode) (uid : UInt16) (gid : UInt8) :
    ∃ field, make mode uid sizeField gid nameLen offset = .error field := by
  unfold make
  by_cases hsize : sizeField ≤ maxFileSize
  · rw [dif_pos hsize]
    by_cases hname : nameLen ≤ maxNameLen ∧ nameLen % 4 = 0
    · rw [dif_pos hname]
      by_cases hoffset : offset ≤ maxOffset ∧ offset % 4 = 0
      · unfold maxFileSize at hsize
        unfold maxNameLen at hname
        unfold maxOffset at hoffset
        refine absurd ⟨?_, ⟨hname.2, ?_⟩, hoffset.2, ?_⟩ h <;> omega
      · rw [dif_neg hoffset]
        exact ⟨_, rfl⟩
    · rw [dif_neg hname]
      exact ⟨_, rfl⟩
  · rw [dif_neg hsize]
    exact ⟨_, rfl⟩

lemma add_mul_two_pow_eq_or {low n : Nat} (h : low < 2 ^ n) (high : Nat) :
    low + high * 2 ^ n = low ||| high <<< n := by
  rw [Nat.or_comm, ← Nat.shiftLeft_add_eq_or_of_lt h, Nat.shiftLeft_eq, Nat.add_comm]

/-- In the words of a record the fields stand side by side, each in bits of its own. -/
lemma pack_eq_or (r : Record) :
    r.pack = Bytes.ofWord (r.mode.bits.toNat ||| r.uid.toNat <<< 16) ++
      Bytes.ofWord (r.sizeField ||| r.gid.toNat <<< 24) ++
      Bytes.ofWord (r.nameLen >>> 2 ||| r.offset >>> 2 <<< 6) := by
  have hname : r.nameLen / 2 ^ 2 < 2 ^ 6 := by
    have := r.nameLen_lt
    omega
  rw [← add_mul_two_pow_eq_or r.mode.bits.toNat_lt, ← add_mul_two_pow_eq_or r.sizeField_lt,
    Nat.shiftRight_eq_div_pow, Nat.shiftRight_eq_div_pow, ← add_mul_two_pow_eq_or hname]
  rfl

lemma exists_unpack? {b : Bytes} (hb : b.size = size) :
    ∃ r, unpack? b = some r ∧ r.mode.bits.toNat = b.wordAt 0 % 2 ^ 16 ∧
      r.offset = b.wordAt 8 / 2 ^ 6 * 4 := by
  unfold unpack?
  rw [if_pos hb]
  refine ⟨_, rfl, ?_, rfl⟩
  rw [Mode.ofBits_eq, UInt16.toNat_ofNat']

lemma pack_of_unpack? {b : Bytes} {r : Record} (h : unpack? b = some r) : r.pack = b := by
  unfold unpack? at h
  by_cases hb : b.size = size
  · rw [if_pos hb] at h
    obtain rfl := Option.some.inj h
    -- The fields of a word fill it, so together they are the word again.
    have hfirst : b.wordAt 0 % 2 ^ 16 + b.wordAt 0 / 2 ^ 16 % 2 ^ 16 * 2 ^ 16 = b.wordAt 0 := by
      have := b.wordAt_lt 0
      omega
    have hsecond : b.wordAt 4 % 2 ^ 24 + b.wordAt 4 / 2 ^ 24 % 2 ^ 8 * 2 ^ 24 = b.wordAt 4 := by
      have := b.wordAt_lt 4
      omega
    have hthird : b.wordAt 8 % 2 ^ 6 * 4 / 4 + b.wordAt 8 / 2 ^ 6 * 4 / 4 * 2 ^ 6 = b.wordAt 8 := by
      omega
    have hwords := ((Bytes.IsRange.ofWord_wordAt b 0).append (.ofWord_wordAt b 4)).append
      (.ofWord_wordAt b 8)
    have hself := Bytes.IsRange.self b
    rw [hb] at hself
    unfold pack
    simp only [Mode.ofBits_eq, UInt16.toNat_ofNat', UInt8.toNat_ofNat', hfirst, hsecond, hthird]
    exact hwords.unique hself
  · rw [if_neg hb] at h
    exact absurd h nofun

/-- A record can be made of just the fields that it has room for. Its bytes hold them side by side,
each in bits of its own, and are read back as they were. All strings of twelve bytes are records,
and what is read from one makes a record of the same bytes. -/
theorem pack_lossless :
    (∀ (mode : Mode) (uid : UInt16) (sizeField : Nat) (gid : UInt8) (nameLen offset : Nat),
      (HasRoom sizeField nameLen offset →
        ∃ r, make mode uid sizeField gid nameLen offset = .ok r ∧
          r.pack = Bytes.ofWord (mode.bits.toNat ||| uid.toNat <<< 16) ++
            Bytes.ofWord (sizeField ||| gid.toNat <<< 24) ++
            Bytes.ofWord (nameLen >>> 2 ||| offset >>> 2 <<< 6) ∧
          unpack? r.pack = some r ∧ r.mode = mode ∧ r.uid = uid ∧ r.sizeField = sizeField ∧
          r.gid = gid ∧ r.nameLen = nameLen ∧ r.offset = offset) ∧
      (¬HasRoom sizeField nameLen offset →
        ∃ field, make mode uid sizeField gid nameLen offset = .error field)) ∧
    ∀ b : Bytes, b.size = size →
      ∃ r, unpack? b = some r ∧
        make r.mode r.uid r.sizeField r.gid r.nameLen r.offset = .ok r ∧ r.pack = b := by
  refine ⟨?_, ?_⟩
  · intro mode uid sizeField gid nameLen offset
    refine ⟨?_, fun h => make_of_not_hasRoom h mode uid gid⟩
    intro h
    obtain ⟨r, hmake, rfl, rfl, rfl, rfl, rfl, rfl⟩ := make_of_hasRoom h mode uid gid
    exact ⟨r, hmake, r.pack_eq_or, r.unpack?_pack, rfl, rfl, rfl, rfl, rfl, rfl⟩
  · intro b hb
    obtain ⟨r, h, -⟩ := exists_unpack? hb
    exact ⟨r, h, r.make_fields, pack_of_unpack? h⟩

/-- The largest fields all at once, an offset between two units, and a record whose bits are all
set. -/
theorem pack_lossless_limits :
    HasRoom (2 ^ 24 - 1) 252 (2 ^ 28 - 4) ∧ ¬HasRoom 0 0 2 ∧
      (Bytes.ofList (List.replicate 12 0xff)).size = size ∧
      (∃ r, make ⟨0x41ed⟩ 0xffff (2 ^ 24 - 1) 0xff 252 (2 ^ 28 - 4) = .ok r ∧
        unpack? r.pack = some r ∧ r.mode = ⟨0x41ed⟩ ∧ r.nameLen = 252 ∧ r.offset = 2 ^ 28 - 4) ∧
      (∃ field, make ⟨0x41ed⟩ 0 0 0 0 2 = .error field) ∧
      ∃ r, unpack? (Bytes.ofList (List.replicate 12 0xff)) = some r ∧
        make r.mode r.uid r.sizeField r.gid r.nameLen r.offset = .ok r ∧
        r.pack = Bytes.ofList (List.replicate 12 0xff) := by
  have hroom : HasRoom (2 ^ 24 - 1) 252 (2 ^ 28 - 4) := by
    unfold HasRoom
    decide
  have hnone : ¬HasRoom 0 0 2 := by
    unfold HasRoom
    decide
  have hsize : (Bytes.ofList (List.replicate 12 0xff)).size = size := rfl
  obtain ⟨hmake, hread⟩ := pack_lossless
  obtain ⟨r, hr, -, hback, hmode, -, -, -, hname, hoffset⟩ :=
    (hmake ⟨0x41ed⟩ 0xffff _ 0xff _ _).1 hroom
  exact ⟨hroom, hnone, hsize, ⟨r, hr, hback, hmode, hname, hoffset⟩,
    (hmake ⟨0x41ed⟩ 0 _ 0 _ _).2 hnone, hread _ hsize⟩

end CompressedRom.Record
