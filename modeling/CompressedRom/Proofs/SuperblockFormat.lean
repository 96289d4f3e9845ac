import CompressedRom.Proofs.QueryContract
import CompressedRom.Proofs.RecordFormat
import CompressedRom.Superblock

/-!
# The format of superblocks

Which images in memory have a superblock, and what it says, is a matter of the bytes at one place:
the start of the image if the magic word stands there, or else the end of a boot sector.
`Superblock.parse_mapped`: a record is accepted at this place just if it is sound, every field comes
from its own bytes, and what is refused there is never made up for by another place.
-/

namespace CompressedRom.Superblock

/-- A whole record has room at `base`, and the magic word stands there. -/
def Marked (image : Bytes) (base : Nat) : Prop :=
  base + 76 ≤ image.size ∧ image.wordAt base = magicWord

instance (image : Bytes) (base : Nat) : Decidable (Marked image base) :=
  inferInstanceAs (Decidable (_ ∧ _))

/-- The place of the record that counts. -/
def place (image : Bytes) : Nat := if Marked image 0 then 0 else 512

/-- The offset of the root in the record at `base`, which is stored in units of four bytes. -/
def rootOffset (image : Bytes) (base : Nat) : Nat := image.wordAt (base + 72) / 2 ^ 6 * 4

/-- The record at `base` has no flag but the eleven that a reader may meet, its root is a directory,
and the entries of the root are where they have to be. -/
structure Sound (image : Bytes) (base : Nat) : Prop where
  marked : Marked image base
  flags : image.wordAt (base + 8) &&& 0x7ff = image.wordAt (base + 8)
  directory : image.wordAt (base + 64) % 2 ^ 16 / 2 ^ 12 = 4
  root : rootOffset image base = 0 ∨ (image.wordAt (base + 8)).testBit 10 = true ∨
    rootOffset image base = base + 76

/-- The class of what is refused at `base`: a record with the magic word may ask for what no reader
knows, and anything else is malformed. -/
def refusal (image : Bytes) (base : Nat) : ErrorKind :=
  if Marked image base ∧ image.wordAt (base + 8) &&& 0x7ff ≠ image.wordAt (base + 8) then
    .unsupported
  else .corrupt

/-- The superblock says what the record at `base` holds. Size and counts are there only if the
lowest flag is set. -/
structure Describes (image : Bytes) (base : Nat) (sb : Superblock) : Prop where
  base_eq : sb.base = base
  flags_eq : sb.flags = image.wordAt (base + 8) &&& 0x703
  size_eq : sb.size =
    if (image.wordAt (base + 8)).testBit 0 then image.wordAt (base + 4) else 2 ^ 28
  blocks_eq : sb.blocks =
    if (image.wordAt (base + 8)).testBit 0 then image.wordAt (base + 40) else 0
  files_eq : sb.files =
    if (image.wordAt (base + 8)).testBit 0 then image.wordAt (base + 44) else 0
  edition_eq : sb.edition = image.wordAt (base + 36)
  name_padded : sb.name ++ Bytes.zeros (16 - sb.name.size) = image.extract (base + 48) (base + 64)
  name_trimmed : sb.name.size ≠ 0 → sb.name.byteAt (sb.name.size - 1) ≠ 0
  root_eq : sb.root.pack = image.extract (base + 64) (base + 76)

namespace Header

/-- The fields of a record are those that stand at `base`. -/
structure StandsAt (h : Header) (image : Bytes) (base : Nat) : Prop where
  room : base + length ≤ image.size
  magic_eq : h.magic = image.wordAt base
  size_eq : h.size = image.wordAt (base + 4)
  flags_eq : h.flags = image.wordAt (base + 8)
  edition_eq : h.edition = image.wordAt (base + 36)
  blocks_eq : h.blocks = image.wordAt (base + 40)
  files_eq : h.files = image.wordAt (base + 44)
  name_eq : h.name = image.extract (base + 48) (base + 64)
  rootMode_eq : h.root.mode.bits.toNat = image.wordAt (base + 64) % 2 ^ 16
  rootOffset_eq : h.root.offset = rootOffset image base
  root_pack : h.root.pack = image.extract (base + 64) (base + 76)

variable {image : Bytes} {base : Nat} {h : Header}

lemma exists_standsAt (hroom : base + length ≤ image.size) :
    ∃ h, unpack? (image.extract base (base + length)) = some h ∧ h.StandsAt image base := by
  have hend : base + 76 ≤ image.size := hroom
  have hsize : (image.extract base (base + 76)).size = length := by
    rw [ByteArray.size_extract, Nat.min_eq_left hend, Nat.add_sub_cancel_left]
    rfl
  have hword (i : Nat) (hi : i + 4 ≤ 76) :
      Bytes.wordAt (image.extract base (base + 76)) i = image.wordAt (base + i) :=
    Bytes.wordAt_extract_add (by omega) hend
  have hpart (start stop : Nat) (hstop : stop ≤ 76) :
      (image.extract base (base + 76)).extract start stop =
        image.extract (base + start) (base + stop) := by
    rw [ByteArray.extract_extract, Nat.min_eq_left (by omega)]
  have hrecord : (image.extract (base + 64) (base + 76)).size = Record.size := by
    rw [ByteArray.size_extract, Nat.min_eq_left hend]
    unfold Record.size
    omega
  obtain ⟨root, hroot, hmode, hoffset⟩ := Record.exists_unpack? hrecord
  rw [Bytes.wordAt_extract_add (by omega) hend] at hmode hoffset
  unfold length unpack?
  rw [if_pos hsize, hpart 64 76 (Nat.le_refl _), hroot]
  exact ⟨_, rfl, hroom, hword 0 (by decide), hword 4 (by decide), hword 8 (by decide),
    hword 36 (by decide), hword 40 (by decide), hword 44 (by decide), hpart 48 64 (by decide),
    hmode, hoffset, Record.pack_of_unpack? hroot⟩

namespace StandsAt

lemma marked_iff (hh : h.StandsAt image base) : Marked image base ↔ h.hasMagic = true := by
  have hroom : base + 76 ≤ image.size := hh.room
  unfold Marked hasMagic
  rw [beq_iff_eq, hh.magic_eq, and_iff_right hroom]

lemma unsupportedFlags_eq_zero_iff (hh : h.StandsAt image base) :
    h.unsupportedFlags = 0 ↔ image.wordAt (base + 8) &&& 0x7ff = image.wordAt (base + 8) := by
  have hmask := Nat.and_two_pow_sub_one_eq_mod (image.wordAt (base + 8)) 11
  unfold unsupportedFlags supportedFlags
  rw [hh.flags_eq, hmask]
  omega

lemma recordsSize_eq (hh : h.StandsAt image base) :
    recordsSize h.knownFlags = (image.wordAt (base + 8)).testBit 0 := by
  unfold recordsSize knownFlags
  rw [Nat.testBit_and, hh.flags_eq]
  exact Bool.and_true _

lemma movesRoot_eq (hh : h.StandsAt image base) :
    movesRoot h.knownFlags = (image.wordAt (base + 8)).testBit 10 := by
  unfold movesRoot knownFlags
  rw [Nat.testBit_and, hh.flags_eq]
  exact Bool.and_true _

lemma isDirectory_iff (hh : h.StandsAt image base) :
    h.root.mode.isDirectory = true ↔ image.wordAt (base + 64) % 2 ^ 16 / 2 ^ 12 = 4 := by
  have hcode (n : Nat) : FileType.ofCode n = .directory ↔ n = 4 := by
    unfold FileType.ofCode
    split <;> simp_all
  unfold Mode.isDirectory Mode.fileType
  rw [beq_iff_eq, hh.rootMode_eq, hcode]
  rfl

lemma rootMisplaced_iff (hh : h.StandsAt image base) :
    (h.root.offset ≠ 0 ∧ !movesRoot h.knownFlags ∧ h.root.offset ≠ base + length) ↔
      ¬(rootOffset image base = 0 ∨ (image.wordAt (base + 8)).testBit 10 = true ∨
        rootOffset image base = base + 76) := by
  rw [hh.movesRoot_eq, hh.rootOffset_eq, not_or, not_or, Bool.not_eq_true', Bool.not_eq_true]
  rfl

end StandsAt

end Header

section Acceptance

variable {image : Bytes} {base : Nat} {h : Header}

lemma ofHeader_of_sound (hh : h.StandsAt image base) (hsound : Sound image base) :
    ∃ sb, ofHeader base h = .ok sb ∧ Describes image base sb := by
  have hflags := hh.unsupportedFlags_eq_zero_iff.2 hsound.flags
  have hdirectory := hh.isDirectory_iff.2 hsound.directory
  have hroot := mt hh.rootMisplaced_iff.1 (not_not.2 hsound.root)
  unfold ofHeader
  rw [if_neg (not_not.2 hflags), if_neg (by simp [hdirectory]), if_neg hroot]
  refine ⟨_, rfl, rfl, ?_, ?_, ?_, ?_, hh.edition_eq, ?_, Bytes.byteAt_trimZeros, hh.root_pack⟩
  · exact congrArg (· &&& namedFlags) hh.flags_eq
  · rw [hh.recordsSize_eq, hh.size_eq]
    rfl
  · rw [hh.recordsSize_eq, hh.blocks_eq]
  · rw [hh.recordsSize_eq, hh.files_eq]
  · have hroom : base + 76 ≤ image.size := hh.room
    have hsize : h.name.size = 16 := by
      rw [hh.name_eq, ByteArray.size_extract]
      omega
    rw [← hsize, ← hh.name_eq]
    exact h.name.trimZeros_padded

lemma ofHeader_of_not_sound (hh : h.StandsAt image base) (hmarked : Marked image base)
    (hsound : ¬Sound image base) :
    ∃ cause, ofHeader base h = .error cause ∧ cause.kind = refusal image base := by
  unfold ofHeader
  by_cases hflags : image.wordAt (base + 8) &&& 0x7ff = image.wordAt (base + 8)
  · have hkind : refusal image base = .corrupt := if_neg fun hunknown => hunknown.2 hflags
    rw [if_neg (not_not.2 (hh.unsupportedFlags_eq_zero_iff.2 hflags)), hkind]
    by_cases hdirectory : h.root.mode.isDirectory = true
    · have hroot := hh.rootMisplaced_iff.2 fun hroot =>
        hsound ⟨hmarked, hflags, hh.isDirectory_iff.1 hdirectory, hroot⟩
      rw [if_neg (by simp [hdirectory]), if_pos hroot]
      exact ⟨_, rfl, rfl⟩
    · rw [if_pos (by simp [hdirectory])]
      exact ⟨_, rfl, rfl⟩
  · have hkind : refusal image base = .unsupported := if_pos ⟨hmarked, hflags⟩
    rw [if_pos (mt hh.unsupportedFlags_eq_zero_iff.1 hflags), hkind]
    exact ⟨_, rfl, rfl⟩

end Acceptance

section Runs

variable {m : Mapping} {base : Nat}

lemma run_readHeader_of_room (hroom : base + Header.length ≤ m.bytes.size) (c : Cache) :
    ∃ h : Header, h.StandsAt m.bytes base ∧ ((readHeader base).run (.mapped m) c).1 = .ok h := by
  obtain ⟨h, hread, hh⟩ := Header.exists_standsAt hroom
  refine ⟨h, hh, ?_⟩
  have hspan : m.read base Header.length =
      .ok (m.bytes.extract base (base + Header.length)) := by
    rw [Mapping.read_eq, if_neg (by decide), if_pos hroom]
  unfold readHeader Query.span
  rw [Query.ask_bind, Query.run, Store.read, hspan]
  simp only [Query.ofExcept, Query.done_bind, hread]
  rfl

lemma run_readHeader_of_not_room (hroom : ¬base + Header.length ≤ m.bytes.size) (c : Cache) :
    ((readHeader base).run (.mapped m) c).1 =
      .error (.refused (.outsideImage base Header.length m.bytes.size)) := by
  have hspan : m.read base Header.length =
      .error (.refused (.outsideImage base Header.length m.bytes.size)) := by
    rw [Mapping.read_eq, if_neg (by decide), if_neg hroom]
  unfold readHeader Query.span
  rw [Query.ask_bind, Query.run, Store.read, hspan]
  rfl

lemma run_locate_of_marked (hmarked : Marked m.bytes (place m.bytes)) (c : Cache) :
    ∃ h : Header, h.StandsAt m.bytes (place m.bytes) ∧
      (locate.run (.mapped m) c).1 = .ok (place m.bytes, h) := by
  unfold place at hmarked ⊢
  unfold locate
  by_cases hstart : Marked m.bytes 0
  · rw [if_pos hstart]
    obtain ⟨first, hh, hfirst⟩ := run_readHeader_of_room hstart.1 c
    refine ⟨first, hh, ?_⟩
    rw [Query.run_bind_of_ok hfirst, if_pos (hh.marked_iff.1 hstart)]
    rfl
  · rw [if_neg hstart] at hmarked ⊢
    change Marked m.bytes bootSectorSize at hmarked
    have hroom : 0 + Header.length ≤ m.bytes.size := Nat.le_trans (by decide) hmarked.1
    obtain ⟨first, hh, hfirst⟩ := run_readHeader_of_room hroom c
    obtain ⟨second, hh', hsecond⟩ := run_readHeader_of_room hmarked.1
      ((readHeader 0).run (.mapped m) c).2
    refine ⟨second, hh', ?_⟩
    rw [Query.run_bind_of_ok hfirst, if_neg (mt hh.marked_iff.2 hstart),
      Query.run_bind_of_ok (Query.run_attempt_of_ok hsecond)]
    dsimp only
    rw [if_pos (hh'.marked_iff.1 hmarked)]
    rfl

/-- Where no second place is, the start of the image is to blame. -/
lemma run_locate_of_not_marked (hmarked : ¬Marked m.bytes (place m.bytes)) (c : Cache) :
    ∃ cause : Error, cause.kind = .corrupt ∧
      (locate.run (.mapped m) c).1 = .error (.refused cause) := by
  unfold place at hmarked
  unfold locate
  by_cases hstart : Marked m.bytes 0
  · rw [if_pos hstart] at hmarked
    exact absurd hstart hmarked
  · rw [if_neg hstart] at hmarked
    by_cases hroom : 0 + Header.length ≤ m.bytes.size
    · obtain ⟨first, hh, hfirst⟩ := run_readHeader_of_room hroom c
      rw [Query.run_bind_of_ok hfirst, if_neg (mt hh.marked_iff.2 hstart)]
      by_cases hroom' : bootSectorSize + Header.length ≤ m.bytes.size
      · obtain ⟨second, hh', hsecond⟩ := run_readHeader_of_room hroom'
          ((readHeader 0).run (.mapped m) c).2
        rw [Query.run_bind_of_ok (Query.run_attempt_of_ok hsecond)]
        dsimp only
        rw [if_neg (mt hh'.marked_iff.2 hmarked)]
        exact ⟨_, rfl, rfl⟩
      · have hsecond := run_readHeader_of_not_room hroom' ((readHeader 0).run (.mapped m) c).2
        rw [Query.run_bind_of_ok (Query.run_attempt_of_refused hsecond)]
        exact ⟨_, rfl, rfl⟩
    · exact ⟨_, rfl, Query.run_bind_of_error (run_readHeader_of_not_room hroom c) _⟩

lemma run_parse_of_locate {base : Nat} {h : Header} {c : Cache}
    (hlocate : (locate.run (.mapped m) c).1 = .ok (base, h)) :
    (parse.run (.mapped m) c).1 = (ofHeader base h).mapError .refused := by
  unfold parse
  rw [Query.run_bind_of_ok hlocate]
  dsimp only
  rcases ofHeader base h with cause | sb <;> rfl

lemma run_parse_of_sound (hsound : Sound m.bytes (place m.bytes)) (c : Cache) :
    ∃ sb, (parse.run (.mapped m) c).1 = .ok sb ∧ Describes m.bytes (place m.bytes) sb := by
  obtain ⟨h, hh, hlocate⟩ := run_locate_of_marked hsound.marked c
  obtain ⟨sb, hsb, hdescribes⟩ := ofHeader_of_sound hh hsound
  refine ⟨sb, ?_, hdescribes⟩
  rw [run_parse_of_locate hlocate, hsb]
  rfl

lemma run_parse_of_not_sound (hsound : ¬Sound m.bytes (place m.bytes)) (c : Cache) :
    ∃ cause : Error, (parse.run (.mapped m) c).1 = .error (.refused cause) ∧
      cause.kind = refusal m.bytes (place m.bytes) := by
  by_cases hmarked : Marked m.bytes (place m.bytes)
  · obtain ⟨h, hh, hlocate⟩ := run_locate_of_marked hmarked c
    obtain ⟨cause, hcause, hkind⟩ := ofHeader_of_not_sound hh hmarked hsound
    refine ⟨cause, ?_, hkind⟩
    rw [run_parse_of_locate hlocate, hcause]
    rfl
  · obtain ⟨cause, hkind, hlocate⟩ := run_locate_of_not_marked hmarked c
    refine ⟨cause, Query.run_bind_of_error hlocate _, ?_⟩
    rw [hkind, refusal, if_neg (mt And.left hmarked)]

end Runs

/-- An image in memory has a superblock just if a sound record stands in the one place that counts,
and the superblock is then what this record describes. A flag that no reader knows in a record with
the magic word is refused as unsupported, all else as corrupt, and a record at the start that bears
the magic word but is not sound is not made up for by one behind a boot sector. -/
theorem parse_mapped (m : Mapping) (c : Cache) :
    (Sound m.bytes (place m.bytes) → ∃ sb, (parse.run (.mapped m) c).1 = .ok sb ∧
      Describes m.bytes (place m.bytes) sb) ∧
    (¬Sound m.bytes (place m.bytes) → ∃ cause : Error,
      (parse.run (.mapped m) c).1 = .error (.refused cause) ∧
      cause.kind = refusal m.bytes (place m.bytes)) ∧
    (Marked m.bytes 0 → ¬Sound m.bytes 0 → ∀ sb, (parse.run (.mapped m) c).1 ≠ .ok sb) := by
  refine ⟨fun hsound => run_parse_of_sound hsound c,
    fun hsound => run_parse_of_not_sound hsound c, ?_⟩
  intro hstart hsound sb
  have hplace : place m.bytes = 0 := if_pos hstart
  rw [← hplace] at hsound
  obtain ⟨cause, hcause, -⟩ := run_parse_of_not_sound hsound c
  rw [hcause]
  exact nofun

/-- The record of a volume named `rom` with the given flags, whose root has no entries. -/
def emptyRecord (flags : Nat) : Bytes :=
  Bytes.ofWord magicWord ++ Bytes.ofWord 588 ++ Bytes.ofWord flags ++ Bytes.zeros 24 ++
    Bytes.ofWord 7 ++ Bytes.ofWord 1 ++ Bytes.ofWord 1 ++
    (Bytes.ofList [0x72, 0x6f, 0x6d] ++ Bytes.zeros 13) ++
    (Bytes.ofWord 0x41ed ++ Bytes.ofWord 0 ++ Bytes.ofWord 0)

/-- An image with the given start and a sound record behind a boot sector. -/
def bootImage (start : Bytes) : Bytes := start ++ Bytes.zeros (512 - start.size) ++ emptyRecord 3

/-- A sound record behind a boot sector is found if the start of the image does not bear the magic
word, but not if a record with an unknown flag stands there. -/
theorem parse_mapped_bootImage :
    Sound (bootImage .empty) (place (bootImage .empty)) ∧
      ¬Sound (bootImage (emptyRecord 0x803)) (place (bootImage (emptyRecord 0x803))) ∧
      Marked (bootImage (emptyRecord 0x803)) 0 ∧ ¬Sound (bootImage (emptyRecord 0x803)) 0 ∧
      (∃ sb, (parse.run (.mapped ⟨bootImage .empty, none, false⟩) .empty).1 = .ok sb ∧
        sb.base = 512 ∧ sb.size = 588 ∧ sb.edition = 7) ∧
      (∃ cause : Error,
        (parse.run (.mapped ⟨bootImage (emptyRecord 0x803), none, false⟩) .empty).1 =
          .error (.refused cause) ∧ cause.kind = .unsupported) ∧
      ∀ sb,
        (parse.run (.mapped ⟨bootImage (emptyRecord 0x803), none, false⟩) .empty).1 ≠ .ok sb := by
  have hplace : place (bootImage .empty) = 512 := by decide +kernel
  have hplace' : place (bootImage (emptyRecord 0x803)) = 0 := by decide +kernel
  have hsound : Sound (bootImage .empty) (place (bootImage .empty)) := by
    rw [hplace]
    exact ⟨by decide +kernel, by decide +kernel, by decide +kernel, .inl (by decide +kernel)⟩
  have hmarked : Marked (bootImage (emptyRecord 0x803)) 0 := by decide +kernel
  have hunsound : ¬Sound (bootImage (emptyRecord 0x803)) 0 := fun h =>
    absurd h.flags (by decide +kernel)
  have hunsound' : ¬Sound (bootImage (emptyRecord 0x803))
      (place (bootImage (emptyRecord 0x803))) := by
    rwa [hplace']
  have hkind : refusal (bootImage (emptyRecord 0x803))
      (place (bootImage (emptyRecord 0x803))) = .unsupported := by decide +kernel
  obtain ⟨haccepted, -, -⟩ := parse_mapped ⟨bootImage .empty, none, false⟩ .empty
  obtain ⟨-, hrefused, hnever⟩ :=
    parse_mapped ⟨bootImage (emptyRecord 0x803), none, false⟩ .empty
  obtain ⟨sb, hsb, hdescribes⟩ := haccepted hsound
  obtain ⟨cause, hcause, hclass⟩ := hrefused hunsound'
  refine ⟨hsound, hunsound', hmarked, hunsound, ⟨sb, hsb, ?_, ?_, ?_⟩, ⟨cause, hcause, ?_⟩,
    hnever hmarked hunsound⟩
  · exact hdescribes.base_eq.trans hplace
  · exact hdescribes.size_eq.trans (by decide +kernel)
  · exact hdescribes.edition_eq.trans (by decide +kernel)
  · exact hclass.trans hkind

end CompressedRom.Superblock
