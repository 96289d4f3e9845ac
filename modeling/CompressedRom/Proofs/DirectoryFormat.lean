import CompressedRom.Proofs.ImageReads
import CompressedRom.Proofs.RecordFormat
import CompressedRom.Proofs.SortedLookup

/-!
# The format of directories

A directory is stored as its items, one behind the other: the record of a file, and its name with
zero bytes behind it. Here it is written down as `Directory.layout`, and a listing of a directory
that an image holds in this form shows every item as it went in: `Directory.listAll_layout`.
-/

namespace CompressedRom.Directory

/-- What a directory stores of a file: its record, and a name that fits into the bytes which the
record announces. Zero bytes fill the rest of them, so a name ends with another byte. -/
structure Item where
  record : Record
  name : Bytes
  size_le : name.size ≤ record.nameLen
  last_ne : name.byteAt (name.size - 1) ≠ 0

namespace Item

/-- The bytes of an item. -/
def stored (item : Item) : Bytes :=
  item.record.pack ++ (item.name ++ Bytes.zeros (item.record.nameLen - item.name.size))

/-- The number of bytes that an item takes. -/
def extent (item : Item) : Nat := Record.size + item.record.nameLen

/-- Only files of these types have content; the others have a device number. -/
def HasContent (item : Item) : Prop :=
  item.record.mode.fileType = .regularFile ∨ item.record.mode.fileType = .directory ∨
    item.record.mode.fileType = .symlink

instance (item : Item) : Decidable item.HasContent := inferInstanceAs (Decidable (_ ∨ _))

lemma name_ne (item : Item) : item.name.size ≠ 0 := by
  intro hzero
  apply item.last_ne
  exact Bytes.byteAt_of_le (by omega)

lemma size_padded (item : Item) :
    (item.name ++ Bytes.zeros (item.record.nameLen - item.name.size)).size =
      item.record.nameLen := by
  have := item.size_le
  rw [ByteArray.size_append, Bytes.size_zeros]
  omega

@[simp] lemma size_stored (item : Item) : item.stored.size = item.extent := by
  unfold stored
  rw [ByteArray.size_append, Record.size_pack, size_padded]
  rfl

end Item

/-- The content of a directory. -/
def layout (items : List Item) : Bytes := Bytes.joined (items.map Item.stored)

/-- An entry shows what is stored for a file at `pos`, and where the next item starts. -/
structure Entry.Shows (e : Entry) (item : Item) (pos : Nat) : Prop where
  name : e.name = item.name
  mode : e.inode.mode = item.record.mode
  uid : e.inode.uid = item.record.uid
  gid : e.inode.gid = item.record.gid
  size : e.inode.size = if item.HasContent then item.record.sizeField else 0
  device : e.inode.device? = if item.HasContent then none else some item.record.sizeField
  content : e.inode.offset = item.record.offset
  number : e.inode.number = if item.record.offset = 0 then 1 else item.record.offset
  offset : e.offset = pos
  next : e.next = pos + item.extent

/-- The entries show the items in their order, the first of which is stored at `pos`. -/
inductive Shown : (pos : Nat) → List Item → List Entry → Prop
  | nil (pos : Nat) : Shown pos [] []
  | cons {pos : Nat} {item : Item} {items : List Item} {e : Entry} {entries : List Entry}
    (head : e.Shows item pos) (tail : Shown (pos + item.extent) items entries) :
    Shown pos (item :: items) (e :: entries)

lemma hasContent_ofRecord (item : Item) (ts : Timestamp) :
    (Inode.ofRecord item.record ts).hasContent = true ↔ item.HasContent := by
  unfold Inode.hasContent Item.HasContent
  have htype : (Inode.ofRecord item.record ts).fileType = item.record.mode.fileType := rfl
  rw [htype]
  cases item.record.mode.fileType <;> simp

lemma shows_ofRecord (item : Item) (ts : Timestamp) (pos : Nat) :
    Entry.Shows ⟨item.name, .ofRecord item.record ts, pos, pos + item.extent⟩ item pos where
  name := rfl
  mode := rfl
  uid := rfl
  gid := rfl
  size := by
    simp only [Inode.size, hasContent_ofRecord]
    rfl
  device := by
    simp only [Inode.device?, hasContent_ofRecord]
    rfl
  content := rfl
  number := rfl
  offset := rfl
  next := rfl

section Reads

variable {fs : Filesystem} {image : Bytes} {dir : Inode}

lemma succeeds_entryAt (hfs : fs.superblock.size < 2 ^ 32) {item : Item} {pos : Nat}
    (h : fs.Shows image (dir.offset + pos) item.stored) :
    (entryAt fs dir pos).Succeeds image fun e => e.Shows item pos := by
  have hend := h.le_declared
  rw [Item.size_stored, Item.extent] at hend
  have hname := item.record.nameLen_lt
  have hsize : Record.size = 12 := rfl
  have hmax : Word.max 32 = 2 ^ 32 - 1 := rfl
  obtain ⟨hrecord, hpadded⟩ := Filesystem.Shows.append_iff.1 h
  rw [Record.size_pack] at hpadded
  unfold entryAt
  refine (Query.Succeeds.ensure (by omega)).bind fun _ _ => ?_
  have hread := Filesystem.succeeds_read hfs hrecord (by rw [Record.size_pack]; decide)
  rw [Record.size_pack] at hread
  refine hread.bind fun bytes hbytes => ?_
  subst hbytes
  rw [Record.unpack?_pack]
  refine (Query.Succeeds.within (Word.add_eq_ok (by omega))).bind fun nameOffset hoffset => ?_
  subst hoffset
  have hread := Filesystem.succeeds_read hfs hpadded (by
    rw [Item.size_padded]
    unfold File.maxCompressedPage pageSize pageShift
    omega)
  rw [Item.size_padded] at hread
  refine hread.bind fun padded hbytes => ?_
  subst hbytes
  dsimp only
  rw [Bytes.trimZeros_append_zeros item.last_ne]
  refine (Query.Succeeds.ensure item.name_ne).bind fun _ _ => ?_
  refine (Query.Succeeds.within (Word.add_eq_ok (by omega))).bind fun next hnext => ?_
  subst hnext
  exact .pure (shows_ofRecord item fs.timestamp pos)

lemma succeeds_listFrom (hfs : fs.superblock.size < 2 ^ 32) {items : List Item} {limit pos : Nat}
    (found : List Entry) (h : fs.Shows image (dir.offset + pos) (layout items))
    (hextent : extent dir = pos + (layout items).size) (hlimit : (layout items).size ≤ limit) :
    (listFrom fs dir limit pos found).Succeeds image fun listing =>
      ∃ entries, listing = ⟨found.reverse ++ entries, none⟩ ∧ Shown pos items entries := by
  induction items generalizing limit pos found with
  | nil =>
    have hend : ¬pos < extent dir := by
      have hnone : (layout []).size = 0 := rfl
      omega
    have hshown : ∃ entries, (⟨found.reverse, none⟩ : Listing) = ⟨found.reverse ++ entries, none⟩ ∧
        Shown pos [] entries := ⟨[], by rw [List.append_nil], .nil pos⟩
    cases limit with
    | zero => exact .pure hshown
    | succ limit =>
      rw [listFrom, if_neg hend]
      exact .pure hshown
  | cons item items ih =>
    have hlayout : layout (item :: items) = item.stored ++ layout items := rfl
    have hpos : 0 < item.extent := Nat.lt_add_right _ (by decide)
    rw [hlayout, Filesystem.Shows.append_iff, Item.size_stored, Nat.add_assoc] at h
    rw [hlayout, ByteArray.size_append, Item.size_stored] at hextent hlimit
    obtain ⟨limit, rfl⟩ := Nat.exists_eq_add_one_of_ne_zero (n := limit) (by omega)
    rw [listFrom, if_pos (by omega)]
    refine (succeeds_entryAt hfs h.1).attempt.bind fun result hresult => ?_
    obtain ⟨e, rfl, he⟩ := hresult
    dsimp only
    rw [he.next]
    refine (ih (e :: found) h.2 (by omega) (by omega)).mono ?_
    rintro _ ⟨entries, rfl, hentries⟩
    exact ⟨e :: entries, by simp, .cons he hentries⟩

end Reads

variable {s : Store} {image : Bytes} {fs : Filesystem} {dir : Inode} {items : List Item}

/-- The listing of a directory that an image holds in this form shows all items in their order, and
no error. Reads before may have failed, as long as no call to the device fails now. -/
theorem listAll_layout (hs : s.Holds image) {ts : Timestamp} {c₀ : Cache}
    (hfs : ((Filesystem.mount s ts).run s c₀).1 = .ok fs) (hdir : dir.isDirectory = true)
    (hoffset : dir.offset ≠ 0) (hsize : dir.size = (layout items).size)
    (hlayout : fs.Shows image dir.offset (layout items)) (before : List (Nat × Nat))
    (hcalls : (listAll fs dir 0).Unhindered s (s.readAll before .empty).2) :
    ∃ entries, ((listAll fs dir 0).run s (s.readAll before .empty).2).1 = .ok ⟨entries, none⟩ ∧
      Shown 0 items entries := by
  have hdeclared := (Filesystem.mount_eq_ok hfs).2
  have hextent : extent dir = (layout items).size := (if_neg hoffset).trans hsize
  rw [listAll_zero hdir] at hcalls ⊢
  have hlist : (listFrom fs dir (extent dir) 0 []).Succeeds image fun listing =>
      ∃ entries, listing = ⟨[].reverse ++ entries, none⟩ ∧ Shown 0 items entries :=
    succeeds_listFrom hdeclared [] hlayout (by omega) (Nat.le_of_eq hextent.symm)
  obtain ⟨listing, hrun, entries, rfl, hshown⟩ := hlist.run hs (hs.coherent_readAll before) hcalls
  exact ⟨entries, hrun, hshown⟩

/-- A file whose name has a zero byte inside and more zero bytes behind it than it needs. -/
def gapItem : Item where
  record := {
    mode := ⟨0x81a4⟩
    uid := 1000
    gid := 7
    sizeField := 5
    offset := 200
    nameLen := 8
    sizeField_lt := by decide
    offset_lt := by decide
    offset_mod := by decide
    nameLen_lt := by decide
    nameLen_mod := by decide }
  name := Bytes.ofList [0x61, 0, 0x62]
  size_le := by decide
  last_ne := by decide

/-- A device, which has no content. -/
def deviceItem : Item where
  record := {
    mode := ⟨0x2180⟩
    uid := 0
    gid := 0
    sizeField := 0x0501
    offset := 0
    nameLen := 4
    sizeField_lt := by decide
    offset_lt := by decide
    offset_mod := by decide
    nameLen_lt := by decide
    nameLen_mod := by decide }
  name := Bytes.ofList [0x63]
  size_le := by decide
  last_ne := by decide

/-- An image whose root holds the two items. -/
def deviceImage : Bytes :=
  Bytes.ofList ([0x45, 0x3d, 0xcd, 0x28, 112, 0, 0, 0, 1] ++ List.replicate 55 0 ++
    [0xed, 0x41, 0, 0, 36, 0, 0, 0, 0xc0, 0x04, 0, 0]) ++ layout [gapItem, deviceItem]

theorem listAll_layout_device :
    ∃ fs entries,
      ((Filesystem.mount (.mapped ⟨deviceImage, none, false⟩) .epoch).run
        (.mapped ⟨deviceImage, none, false⟩) .empty).1 = .ok fs ∧
      ((listAll fs fs.root 0).run (.mapped ⟨deviceImage, none, false⟩) .empty).1 =
        .ok ⟨entries, none⟩ ∧
      Shown 0 [gapItem, deviceItem] entries := by
  have hmount : (match ((Filesystem.mount (.mapped ⟨deviceImage, none, false⟩) .epoch).run
        (.mapped ⟨deviceImage, none, false⟩) .empty).1 with
      | .error _ => false
      | .ok fs => decide (fs.root.isDirectory = true ∧ fs.root.offset = 76 ∧ fs.root.size = 36 ∧
          fs.superblock.size = 112)) = true := by decide +kernel
  split at hmount
  · simp at hmount
  · rename_i fs hfs
    obtain ⟨hdir, hoffset, hsize, hdeclared⟩ := of_decide_eq_true hmount
    have hlayout : fs.Shows deviceImage fs.root.offset (layout [gapItem, deviceItem]) := by
      rw [hoffset]
      exact ⟨⟨rfl, by decide +kernel⟩, by decide +kernel, by rw [hdeclared]; decide +kernel⟩
    have hextent : (layout [gapItem, deviceItem]).size = 36 := rfl
    obtain ⟨entries, hentries, hshown⟩ := listAll_layout (s := .mapped ⟨deviceImage, none, false⟩)
      rfl hfs hdir (by rw [hoffset]; decide) (hsize.trans hextent.symm) hlayout []
      (Query.unhindered_mapped _ _ _)
    exact ⟨fs, entries, hfs, hentries, hshown⟩

end CompressedRom.Directory
