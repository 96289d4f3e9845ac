import CompressedRom.Partition
import CompressedRom.Proofs.PageReads

/-!
# Execution in place

A file that may be executed in place is read by one path, which rounds its offset in the image up
to a page, and mapped by another, which rounds its physical address. Here it is shown that both
lead to the same bytes of the flash: `File.flash_at_physicalRange`.
-/

namespace CompressedRom

namespace Page

lemma aligned_add {base : Nat} (h : base % pageSize = 0) (offset : Nat) :
    aligned (base + offset) = base + aligned offset := by
  unfold aligned
  rw [pageSize_eq] at h ⊢
  omega

end Page

/-- The store is the region of the flash that the partition describes, which starts at a page
boundary of physical memory, and marked files may be executed out of it. -/
structure Partition.Maps (p : Partition) (flash : Bytes) (s : Store) : Prop where
  store_eq : s = .mapped ⟨flash.extract p.offset (p.offset + p.size),
    some (p.physAddress + p.offset), true⟩
  base_mod : (p.physAddress + p.offset) % pageSize = 0
  stop_le : p.offset + p.size ≤ flash.size

namespace Partition

variable {p : Partition} {flash : Bytes} {s : Store}

lemma maps_of_store (hmode : p.mode = .linearXip) (h : p.store flash = .ok s) : p.Maps flash s := by
  unfold store at h
  rw [hmode] at h
  dsimp only at h
  unfold openMapping at h
  by_cases hbase : p.physBase?.getD 0 = 0 ∨ p.physBase?.getD 0 % pageSize ≠ 0
  · simp [hbase] at h
  · -- A sum that is no word has no base, and stands for the base 0 that is refused.
    have hphys : p.physBase? = some (p.physAddress + p.offset) := by
      unfold physBase? at hbase ⊢
      split at hbase <;> simp_all
    rw [hphys, Option.getD_some] at h hbase
    rw [if_neg hbase] at h
    unfold window at h
    split at h
    · rename_i hwindow
      exact ⟨(Except.ok.inj h).symm, by omega, hwindow.2⟩
    · exact absurd h (by simp [bind, Except.bind])

lemma Maps.range (h : p.Maps flash s) :
    Bytes.IsRange flash.byteAt p.offset p.size (flash.extract p.offset (p.offset + p.size)) :=
  .of_extract h.stop_le

lemma Maps.extract_eq (h : p.Maps flash s) {start len : Nat} (hend : start + len ≤ p.size) :
    flash.extract (p.offset + start) (p.offset + start + len) =
      (flash.extract p.offset (p.offset + p.size)).extract start (start + len) := by
  have hstop := h.stop_le
  have hflash : Bytes.IsRange flash.byteAt (p.offset + start) len
      (flash.extract (p.offset + start) (p.offset + start + len)) := .of_extract (by omega)
  exact hflash.unique (h.range.extract hend)

end Partition

namespace Filesystem

lemma mount_eq_ofSuperblock {s s' : Store} {ts : Timestamp} {c : Cache} {fs : Filesystem}
    (h : ((mount s ts).run s' c).1 = .ok fs) : ∃ sb, fs = ofSuperblock s ts sb := by
  rw [mount_eq (mount_eq_ok h).1] at h
  obtain ⟨sb, c', -, hfs⟩ := Query.run_bind_eq_ok h
  exact ⟨sb, (Except.ok.inj hfs).symm⟩

lemma mount_of_maps {p : Partition} {flash : Bytes} {s : Store} (hs : p.Maps flash s)
    {ts : Timestamp} {c : Cache} {fs : Filesystem} (h : ((mount s ts).run s c).1 = .ok fs) :
    fs.isInPlace = true ∧ fs.physBase? = some (p.physAddress + p.offset) := by
  obtain ⟨sb, rfl⟩ := mount_eq_ofSuperblock h
  obtain rfl := hs.store_eq
  exact ⟨rfl, rfl⟩

lemma run_read_mapped {fs : Filesystem} {m : Mapping} {offset len : Nat} {c : Cache} {span : Bytes}
    (h : ((fs.read offset len).run (.mapped m) c).1 = .ok span) (hlen : len ≠ 0) :
    offset + len ≤ m.bytes.size ∧ span = m.bytes.extract offset (offset + len) := by
  obtain ⟨stop, c₁, -, hensure⟩ := Query.run_bind_eq_ok h
  obtain ⟨_, c₂, -, hspan⟩ := Query.run_bind_eq_ok hensure
  have hread : (m.read offset len) = .ok span := by
    rw [Query.span, Query.run, Store.read] at hspan
    rcases hr : m.read offset len with ⟨cause | step⟩ | bytes
    · simp [hr, Query.ofExcept, Query.refuse, Query.run] at hspan
    · simp [hr] at hspan
    · simpa [hr, Query.ofExcept, Query.run] using hspan
  rw [Mapping.read_eq, if_neg hlen] at hread
  by_cases hin : offset + len ≤ m.bytes.size
  · rw [if_pos hin] at hread
    exact ⟨hin, (Except.ok.inj hread).symm⟩
  · simp [if_neg hin] at hread

end Filesystem

namespace File

variable {fs : Filesystem} {inode : Inode} {index : Nat}

lemma run_storedPage {s : Store} {c : Cache} {page : Bytes} (hindex : index < inode.pageCount)
    (hplace : (inode.isInPlace && fs.isInPlace) = true)
    (h : ((readPage fs inode index).run s c).1 = .ok page) :
    ∃ c', ((fs.read (Page.aligned inode.offset + index * pageSize) pageSize).run s c').1 =
      .ok page := by
  obtain ⟨_, c₁, -, hpages⟩ := Query.run_bind_eq_ok h
  obtain ⟨_, c₂, -, hread⟩ := Query.run_bind_eq_ok hpages
  obtain ⟨bytes, c₃, hbytes, hout⟩ := Query.run_bind_eq_ok hread
  unfold pageBytes at hbytes
  rw [if_neg (Nat.not_le_of_lt hindex), hplace, if_pos rfl, storedPage_eq fs hindex] at hbytes
  obtain ⟨whole, c₄, hwhole, hsize⟩ := Query.run_bind_eq_ok (congrArg Prod.fst hbytes)
  refine ⟨c₂, ?_⟩
  rw [hwhole]
  by_cases hw : whole.size = pageSize
  · rw [if_pos hw] at hsize
    obtain rfl : whole = bytes := Except.ok.inj hsize
    rw [Bytes.size_zeros, padded_of_le (Nat.le_of_eq hw)] at hout
    rwa [← wholePage_of_size hw]
  · simp [if_neg hw, Query.run] at hsize

lemma succeeds_readPage_inPlace {image page : Bytes} (hfs : fs.superblock.size < 2 ^ 32)
    (hpages : inode.hasPages = true) (hplace : (inode.isInPlace && fs.isInPlace) = true)
    (hindex : index < inode.pageCount) (hsize : page.size = pageSize)
    (h : fs.Shows image (Page.aligned inode.offset + index * pageSize) page) :
    (readPage fs inode index).Succeeds image fun b => b = page := by
  have hstored : (storedPage fs inode index).Succeeds image fun b => b = page := by
    have hread := Filesystem.succeeds_read hfs h (by rw [hsize]; decide)
    rw [hsize] at hread
    rw [storedPage_eq fs hindex]
    refine hread.bind fun b hb => ?_
    rw [hb, if_pos hsize]
    exact .pure rfl
  refine succeeds_readPageInto_of_pageBytes hpages (Bytes.size_zeros pageSize) ?_
  unfold pageBytes
  rw [if_neg (Nat.not_le_of_lt hindex), hplace, if_pos rfl]
  refine hstored.mono fun b hb => ?_
  rw [hb]
  exact ⟨Nat.le_of_eq hsize, wholePage_of_size hsize⟩

/-- As long as the sums are words, a range of physical memory starts where rounding says. -/
lemma physicalRange_eq {base : Nat} (hbase : fs.physBase? = some base)
    (hplace : (inode.isInPlace && fs.isInPlace) = true)
    (hcontent : base + inode.offset + pageSize < 2 ^ 64)
    (haddress : Page.aligned (base + inode.offset) + index * pageSize < 2 ^ 64) (len : Nat) :
    physicalRange fs inode index len =
      pure ⟨Page.aligned (base + inode.offset) + index * pageSize,
        Page.aligned (min len inode.size)⟩ := by
  have hsize := inode.size_lt
  have hsum : Word.add 64 base inode.offset = .ok (base + inode.offset) :=
    Word.add_eq_ok (by omega)
  have hlen : Page.align (min len inode.size) = .ok (Page.aligned (min len inode.size)) :=
    Page.align_eq_ok (by rw [pageSize_eq]; omega)
  have hbefore : Page.start index = .ok (index * pageSize) := Page.start_eq_ok (by omega)
  unfold physicalRange Query.ensure
  rw [if_pos hplace, hbase]
  simp only [hsum, Page.align_eq_ok hcontent, hlen, hbefore, Word.add_eq_ok haddress, liftM_ok,
    Query.done_bind, pure_bind]

/-- Where a partition is mapped in place and a page of a file that is marked for it can be read, the
flash holds just this page at the physical address of the page, and within the partition. -/
theorem flash_at_physicalRange {p : Partition} {flash : Bytes} {s : Store}
    (hmode : p.mode = .linearXip) (hs : p.store flash = .ok s) {ts : Timestamp} {c₀ : Cache}
    (hfs : ((Filesystem.mount s ts).run s c₀).1 = .ok fs) (hplace : inode.isInPlace = true)
    (hindex : index < inode.pageCount) (len : Nat) {c : Cache} {page : Bytes}
    (hpage : ((readPage fs inode index).run s c).1 = .ok page)
    (hcontent : p.physAddress + p.offset + inode.offset + pageSize < 2 ^ 64)
    (haddress : Page.aligned (p.physAddress + p.offset + inode.offset) + index * pageSize < 2 ^ 64) :
    ∃ range, (∀ c, ((physicalRange fs inode index len).run s c).1 = .ok range) ∧
      p.physAddress + p.offset ≤ range.address ∧
      range.address - p.physAddress + pageSize ≤ p.offset + p.size ∧
      flash.extract (range.address - p.physAddress) (range.address - p.physAddress + pageSize) =
        page := by
  have hmaps := Partition.maps_of_store hmode hs
  obtain ⟨hxip, hbase⟩ := Filesystem.mount_of_maps hmaps hfs
  have hboth : (inode.isInPlace && fs.isInPlace) = true := by rw [hplace, hxip]; rfl
  obtain ⟨c', hread⟩ := run_storedPage hindex hboth hpage
  rw [hmaps.store_eq] at hread
  obtain ⟨hend, rfl⟩ := Filesystem.run_read_mapped hread (by decide)
  rw [hmaps.range.size_eq] at hend
  have hrange := physicalRange_eq hbase hboth hcontent haddress len
  -- The address less that of the flash is the place of the page in the region, behind its offset.
  have hsplit : Page.aligned (p.physAddress + p.offset + inode.offset) + index * pageSize =
      p.physAddress + (p.offset + (Page.aligned inode.offset + index * pageSize)) := by
    rw [Page.aligned_add hmaps.base_mod]
    omega
  rw [hsplit] at hrange
  refine ⟨⟨_, _⟩, fun c => congrArg (fun q => (q.run s c).1) hrange, ?_⟩
  dsimp only
  rw [Nat.add_sub_cancel_left]
  exact ⟨by omega, by omega, hmaps.extract_eq hend⟩

/-- The start of an image of two pages. -/
def programHeader : Bytes :=
  Bytes.ofList ([0x45, 0x3d, 0xcd, 0x28, 0, 0x20, 0, 0, 1] ++ List.replicate 55 0 ++
    [0xed, 0x41, 0, 0, 0, 0, 0, 0, 0, 0, 0, 0])

/-- A page of a program of two bytes. -/
def programPage : Bytes := Bytes.ofList [0xeb, 0xfe] ++ Bytes.zeros (pageSize - 2)

/-- An image that holds the program in its second page. -/
def programImage : Bytes := programHeader ++ (Bytes.zeros (pageSize - 76) ++ programPage)

/-- A flash that holds the image between two other regions. -/
def programFlash : Bytes := Bytes.zeros 512 ++ (programImage ++ Bytes.zeros 16)

/-- The region of the image. Its offset is no page boundary, but its physical address is one. -/
def programPartition : Partition where
  name := "rootfs"
  offset := 512
  size := 2 * pageSize
  mode := .linearXip
  physAddress := 2 ^ 16 - 512

/-- The program as a file that may be executed in place. -/
def programInode : Inode where
  mode := ⟨0x83ed⟩
  uid := 0
  gid := 0
  sizeField := 2
  offset := 92
  sizeField_lt := by decide
  offset_lt := by decide
  offset_mod := by decide
  mtime := .epoch

lemma size_programPage : programPage.size = pageSize := by
  rw [programPage, ByteArray.size_append, Bytes.size_zeros]
  rfl

lemma size_programImage : programImage.size = 2 * pageSize := by
  rw [programImage, ByteArray.size_append, ByteArray.size_append, Bytes.size_zeros,
    size_programPage]
  rfl

lemma store_programPartition :
    programPartition.store programFlash = .ok (.mapped ⟨programImage, some (2 ^ 16), true⟩) := by
  have hflash : programFlash.size = 512 + (2 * pageSize + 16) := by
    rw [programFlash, ByteArray.size_append, ByteArray.size_append, Bytes.size_zeros,
      Bytes.size_zeros, size_programImage]
  have hbehind : programFlash.extract (512 + 0) (512 + 2 * pageSize) =
      (programImage ++ Bytes.zeros 16).extract 0 (2 * pageSize) :=
    ByteArray.extract_append_size_add' (Bytes.size_zeros 512).symm
  have hbytes : programFlash.extract 512 (512 + 2 * pageSize) = programImage :=
    hbehind.trans (ByteArray.extract_append_eq_left size_programImage.symm)
  have hbase : programPartition.physBase? = some (2 ^ 16) := by decide
  have hwindow : programPartition.offset + programPartition.size ≤ Word.max 64 ∧
      programPartition.offset + programPartition.size ≤ programFlash.size := by
    rw [hflash]
    decide
  unfold Partition.store Partition.openMapping Partition.window
  rw [hbase, dif_pos hwindow]
  change Except.ok (Store.mapped
    ⟨programFlash.extract 512 (512 + 2 * pageSize), some (2 ^ 16), true⟩) = _
  rw [hbytes]

lemma exists_programMount :
    ∃ sb : Superblock, sb.size = 2 * pageSize ∧
      Superblock.parse.Succeeds programImage fun found => found = sb := by
  have hheader : Superblock.accepted programHeader (fun sb => sb.size = 2 * pageSize) = true := by
    decide +kernel
  obtain ⟨sb, hsize, hparse⟩ := Superblock.exists_parse_of_accepted rfl hheader
  exact ⟨sb, of_decide_eq_true hsize, hparse _⟩

lemma shows_programPage {fs : Filesystem} (hfs : fs.superblock.size = 2 * pageSize) :
    fs.Shows programImage pageSize programPage := by
  have hall : fs.Shows programImage 0 programImage :=
    ⟨.self _, by omega, by rw [size_programImage]; omega⟩
  have hpage := (Filesystem.Shows.append_iff.1 (Filesystem.Shows.append_iff.1 hall).2).2
  rwa [Bytes.size_zeros] at hpage

theorem flash_at_physicalRange_program :
    ∃ (s : Store) (fs : Filesystem) (range : PhysicalRange),
      programPartition.store programFlash = .ok s ∧
      ((Filesystem.mount s .epoch).run s .empty).1 = .ok fs ∧
      ((readPage fs programInode 0).run s .empty).1 = .ok programPage ∧
      ((physicalRange fs programInode 0 2).run s .empty).1 = .ok range ∧
      programFlash.extract (range.address - programPartition.physAddress)
        (range.address - programPartition.physAddress + pageSize) = programPage := by
  obtain ⟨sb, hsize, hparse⟩ := exists_programMount
  have hs : (Store.mapped ⟨programImage, some (2 ^ 16), true⟩).Holds programImage := rfl
  have hcoherent : Cache.empty.Coherent programImage.byteAt := hs.coherent_readAll []
  have hcalls {α : Type} (q : Query α) := q.unhindered_mapped ⟨programImage, some (2 ^ 16), true⟩ .empty
  obtain ⟨fs, hfs, rfl⟩ := (Filesystem.succeeds_mount hs.mode_ne_char .epoch hparse).run hs hcoherent
    (hcalls _)
  have hpage : (readPage (.ofSuperblock (.mapped ⟨programImage, some (2 ^ 16), true⟩) .epoch sb)
      programInode 0).Succeeds programImage fun page => page = programPage := by
    refine succeeds_readPage_inPlace ?_ rfl rfl (by decide) size_programPage ?_
    · exact hsize ▸ (by decide)
    · exact shows_programPage hsize
  obtain ⟨page, hread, rfl⟩ := hpage.run hs hcoherent (hcalls _)
  obtain ⟨range, hrange, -, -, hbytes⟩ := flash_at_physicalRange rfl store_programPartition hfs rfl
    (by decide) 2 hread (by decide) (by decide)
  exact ⟨_, _, range, store_programPartition, hfs, hread, hrange .empty, hbytes⟩

end File

end CompressedRom
