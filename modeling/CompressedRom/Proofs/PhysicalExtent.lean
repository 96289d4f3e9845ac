import CompressedRom.Directory
import CompressedRom.Proofs.InPlace

/-!
# How far a mapped range goes

A range that is mapped in place starts with a page of its file, but its length is rounded from the
whole size, wherever it starts. `File.physicalRange_extent` states how far this goes: a range stays
within the stored pages of the file just if it starts with the first of them, or if the bytes asked
for end within them. `File.not_physicalRange_within` has a file whose range covers the page of the
file behind it.
-/

namespace CompressedRom

namespace Page

lemma aligned_mono {m n : Nat} (h : m ≤ n) : aligned m ≤ aligned n :=
  Nat.mul_le_mul_right _ (Nat.div_le_div_right (Nat.add_le_add_right h _))

lemma mul_lt_aligned {index size : Nat} (h : index < count size) :
    index * pageSize < aligned size :=
  Nat.mul_lt_mul_of_pos_right h (by decide)

/-- Behind whole pages a length ends before a page boundary just if it does once it is rounded. -/
lemma mul_add_aligned_le_iff {index len size : Nat} :
    index * pageSize + aligned len ≤ aligned size ↔ index * pageSize + len ≤ aligned size := by
  unfold aligned
  rw [pageSize_eq]
  omega

end Page

lemma Filesystem.mount_of_linearXip {s s' : Store} {ts : Timestamp} {c : Cache} {fs : Filesystem}
    (h : ((mount s ts).run s' c).1 = .ok fs) (hmode : s.mode = .linearXip) :
    fs.isInPlace = true ∧ fs.physBase? = s.physBase? := by
  obtain ⟨sb, rfl⟩ := mount_eq_ofSuperblock h
  constructor
  · cases s with
    | mapped m =>
      by_contra hnot
      have hlinear : (Store.mapped m).mode = .linear := if_neg hnot
      rw [hlinear] at hmode
      exact absurd hmode nofun
    | buffered => exact absurd hmode nofun
    | characters => exact absurd hmode nofun
  · rfl

namespace File

/-- The first address behind a range. -/
def PhysicalRange.stop (range : PhysicalRange) : Nat := range.address + range.len

/-- The physical memory of the stored pages of a file, where the image is mapped from `base` on. -/
def storedRange (base : Nat) (inode : Inode) : PhysicalRange where
  address := base + Page.aligned inode.offset
  len := Page.aligned inode.size

variable {s : Store} {fs : Filesystem} {inode : Inode} {base index : Nat}

/-- Rounded from the whole size, a length goes past the stored pages unless it starts with the
first of them or ends within them. -/
lemma mul_add_aligned_min_le_iff (hindex : index < inode.pageCount) (len : Nat) :
    index * pageSize + Page.aligned (min len inode.size) ≤ Page.aligned inode.size ↔
      index = 0 ∨ index * pageSize + len ≤ Page.aligned inode.size := by
  cases index with
  | zero =>
    have hle : Page.aligned (min len inode.size) ≤ Page.aligned inode.size :=
      Page.aligned_mono (Nat.min_le_right _ _)
    simpa using hle
  | succ index =>
    have hsize := Page.aligned_lt inode.size
    have hbehind : pageSize ≤ (index + 1) * pageSize := Nat.le_mul_of_pos_left _ (Nat.succ_pos _)
    rw [Page.mul_add_aligned_le_iff]
    omega

/-- A file that may be executed in place is mapped from one of its stored pages on, and the length
of the range is that of the bytes asked for or the whole file, rounded up to whole pages. So the
range ends within the stored pages just if it starts with the first of them or the bytes asked for
end there. Any other ends behind them, by no more than the pages that lie before it. -/
theorem physicalRange_extent {ts : Timestamp} {c₀ : Cache}
    (hfs : ((Filesystem.mount s ts).run s c₀).1 = .ok fs) (hmode : s.mode = .linearXip)
    (hbase : s.physBase? = some base) (haligned : base % pageSize = 0)
    (hplace : inode.isInPlace = true) (hindex : index < inode.pageCount) (len : Nat)
    (hcontent : base + inode.offset + pageSize < 2 ^ 64)
    (haddress : Page.aligned (base + inode.offset) + index * pageSize < 2 ^ 64) :
    ∃ range, (∀ c, ((physicalRange fs inode index len).run s c).1 = .ok range) ∧
      range.address = (storedRange base inode).address + index * pageSize ∧
      range.address < (storedRange base inode).stop ∧
      range.len = Page.aligned (min len inode.size) ∧
      range.stop ≤ (storedRange base inode).stop + index * pageSize ∧
      (range.stop ≤ (storedRange base inode).stop ↔
        index = 0 ∨ index * pageSize + len ≤ (storedRange base inode).len) := by
  obtain ⟨hxip, hphys⟩ := Filesystem.mount_of_linearXip hfs hmode
  have hboth : (inode.isInPlace && fs.isInPlace) = true := by rw [hplace, hxip]; rfl
  have hrange := physicalRange_eq (hphys.trans hbase) hboth hcontent haddress len
  rw [Page.aligned_add haligned] at hrange
  have hlen : Page.aligned (min len inode.size) ≤ Page.aligned inode.size :=
    Page.aligned_mono (Nat.min_le_right _ _)
  have hwithin := mul_add_aligned_min_le_iff hindex len
  refine ⟨⟨base + Page.aligned inode.offset + index * pageSize, Page.aligned (min len inode.size)⟩,
    fun c => congrArg (fun q => (q.run s c).1) hrange, rfl, ?_, rfl, ?_, ?_⟩
  · exact Nat.add_lt_add_left (Page.mul_lt_aligned hindex) _
  · unfold PhysicalRange.stop storedRange
    dsimp only
    omega
  · unfold PhysicalRange.stop storedRange
    dsimp only
    rw [← hwithin]
    omega

/-- An image in memory with two files that may be executed in place, `a` of two pages and behind it
`b` of one. -/
def neighbourStore : Store :=
  .mapped ⟨Bytes.ofList ([0x45, 0x3d, 0xcd, 0x28, 0, 0x40, 0, 0, 1] ++ List.replicate 55 0 ++
    [0xed, 0x41, 0, 0, 32, 0, 0, 0, 0xc0, 0x04, 0, 0] ++
    [0xed, 0x83, 0, 0, 0, 0x20, 0, 0, 1, 0, 1, 0, 0x61, 0, 0, 0] ++
    [0xed, 0x83, 0, 0, 2, 0, 0, 0, 1, 0, 3, 0, 0x62, 0, 0, 0] ++
    List.replicate (pageSize - 108) 0 ++ List.replicate (3 * pageSize) 0x90), some (2 ^ 16), true⟩

lemma exists_neighbour :
    ∃ fs inode neighbour,
      ((Filesystem.mount neighbourStore .epoch).run neighbourStore .empty).1 = .ok fs ∧
      ((Directory.lookup fs fs.root (Bytes.ofList [0x61])).run neighbourStore .empty).1 =
        .ok (some inode) ∧
      ((Directory.lookup fs fs.root (Bytes.ofList [0x62])).run neighbourStore .empty).1 =
        .ok (some neighbour) ∧
      inode.isInPlace = true ∧ inode.size = 2 * pageSize ∧ inode.offset = pageSize ∧
      neighbour.isInPlace = true ∧ neighbour.size = 2 ∧ neighbour.offset = 3 * pageSize := by
  have hread : (match ((Filesystem.mount neighbourStore .epoch).run neighbourStore .empty).1 with
      | .error _ => false
      | .ok fs =>
        match ((Directory.lookup fs fs.root (Bytes.ofList [0x61])).run neighbourStore .empty).1 with
        | .error _ | .ok none => false
        | .ok (some inode) =>
          match ((Directory.lookup fs fs.root (Bytes.ofList [0x62])).run neighbourStore
              .empty).1 with
          | .error _ | .ok none => false
          | .ok (some neighbour) =>
            decide (inode.isInPlace = true ∧ inode.size = 2 * pageSize ∧
              inode.offset = pageSize ∧ neighbour.isInPlace = true ∧ neighbour.size = 2 ∧
              neighbour.offset = 3 * pageSize)) = true := by
    decide +kernel
  split at hread
  · simp at hread
  · rename_i fs hfs
    split at hread
    · simp at hread
    · simp at hread
    · rename_i inode hinode
      split at hread
      · simp at hread
      · simp at hread
      · rename_i neighbour hneighbour
        exact ⟨fs, inode, neighbour, hfs, hinode, hneighbour, of_decide_eq_true hread⟩

lemma pageCount_of_size {n : Nat} (h : inode.size = n * pageSize) : inode.pageCount = n := by
  unfold Inode.pageCount Page.count
  rw [h, pageSize_eq]
  omega

/-- Asked for two pages from its second page on, the file `a` is mapped together with `b`. -/
theorem physicalRange_extent_neighbour :
    ∃ fs inode neighbour range,
      ((Filesystem.mount neighbourStore .epoch).run neighbourStore .empty).1 = .ok fs ∧
      ((Directory.lookup fs fs.root (Bytes.ofList [0x61])).run neighbourStore .empty).1 =
        .ok (some inode) ∧
      ((Directory.lookup fs fs.root (Bytes.ofList [0x62])).run neighbourStore .empty).1 =
        .ok (some neighbour) ∧
      ((physicalRange fs inode 1 (2 * pageSize)).run neighbourStore .empty).1 = .ok range ∧
      range.address < (storedRange (2 ^ 16) inode).stop ∧
      (storedRange (2 ^ 16) inode).stop = (storedRange (2 ^ 16) neighbour).address ∧
      range.stop = (storedRange (2 ^ 16) neighbour).stop := by
  obtain ⟨fs, inode, neighbour, hfs, hinode, hneighbour, hplace, hsize, hoffset, -, hsize',
    hoffset'⟩ := exists_neighbour
  have hindex : 1 < inode.pageCount := by
    rw [pageCount_of_size hsize]
    decide
  obtain ⟨range, hrun, haddress, hstart, hlen, -, -⟩ :=
    physicalRange_extent (s := neighbourStore) hfs rfl rfl rfl hplace hindex (2 * pageSize)
      (by rw [hoffset]; decide) (by rw [hoffset]; decide)
  refine ⟨fs, inode, neighbour, range, hfs, hinode, hneighbour, hrun .empty, hstart, ?_, ?_⟩
  · unfold PhysicalRange.stop storedRange
    rw [hsize, hoffset, hoffset']
    rfl
  · unfold PhysicalRange.stop
    rw [haddress, hlen]
    unfold storedRange
    rw [hsize, hoffset, hsize', hoffset']
    rfl

/-- Mapped ranges do not always stay within the stored pages of their file. -/
theorem not_physicalRange_within :
    ¬∀ (s : Store) (ts : Timestamp) (c₀ c : Cache) (fs : Filesystem) (base : Nat) (inode : Inode)
        (index len : Nat) (range : PhysicalRange),
      ((Filesystem.mount s ts).run s c₀).1 = .ok fs → s.mode = .linearXip →
      s.physBase? = some base → base % pageSize = 0 → inode.isInPlace = true →
      index < inode.pageCount → base + inode.offset + pageSize < 2 ^ 64 →
      Page.aligned (base + inode.offset) + index * pageSize < 2 ^ 64 →
      ((physicalRange fs inode index len).run s c).1 = .ok range → range.stop < 2 ^ 64 →
      range.stop ≤ base + Page.aligned inode.offset + Page.aligned inode.size := by
  intro hwithin
  obtain ⟨fs, inode, -, hfs, -, -, hplace, hsize, hoffset, -⟩ := exists_neighbour
  obtain ⟨hxip, hphys⟩ := Filesystem.mount_of_linearXip hfs rfl
  have hboth : (inode.isInPlace && fs.isInPlace) = true := by rw [hplace, hxip]; rfl
  have hindex : 1 < inode.pageCount := by
    rw [pageCount_of_size hsize]
    decide
  have hcontent : 2 ^ 16 + inode.offset + pageSize < 2 ^ 64 := by
    rw [hoffset]
    decide
  have haddress : Page.aligned (2 ^ 16 + inode.offset) + 1 * pageSize < 2 ^ 64 := by
    rw [hoffset]
    decide
  have hrun := congrArg (fun q => (q.run neighbourStore .empty).1)
    (physicalRange_eq hphys hboth hcontent haddress (2 * pageSize))
  have hstop : PhysicalRange.stop ⟨Page.aligned (2 ^ 16 + inode.offset) + 1 * pageSize,
      Page.aligned (min (2 * pageSize) inode.size)⟩ = 2 ^ 16 + 4 * pageSize := by
    rw [hsize, hoffset]
    decide
  have hle := hwithin _ _ _ .empty fs _ inode 1 (2 * pageSize) _ hfs rfl rfl rfl hplace hindex
    hcontent haddress hrun (by rw [hstop]; decide)
  rw [hstop, hsize, hoffset] at hle
  exact absurd hle (by decide)

end File

end CompressedRom
