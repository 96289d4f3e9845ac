import CompressedRom.Directory
import CompressedRom.Proofs.FileArithmetic
import CompressedRom.Proofs.QueryContract

/-!
# The tail of a page

A page that has been read consists of the bytes that the image stores for it and zero bytes behind
them. Nothing cuts the stored bytes to the size of the file: a page in place is taken as it is, and
an inflated one is as long as its stream makes it. `File.readPageInto_tail` says when a page is
zero past the end of its file.
-/

namespace CompressedRom.File

/-- The bytes that the image stores for page `index`, as a reader finds them: none past the last
page and in a hole, a page in place, or what a compressed page inflates to. -/
inductive Stored (s : Store) (c : Cache) (fs : Filesystem) (inode : Inode) (index : Nat) :
    Bytes → Prop
  | past (hindex : inode.pageCount ≤ index) : Stored s c fs inode index (Bytes.zeros 0)
  | inPlace {bytes : Bytes} (hindex : index < inode.pageCount)
    (hplace : (inode.isInPlace && fs.isInPlace) = true)
    (h : ((storedPage fs inode index).run s c).1 = .ok bytes) : Stored s c fs inode index bytes
  | hole {start : Nat} (hindex : index < inode.pageCount)
    (hplace : (inode.isInPlace && fs.isInPlace) = false)
    (h : ((pageBounds fs inode index).run s c).1 = .ok (start, start)) :
    Stored s c fs inode index (Bytes.zeros 0)
  | inflated {start stop : Nat} {c' : Cache} {packed bytes : Bytes} (hindex : index < inode.pageCount)
    (hplace : (inode.isInPlace && fs.isInPlace) = false)
    (h : (pageBounds fs inode index).run s c = (.ok (start, stop), c')) (hstop : start < stop)
    (hpacked : ((fs.read start (stop - start)).run s c').1 = .ok packed)
    (hbytes : Zlib.decompress packed pageSize = .ok bytes) : Stored s c fs inode index bytes

variable {s : Store} {c : Cache} {fs : Filesystem} {inode : Inode} {index : Nat}

lemma stored_of_compressedPage (hindex : index < inode.pageCount)
    (hplace : (inode.isInPlace && fs.isInPlace) = false) {bytes : Bytes}
    (h : ((compressedPage fs inode index).run s c).1 = .ok bytes) :
    Stored s c fs inode index bytes := by
  rw [compressedPage, unpackedPage_eq] at h
  obtain ⟨⟨start, stop⟩, c₁, hbounds, hrest⟩ := Query.run_bind_eq_ok h
  obtain ⟨_, c₂, hensure, hspan⟩ := Query.run_bind_eq_ok hrest
  obtain ⟨hle, rfl⟩ := Query.run_ensure_eq_ok hensure
  by_cases hhole : start = stop
  · subst hhole
    rw [if_pos rfl] at hspan
    rw [← Except.ok.inj hspan]
    exact .hole hindex hplace (congrArg Prod.fst hbounds)
  · rw [if_neg hhole] at hspan
    obtain ⟨packed, c₃, hpacked, hout⟩ := Query.run_bind_eq_ok hspan
    rcases hbytes : Zlib.decompress packed pageSize with cause | inflated
    · simp [hbytes, Query.refuse, Query.run] at hout
    · rw [hbytes] at hout
      rw [← Except.ok.inj hout]
      exact .inflated hindex hplace hbounds (by omega) (congrArg Prod.fst hpacked) hbytes

lemma stored_of_pageBytes {bytes : Bytes} (h : ((pageBytes fs inode index).run s c).1 = .ok bytes) :
    Stored s c fs inode index bytes := by
  unfold pageBytes at h
  by_cases hindex : inode.pageCount ≤ index
  · rw [if_pos hindex] at h
    rw [← Except.ok.inj h]
    exact .past hindex
  · rw [if_neg hindex] at h
    cases hplace : inode.isInPlace && fs.isInPlace with
    | true =>
      rw [hplace, if_pos rfl] at h
      exact .inPlace (Nat.lt_of_not_le hindex) hplace h
    | false =>
      rw [hplace, if_neg Bool.false_ne_true] at h
      exact stored_of_compressedPage (Nat.lt_of_not_le hindex) hplace h

lemma padded_eq_ok {bytes page : Bytes} {len : Nat} (h : padded bytes len = .ok page) :
    bytes.size ≤ len ∧ page = bytes ++ Bytes.zeros (len - bytes.size) := by
  unfold padded at h
  by_cases hle : bytes.size ≤ len
  · rw [if_pos hle] at h
    exact ⟨hle, (Except.ok.inj h).symm⟩
  · rw [if_neg hle] at h
    simp at h

/-- Whatever the buffer held, a page that is read is the stored bytes and zero bytes behind them.
It is zero from the end of the file on just if the stored bytes are. -/
theorem readPageInto_tail {buffer page : Bytes}
    (h : ((readPageInto fs inode index buffer).run s c).1 = .ok page) :
    ∃ bytes, Stored s c fs inode index bytes ∧ bytes.size ≤ pageSize ∧
      page = bytes ++ Bytes.zeros (pageSize - bytes.size) ∧
      ((∀ j < pageSize, inode.size ≤ index * pageSize + j → page.byteAt j = 0) ↔
        ∀ j < bytes.size, inode.size ≤ index * pageSize + j → bytes.byteAt j = 0) := by
  obtain ⟨_, c₁, hensure, hpages⟩ := Query.run_bind_eq_ok h
  obtain ⟨hbuffer, rfl⟩ := Query.run_ensure_eq_ok hensure
  obtain ⟨_, c₂, hensure', hread⟩ := Query.run_bind_eq_ok hpages
  obtain ⟨-, rfl⟩ := Query.run_ensure_eq_ok hensure'
  obtain ⟨bytes, c₃, hbytes, hout⟩ := Query.run_bind_eq_ok hread
  rcases hpadded : padded bytes buffer.size with step | padded
  · rw [hpadded] at hout
    change Except.error _ = Except.ok page at hout
    simp at hout
  · rw [hpadded] at hout
    obtain rfl : padded = page := Except.ok.inj hout
    obtain ⟨hsize, hpage⟩ := padded_eq_ok hpadded
    rw [hbuffer] at hsize hpage
    refine ⟨bytes, stored_of_pageBytes (congrArg Prod.fst hbytes), hsize, hpage, ?_⟩
    simp only [hpage, Bytes.byteAt_append_zeros]
    constructor
    · intro htail j hj
      exact htail j (by omega)
    · intro htail j _ hend
      by_cases hj : j < bytes.size
      · exact htail j hj hend
      · exact Bytes.byteAt_of_le (Nat.le_of_not_lt hj)

/-- An image in memory with a file `a` of one byte, whose page inflates to four. -/
def longPageStore : Store :=
  .mapped ⟨Bytes.ofList ([0x45, 0x3d, 0xcd, 0x28, 112, 0, 0, 0, 1] ++ List.replicate 35 0 ++ [1] ++
    List.replicate 19 0 ++ [0xed, 0x41, 0, 0, 16, 0, 0, 0, 0xc0, 0x04, 0, 0] ++
    [0xa4, 0x81, 0, 0, 1, 0, 0, 0, 0xc1, 0x05, 0, 0, 0x61, 0, 0, 0] ++
    [111, 0, 0, 0, 0x78, 0x01, 0x01, 4, 0, 0xfb, 0xff, 0x61, 0x62, 0x63, 0x64] ++
    [0x03, 0xd8, 0x01, 0x8b, 0]), none, false⟩

lemma exists_longPage :
    ∃ fs inode page, ((Filesystem.mount longPageStore .epoch).run longPageStore .empty).1 = .ok fs ∧
      ((Directory.lookup fs fs.root (Bytes.ofList [0x61])).run longPageStore .empty).1 =
        .ok (some inode) ∧
      ((readPageInto fs inode 0 (Bytes.zeros pageSize)).run longPageStore .empty).1 = .ok page ∧
      inode.isRegularFile = true ∧ inode.size = 1 ∧ page.byteAt 1 = 0x62 := by
  have hread : (match ((Filesystem.mount longPageStore .epoch).run longPageStore .empty).1 with
      | .error _ => false
      | .ok fs =>
        match ((Directory.lookup fs fs.root (Bytes.ofList [0x61])).run longPageStore .empty).1 with
        | .error _ | .ok none => false
        | .ok (some inode) =>
          match ((readPageInto fs inode 0 (Bytes.zeros pageSize)).run longPageStore .empty).1 with
          | .error _ => false
          | .ok page =>
            decide (inode.isRegularFile = true ∧ inode.size = 1 ∧ page.byteAt 1 = 0x62)) = true := by
    decide +kernel
  split at hread
  · simp at hread
  · rename_i fs hfs
    split at hread
    · simp at hread
    · simp at hread
    · rename_i inode hinode
      split at hread
      · simp at hread
      · rename_i page hpage
        exact ⟨fs, inode, page, hfs, hinode, hpage, of_decide_eq_true hread⟩

theorem readPageInto_tail_longPage :
    ∃ fs inode page,
      ((readPageInto fs inode 0 (Bytes.zeros pageSize)).run longPageStore .empty).1 = .ok page ∧
      ∃ bytes, Stored longPageStore .empty fs inode 0 bytes ∧ bytes.size ≤ pageSize ∧
        page = bytes ++ Bytes.zeros (pageSize - bytes.size) ∧
        ((∀ j < pageSize, inode.size ≤ 0 * pageSize + j → page.byteAt j = 0) ↔
          ∀ j < bytes.size, inode.size ≤ 0 * pageSize + j → bytes.byteAt j = 0) := by
  obtain ⟨fs, inode, page, -, -, hpage, -⟩ := exists_longPage
  exact ⟨fs, inode, page, hpage, readPageInto_tail hpage⟩

/-- Pages of mounted images are not always zero from the end of their file on. -/
theorem not_readPageInto_zero_tail :
    ¬∀ (s : Store) (ts : Timestamp) (c₀ c : Cache) (fs : Filesystem) (inode : Inode) (index : Nat)
        (buffer page : Bytes),
      ((Filesystem.mount s ts).run s c₀).1 = .ok fs → inode.hasPages = true →
      ((readPageInto fs inode index buffer).run s c).1 = .ok page →
      ∀ j < pageSize, inode.size ≤ index * pageSize + j → page.byteAt j = 0 := by
  intro hzero
  obtain ⟨fs, inode, page, hfs, -, hpage, hfile, hsize, hbyte⟩ := exists_longPage
  have hpages : inode.hasPages = true := by
    unfold Inode.hasPages
    rw [hfile, Bool.true_or]
  have hlast := hzero _ _ _ _ fs inode 0 _ page hfs hpages hpage 1 (by decide) (by omega)
  rw [hbyte] at hlast
  exact absurd hlast (by decide)

end CompressedRom.File
