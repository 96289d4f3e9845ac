import CompressedRom.Proofs.ImageComparison

/-!
# What damage can reach

Which bytes an operation looks at is decided by bytes that it has looked at before: the words of a
table say where a page lies, and a name is as long as its record says. All the same the bytes are
few. A page is made of two words and the span between them, and a directory reaches no further
behind its end than one entry. Damage elsewhere in an image changes neither:
`Filesystem.damage_local`.
-/

namespace CompressedRom

variable {m m' : Mapping} {fs : Filesystem}

lemma Bytes.wordAt_extract {b : Bytes} {start : Nat} (h : start + 4 ≤ b.size) :
    wordAt (b.extract start (start + 4)) 0 = b.wordAt start :=
  wordAt_extract_add (Nat.le_refl _) h

namespace Filesystem

lemma same_readWord {offset : Nat} (hlen : m.bytes.size = m'.bytes.size)
    (h : m.bytes.SameOn m'.bytes offset (offset + 4)) : (fs.readWord offset).Same m m' := by
  apply (same_read fun _ => Mapping.read_congr_of_size_eq hlen h).bind
  intro bytes
  exact .within _

lemma run_readWord_mapped {offset n : Nat} {c : Cache}
    (h : ((fs.readWord offset).run (.mapped m) c).1 = .ok n) : n = m.bytes.wordAt offset := by
  obtain ⟨bytes, c₁, hbytes, hword⟩ := Query.run_bind_eq_ok h
  obtain ⟨hend, rfl⟩ := run_read_mapped (congrArg Prod.fst hbytes) (by decide)
  have hsize : (m.bytes.extract offset (offset + 4)).size = 4 := by
    rw [ByteArray.size_extract]
    omega
  unfold Bytes.word at hword
  rw [if_pos (Nat.le_of_eq hsize.symm), Bytes.wordAt_extract hend] at hword
  exact (Except.ok.inj hword).symm

/-- A read asks for its span and for nothing else. -/
lemma footprint_read (offset len : Nat) :
    (fs.read offset len).Meets (fun offset' len' => offset' = offset ∧ len' = len)
      (fun _ => True) fun _ => True := by
  unfold read
  refine (Query.Meets.within fun _ _ => trivial).bind fun stop _ => ?_
  refine (Query.Meets.ensure fun _ => trivial).bind fun _ _ => ?_
  exact (Query.Meets.span ⟨rfl, rfl⟩).mono_post fun _ _ => trivial

end Filesystem

namespace File

variable {inode : Inode} {index : Nat}

/-- The span that the table of a file designates for page `index`: where it starts and where it
ends. The first span starts behind the table, every other one where the one before it ends. -/
def designated (image : Bytes) (inode : Inode) (index : Nat) : Nat × Nat :=
  (if index = 0 then inode.offset + 4 * inode.pageCount
    else image.wordAt (inode.offset + 4 * (index - 1)),
    image.wordAt (inode.offset + 4 * index))

/-- Two images agree on the words for page `index` in the table of a file, and on the span that
these designate. -/
structure SameSpan (a b : Bytes) (inode : Inode) (index : Nat) : Prop where
  word : a.SameOn b (inode.offset + 4 * index) (inode.offset + 4 * index + 4)
  before : index ≠ 0 →
    a.SameOn b (inode.offset + 4 * (index - 1)) (inode.offset + 4 * (index - 1) + 4)
  span : a.SameOn b (designated a inode index).1 (designated a inode index).2

/-- Two images agree on all that page `index` of a file is made of, which may be stored as it is. -/
def SamePage (a b : Bytes) (inPlace : Bool) (inode : Inode) (index : Nat) : Prop :=
  if inode.isInPlace && inPlace then
    a.SameOn b (Page.aligned inode.offset + index * pageSize)
      (Page.aligned inode.offset + index * pageSize + pageSize)
  else SameSpan a b inode index

lemma same_pageBounds (hlen : m.bytes.size = m'.bytes.size) (hindex : index < inode.pageCount)
    (h : SameSpan m.bytes m'.bytes inode index) : (pageBounds fs inode index).Same m m' := by
  cases index with
  | zero =>
    rw [pageBounds_zero]
    exact (Filesystem.same_readWord hlen h.word).map _
  | succ index =>
    rw [pageBounds_succ fs hindex]
    apply (Filesystem.same_readWord hlen (h.before (Nat.succ_ne_zero index))).bind
    intro start
    exact (Filesystem.same_readWord hlen h.word).map _

lemma run_pageBounds_mapped (hindex : index < inode.pageCount) {c : Cache} {bounds : Nat × Nat}
    (h : ((pageBounds fs inode index).run (.mapped m) c).1 = .ok bounds) :
    bounds = designated m.bytes inode index := by
  cases index with
  | zero =>
    rw [pageBounds_zero] at h
    obtain ⟨stop, c₁, hstop, hbounds⟩ := Query.run_bind_eq_ok h
    rw [← Except.ok.inj hbounds,
      Filesystem.run_readWord_mapped (congrArg Prod.fst hstop)]
    rfl
  | succ index =>
    rw [pageBounds_succ fs hindex] at h
    obtain ⟨start, c₁, hstart, hrest⟩ := Query.run_bind_eq_ok h
    obtain ⟨stop, c₂, hstop, hbounds⟩ := Query.run_bind_eq_ok hrest
    rw [← Except.ok.inj hbounds, Filesystem.run_readWord_mapped (congrArg Prod.fst hstart),
      Filesystem.run_readWord_mapped (congrArg Prod.fst hstop)]
    rfl

lemma same_compressedPage (hlen : m.bytes.size = m'.bytes.size) (hindex : index < inode.pageCount)
    (h : SameSpan m.bytes m'.bytes inode index) : (compressedPage fs inode index).Same m m' := by
  rw [compressedPage, unpackedPage_eq]
  apply (same_pageBounds hlen hindex h).bind_of_run
  intro bounds c hbounds
  -- Where the span lies is read from the table, and so is where the images have to agree.
  have hspan := h.span
  rw [← run_pageBounds_mapped hindex hbounds] at hspan
  obtain ⟨start, stop⟩ := bounds
  apply Query.Same.ensure_bind
  intro hle
  split
  · exact .pure _
  · have hread : (fs.read start (stop - start)).Same m m' := by
      apply Filesystem.same_read
      intro _
      apply Mapping.read_congr_of_size_eq hlen
      rw [Nat.add_sub_cancel' hle.1]
      exact hspan
    apply hread.bind
    intro packed
    split
    · exact .pure _
    · exact .refuse _

lemma same_storedPage (hlen : m.bytes.size = m'.bytes.size) (hindex : index < inode.pageCount)
    (hpage : m.bytes.SameOn m'.bytes (Page.aligned inode.offset + index * pageSize)
      (Page.aligned inode.offset + index * pageSize + pageSize)) :
    (storedPage fs inode index).Same m m' := by
  rw [storedPage_eq fs hindex]
  apply (Filesystem.same_read fun _ => Mapping.read_congr_of_size_eq hlen hpage).bind
  intro bytes
  split
  · exact .pure _
  · exact .stop _

lemma same_pageBytes (hlen : m.bytes.size = m'.bytes.size)
    (h : index < inode.pageCount → SamePage m.bytes m'.bytes fs.isInPlace inode index) :
    (pageBytes fs inode index).Same m m' := by
  unfold pageBytes
  split
  · exact .pure _
  · rename_i hindex
    have hindex := Nat.lt_of_not_le hindex
    have hpage := h hindex
    unfold SamePage at hpage
    split
    · rename_i hplace
      rw [if_pos hplace] at hpage
      exact same_storedPage hlen hindex hpage
    · rename_i hplace
      rw [if_neg hplace] at hpage
      exact same_compressedPage hlen hindex hpage

lemma same_readPageInto (hlen : m.bytes.size = m'.bytes.size)
    (h : index < inode.pageCount → SamePage m.bytes m'.bytes fs.isInPlace inode index)
    (buffer : Bytes) : (readPageInto fs inode index buffer).Same m m' := by
  unfold readPageInto
  apply Query.Same.ensure_bind
  intro _
  apply Query.Same.ensure_bind
  intro _
  apply (same_pageBytes hlen h).bind
  intro bytes
  exact .within _

end File

namespace Directory

/-- The most bytes that an entry takes. -/
def maxEntrySize : Nat := Record.size + Record.maxNameLen

lemma maxEntrySize_eq : maxEntrySize = 264 := rfl

/-- An entry is read from where it starts, and is not longer than entries can be. -/
lemma footprint_entryAt (dir : Inode) (pos : Nat) :
    (entryAt fs dir pos).Meets
      (fun offset len => dir.offset + pos ≤ offset ∧ offset + len ≤ dir.offset + pos + maxEntrySize)
      (fun _ => True) fun _ => True := by
  have hrecord : Record.size = 12 := rfl
  rw [maxEntrySize_eq]
  unfold entryAt
  dsimp only
  refine (Query.Meets.ensure fun _ => trivial).bind fun _ _ => ?_
  refine ((Filesystem.footprint_read _ _).mono_asks ?_).bind fun bytes _ => ?_
  · rintro offset len ⟨rfl, rfl⟩
    omega
  · split
    · exact .refuse trivial
    · rename_i record _
      have hlen := record.nameLen_lt
      have hmod := record.nameLen_mod
      refine (Query.Meets.add fun _ => trivial).bind fun nameOffset hname => ?_
      refine ((Filesystem.footprint_read _ _).mono_asks ?_).bind fun padded _ => ?_
      · rintro offset len ⟨rfl, rfl⟩
        omega
      · refine (Query.Meets.ensure fun _ => trivial).bind fun _ _ => ?_
        exact (Query.Meets.add fun _ => trivial).bind fun next _ => .pure trivial

lemma same_entryAt_of_footprint (hlen : m.bytes.size = m'.bytes.size) {dir : Inode}
    (h : m.bytes.SameOn m'.bytes dir.offset (dir.offset + dir.size + maxEntrySize)) (pos : Nat)
    (hpos : pos < extent dir) : (entryAt fs dir pos).Same m m' := by
  have hextent : extent dir ≤ dir.size := by
    unfold extent
    split <;> omega
  apply (footprint_entryAt dir pos).same
  rintro offset len ⟨hstart, hstop⟩
  apply Mapping.read_congr_of_size_eq hlen
  exact h.mono (by omega) (by omega)

end Directory

/-- Of two images of one length and with one superblock, a page is the same in both if they agree on
its words in the table and on the span that these designate, or on the page itself where it is
stored as it is. What is found in a directory is the same if they agree on its bytes and on the most
that its last entry may take behind them. -/
theorem Filesystem.damage_local (hkind : m.SameKind m') (hlen : m.bytes.size = m'.bytes.size)
    {ts : Timestamp} {c₀ c₀' : Cache} {fs' : Filesystem}
    (hfs : ((mount (.mapped m) ts).run (.mapped m) c₀).1 = .ok fs)
    (hfs' : ((mount (.mapped m') ts).run (.mapped m') c₀').1 = .ok fs')
    (hsb : fs.superblock = fs'.superblock) (inode : Inode) :
    (∀ index,
      (index < inode.pageCount → File.SamePage m.bytes m'.bytes m.inPlace inode index) →
      ∀ buffer c, (File.readPageInto fs inode index buffer).run (.mapped m) c =
        (File.readPageInto fs' inode index buffer).run (.mapped m') c) ∧
    (m.bytes.SameOn m'.bytes inode.offset (inode.offset + inode.size + 264) →
      (∀ name c, (Directory.lookup fs inode name).run (.mapped m) c =
        (Directory.lookup fs' inode name).run (.mapped m') c) ∧
      ∀ cursor limit c, (Directory.list fs inode cursor limit).run (.mapped m) c =
        (Directory.list fs' inode cursor limit).run (.mapped m') c) := by
  obtain ⟨hreached, hplace, -⟩ := eq_reachedBy hkind hfs hfs' hsb
  rw [hreached]
  constructor
  · intro index hpage buffer
    rw [← hplace] at hpage
    exact File.same_readPageInto hlen hpage buffer
  · intro hsame
    have hentries : ∀ pos < Directory.extent inode,
        (Directory.entryAt fs inode pos).Same m m' :=
      Directory.same_entryAt_of_footprint hlen hsame
    constructor
    · intro name
      rw [Directory.lookup_reachedBy]
      exact Directory.same_lookup hentries name
    · intro cursor limit
      rw [Directory.list_reachedBy]
      exact Directory.same_list hentries cursor limit

/-- The superblock of an image of 116 bytes. Its root is moved behind the file that it holds. -/
def movedHeader : Bytes :=
  Bytes.ofList ([0x45, 0x3d, 0xcd, 0x28, 116, 0, 0, 0, 1, 4] ++ List.replicate 54 0 ++
    [0xed, 0x41, 0, 0, 16, 0, 0, 0, 0x40, 0x06, 0, 0])

/-- The file up to its last byte: its table, no bytes for the first page, and a stream. -/
def movedFront : Bytes :=
  Bytes.ofList ([84, 0, 0, 0, 99, 0, 0, 0] ++
    [0x78, 0x01, 0x01, 4, 0, 0xfb, 0xff, 0x61, 0x62, 0x63, 0x64, 0x03, 0xd8, 0x01])

/-- The root, which has one entry. -/
def movedRoot : Bytes :=
  Bytes.ofList [0, 0xa4, 0x81, 0, 0, 4, 16, 0, 0, 0xc1, 0x04, 0, 0, 0x61, 0, 0, 0]

/-- The image for a last byte of the stream, of which only one is the right one. -/
def movedMapping (last : UInt8) : Mapping :=
  ⟨movedHeader ++ movedFront ++ (Bytes.ofList [last] ++ movedRoot), none, false⟩

/-- The file in these images. -/
def movedInode : Inode where
  mode := ⟨0x81a4⟩
  uid := 0
  gid := 0
  sizeField := 4100
  offset := 76
  sizeField_lt := by decide
  offset_lt := by decide
  offset_mod := by decide
  mtime := .epoch

lemma size_movedHeader : movedHeader.size = 76 := by decide

lemma size_moved : (movedHeader ++ movedFront).size = 98 := by
  rw [ByteArray.size_append, size_movedHeader]
  rfl

lemma designated_moved (last : UInt8) :
    File.designated (movedMapping last).bytes movedInode 0 = (84, 84) := by
  have hword : (movedMapping last).bytes.wordAt 76 = 84 := by
    unfold movedMapping
    rw [Bytes.wordAt_append_left (by rw [size_moved]; decide),
      Bytes.wordAt_append_right (Nat.le_of_eq size_movedHeader), size_movedHeader]
    decide
  exact congrArg (Prod.mk 84) hword

theorem Filesystem.damage_local_moved :
    ∃ fs fs',
      ((mount (.mapped (movedMapping 0x8b)) .epoch).run
        (.mapped (movedMapping 0x8b)) .empty).1 = .ok fs ∧
      ((mount (.mapped (movedMapping 0)) .epoch).run (.mapped (movedMapping 0)) .empty).1 =
        .ok fs' ∧
      (∀ buffer c,
        (File.readPageInto fs movedInode 0 buffer).run (.mapped (movedMapping 0x8b)) c =
          (File.readPageInto fs' movedInode 0 buffer).run (.mapped (movedMapping 0)) c) ∧
      ∀ name c, (Directory.lookup fs fs.root name).run (.mapped (movedMapping 0x8b)) c =
        (Directory.lookup fs' fs.root name).run (.mapped (movedMapping 0)) c := by
  have hheader : Superblock.accepted movedHeader (fun sb =>
      sb.root.offset = 100 ∧ (Inode.ofRecord sb.root .epoch).size = 16) = true := by decide +kernel
  obtain ⟨sb, hsb, hmount⟩ := exists_mount_of_accepted size_movedHeader hheader
  obtain ⟨hoffset, hsize⟩ := of_decide_eq_true hsb
  have hfs (last : UInt8) :=
    hmount (.mapped (movedMapping last)) _ .epoch ByteArray.append_assoc fun _ => trivial
  have hkind : (movedMapping 0x8b).SameKind (movedMapping 0) := ⟨rfl, fun _ => rfl⟩
  have hlen : (movedMapping 0x8b).bytes.size = (movedMapping 0).bytes.size := by
    simp [movedMapping, ByteArray.size_append, Bytes.size_ofList]
  have hsame {start stop : Nat} (h : stop ≤ 98 ∨ 99 ≤ start) :
      (movedMapping 0x8b).bytes.SameOn (movedMapping 0).bytes start stop := by
    have hsizes : (Bytes.ofList [0x8b]).size = (Bytes.ofList [0]).size := rfl
    rw [← size_moved] at h
    exact Bytes.SameOn.of_patch hsizes h
  refine ⟨_, _, hfs 0x8b, hfs 0, ?_, ?_⟩
  · apply (damage_local hkind hlen (hfs 0x8b) (hfs 0) rfl movedInode).1 0
    intro _
    refine ⟨hsame (.inl (by decide)), fun h => absurd rfl h, ?_⟩
    rw [designated_moved]
    exact hsame (.inl (by decide))
  · apply ((damage_local hkind hlen (hfs 0x8b) (hfs 0) rfl (.ofRecord sb.root .epoch)).2 _).1
    have hroot : (Inode.ofRecord sb.root .epoch).offset = 100 := hoffset
    rw [hroot, hsize]
    exact hsame (.inr (by decide))

end CompressedRom
