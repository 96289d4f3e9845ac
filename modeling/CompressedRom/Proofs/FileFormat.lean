import CompressedRom.Proofs.PageReads

/-!
# The format of files

A file is stored as a table of words that tell where its pages end, and the compressed pages
behind it. Here it is written down as `File.layout`, and what is read of a file that an image holds
in this form is the data that went into it: `File.read_layout`.
-/

namespace CompressedRom

namespace File

/-- The words that tell where spans end which lie one behind the other from `start` on. -/
def endTable : (start : Nat) → (spans : List Bytes) → Bytes
  | _, [] => Bytes.zeros 0
  | start, span :: spans => Bytes.ofWord (start + span.size) ++ endTable (start + span.size) spans

/-- What is stored at `offset` for a file whose compressed pages are `spans`: the table and the
spans. -/
def layout (offset : Nat) (spans : List Bytes) : Bytes :=
  endTable (offset + 4 * spans.length) spans ++ Bytes.joined spans

/-- Where span `index` of a file stored at `offset` starts. -/
def spanStart (offset : Nat) (spans : List Bytes) (index : Nat) : Nat :=
  offset + 4 * spans.length + (Bytes.joined (spans.take index)).size

/-- Page `index` of `data`, which is partial at the end of the data and empty behind it. -/
def pageOf (data : Bytes) (index : Nat) : Bytes :=
  data.extract (index * pageSize) (index * pageSize + pageSize)

/-- How a page may be stored: nothing stands for zero bytes, and a stream for what it inflates to
and zero bytes behind that. -/
inductive Packs (page : Bytes) : (span : Bytes) → Prop
  | hole (hpage : page = Bytes.zeros page.size) : Packs page (Bytes.zeros 0)
  | stream {span out : Bytes} {tail : Nat} (hsize : span.size ≤ maxCompressedPage)
    (hout : Zlib.decompress span pageSize = .ok out) (hpage : page = out ++ Bytes.zeros tail) :
    Packs page span

lemma size_pageOf (data : Bytes) (index : Nat) :
    (pageOf data index).size = min pageSize (data.size - index * pageSize) := by
  unfold pageOf
  rw [ByteArray.size_extract]
  omega

lemma size_pageOf_le (data : Bytes) (index : Nat) : (pageOf data index).size ≤ pageSize :=
  size_pageOf data index ▸ Nat.min_le_left _ _

lemma byteAt_pageOf (data : Bytes) {index i : Nat} (hi : i < pageSize) :
    (wholePage (pageOf data index)).byteAt i = data.byteAt (index * pageSize + i) := by
  unfold wholePage
  rw [Bytes.byteAt_append_zeros]
  by_cases h : index * pageSize + i < data.size
  · exact Bytes.byteAt_extract (by omega) h
  · rw [Bytes.byteAt_of_le (Nat.le_of_not_lt h), Bytes.byteAt_of_le]
    rw [size_pageOf]
    omega

section Layout

variable {fs : Filesystem} {image : Bytes} {offset start index : Nat} {spans : List Bytes}

lemma size_endTable (start : Nat) (spans : List Bytes) :
    (endTable start spans).size = 4 * spans.length := by
  induction spans generalizing start with
  | nil => rfl
  | cons span spans ih =>
    rw [endTable, ByteArray.size_append, Bytes.size_ofWord, ih, List.length_cons]
    omega

lemma spanStart_succ (offset : Nat) (hindex : index < spans.length) :
    spanStart offset spans (index + 1) = spanStart offset spans index + spans[index].size := by
  have htake : (Bytes.joined (spans.take (index + 1))).size =
      (Bytes.joined (spans.take index)).size + spans[index].size := by
    induction spans generalizing index with
    | nil => exact absurd hindex (Nat.not_lt_zero index)
    | cons span spans ih =>
      cases index with
      | zero =>
        rw [List.take_succ_cons, List.take_zero, Bytes.joined, ByteArray.size_append]
        exact Nat.add_comm _ _
      | succ index =>
        have hindex' : index < spans.length := Nat.lt_of_succ_lt_succ hindex
        rw [List.take_succ_cons, List.take_succ_cons, Bytes.joined, Bytes.joined,
          ByteArray.size_append, ByteArray.size_append, ih hindex', List.getElem_cons_succ,
          Nat.add_assoc]
  unfold spanStart
  omega

lemma shows_endTable (h : fs.Shows image offset (endTable start spans))
    (hindex : index < spans.length) :
    fs.Shows image (offset + 4 * index)
      (Bytes.ofWord (start + (Bytes.joined (spans.take (index + 1))).size)) := by
  induction spans generalizing offset start index with
  | nil => exact absurd hindex (Nat.not_lt_zero index)
  | cons span spans ih =>
    rw [endTable, Filesystem.Shows.append_iff, Bytes.size_ofWord] at h
    cases index with
    | zero =>
      rw [List.take_succ_cons, List.take_zero, Bytes.joined, Bytes.joined, Bytes.append_zeros_zero]
      exact h.1
    | succ index =>
      have hrest := ih h.2 (Nat.lt_of_succ_lt_succ hindex)
      have hoffset : offset + 4 + 4 * index = offset + 4 * (index + 1) := by omega
      rw [List.take_succ_cons, Bytes.joined, ByteArray.size_append, ← Nat.add_assoc, ← hoffset]
      exact hrest

lemma shows_joined (h : fs.Shows image offset (Bytes.joined spans)) (hindex : index < spans.length) :
    fs.Shows image (offset + (Bytes.joined (spans.take index)).size) spans[index] := by
  induction spans generalizing offset index with
  | nil => exact absurd hindex (Nat.not_lt_zero index)
  | cons span spans ih =>
    rw [Bytes.joined, Filesystem.Shows.append_iff] at h
    cases index with
    | zero => exact h.1
    | succ index =>
      have hrest := ih h.2 (Nat.lt_of_succ_lt_succ hindex)
      rw [List.take_succ_cons, Bytes.joined, ByteArray.size_append, ← Nat.add_assoc]
      exact hrest

lemma shows_end (h : fs.Shows image offset (layout offset spans)) (hindex : index < spans.length) :
    fs.Shows image (offset + 4 * index) (Bytes.ofWord (spanStart offset spans (index + 1))) :=
  shows_endTable (Filesystem.Shows.append_iff.1 h).1 hindex

lemma shows_span (h : fs.Shows image offset (layout offset spans)) (hindex : index < spans.length) :
    fs.Shows image (spanStart offset spans index) spans[index] := by
  have hspans := (Filesystem.Shows.append_iff.1 h).2
  rw [size_endTable] at hspans
  exact shows_joined hspans hindex

end Layout

section Pages

variable {fs : Filesystem} {image data : Bytes} {inode : Inode} {spans : List Bytes} {index : Nat}

lemma succeeds_pageBounds (hfs : fs.superblock.size < 2 ^ 32)
    (h : fs.Shows image inode.offset (layout inode.offset spans))
    (hcount : spans.length = inode.pageCount) (hindex : index < spans.length) :
    (pageBounds fs inode index).Succeeds image fun bounds =>
      bounds = (spanStart inode.offset spans index, spanStart inode.offset spans (index + 1)) := by
  have hword {k : Nat} (hk : k < spans.length) :
      (fs.readWord (inode.offset + 4 * k)).Succeeds image fun n =>
        n = spanStart inode.offset spans (k + 1) := by
    have hend := (shows_span h hk).le_declared
    rw [← spanStart_succ inode.offset hk] at hend
    exact Filesystem.succeeds_readWord hfs (shows_end h hk) (by omega)
  cases index with
  | zero =>
    rw [pageBounds_zero, ← hcount]
    exact (hword hindex).bind fun stop hstop => .pure (hstop ▸ rfl)
  | succ index =>
    rw [pageBounds_succ fs (hcount ▸ hindex)]
    refine (hword (Nat.lt_of_succ_lt hindex)).bind fun start hstart => ?_
    exact (hword hindex).bind fun stop hstop => .pure (hstart ▸ hstop ▸ rfl)

lemma succeeds_compressedPage (hfs : fs.superblock.size < 2 ^ 32)
    (h : fs.Shows image inode.offset (layout inode.offset spans))
    (hcount : spans.length = inode.pageCount) (hindex : index < spans.length) {page : Bytes}
    (hpage : page.size ≤ pageSize) (hspan : Packs page spans[index]) :
    (compressedPage fs inode index).Succeeds image fun out =>
      out.size ≤ pageSize ∧ wholePage out = wholePage page := by
  have hshown := shows_span h hindex
  have hstop := spanStart_succ inode.offset hindex
  generalize spans[index] = span at hshown hstop hspan
  rw [compressedPage, unpackedPage_eq]
  refine (succeeds_pageBounds hfs h hcount hindex).bind fun bounds hbounds => ?_
  subst hbounds
  dsimp only
  rw [hstop, Nat.add_sub_cancel_left]
  cases hspan with
  | hole hzero =>
    refine (Query.Succeeds.ensure ⟨Nat.le_refl _, Nat.zero_le _⟩).bind fun _ _ => ?_
    rw [if_pos (by rfl)]
    refine .pure ⟨Nat.zero_le _, ?_⟩
    have hwhole : wholePage (Bytes.zeros 0 ++ Bytes.zeros page.size) = wholePage (Bytes.zeros 0) :=
      wholePage_append_zeros (by rw [Bytes.size_zeros]; omega)
    rw [← hwhole, Bytes.zeros_append_zeros, Nat.zero_add, ← hzero]
  | @stream _ out tail hsize hout hpage' =>
    have hne : span.size ≠ 0 := by
      intro hzero
      have hempty : span = Bytes.zeros 0 := ByteArray.size_eq_zero_iff.1 hzero
      exact Zlib.decompress_empty _ _ (hempty ▸ hout)
    refine (Query.Succeeds.ensure ⟨Nat.le_add_right _ _, hsize⟩).bind fun _ _ => ?_
    rw [if_neg (by omega)]
    refine (Filesystem.succeeds_read hfs hshown hsize).bind fun packed hpacked => ?_
    subst hpacked
    rw [hout]
    have hle : out.size + tail ≤ pageSize := by
      rwa [hpage', ByteArray.size_append, Bytes.size_zeros] at hpage
    exact .pure ⟨by omega, hpage' ▸ (wholePage_append_zeros hle).symm⟩

lemma succeeds_readPageInto (hfs : fs.superblock.size < 2 ^ 32) (hpages : inode.hasPages = true)
    (hplace : (inode.isInPlace && fs.isInPlace) = false) (hsize : inode.size = data.size)
    (h : fs.Shows image inode.offset (layout inode.offset spans))
    (hcount : spans.length = Page.count data.size)
    (hspans : ∀ i (hi : i < spans.length), Packs (pageOf data i) spans[i]) (index : Nat)
    {buffer : Bytes} (hbuffer : buffer.size = pageSize) :
    (readPageInto fs inode index buffer).Succeeds image fun page =>
      page = wholePage (pageOf data index) := by
  have hcount' : spans.length = inode.pageCount := by rw [hcount, ← hsize]; rfl
  have hbytes : (pageBytes fs inode index).Succeeds image fun out =>
      out.size ≤ pageSize ∧ wholePage out = wholePage (pageOf data index) := by
    unfold pageBytes
    by_cases hindex : inode.pageCount ≤ index
    · rw [if_pos hindex]
      have hbehind : data.size ≤ index * pageSize := by
        rw [← hcount', hcount, ← Nat.not_lt, Page.lt_count_iff] at hindex
        omega
      have hempty : pageOf data index = Bytes.zeros 0 := by
        apply ByteArray.size_eq_zero_iff.1
        rw [size_pageOf]
        omega
      exact .pure ⟨Nat.zero_le _, congrArg wholePage hempty.symm⟩
    · have hindex : index < spans.length := hcount' ▸ Nat.lt_of_not_le hindex
      rw [if_neg (by omega), hplace, if_neg Bool.false_ne_true]
      exact succeeds_compressedPage hfs h hcount' hindex (size_pageOf_le data index)
        (hspans index hindex)
  exact succeeds_readPageInto_of_pageBytes hpages hbuffer hbytes

end Pages

variable {s : Store} {image data : Bytes} {fs : Filesystem} {inode : Inode} {spans : List Bytes}

/-- A mounted image that holds the layout of some data at the offset of a file of just that size
gives the data back: every page, with zero bytes behind the end of the data, and all of it in one
piece. Reads before may have failed, as long as no call to the device fails now. -/
theorem read_layout (hs : s.Holds image) {ts : Timestamp} {c₀ : Cache}
    (hfs : ((Filesystem.mount s ts).run s c₀).1 = .ok fs) (hpages : inode.hasPages = true)
    (hplace : (inode.isInPlace && fs.isInPlace) = false) (hsize : inode.size = data.size)
    (hcount : spans.length = Page.count data.size)
    (hspans : ∀ i (hi : i < spans.length), Packs (pageOf data i) spans[i])
    (hlayout : fs.Shows image inode.offset (layout inode.offset spans))
    (before : List (Nat × Nat)) {c : Cache} (hc : c = (s.readAll before .empty).2) :
    (∀ index, (readPage fs inode index).Unhindered s c →
        ((readPage fs inode index).run s c).1 =
          .ok (if index < spans.length then wholePage (pageOf data index)
            else Bytes.zeros pageSize)) ∧
      ∀ buffer : Bytes, buffer.size = data.size → (readAt fs inode 0 buffer).Unhindered s c →
        ((readAt fs inode 0 buffer).run s c).1 = .ok (data.size, data) := by
  have hdeclared := (Filesystem.mount_eq_ok hfs).2
  have hcoherent : c.Coherent image.byteAt := hc ▸ hs.coherent_readAll before
  have hpage (index : Nat) : (readPage fs inode index).Succeeds image fun page =>
      page = wholePage (pageOf data index) :=
    succeeds_readPageInto hdeclared hpages hplace hsize hlayout hcount hspans index
      (Bytes.size_zeros pageSize)
  constructor
  · intro index hcalls
    obtain ⟨page, hrun, rfl⟩ := (hpage index).run hs hcoherent hcalls
    rw [hrun]
    split
    · rfl
    · rename_i hindex
      rw [hcount, Page.lt_count_iff] at hindex
      have hempty : (pageOf data index).size = 0 := by
        rw [size_pageOf]
        omega
      rw [ByteArray.size_eq_zero_iff.1 hempty]
      rfl
  · intro buffer hbuffer hcalls
    have hbound := inode.size_lt
    have hread : (readAt fs inode 0 buffer).Succeeds image fun read =>
        read.1 = min (inode.size - 0) buffer.size ∧ Filled (fun i => wholePage (pageOf data i)) 0
          (min inode.size (0 + buffer.size)) buffer read.2 :=
      succeeds_readAt hpages (by omega) (fun i => size_wholePage (size_pageOf_le data i))
        fun i _ => hpage i
    obtain ⟨⟨count, content⟩, hrun, hnumber, hfilled⟩ := hread.run hs hcoherent hcalls
    have hall : count = data.size := by
      dsimp only at hnumber
      omega
    have hcontent : content = data := by
      apply Bytes.ext_byteAt (hfilled.size_eq.trans hbuffer)
      intro j hj
      rw [hfilled.size_eq] at hj
      rw [hfilled.byteAt_eq, if_pos (by omega), Nat.zero_add,
        byteAt_pageOf data (Nat.mod_lt j (by decide)), Nat.div_add_mod']
    rw [hrun, hall, hcontent]

/-- The bytes of a stream of four bytes, as it is stored. -/
def smallStream : Bytes :=
  Bytes.ofList [0x78, 0x01, 0x01, 4, 0, 0xfb, 0xff, 0x61, 0x62, 0x63, 0x64, 0x03, 0xd8, 0x01, 0x8b]

/-- An image with a file `a` of 4100 bytes, whose first page is a hole. -/
def sparseImage : Bytes :=
  Bytes.ofList ([0x45, 0x3d, 0xcd, 0x28, 115, 0, 0, 0, 1] ++ List.replicate 55 0 ++
    [0xed, 0x41, 0, 0, 16, 0, 0, 0, 0xc0, 0x04, 0, 0] ++
    [0xa4, 0x81, 0, 0, 4, 16, 0, 0, 0xc1, 0x05, 0, 0, 0x61, 0, 0, 0]) ++
    layout 92 [Bytes.zeros 0, smallStream]

/-- The content of the file `a`. -/
def sparseData : Bytes := Bytes.zeros pageSize ++ Bytes.ofList [0x61, 0x62, 0x63, 0x64]

lemma packs_sparseData (i : Nat) (hi : i < [Bytes.zeros 0, smallStream].length) :
    Packs (pageOf sparseData i) [Bytes.zeros 0, smallStream][i] := by
  match i, hi with
  | 0, _ =>
    have hpage : pageOf sparseData 0 = Bytes.zeros pageSize :=
      ByteArray.extract_append_eq_left (Bytes.size_zeros pageSize).symm
    refine .hole ?_
    rw [hpage, Bytes.size_zeros]
  | 1, _ =>
    have hbehind : sparseData.extract (pageSize + 0) (pageSize + pageSize) =
        (Bytes.ofList [0x61, 0x62, 0x63, 0x64]).extract 0 pageSize :=
      ByteArray.extract_append_size_add' (Bytes.size_zeros pageSize).symm
    have hpage : pageOf sparseData 1 = Bytes.ofList [0x61, 0x62, 0x63, 0x64] := by
      unfold pageOf
      rw [Nat.one_mul]
      exact hbehind
    have hsize : smallStream.size ≤ maxCompressedPage := by decide
    have hout : Zlib.decompress smallStream pageSize =
        .ok (Bytes.ofList [0x61, 0x62, 0x63, 0x64]) := by decide +kernel
    exact .stream hsize hout (hpage.trans (Bytes.append_zeros_zero _).symm)

lemma exists_sparseFile :
    ∃ (fs : Filesystem) (inode : Inode), ((Filesystem.mount (.mapped ⟨sparseImage, none, false⟩) .epoch).run
        (.mapped ⟨sparseImage, none, false⟩) .empty).1 = .ok fs ∧
      inode.hasPages = true ∧ (inode.isInPlace && fs.isInPlace) = false ∧
      inode.size = sparseData.size ∧ inode.offset = 92 ∧ fs.superblock.size = 115 := by
  have hread : (match ((Filesystem.mount (.mapped ⟨sparseImage, none, false⟩) .epoch).run
        (.mapped ⟨sparseImage, none, false⟩) .empty).1 with
      | .error _ => false
      | .ok fs =>
        match ((Directory.lookup fs fs.root (Bytes.ofList [0x61])).run
            (.mapped ⟨sparseImage, none, false⟩) .empty).1 with
        | .error _ | .ok none => false
        | .ok (some inode) =>
          decide (inode.hasPages = true ∧ (inode.isInPlace && fs.isInPlace) = false ∧
            inode.size = 4100 ∧ inode.offset = 92 ∧ fs.superblock.size = 115)) = true := by
    decide +kernel
  split at hread
  · simp at hread
  · rename_i fs hfs
    split at hread
    · simp at hread
    · simp at hread
    · rename_i inode _
      obtain ⟨hpages, hplace, hsize, hoffset, hdeclared⟩ := of_decide_eq_true hread
      have hdata : sparseData.size = 4100 := by
        rw [sparseData, ByteArray.size_append, Bytes.size_zeros]
        rfl
      exact ⟨fs, inode, hfs, hpages, hplace, hsize.trans hdata.symm, hoffset, hdeclared⟩

theorem read_layout_sparse :
    ∃ (fs : Filesystem) (inode : Inode), inode.size = sparseData.size ∧
      ((readPage fs inode 0).run (.mapped ⟨sparseImage, none, false⟩) .empty).1 =
        .ok (wholePage (pageOf sparseData 0)) ∧
      ((readAt fs inode 0 (Bytes.zeros sparseData.size)).run
        (.mapped ⟨sparseImage, none, false⟩) .empty).1 = .ok (sparseData.size, sparseData) := by
  obtain ⟨fs, inode, hfs, hpages, hplace, hsize, hoffset, hdeclared⟩ := exists_sparseFile
  have hlayout : fs.Shows sparseImage inode.offset
      (layout inode.offset [Bytes.zeros 0, smallStream]) := by
    rw [hoffset]
    exact ⟨⟨rfl, by decide +kernel⟩, by decide +kernel, by rw [hdeclared]; decide +kernel⟩
  have hcount : [Bytes.zeros 0, smallStream].length = Page.count sparseData.size := by
    rw [sparseData, ByteArray.size_append, Bytes.size_zeros]
    rfl
  obtain ⟨hpage, hall⟩ := read_layout (s := .mapped ⟨sparseImage, none, false⟩) rfl hfs hpages
    hplace hsize hcount packs_sparseData hlayout [] rfl
  exact ⟨fs, inode, hsize, hpage 0 (Query.unhindered_mapped _ _ _),
    hall _ (Bytes.size_zeros _) (Query.unhindered_mapped _ _ _)⟩

end File

end CompressedRom
