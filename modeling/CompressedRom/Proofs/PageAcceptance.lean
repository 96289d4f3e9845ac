import CompressedRom.Proofs.DamageLocality
import CompressedRom.Proofs.FileFormat

/-!
# Which pages are accepted

A compressed page is what its words in the table and the span between them say, and
`File.Encodes` states when these make a page at all. `File.readPage_accepted`: just these pages are
read out of an image in memory, and every other one is refused as corrupt, so that no span which
cannot be had, is too long or does not inflate passes for a hole or for a shorter page.
-/

namespace CompressedRom

variable {m : Mapping} {fs : Filesystem} {c : Cache}

namespace Filesystem

/-- Out of an image that is as long as it says, a span is had just if it lies within that size. -/
lemma run_read_covered (hm : fs.superblock.size ≤ m.bytes.size) {offset len : Nat}
    (hlen : 0 < len) (hword : offset + len < 2 ^ 64) (c : Cache) :
    (fs.read offset len).run (.mapped m) c =
      (if offset + len ≤ fs.superblock.size then .ok (m.bytes.extract offset (offset + len))
        else .error (.refused (.outsideImage offset len fs.superblock.size)), c) := by
  have hstop : (liftM (Word.add 64 offset len) : Query Nat) = pure (offset + len) := by
    rw [Word.add_eq_ok hword]
    rfl
  unfold read
  rw [hstop, pure_bind]
  by_cases hin : offset + len ≤ fs.superblock.size
  · have hread : m.read offset len = .ok (m.bytes.extract offset (offset + len)) := by
      rw [Mapping.read_eq, if_neg (Nat.ne_of_gt hlen), if_pos (by omega)]
    rw [Query.ensure_bind_of hin, if_pos hin, Query.span, Query.run, Store.read, hread]
    rfl
  · rw [Query.ensure_bind_of_not hin, if_neg hin]
    rfl

lemma run_readWord_covered (hm : fs.superblock.size ≤ m.bytes.size) {offset : Nat}
    (hword : offset + 4 < 2 ^ 64) (c : Cache) :
    (fs.readWord offset).run (.mapped m) c =
      (if offset + 4 ≤ fs.superblock.size then .ok (m.bytes.wordAt offset)
        else .error (.refused (.outsideImage offset 4 fs.superblock.size)), c) := by
  unfold readWord
  rw [Query.run_bind, run_read_covered hm (by decide) hword]
  by_cases hin : offset + 4 ≤ fs.superblock.size
  · have hsize : 4 ≤ (m.bytes.extract offset (offset + 4)).size := by
      rw [ByteArray.size_extract]
      omega
    have hvalue : Bytes.word (m.bytes.extract offset (offset + 4)) =
        .ok (m.bytes.wordAt offset) := by
      rw [Bytes.word, if_pos hsize, Bytes.wordAt_extract (by omega)]
    rw [if_pos hin, if_pos hin]
    dsimp only
    rw [hvalue]
    rfl
  · rw [if_neg hin, if_neg hin]

end Filesystem

namespace File

variable {inode : Inode} {index : Nat}

/-- By the bytes of an image of size `declared`, page `index` of a file is `page`: its words in the
table lie within that size, and they designate nothing, or at most two pages within that size that
inflate to at most a page. -/
inductive Encodes (image : Bytes) (declared : Nat) (inode : Inode) (index : Nat) : Bytes → Prop
  | hole {start : Nat} (htable : inode.offset + 4 * index + 4 ≤ declared)
    (hspan : designated image inode index = (start, start)) :
    Encodes image declared inode index (Bytes.zeros pageSize)
  | stream {start stop : Nat} {out : Bytes} (htable : inode.offset + 4 * index + 4 ≤ declared)
    (hspan : designated image inode index = (start, stop)) (hlt : start < stop)
    (hlen : stop ≤ start + maxCompressedPage) (hstop : stop ≤ declared)
    (hout : Zlib.decompress (image.extract start stop) pageSize = .ok out)
    (hsize : out.size ≤ pageSize) :
    Encodes image declared inode index (out ++ Bytes.zeros (pageSize - out.size))

lemma Encodes.size_eq {image page : Bytes} {declared : Nat}
    (h : Encodes image declared inode index page) : page.size = pageSize := by
  cases h with
  | hole => exact Bytes.size_zeros pageSize
  | stream _ _ _ _ _ _ hsize => exact size_wholePage hsize

lemma Encodes.unique {image page page' : Bytes} {declared : Nat}
    (h : Encodes image declared inode index page) (h' : Encodes image declared inode index page') :
    page = page' := by
  cases h with
  | hole _ hspan =>
    cases h' with
    | hole => rfl
    | stream _ hspan' hlt =>
      rw [hspan, Prod.mk.injEq] at hspan'
      omega
  | stream _ hspan hlt _ _ hout =>
    cases h' with
    | hole _ hspan' =>
      rw [hspan, Prod.mk.injEq] at hspan'
      omega
    | stream _ hspan' _ _ _ hout' =>
      obtain ⟨rfl, rfl⟩ := Prod.mk.inj (hspan.symm.trans hspan')
      rw [Except.ok.inj (hout.symm.trans hout')]

lemma Encodes.of_ne {image page : Bytes} {declared start stop : Nat}
    (h : Encodes image declared inode index page)
    (hspan : designated image inode index = (start, stop)) (hne : start ≠ stop) :
    (start ≤ stop ∧ stop - start ≤ maxCompressedPage) ∧ stop ≤ declared ∧
      ∃ out, Zlib.decompress (image.extract start stop) pageSize = .ok out := by
  cases h with
  | hole _ hspan' =>
    obtain ⟨rfl, rfl⟩ := Prod.mk.inj (hspan.symm.trans hspan')
    exact absurd rfl hne
  | stream _ hspan' hlt hlen hstop hout =>
    obtain ⟨rfl, rfl⟩ := Prod.mk.inj (hspan.symm.trans hspan')
    exact ⟨⟨Nat.le_of_lt hlt, by omega⟩, hstop, _, hout⟩

/-- The words of a page are had just if the last of them lies within the declared size. -/
lemma run_pageBounds_covered (hm : fs.superblock.size ≤ m.bytes.size)
    (hindex : index < inode.pageCount) (c : Cache) :
    inode.offset + 4 * index + 4 ≤ fs.superblock.size ∧
        (pageBounds fs inode index).run (.mapped m) c = (.ok (designated m.bytes inode index), c) ∨
      ¬inode.offset + 4 * index + 4 ≤ fs.superblock.size ∧
        ∃ cause, (pageBounds fs inode index).run (.mapped m) c = (.error (.refused cause), c) ∧
          cause.kind = .corrupt := by
  have hcount := inode.pageCount_le
  have hoffset := inode.offset_lt
  cases index with
  | zero =>
    rw [pageBounds_zero, Query.run_bind, Filesystem.run_readWord_covered hm (by omega)]
    by_cases htable : inode.offset + 4 ≤ fs.superblock.size
    · rw [if_pos htable]
      exact .inl ⟨htable, rfl⟩
    · rw [if_neg htable]
      exact .inr ⟨htable, _, rfl, rfl⟩
  | succ index =>
    rw [pageBounds_succ fs hindex, Query.run_bind, Filesystem.run_readWord_covered hm (by omega)]
    by_cases hbefore : inode.offset + 4 * index + 4 ≤ fs.superblock.size
    · rw [if_pos hbefore]
      dsimp only
      rw [Query.run_bind, Filesystem.run_readWord_covered hm (by omega)]
      by_cases htable : inode.offset + 4 * (index + 1) + 4 ≤ fs.superblock.size
      · rw [if_pos htable]
        exact .inl ⟨htable, rfl⟩
      · rw [if_neg htable]
        exact .inr ⟨htable, _, rfl, rfl⟩
    · rw [if_neg hbefore]
      exact .inr ⟨by omega, _, rfl, rfl⟩

/-- A compressed page comes to bytes that make a page, or there is no such page and the image is at
fault. -/
lemma run_compressedPage_covered (hm : fs.superblock.size ≤ m.bytes.size)
    (hindex : index < inode.pageCount) (c : Cache) :
    (∃ out, (compressedPage fs inode index).run (.mapped m) c = (.ok out, c) ∧
        out.size ≤ pageSize ∧
        Encodes m.bytes fs.superblock.size inode index (out ++ Bytes.zeros (pageSize - out.size))) ∨
      (∃ cause, (compressedPage fs inode index).run (.mapped m) c = (.error (.refused cause), c) ∧
          cause.kind = .corrupt) ∧
        ∀ page, ¬Encodes m.bytes fs.superblock.size inode index page := by
  rw [compressedPage, unpackedPage_eq, Query.run_bind]
  rcases run_pageBounds_covered hm hindex c with ⟨htable, hrun⟩ | ⟨htable, cause, hrun, hkind⟩
  · rw [hrun]
    dsimp only
    rcases hspan : designated m.bytes inode index with ⟨start, stop⟩
    dsimp only
    by_cases hbounds : start ≤ stop ∧ stop - start ≤ maxCompressedPage
    · rw [Query.ensure_bind_of hbounds]
      by_cases hhole : start = stop
      · subst hhole
        rw [if_pos rfl]
        exact .inl ⟨Bytes.zeros 0, rfl, Nat.zero_le _, .hole htable hspan⟩
      · have hlt : start < stop := by omega
        have hwhole : start + (stop - start) = stop := by omega
        have hword : stop < 2 ^ 32 := by
          have hstop : stop = m.bytes.wordAt (inode.offset + 4 * index) :=
            (congrArg Prod.snd hspan).symm
          rw [hstop]
          exact Bytes.wordAt_lt _ _
        rw [if_neg hhole, Query.run_bind,
          Filesystem.run_read_covered hm (by omega) (by omega), hwhole]
        by_cases hstop : stop ≤ fs.superblock.size
        · rw [if_pos hstop]
          dsimp only
          rcases hout : Zlib.decompress (m.bytes.extract start stop) pageSize with cause | out
          · refine .inr ⟨⟨_, rfl, rfl⟩, ?_⟩
            intro page hpage
            obtain ⟨-, -, out, hout'⟩ := hpage.of_ne hspan hhole
            rw [hout] at hout'
            simp at hout'
          · have hsize := Zlib.size_decompress_le hout
            exact .inl ⟨out, rfl, hsize, .stream htable hspan hlt (by omega) hstop hout hsize⟩
        · rw [if_neg hstop]
          refine .inr ⟨⟨_, rfl, rfl⟩, ?_⟩
          intro page hpage
          exact hstop (hpage.of_ne hspan hhole).2.1
    · rw [Query.ensure_bind_of_not hbounds]
      refine .inr ⟨⟨_, rfl, rfl⟩, ?_⟩
      intro page hpage
      apply hbounds
      by_cases hhole : start = stop
      · subst hhole
        exact ⟨Nat.le_refl _, by omega⟩
      · exact (hpage.of_ne hspan hhole).1
  · rw [hrun]
    refine .inr ⟨⟨cause, rfl, hkind⟩, ?_⟩
    intro page hpage
    cases hpage <;> exact htable ‹_›

/-- Out of an image in memory that is as long as it says, a compressed page is read just if its
words lie within the declared size and designate nothing, or at most two pages within that size that
inflate to at most a page. What is read then is the output and zero bytes behind it. Every other
page is refused as corrupt. -/
theorem readPage_accepted (hm : fs.superblock.size ≤ m.bytes.size) (hpages : inode.hasPages = true)
    (hplace : (inode.isInPlace && fs.isInPlace) = false) (hindex : index < inode.pageCount)
    (c : Cache) :
    (∀ page, ((readPage fs inode index).run (.mapped m) c).1 = .ok page ↔
        Encodes m.bytes fs.superblock.size inode index page) ∧
      (∀ page, Encodes m.bytes fs.superblock.size inode index page → page.size = pageSize) ∧
      ((∀ page, ¬Encodes m.bytes fs.superblock.size inode index page) →
        ∃ cause, ((readPage fs inode index).run (.mapped m) c).1 = .error (.refused cause) ∧
          cause.kind = .corrupt) := by
  have hread : readPage fs inode index =
      compressedPage fs inode index >>= fun out => liftM (padded out pageSize) := by
    unfold readPage readPageInto pageBytes
    rw [Bytes.size_zeros, Query.ensure_bind_of rfl, Query.ensure_bind_of hpages,
      if_neg (Nat.not_le_of_lt hindex), hplace, if_neg Bool.false_ne_true]
  rw [hread, Query.run_bind]
  refine ⟨?_, fun page hpage => hpage.size_eq, ?_⟩
  · intro page
    rcases run_compressedPage_covered hm hindex c with
      ⟨out, hrun, hsize, hpage⟩ | ⟨⟨cause, hrun, -⟩, hnone⟩
    · rw [hrun]
      dsimp only
      rw [padded_of_le hsize]
      constructor
      · intro h
        exact Except.ok.inj h ▸ hpage
      · intro h
        exact congrArg Except.ok (hpage.unique h)
    · rw [hrun]
      constructor
      · intro h
        exact absurd h nofun
      · intro h
        exact absurd h (hnone page)
  · intro hnone
    rcases run_compressedPage_covered hm hindex c with
      ⟨out, -, -, hpage⟩ | ⟨⟨cause, hrun, hkind⟩, -⟩
    · exact absurd hpage (hnone _)
    · rw [hrun]
      exact ⟨cause, rfl, hkind⟩

/-- An image in memory with a file `a` of two pages, the first of four bytes. By the table the
second one ends before it starts. -/
def backwardMapping : Mapping where
  bytes := Bytes.ofList ([0x45, 0x3d, 0xcd, 0x28, 115, 0, 0, 0, 1] ++ List.replicate 55 0 ++
    [0xed, 0x41, 0, 0, 16, 0, 0, 0, 0xc0, 0x04, 0, 0] ++
    [0xa4, 0x81, 0, 0, 4, 16, 0, 0, 0xc1, 0x05, 0, 0, 0x61, 0, 0, 0] ++
    [115, 0, 0, 0, 114, 0, 0, 0]) ++ smallStream
  physBase? := none
  inPlace := false

lemma exists_backward :
    ∃ fs inode page, ((Filesystem.mount (.mapped backwardMapping) .epoch).run
        (.mapped backwardMapping) .empty).1 = .ok fs ∧
      ((Directory.lookup fs fs.root (Bytes.ofList [0x61])).run
        (.mapped backwardMapping) .empty).1 = .ok (some inode) ∧
      ((readPage fs inode 0).run (.mapped backwardMapping) .empty).1 = .ok page ∧
      ((readPage fs inode 1).run (.mapped backwardMapping) .empty).1 =
        .error (.refused (.badBlockPointers 1 115 114)) ∧
      fs.superblock.size ≤ backwardMapping.bytes.size ∧ inode.hasPages = true ∧
      (inode.isInPlace && fs.isInPlace) = false ∧ 1 < inode.pageCount ∧ page.byteAt 3 = 0x64 := by
  have hread : (match ((Filesystem.mount (.mapped backwardMapping) .epoch).run
        (.mapped backwardMapping) .empty).1 with
      | .error _ => false
      | .ok fs =>
        match ((Directory.lookup fs fs.root (Bytes.ofList [0x61])).run
            (.mapped backwardMapping) .empty).1 with
        | .error _ | .ok none => false
        | .ok (some inode) =>
          match ((readPage fs inode 0).run (.mapped backwardMapping) .empty).1 with
          | .error _ => false
          | .ok page =>
            decide (((readPage fs inode 1).run (.mapped backwardMapping) .empty).1 =
                .error (.refused (.badBlockPointers 1 115 114)) ∧
              fs.superblock.size ≤ backwardMapping.bytes.size ∧ inode.hasPages = true ∧
              (inode.isInPlace && fs.isInPlace) = false ∧ 1 < inode.pageCount ∧
              page.byteAt 3 = 0x64)) = true := by
    decide +kernel
  split at hread
  · simp at hread
  · rename_i fs hfs
    split at hread
    · simp at hread
    · simp at hread
    · rename_i inode hinode
      split at hread
      · simp at hread
      · rename_i page hpage
        exact ⟨fs, inode, page, hfs, hinode, hpage, of_decide_eq_true hread⟩

theorem readPage_accepted_backward :
    ∃ fs inode page, fs.superblock.size ≤ backwardMapping.bytes.size ∧ inode.hasPages = true ∧
      (inode.isInPlace && fs.isInPlace) = false ∧ 1 < inode.pageCount ∧
      Encodes backwardMapping.bytes fs.superblock.size inode 0 page ∧ page.byteAt 3 = 0x64 ∧
      (∀ page, ¬Encodes backwardMapping.bytes fs.superblock.size inode 1 page) ∧
      ∃ cause, ((readPage fs inode 1).run (.mapped backwardMapping) .empty).1 =
        .error (.refused cause) ∧ cause.kind = .corrupt := by
  obtain ⟨fs, inode, page, -, -, hread, hrefused, hm, hpages, hplace, hcount, hbyte⟩ :=
    exists_backward
  have hnonempty : 0 < inode.pageCount := Nat.lt_of_succ_lt hcount
  obtain ⟨hfirst, -, -⟩ := readPage_accepted hm hpages hplace hnonempty .empty
  obtain ⟨hsecond, -, hcorrupt⟩ := readPage_accepted hm hpages hplace hcount .empty
  have hnone : ∀ page, ¬Encodes backwardMapping.bytes fs.superblock.size inode 1 page := by
    intro page hpage
    rw [← hsecond page, hrefused] at hpage
    exact absurd hpage nofun
  exact ⟨fs, inode, page, hm, hpages, hplace, hcount, (hfirst page).1 hread, hbyte, hnone,
    hcorrupt hnone⟩

end File

end CompressedRom
