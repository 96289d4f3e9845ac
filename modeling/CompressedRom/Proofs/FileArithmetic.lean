import CompressedRom.File
import CompressedRom.Proofs.ByteLayout

/-!
# Where the content of a file lies

Sizes have 24 bits and offsets 28, so that no sum, product or difference in reading a page of a
file leaves its word. What remains of `File.pageBounds` and `File.storedPage` without their
arithmetic is stated by equations, and what `File.copyPage` does with a page by
`File.pastePage_eq_ok`.
-/

namespace CompressedRom

lemma pageSize_eq : pageSize = 4096 := rfl

namespace Page

/-- The first page boundary at or after `offset`, however large it is. -/
def aligned (offset : Nat) : Nat := (offset + (pageSize - 1)) / pageSize * pageSize

lemma align_eq_ok {offset : Nat} (h : offset + pageSize < 2 ^ 64) :
    align offset = .ok (aligned offset) := by
  have hpast : 1 ≤ offset + pageSize := by
    rw [pageSize_eq]
    omega
  unfold align
  rw [Word.add_eq_ok h]
  dsimp only [bind, Except.bind]
  rw [Word.sub_eq_ok hpast]
  rfl

lemma start_eq_ok {index : Nat} (h : index * pageSize < 2 ^ 64) :
    start index = .ok (index * pageSize) := Word.mul_eq_ok h

lemma aligned_lt (offset : Nat) : aligned offset < offset + pageSize := by
  unfold aligned
  rw [pageSize_eq]
  omega

lemma le_count_mul (size : Nat) : size ≤ count size * pageSize := by
  unfold count
  rw [pageSize_eq]
  omega

lemma lt_count_iff {index size : Nat} : index < count size ↔ index * pageSize < size := by
  unfold count
  rw [pageSize_eq]
  omega

lemma div_mod_eq {index i : Nat} (h : index * pageSize ≤ i) (h' : i < (index + 1) * pageSize) :
    i / pageSize = index ∧ i % pageSize = i - index * pageSize := by
  rw [pageSize_eq] at h h' ⊢
  omega

end Page

namespace Inode

variable (inode : Inode)

lemma size_lt : inode.size < 2 ^ 24 := by
  unfold size
  split
  · exact inode.sizeField_lt
  · decide

lemma pageCount_le : inode.pageCount ≤ 2 ^ 12 := by
  have hsize := inode.size_lt
  unfold pageCount Page.count
  rw [pageSize_eq]
  omega

end Inode

namespace File

variable (fs : Filesystem) {inode : Inode} {index : Nat}

lemma liftM_ok {α : Type} (a : α) : (liftM (.ok a : Except Fault α) : Query α) = pure a := rfl

lemma addOffset_eq {base add : Nat} (len : Nat) (h : base + add < 2 ^ 32) :
    addOffset base add len = pure (base + add) := by
  have hsum : Word.add 64 base add = .ok (base + add) := Word.add_eq_ok (by omega)
  have hmax : base + add ≤ Word.max 32 := Nat.le_sub_one_of_lt h
  unfold addOffset Query.ensure
  simp only [hsum, liftM_ok, pure_bind, if_pos hmax, Query.done_bind]

lemma pageBounds_zero (inode : Inode) :
    pageBounds fs inode 0 = do
      let stop ← fs.readWord inode.offset
      return (inode.offset + 4 * inode.pageCount, stop) := by
  have hcount := inode.pageCount_le
  have hoffset := inode.offset_lt
  have hentry : Word.mul 64 0 4 = .ok 0 := Word.mul_eq_ok (by decide)
  have htable : Word.mul 64 inode.pageCount 4 = .ok (4 * inode.pageCount) := by
    rw [Word.mul_eq_ok (by omega), Nat.mul_comm]
  have hpointer : addOffset inode.offset 0 4 = pure inode.offset := addOffset_eq 4 (by omega)
  have hstart : addOffset inode.offset (4 * inode.pageCount) 0 =
      pure (inode.offset + 4 * inode.pageCount) := addOffset_eq 0 (by omega)
  unfold pageBounds
  simp only [hentry, htable, hpointer, hstart, liftM_ok, pure_bind, if_true]

lemma pageBounds_succ (hindex : index + 1 < inode.pageCount) :
    pageBounds fs inode (index + 1) = do
      let start ← fs.readWord (inode.offset + 4 * index)
      let stop ← fs.readWord (inode.offset + 4 * (index + 1))
      return (start, stop) := by
  have hcount := inode.pageCount_le
  have hoffset := inode.offset_lt
  have hentry : Word.mul 64 (index + 1) 4 = .ok (4 * (index + 1)) := by
    rw [Word.mul_eq_ok (by omega), Nat.mul_comm]
  have hpointer : addOffset inode.offset (4 * (index + 1)) 4 =
      pure (inode.offset + 4 * (index + 1)) := addOffset_eq 4 (by omega)
  have hprevious : Word.sub (inode.offset + 4 * (index + 1)) 4 = .ok (inode.offset + 4 * index) :=
    Word.sub_eq_ok (by omega)
  unfold pageBounds
  simp only [hentry, hpointer, hprevious, liftM_ok, pure_bind, Nat.succ_ne_zero, if_false]

lemma storedPage_eq (hindex : index < inode.pageCount) :
    storedPage fs inode index =
      fs.read (Page.aligned inode.offset + index * pageSize) pageSize >>= fun bytes =>
        if bytes.size = pageSize then pure bytes else Query.stop (.fault .outOfRange) := by
  have hcount := inode.pageCount_le
  have hoffset := inode.offset_lt
  have haligned := Page.aligned_lt inode.offset
  have hbound : Page.aligned inode.offset + index * pageSize < 2 ^ 32 := by
    rw [pageSize_eq] at haligned ⊢
    omega
  have hfirst : Page.align inode.offset = .ok (Page.aligned inode.offset) :=
    Page.align_eq_ok (by rw [pageSize_eq]; omega)
  have hbefore : Page.start index = .ok (index * pageSize) := Page.start_eq_ok (by omega)
  have hposition : Word.add 64 (Page.aligned inode.offset) (index * pageSize) =
      .ok (Page.aligned inode.offset + index * pageSize) := Word.add_eq_ok (by omega)
  have hword : addOffset 0 (Page.aligned inode.offset + index * pageSize) pageSize =
      pure (Page.aligned inode.offset + index * pageSize) := by
    rw [addOffset_eq pageSize (by omega), Nat.zero_add]
  unfold storedPage
  simp only [hfirst, hbefore, hposition, hword, liftM_ok, pure_bind]

/-- The two checks of the bounds of a page make one, and nothing is taken from a lower bound. -/
lemma unpackedPage_eq (unpack : Bytes → Nat → Except IoError Bytes) :
    unpackedPage unpack fs inode index = (do
      let (start, stop) ← pageBounds fs inode index
      Query.ensure (start ≤ stop ∧ stop - start ≤ maxCompressedPage)
        (.badBlockPointers index start stop)
      if start = stop then return Bytes.zeros 0
      else
        let packed ← fs.read start (stop - start)
        match unpack packed pageSize with
        | .ok bytes => return bytes
        | .error cause => Query.refuse (.corruptPage index cause)) := by
  unfold unpackedPage
  refine congrArg (_ >>= ·) (funext fun bounds => ?_)
  obtain ⟨start, stop⟩ := bounds
  dsimp only
  by_cases hle : start ≤ stop
  · rw [Query.ensure_bind_of hle, Word.sub_eq_ok hle, liftM_ok, pure_bind]
    by_cases hlen : stop - start ≤ maxCompressedPage
    · have hboth : start ≤ stop ∧ stop - start ≤ maxCompressedPage := ⟨hle, hlen⟩
      rw [Query.ensure_bind_of hlen]
      symm
      exact Query.ensure_bind_of hboth _ _
    · rw [Query.ensure_bind_of_not hlen, Query.ensure_bind_of_not fun h => hlen h.2]
  · rw [Query.ensure_bind_of_not hle, Query.ensure_bind_of_not fun h => hle h.1]

lemma padded_of_le {bytes : Bytes} {len : Nat} (h : bytes.size ≤ len) :
    padded bytes len = .ok (bytes ++ Bytes.zeros (len - bytes.size)) := if_pos h

/-- `buffer`, which stands for the content from `pos` on, with the part of `page` that lies from
`pos` up to `stop`; `page` is page `index`. -/
def pastePage (pos stop : Nat) (buffer : Bytes) (index : Nat) (page : Bytes) :
    Except Fault Bytes := do
  let start ← Page.start index
  let behind ← Word.add 64 start pageSize
  let current := max pos start
  let inPage ← Word.sub current start
  let len ← Word.sub (min behind stop) current
  let done ← Word.sub current pos
  let chunk ← page.slice inPage len
  buffer.overwrite done chunk

lemma mem_touched {pos stop index : Nat} :
    index ∈ touched pos stop ↔ pos / pageSize ≤ index ∧ index * pageSize < stop := by
  have hlt := @Page.lt_count_iff index stop
  unfold touched
  rw [List.mem_range'_1]
  omega

lemma within_bind {α β : Type} (x : Except Fault α) (f : α → Except Fault β) :
    (liftM (x >>= f) : Query β) = liftM x >>= fun a => liftM (f a) := by
  cases x <;> rfl

lemma copyPage_eq (pos stop : Nat) (buffer : Bytes) (index : Nat) :
    copyPage fs inode pos stop buffer index =
      readPage fs inode index >>= fun page => liftM (pastePage pos stop buffer index page) := by
  unfold copyPage pastePage
  simp only [within_bind]

lemma paste_eq_ok {page buffer : Bytes} {pos start current last : Nat} (hpos : pos ≤ current)
    (hstart : start ≤ current) (hlast : current ≤ last) (hpage : last ≤ start + page.size)
    (hbuffer : last ≤ pos + buffer.size) :
    ∃ b, (page.slice (current - start) (last - current) >>= buffer.overwrite (current - pos)) =
        .ok b ∧ b.size = buffer.size ∧
      ∀ j, b.byteAt j =
        if current ≤ pos + j ∧ pos + j < last then page.byteAt (pos + j - start)
        else buffer.byteAt j := by
  have hslice : current - start + (last - current) ≤ page.size := by omega
  have hchunk : (page.extract (current - start) (current - start + (last - current))).size =
      last - current := by
    rw [ByteArray.size_extract]
    omega
  have hfits : current - pos + (page.extract (current - start)
      (current - start + (last - current))).size ≤ buffer.size := by
    rw [hchunk]
    omega
  obtain ⟨b, hb, hsize, hbytes⟩ := Bytes.overwrite_eq_ok hfits
  refine ⟨b, ?_, hsize, fun j => ?_⟩
  · simp only [Bytes.slice_eq_ok hslice, bind, Except.bind, hb]
  · rw [hbytes, hchunk]
    by_cases hj : current ≤ pos + j ∧ pos + j < last
    · have hplace : current - start + (j - (current - pos)) = pos + j - start := by omega
      rw [if_pos hj, if_pos (by omega), Bytes.byteAt_extract (by omega) (by omega), hplace]
    · rw [if_neg hj, if_neg (by omega)]

/-- Where a page and the bytes wanted meet, the buffer takes the bytes of the page, and elsewhere
it keeps its own. -/
lemma pastePage_eq_ok {pos stop : Nat} {buffer page : Bytes} (hpage : page.size = pageSize)
    (hstop : stop < 2 ^ 24) (hbuffer : stop ≤ pos + buffer.size) (hpos : pos < stop)
    (hfirst : pos / pageSize ≤ index) (hlast : index * pageSize < stop) :
    ∃ b, pastePage pos stop buffer index page = .ok b ∧ b.size = buffer.size ∧
      ∀ j, b.byteAt j =
        if max pos (index * pageSize) ≤ pos + j ∧ pos + j < min ((index + 1) * pageSize) stop then
          page.byteAt (pos + j - index * pageSize)
        else buffer.byteAt j := by
  have hnext : (index + 1) * pageSize = index * pageSize + pageSize := Nat.succ_mul _ _
  have hbehind : pos < index * pageSize + pageSize := by
    rw [pageSize_eq] at hfirst ⊢
    omega
  have hstart : Page.start index = .ok (index * pageSize) := Page.start_eq_ok (by omega)
  have hword : pageSize < 2 ^ 24 := by decide
  have hsum : Word.add 64 (index * pageSize) pageSize = .ok (index * pageSize + pageSize) :=
    Word.add_eq_ok (by omega)
  rw [← hnext] at hsum
  have hcurrent : max pos (index * pageSize) ≤ min ((index + 1) * pageSize) stop := by
    rw [hnext]
    omega
  have hend : min ((index + 1) * pageSize) stop ≤ index * pageSize + page.size := by
    rw [hpage, ← hnext]
    exact Nat.min_le_left _ _
  obtain ⟨b, hb, hsize, hbytes⟩ := paste_eq_ok (Nat.le_max_left pos (index * pageSize))
    (Nat.le_max_right pos (index * pageSize)) hcurrent hend
    (Nat.le_trans (Nat.min_le_right _ _) hbuffer)
  refine ⟨b, ?_, hsize, hbytes⟩
  unfold pastePage
  rw [← hb, hstart]
  simp only [bind, Except.bind, hsum, Word.sub_eq_ok (Nat.le_max_right pos (index * pageSize)),
    Word.sub_eq_ok hcurrent, Word.sub_eq_ok (Nat.le_max_left pos (index * pageSize))]

end File

end CompressedRom
