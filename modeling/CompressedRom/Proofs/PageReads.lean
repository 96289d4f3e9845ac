import CompressedRom.Proofs.ImageReads

/-!
# Reading pages and ranges

A page is read as its stored bytes with zero bytes behind them. A range of a file is read page by
page, and the part of each page that lies in the range goes into the buffer. Whatever the pages
hold, the buffer holds their bytes afterwards: `File.succeeds_readAt`.
-/

namespace CompressedRom.File

/-- A page with zero bytes behind it up to the size of a page. -/
def wholePage (page : Bytes) : Bytes := page ++ Bytes.zeros (pageSize - page.size)

lemma size_wholePage {page : Bytes} (h : page.size ≤ pageSize) : (wholePage page).size = pageSize := by
  unfold wholePage
  rw [ByteArray.size_append, Bytes.size_zeros]
  omega

lemma wholePage_append_zeros {out : Bytes} {tail : Nat} (h : out.size + tail ≤ pageSize) :
    wholePage (out ++ Bytes.zeros tail) = wholePage out := by
  have hrest : tail + (pageSize - (out.size + tail)) = pageSize - out.size := by omega
  unfold wholePage
  rw [ByteArray.size_append, Bytes.size_zeros, ByteArray.append_assoc, Bytes.zeros_append_zeros,
    hrest]

lemma wholePage_of_size {page : Bytes} (h : page.size = pageSize) : wholePage page = page := by
  unfold wholePage
  rw [h, Nat.sub_self, Bytes.append_zeros_zero]

variable {fs : Filesystem} {image buffer : Bytes} {inode : Inode} {page : Nat → Bytes} {pos stop : Nat}

lemma succeeds_readPageInto_of_pageBytes {index : Nat} {whole : Bytes}
    (hpages : inode.hasPages = true) (hbuffer : buffer.size = pageSize)
    (hbytes : (pageBytes fs inode index).Succeeds image fun out =>
      out.size ≤ pageSize ∧ wholePage out = whole) :
    (readPageInto fs inode index buffer).Succeeds image fun b => b = whole := by
  unfold readPageInto
  refine (Query.Succeeds.ensure hbuffer).bind fun _ _ => ?_
  refine (Query.Succeeds.ensure hpages).bind fun _ _ => ?_
  refine hbytes.bind fun out hout => ?_
  rw [hbuffer]
  exact (Query.Succeeds.within (padded_of_le hout.1)).mono fun b hb => hb.trans hout.2

/-- In place of `buffer`, which stands for content from `pos` on, `b` holds the bytes of pages up to
`reached`, and what `buffer` had behind them. -/
structure Filled (page : Nat → Bytes) (pos reached : Nat) (buffer b : Bytes) : Prop where
  size_eq : b.size = buffer.size
  byteAt_eq : ∀ j, b.byteAt j =
    if pos + j < reached then (page ((pos + j) / pageSize)).byteAt ((pos + j) % pageSize)
    else buffer.byteAt j

lemma Filled.next {index : Nat} {b b' : Bytes}
    (hb : Filled page pos (min (index * pageSize) stop) buffer b) (hsize : b'.size = b.size)
    (hbytes : ∀ j, b'.byteAt j =
      if max pos (index * pageSize) ≤ pos + j ∧ pos + j < min ((index + 1) * pageSize) stop then
        (page index).byteAt (pos + j - index * pageSize)
      else b.byteAt j) : Filled page pos (min ((index + 1) * pageSize) stop) buffer b' := by
  refine ⟨hsize.trans hb.size_eq, fun j => ?_⟩
  have hnext : (index + 1) * pageSize = index * pageSize + pageSize := Nat.succ_mul _ _
  have hplace := @Page.div_mod_eq index (pos + j)
  rw [hbytes, hb.byteAt_eq]
  rw [hnext] at hplace ⊢
  generalize index * pageSize = start at hplace ⊢
  -- A byte lies before the page, in it, or behind it or the end.
  by_cases hbefore : pos + j < min start stop
  · rw [if_neg (by omega), if_pos hbefore, if_pos (by omega)]
  · by_cases hin : pos + j < min (start + pageSize) stop
    · obtain ⟨hdiv, hmod⟩ := hplace (by omega) (by omega)
      rw [if_pos ⟨by omega, hin⟩, if_pos hin, hdiv, hmod]
    · rw [if_neg (fun h => hin h.2), if_neg hbefore, if_neg hin]

lemma succeeds_copyPage (hsize : ∀ i, (page i).size = pageSize) (hstop : stop < 2 ^ 24)
    (hbuffer : stop ≤ pos + buffer.size) (hpos : pos < stop) {index : Nat}
    (hindex : index ∈ touched pos stop)
    (hread : (readPage fs inode index).Succeeds image fun b => b = page index) {b : Bytes}
    (hb : Filled page pos (min (index * pageSize) stop) buffer b) :
    (copyPage fs inode pos stop b index).Succeeds image
      (Filled page pos (min ((index + 1) * pageSize) stop) buffer) := by
  obtain ⟨hfirst, hlast⟩ := mem_touched.1 hindex
  rw [copyPage_eq]
  refine hread.bind fun p hp => ?_
  subst hp
  obtain ⟨b', hb', hsize', hbytes⟩ := pastePage_eq_ok (hsize index) hstop
    (hb.size_eq.symm ▸ hbuffer) hpos hfirst hlast
  refine (Query.Succeeds.within hb').mono ?_
  rintro _ rfl
  exact hb.next hsize' hbytes

lemma succeeds_copyPages (hsize : ∀ i, (page i).size = pageSize) (hstop : stop < 2 ^ 24)
    (hbuffer : stop ≤ pos + buffer.size) (hpos : pos < stop) (n first : Nat)
    (hread : ∀ i, first ≤ i → i < first + n → i ∈ touched pos stop ∧
      (readPage fs inode i).Succeeds image fun b => b = page i)
    {b : Bytes} (hb : Filled page pos (min (first * pageSize) stop) buffer b) :
    ((List.range' first n).foldlM (copyPage fs inode pos stop) b).Succeeds image
      (Filled page pos (min ((first + n) * pageSize) stop) buffer) := by
  induction n generalizing first b with
  | zero => exact .pure hb
  | succ n ih =>
    have hnext : first + (n + 1) = first + 1 + n := by omega
    obtain ⟨hfirst, hpage⟩ := hread first (Nat.le_refl _) (by omega)
    rw [List.range'_succ, List.foldlM_cons, hnext]
    refine (succeeds_copyPage hsize hstop hbuffer hpos hfirst hpage hb).bind fun b' hb' => ?_
    exact ih (first + 1) (fun i hi hi' => hread i (by omega) (by omega)) hb'

/-- Reading a range gives the bytes of the pages that it touches, up to the end of the file, and
leaves the rest of the buffer alone. -/
lemma succeeds_readAt (hpages : inode.hasPages = true) (hword : pos + buffer.size < 2 ^ 64)
    (hsize : ∀ i, (page i).size = pageSize)
    (hread : ∀ i ∈ touched pos (min inode.size (pos + buffer.size)),
      (readPage fs inode i).Succeeds image fun b => b = page i) :
    (readAt fs inode pos buffer).Succeeds image fun read =>
      read.1 = min (inode.size - pos) buffer.size ∧
        Filled page pos (min inode.size (pos + buffer.size)) buffer read.2 := by
  have hinode := inode.size_lt
  unfold readAt
  refine (Query.Succeeds.ensure hpages).bind fun _ _ => ?_
  by_cases hnone : inode.size ≤ pos ∨ buffer.size = 0
  · rw [if_pos hnone]
    refine .pure ⟨by dsimp only; omega, rfl, fun j => ?_⟩
    rw [if_neg (by omega)]
  · rw [if_neg hnone]
    refine (Query.Succeeds.within (Word.add_eq_ok hword)).bind fun wanted hwanted => ?_
    subst hwanted
    dsimp only
    generalize hstop : min inode.size (pos + buffer.size) = stop at hread ⊢
    have hreached : min ((pos / pageSize + (Page.count stop - pos / pageSize)) * pageSize) stop =
        stop := by
      have hcount : stop ≤ Page.count stop * pageSize := Page.le_count_mul stop
      rw [pageSize_eq] at hcount ⊢
      omega
    have hstart : Filled page pos (min (pos / pageSize * pageSize) stop) buffer buffer := by
      refine ⟨rfl, fun j => ?_⟩
      have hle : pos / pageSize * pageSize ≤ pos := Nat.div_mul_le_self _ _
      rw [if_neg (by omega)]
    have hcopy : ((touched pos stop).foldlM (copyPage fs inode pos stop) buffer).Succeeds image
        (Filled page pos (min ((pos / pageSize + (Page.count stop - pos / pageSize)) * pageSize) stop)
          buffer) := by
      refine succeeds_copyPages hsize (by omega) (by omega) (by omega) _ _ ?_ hstart
      intro i hi hi'
      have hmem : i ∈ touched pos stop := List.mem_range'_1.2 ⟨hi, hi'⟩
      exact ⟨hmem, hread i hmem⟩
    rw [hreached] at hcopy
    refine Query.Succeeds.bind hcopy fun b hb => ?_
    refine (Query.Succeeds.within (Word.sub_eq_ok (by omega))).bind fun count hcount => ?_
    subst hcount
    exact .pure ⟨by dsimp only; omega, hb⟩

end CompressedRom.File
