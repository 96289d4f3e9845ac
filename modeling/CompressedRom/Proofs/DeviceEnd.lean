import CompressedRom.Proofs.BlockRefinement
import CompressedRom.Proofs.CacheHistory

/-!
# The end of a device

A miss fills a whole buffer, so that near the end of a device it asks for pages that the device does
not have. If the device has reported its length these are zero. If it has not, they are asked for
all the same, and the read fails although the device has all of its bytes.
-/

namespace CompressedRom

namespace Device

/-- The device has the bytes of `content`, and reports how many, or nothing. No call fails, and each
one brings one or more of the bytes asked for, from the first one on, while there are any. -/
structure Delivers (d : Device) (content : Bytes) (length? : Option Nat) : Prop where
  length_eq : d.length = .ok length?
  reports : length? = none ∨ length? = some content.size
  read_eq : ∀ call pos len, ∃ m ≤ len, (0 < len → 0 < m) ∧
    d.read call pos len = .ok (content.extract pos (pos + m))

lemma delivers_ofBytes (content : Bytes) :
    (ofBytes content).Delivers content (some content.size) where
  length_eq := rfl
  reports := .inr rfl
  read_eq _ _ len := ⟨len, Nat.le_refl _, id, rfl⟩

/-- The device that holds `content` and does not report how long it is. -/
def unsized (content : Bytes) : Device := { ofBytes content with length := .ok none }

lemma delivers_unsized (content : Bytes) : (unsized content).Delivers content none where
  length_eq := rfl
  reports := .inl rfl
  read_eq _ _ len := ⟨len, Nat.le_refl _, id, rfl⟩

variable {d : Device} {content : Bytes} {length? : Option Nat}

lemma Delivers.zeroPast_eq (hd : d.Delivers content length?) :
    zeroPast content.byteAt length? = content.byteAt := by
  rcases hd.reports with rfl | rfl
  · rfl
  · exact zeroPast_byteAt content

lemma Delivers.read_ne_error (hd : d.Delivers content length?) (call pos len : Nat) (e : IoError) :
    d.read call pos len ≠ .error e := by
  obtain ⟨m, -, -, hread⟩ := hd.read_eq call pos len
  rw [hread]
  simp

lemma Delivers.eq_extract (hd : d.Delivers content length?) {call pos len : Nat} {chunk : Bytes}
    (h : d.read call pos len = .ok chunk) :
    ∃ m ≤ len, (0 < len → 0 < m) ∧ chunk = content.extract pos (pos + m) := by
  obtain ⟨m, hm, hpos, hread⟩ := hd.read_eq call pos len
  rw [h] at hread
  exact ⟨m, hm, hpos, Except.ok.inj hread⟩

lemma Delivers.readExactly_eq_ok (hd : d.Delivers content length?) {pos len : Nat}
    (hlen : pos + len ≤ content.size) (call : Nat) (got : Bytes) :
    (d.readExactly pos len call got).1 = .ok (got ++ content.extract pos (pos + len)) := by
  fun_induction readExactly d pos len call got with
  | case1 pos call got => rw [Nat.add_zero, ByteArray.extract_same, ByteArray.append_empty]
  | case2 pos len call got hl e hr => exact absurd hr (hd.read_ne_error call pos len e)
  | case3 pos len call got hl chunk hr hc =>
    obtain ⟨m, hm, hpos, rfl⟩ := hd.eq_extract hr
    have hpos := hpos (Nat.pos_of_ne_zero hl)
    rw [ByteArray.size_extract] at hc
    omega
  | case4 pos len call got hl chunk hr hc ih =>
    obtain ⟨m, hm, -, rfl⟩ := hd.eq_extract hr
    have hsize : (content.extract pos (pos + m)).size = m := by
      rw [ByteArray.size_extract]
      omega
    have hend : pos + m + (len - m) = pos + len := by omega
    rw [hsize] at ih ⊢
    rw [ih (by omega), hend, ByteArray.append_assoc, ByteArray.extract_append_extract,
      Nat.min_eq_left (Nat.le_add_right _ _), Nat.max_eq_right (by omega)]

lemma Delivers.readExactly_eq_error (hd : d.Delivers content length?) {pos len : Nat}
    (hlen : content.size < pos + len) (hpos : len ≠ 0) (call : Nat) (got : Bytes) :
    (d.readExactly pos len call got).1 = .error shortRead := by
  fun_induction readExactly d pos len call got with
  | case1 => exact absurd rfl hpos
  | case2 pos len call got hl e hr => exact absurd hr (hd.read_ne_error call pos len e)
  | case3 => rfl
  | case4 pos len call got hl chunk hr hc ih =>
    obtain ⟨m, hm, -, rfl⟩ := hd.eq_extract hr
    rw [ByteArray.size_extract] at hc
    apply ih
    · rw [ByteArray.size_extract]
      omega
    · rw [ByteArray.size_extract]
      omega

lemma Delivers.readExactly_page (hd : d.Delivers content length?) {pos : Nat}
    (hpage : length? = none → pos + pageSize ≤ content.size) (call : Nat) :
    ∃ page, (d.readExactly pos (available length? pos) call (Bytes.zeros 0)).1 = .ok page ∧
      (page ++ Bytes.zeros (pageSize - available length? pos)).IsRange content.byteAt pos
        pageSize := by
  rw [← hd.zeroPast_eq]
  by_cases hwanted : available length? pos = 0
  · refine ⟨Bytes.zeros 0, ?_, ?_⟩
    · rw [hwanted, readExactly, if_pos rfl]
    · apply range_page
      rw [hwanted]
      exact .empty _ _
  · have hin : pos + available length? pos ≤ content.size := by
      rcases hd.reports with hnone | hsome
      · exact Nat.le_trans (Nat.add_le_add_left (available_le _ _) _) (hpage hnone)
      · exact available_within hwanted _ hsome
    refine ⟨_, hd.readExactly_eq_ok hin call (Bytes.zeros 0), ?_⟩
    rw [Bytes.zeros_zero_append]
    exact range_page (.of_extract hin)

lemma Delivers.readPages_eq_ok (hd : d.Delivers content length?) {n first start : Nat}
    (hfirst : (first + n) * pageSize ≤ 2 ^ 64)
    (hpages : length? = none → (first + n) * pageSize ≤ content.size) (call : Nat) {got : Bytes}
    (hplace : first * pageSize = start + got.size)
    (hgot : got.IsRange content.byteAt start got.size) :
    ∃ data, (d.readPages length? n first call got).1 = .ok data ∧
      data.IsRange content.byteAt start (got.size + n * pageSize) := by
  induction n generalizing first call got with
  | zero =>
    rw [Nat.zero_mul, Nat.add_zero]
    exact ⟨got, rfl, hgot⟩
  | succ n ih =>
    have hnext : first + 1 + n = first + (n + 1) := by omega
    have hpage : length? = none → first * pageSize + pageSize ≤ content.size := by
      intro hnone
      have hend := hpages hnone
      rw [Nat.add_mul, Nat.succ_mul] at hend
      omega
    obtain ⟨page, hread, hrange⟩ := hd.readExactly_page hpage call
    have hmore : (got ++ page ++
        Bytes.zeros (pageSize - available length? (first * pageSize))).IsRange content.byteAt start
          (got.size + pageSize) := by
      rw [ByteArray.append_assoc]
      apply hgot.append
      rw [← hplace]
      exact hrange
    have hall := hmore.size_eq
    rw [readPages, start_of_le hfirst]
    dsimp only
    rcases hr : d.readExactly (first * pageSize) (available length? (first * pageSize)) call
      (Bytes.zeros 0) with ⟨result, next⟩
    rw [hr] at hread
    cases hread
    dsimp only
    have hfirst' : (first + 1 + n) * pageSize ≤ 2 ^ 64 := by rwa [hnext]
    have hpages' : length? = none → (first + 1 + n) * pageSize ≤ content.size := by
      rw [hnext]
      exact hpages
    have hdata := ih hfirst' hpages' next (by rw [hall, Nat.succ_mul]; omega)
      (by rw [hall]; exact hmore)
    have htotal : got.size + pageSize + n * pageSize = got.size + (n + 1) * pageSize := by
      rw [Nat.succ_mul]
      omega
    rwa [hall, htotal] at hdata

lemma Delivers.readPages_eq_error (hd : d.Delivers content none) {n first : Nat}
    (hfirst : (first + n) * pageSize ≤ 2 ^ 64) (hn : n ≠ 0)
    (hend : content.size < (first + n) * pageSize) (call : Nat) (got : Bytes) :
    (d.readPages none n first call got).1 = .error (.refused (.io shortRead)) := by
  induction n generalizing first call got with
  | zero => exact absurd rfl hn
  | succ n ih =>
    have hnext : first + 1 + n = first + (n + 1) := by omega
    have hwanted : available none (first * pageSize) = pageSize := rfl
    rw [readPages, start_of_le hfirst]
    dsimp only
    rw [hwanted]
    rcases hr : d.readExactly (first * pageSize) pageSize call (Bytes.zeros 0) with ⟨result, next⟩
    -- Pages that the device has are read; the one that runs past its end ends the fill.
    by_cases hpage : content.size < first * pageSize + pageSize
    · have hread := hd.readExactly_eq_error hpage (by decide) call (Bytes.zeros 0)
      rw [hr] at hread
      cases hread
      rfl
    · have hread := hd.readExactly_eq_ok (Nat.le_of_not_lt hpage) call (Bytes.zeros 0)
      rw [hr] at hread
      cases hread
      apply ih
      · rwa [hnext]
      · rintro rfl
        rw [Nat.zero_add, Nat.succ_mul] at hend
        exact hpage hend
      · rwa [hnext]

end Device

namespace Cache

variable {d : Device} {content : Bytes} {length? : Option Nat} {c : Cache} {offset len : Nat}

/-- A filled buffer holds all of the `len` bytes at `offset`. -/
def Contains (c : Cache) (offset len : Nat) : Prop :=
  ∃ b ∈ c.slots, ∃ first, b.Holds first offset len

lemma pages_le (hoffset : offset < 2 ^ 32) :
    (offset / pageSize + pagesPerBuffer) * pageSize ≤ 2 ^ 64 := by
  unfold pagesPerBuffer bufferShift pageSize pageShift
  omega

/-- A fill succeeds if the device has all four pages, or has reported how many of them it has. -/
lemma exists_fill (hd : d.Delivers content length?) (hoffset : offset < 2 ^ 32)
    (hpages : length? = none →
      (offset / pageSize + pagesPerBuffer) * pageSize ≤ content.size) (call : Nat) :
    ∃ data, (d.readPages length? pagesPerBuffer (offset / pageSize) call (Bytes.zeros 0)).1 =
        .ok data ∧ data.IsRange content.byteAt (offset / pageSize * pageSize) bufferSize := by
  have hnone : (Bytes.zeros 0).IsRange content.byteAt (offset / pageSize * pageSize)
      (Bytes.zeros 0).size := by
    rw [Bytes.size_zeros]
    exact .empty _ _
  have hfill := hd.readPages_eq_ok (pages_le hoffset) hpages call
    (by rw [Bytes.size_zeros, Nat.add_zero]) hnone
  rwa [Bytes.size_zeros, Nat.zero_add] at hfill

lemma range_of_delivers (hd : d.Delivers content length?) (hoffset : offset < 2 ^ 32)
    {call next : Nat} {data : Bytes}
    (h : d.readPages length? pagesPerBuffer (offset / pageSize) call (Bytes.zeros 0) =
      (.ok data, next)) :
    data.IsRange content.byteAt (offset / pageSize * pageSize) bufferSize := by
  -- A fill that runs past the end has failed, so that there is nothing to show of it.
  by_cases hpages : length? = none →
    (offset / pageSize + pagesPerBuffer) * pageSize ≤ content.size
  · obtain ⟨data', hread, hrange⟩ := exists_fill hd hoffset hpages call
    rw [h] at hread
    cases hread
    exact hrange
  · obtain ⟨rfl, hend⟩ := Classical.not_imp.1 hpages
    have hread := hd.readPages_eq_error (pages_le hoffset) (by decide) (Nat.lt_of_not_le hend) call
      (Bytes.zeros 0)
    rw [h] at hread
    cases hread

lemma coherent_of_delivers (hd : d.Delivers content length?) (hoffset : offset < 2 ^ 32)
    (hc : c.Coherent content.byteAt) : (read d length? offset len c).2.Coherent content.byteAt :=
  every_read hc fun _ _ h => range_of_delivers hd hoffset h

lemma coherent_after (hd : d.Delivers content length?) {reads : List (Nat × Nat)}
    (hreads : ∀ r ∈ reads, r.1 < 2 ^ 32) : (after d length? reads).Coherent content.byteAt := by
  have hrun (c : Cache) (hc : c.Coherent content.byteAt) :
      ((Store.buffered d length?).readAll reads c).2.Coherent content.byteAt := by
    induction reads generalizing c with
    | nil => exact hc
    | cons r reads ih =>
      obtain ⟨hr, hreads⟩ := List.forall_mem_cons.1 hreads
      exact ih hreads _ (coherent_of_delivers hd hr hc)
  exact hrun .empty (every_empty _)

lemma extract_eq_of_range {data : Bytes} {first start : Nat}
    (hdata : data.IsRange content.byteAt (first * pageSize) bufferSize)
    (hstart : first * pageSize + start = offset) (hle : start + len ≤ bufferSize)
    (hin : offset + len ≤ content.size) :
    data.extract start (start + len) = content.extract offset (offset + len) := by
  have hspan := hdata.extract hle
  rw [hstart] at hspan
  exact hspan.unique (.of_extract hin)

/-- A read that fits into a buffer is a hit if a buffer contains it, or else a miss. -/
lemma read_contained_cases (d : Device) (length? : Option Nat) (hoffset : offset < 2 ^ 32)
    (hlen : 1 ≤ len) (hfit : offset % pageSize + len ≤ bufferSize) :
    (c.Contains offset len ∧ ∃ b ∈ c.slots, ∃ first start, b.first? = some first ∧
        first * pageSize + start = offset ∧ start + len ≤ bufferSize ∧
        (read d length? offset len c).1 = .ok (b.data.extract start (start + len))) ∨
      ¬c.Contains offset len ∧ read d length? offset len c =
        readMiss d length? (offset / pageSize) (offset % pageSize) len c := by
  have hbuffer : bufferSize = 16384 := rfl
  rcases read_cases d length? offset len c with
    ⟨hzero, -⟩ | ⟨failure, -, hbad⟩ | ⟨b, hb, first, start, hfirst, hstart, hle, hread⟩ |
      ⟨-, -, hfind, hread⟩
  · omega
  · omega
  · refine .inl ⟨⟨b, hb, first, hfirst, ?_, ?_⟩, b, hb, first, start, hfirst, hstart, hle, ?_⟩
    · rw [Nat.le_div_iff_mul_le (by decide)]
      omega
    · rw [Nat.mul_comm]
      omega
    · rw [hread]
  · refine .inr ⟨?_, hread⟩
    rintro ⟨b, hb, first, hholds⟩
    have hsize : len ≤ bufferSize := by omega
    rcases findIn_eq hoffset hsize c.slots.toList with
      ⟨b', -, first', -, hfound⟩ | ⟨hnone, -⟩
    · rw [find, hfound] at hfind
      simp at hfind
    · exact hnone b (Vector.mem_toList_iff.2 hb) first hholds

lemma readMiss_of_delivers (hd : d.Delivers content length?) (hoffset : offset < 2 ^ 32)
    (hpages : length? = none →
      (offset / pageSize + pagesPerBuffer) * pageSize ≤ content.size)
    (hin : offset + len ≤ content.size) (hfit : offset % pageSize + len ≤ bufferSize) :
    (readMiss d length? (offset / pageSize) (offset % pageSize) len c).1 =
      .ok (content.extract offset (offset + len)) := by
  obtain ⟨data, hdata, hrange⟩ := exists_fill hd hoffset hpages c.calls
  rcases readMiss_cases d length? (offset / pageSize) (offset % pageSize) len c with
    ⟨failure, left, next, hread, -, -⟩ | ⟨filled, next, hread, -, hmiss⟩
  · rw [hread] at hdata
    cases hdata
  · rw [hread] at hdata
    cases hdata
    rw [hmiss, part_of_le hfit, extract_eq_of_range hrange (Nat.div_add_mod' ..) hfit hin]

lemma read_of_end (hd : d.Delivers content none) (hoffset : offset < 2 ^ 32) (hlen : 1 ≤ len)
    (hfit : offset % pageSize + len ≤ bufferSize) (hmiss : ¬c.Contains offset len)
    (hend : content.size < (offset / pageSize + pagesPerBuffer) * pageSize) :
    (read d none offset len c).1 = .error (.refused (.io Device.shortRead)) := by
  rcases read_contained_cases (c := c) d none hoffset hlen hfit with
    ⟨hcontained, -⟩ | ⟨-, hmissed⟩
  · exact absurd hcontained hmiss
  · have herror := hd.readPages_eq_error (pages_le hoffset) (by decide) hend c.calls (Bytes.zeros 0)
    rcases readMiss_cases d none (offset / pageSize) (offset % pageSize) len c with
      ⟨failure, left, next, hread, -, hread'⟩ | ⟨filled, next, hread, -, -⟩
    · rw [hread] at herror
      cases herror
      rw [hmissed, hread']
    · rw [hread] at herror
      cases herror

/-- After any reads, a read within a device that delivers gives the device's bytes if the device has
reported its length, if a buffer contains all of them, or if the device goes on for four pages from
the read's first page on. Otherwise it fails, like at the end of the device. Either way the buffers
hold what the device has, and zero bytes past its end. -/
theorem read_near_end (hd : d.Delivers content length?) {reads : List (Nat × Nat)}
    (hreads : ∀ r ∈ reads, r.1 < 2 ^ 32) (hoffset : offset < 2 ^ 32) (hlen : 1 ≤ len)
    (hin : offset + len ≤ content.size) (hfit : offset % pageSize + len ≤ bufferSize) :
    let c := after d length? reads
    ((length? = some content.size ∨ c.Contains offset len ∨
        (offset / pageSize + pagesPerBuffer) * pageSize ≤ content.size) →
      (c.read d length? offset len).1 = .ok (content.extract offset (offset + len))) ∧
    (length? = none → ¬c.Contains offset len →
        content.size < (offset / pageSize + pagesPerBuffer) * pageSize →
      (c.read d length? offset len).1 = .error (.refused (.io Device.shortRead))) ∧
    (c.read d length? offset len).2.Coherent content.byteAt := by
  intro c
  have hc : c.Coherent content.byteAt := coherent_after hd hreads
  refine ⟨?_, ?_, coherent_of_delivers hd hoffset hc⟩
  · intro hthere
    rcases read_contained_cases (c := c) d length? hoffset hlen hfit with
      ⟨-, b, hb, first, start, hfirst, hstart, hle, hread⟩ | ⟨hmiss, hread⟩
    · rw [hread, extract_eq_of_range (hc b hb first hfirst) hstart hle hin]
    · rw [hread]
      apply readMiss_of_delivers hd hoffset _ hin hfit
      rintro rfl
      rcases hthere with hsome | hcontained | hpages
      · cases hsome
      · exact absurd hcontained hmiss
      · exact hpages
  · rintro rfl hmiss hend
    exact read_of_end hd hoffset hlen hfit hmiss hend

lemma not_contains_empty (offset len : Nat) : ¬empty.Contains offset len := by
  rintro ⟨b, hb, first, hfirst, -⟩
  exact every_empty (fun _ _ => False) b hb first hfirst

/-- A device of one byte, which is out of reach if it has not reported its length. -/
theorem read_near_end_one_byte :
    let content := Bytes.ofList [0x61]
    (Device.ofBytes content).Delivers content (some 1) ∧
      (Device.unsized content).Delivers content none ∧
      ((after (.ofBytes content) (some 1) []).read (.ofBytes content) (some 1) 0 1).1 = .ok content ∧
      ((after (.unsized content) none []).read (.unsized content) none 0 1).1 =
        .error (.refused (.io Device.shortRead)) := by
  intro content
  have hreads : ∀ r ∈ ([] : List (Nat × Nat)), r.1 < 2 ^ 32 := by decide
  have hreported := read_near_end (Device.delivers_ofBytes content) hreads
    (show 0 < 2 ^ 32 by decide) (show 1 ≤ 1 by decide) (by decide) (by decide)
  have hunreported := read_near_end (Device.delivers_unsized content) hreads
    (show 0 < 2 ^ 32 by decide) (show 1 ≤ 1 by decide) (by decide) (by decide)
  exact ⟨Device.delivers_ofBytes content, Device.delivers_unsized content, hreported.1 (.inl rfl),
    hunreported.2.1 rfl (not_contains_empty 0 1) (by decide)⟩

/-- Not every read within a device that delivers gives the device's bytes. -/
theorem not_read_within_device :
    ¬∀ (d : Device) (content : Bytes) (length? : Option Nat) (reads : List (Nat × Nat))
      (offset len : Nat), d.Delivers content length? → (∀ r ∈ reads, r.1 < 2 ^ 32) →
      offset < 2 ^ 32 → 1 ≤ len → offset + len ≤ content.size →
      offset % pageSize + len ≤ bufferSize →
        ((after d length? reads).read d length? offset len).1 =
          .ok (content.extract offset (offset + len)) := by
  intro h
  have hread := h (.unsized (.ofList [0x61])) _ none [] 0 1 (Device.delivers_unsized _) (by decide)
    (by decide) (by decide) (by decide) (by decide)
  have hfailed := read_of_end (Device.delivers_unsized (.ofList [0x61])) (show 0 < 2 ^ 32 by decide)
    (show 1 ≤ 1 by decide) (by decide) (not_contains_empty 0 1) (by decide)
  change (read _ none 0 1 empty).1 = _ at hread
  rw [hfailed] at hread
  cases hread

end Cache

end CompressedRom
