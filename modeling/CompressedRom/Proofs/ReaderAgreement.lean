import CompressedRom.Command
import CompressedRom.Proofs.ListingResume
import CompressedRom.Proofs.PageAcceptance

/-!
# The readers of a file agree

Ranges, links and whole files are read by loops of their own, each of which cuts pages in its way.
`File.gather` says what bytes of a file are if its pages are known: those that stand at their
places in the pages, or the failure of the first page that fails. All readers give just this:
`File.readers_agree`.
-/

namespace CompressedRom

namespace File

/-- The `n` bytes from `pos` on of pages that stand one behind the other, or the failure of the
first of these pages that holds one of them and does not come. -/
def gather (page : Nat → Except Failure Bytes) (pos n : Nat) : Except Failure Bytes := do
  let bytes ← (List.range' pos n).mapM fun i =>
    (page (i / pageSize)).map fun p => p.byteAt (i % pageSize)
  return Bytes.ofList bytes

lemma mapM_eq_ok {ε α β : Type} {f : α → Except ε β} {g : α → β} {l : List α}
    (h : ∀ a ∈ l, f a = .ok (g a)) : l.mapM f = .ok (l.map g) := by
  induction l with
  | nil => rfl
  | cons a l ih =>
    rw [List.mapM_cons, h a List.mem_cons_self, ih fun b hb => h b (List.mem_cons_of_mem _ hb)]
    rfl

lemma length_of_mapM {ε α β : Type} {f : α → Except ε β} {l : List α} {l' : List β}
    (h : l.mapM f = .ok l') : l'.length = l.length := by
  induction l generalizing l' with
  | nil =>
    obtain rfl := Except.ok.inj h
    rfl
  | cons a l ih =>
    rw [List.mapM_cons] at h
    cases ha : f a with
    | error e =>
      rw [ha] at h
      exact absurd h nofun
    | ok b =>
      cases hl : l.mapM f with
      | error e =>
        rw [ha, hl] at h
        exact absurd h nofun
      | ok bs =>
        rw [ha, hl] at h
        obtain rfl := Except.ok.inj h
        rw [List.length_cons, List.length_cons, ih hl]

section Gather

variable {page : Nat → Except Failure Bytes}

lemma gather_zero (page : Nat → Except Failure Bytes) (pos : Nat) :
    gather page pos 0 = .ok (Bytes.zeros 0) := rfl

lemma gather_add (page : Nat → Except Failure Bytes) (pos m n : Nat) :
    gather page pos (m + n) = do
      let first ← gather page pos m
      let second ← gather page (pos + m) n
      return first ++ second := by
  unfold gather
  rw [← List.range'_append_1, List.mapM_append]
  simp [Bytes.ofList_append]

/-- What bytes come to is what some of them come to and then the others. -/
lemma gather_trans {pos mid stop : Nat} {got : Bytes} (hpos : pos ≤ mid) (hmid : mid ≤ stop)
    (hgot : gather page pos (mid - pos) = .ok got) :
    gather page pos (stop - pos) = (gather page mid (stop - mid)).map fun b => got ++ b := by
  have hsum : stop - pos = (mid - pos) + (stop - mid) := by omega
  rw [hsum, gather_add, hgot, Nat.add_sub_of_le hpos]
  cases gather page mid (stop - mid) <;> rfl

lemma gather_within {pos stop index : Nat} {p : Bytes} (hpage : page index = .ok p)
    (hsize : p.size = pageSize) (hstart : index * pageSize ≤ pos) (hle : pos ≤ stop)
    (hstop : stop ≤ (index + 1) * pageSize) :
    gather page pos (stop - pos) =
      .ok (p.extract (pos - index * pageSize) (stop - index * pageSize)) := by
  have hbytes : ∀ i ∈ List.range' pos (stop - pos),
      (page (i / pageSize)).map (fun p => p.byteAt (i % pageSize)) =
        .ok (p.byteAt (i - index * pageSize)) := by
    intro i hi
    rw [List.mem_range'_1, Nat.add_sub_of_le hle] at hi
    obtain ⟨hdiv, hmod⟩ := Page.div_mod_eq (Nat.le_trans hstart hi.1) (Nat.lt_of_lt_of_le hi.2 hstop)
    rw [hdiv, hmod, hpage]
    rfl
  unfold gather
  rw [mapM_eq_ok hbytes]
  rw [Nat.succ_mul] at hstop
  generalize index * pageSize = start at hstart hstop ⊢
  apply congrArg Except.ok
  apply Bytes.ext_byteAt
  · rw [Bytes.size_ofList, List.length_map, List.length_range', ByteArray.size_extract]
    omega
  · intro j hj
    rw [Bytes.size_ofList, List.length_map, List.length_range'] at hj
    have hplace : pos + j - start = pos - start + j := by omega
    rw [Bytes.byteAt_ofList, Bytes.byteAt_extract (by omega) (by omega), ← hplace]
    simp [hj]

lemma gather_first {pos stop : Nat} {p : Bytes} (hpage : page 0 = .ok p)
    (hsize : p.size = pageSize) (hle : pos ≤ stop) (hstop : stop ≤ pageSize) :
    gather page pos (stop - pos) = .ok (p.extract pos stop) := by
  have hwithin := gather_within hpage hsize (Nat.zero_mul pageSize ▸ Nat.zero_le pos) hle
    (Nat.one_mul pageSize ▸ hstop)
  rwa [Nat.zero_mul, Nat.sub_zero, Nat.sub_zero] at hwithin

lemma gather_failed {pos n index : Nat} {failure : Failure} (hpage : page index = .error failure)
    (hstart : index * pageSize ≤ pos) (hstop : pos < (index + 1) * pageSize) (hn : 0 < n) :
    gather page pos n = .error failure := by
  obtain ⟨n, rfl⟩ := Nat.exists_eq_add_one_of_ne_zero (Nat.ne_of_gt hn)
  unfold gather
  rw [List.range'_succ, List.mapM_cons, (Page.div_mod_eq hstart hstop).1, hpage]
  rfl

lemma size_gather {pos n : Nat} {b : Bytes} (h : gather page pos n = .ok b) : b.size = n := by
  unfold gather at h
  cases hbytes : (List.range' pos n).mapM fun i =>
      (page (i / pageSize)).map fun p => p.byteAt (i % pageSize) with
  | error failure =>
    rw [hbytes] at h
    exact absurd h nofun
  | ok bytes =>
    rw [hbytes] at h
    obtain rfl := Except.ok.inj h
    rw [Bytes.size_ofList, length_of_mapM hbytes, List.length_range']

lemma gather_size {pos n : Nat} {b : Bytes} (h : gather page pos n = .ok b) :
    gather page pos b.size = .ok b := by
  rw [size_gather h]
  exact h

variable {pos stop index : Nat} {got p : Bytes} {failure : Failure}

/-- The bytes that the next page has come behind those that were had before. -/
lemma gather_next (hgot : gather page pos (max pos (index * pageSize) - pos) = .ok got)
    (hfirst : pos < (index + 1) * pageSize) (hlast : index * pageSize < stop) (hpos : pos < stop)
    (hpage : page index = .ok p) (hsize : p.size = pageSize) :
    gather page pos (min ((index + 1) * pageSize) stop - pos) =
      .ok (got ++ p.extract (max pos (index * pageSize) - index * pageSize)
        (min ((index + 1) * pageSize) stop - index * pageSize)) := by
  have hnext : index * pageSize ≤ (index + 1) * pageSize := Nat.mul_le_mul_right _ (Nat.le_succ _)
  have hle : max pos (index * pageSize) ≤ min ((index + 1) * pageSize) stop := by
    rw [Nat.max_le, Nat.le_min, Nat.le_min]
    exact ⟨⟨Nat.le_of_lt hfirst, Nat.le_of_lt hpos⟩, hnext, Nat.le_of_lt hlast⟩
  have hpart := gather_within hpage hsize (Nat.le_max_right pos _) hle (Nat.min_le_left _ _)
  rw [gather_trans (Nat.le_max_left pos _) hle hgot, hpart]
  rfl

lemma gather_next_failed (hgot : gather page pos (max pos (index * pageSize) - pos) = .ok got)
    (hfirst : pos < (index + 1) * pageSize) (hlast : index * pageSize < stop) (hpos : pos < stop)
    (hpage : page index = .error failure) : gather page pos (stop - pos) = .error failure := by
  have hnext : index * pageSize < (index + 1) * pageSize :=
    Nat.mul_lt_mul_of_pos_right (Nat.lt_succ_self _) (Nat.two_pow_pos pageShift)
  have hlt : max pos (index * pageSize) < stop := Nat.max_lt.2 ⟨hpos, hlast⟩
  have hpart := gather_failed hpage (Nat.le_max_right pos _) (Nat.max_lt.2 ⟨hfirst, hnext⟩)
    (Nat.sub_pos_of_lt hlt)
  rw [gather_trans (Nat.le_max_left pos _) (Nat.le_of_lt hlt) hgot, hpart]
  rfl

end Gather

/-- Whatever was read before, the pages of a file come out of the store as `page` says, each whole
or refused. -/
structure Paged (s : Store) (inv : Cache → Prop) (fs : Filesystem) (inode : Inode)
    (page : Nat → Except Failure Bytes) : Prop where
  run_eq : ∀ {c : Cache}, inv c → ∀ i, ((readPage fs inode i).run s c).1 = page i
  size_eq : ∀ {i : Nat} {p : Bytes}, page i = .ok p → p.size = pageSize
  refused : ∀ {i : Nat} {failure : Failure}, page i = .error failure →
    ∃ cause, failure = .refused cause
  inv_run : ∀ {α : Type} (q : Query α) {c : Cache}, inv c → inv (q.run s c).2

/-- What a file comes to of which `written` was had when it came to its end or to the cause that
ended it. -/
def ending (written : Bytes) : Option Error → Except Failure Bytes
  | none => .ok written
  | some cause => .error (.refused cause)

namespace Paged

variable {s : Store} {inv : Cache → Prop} {fs : Filesystem} {inode : Inode}
  {page : Nat → Except Failure Bytes} {c : Cache} {pos stop : Nat} {buffer : Bytes}

/-- A page puts the bytes that it has behind those that were had before. -/
lemma pastePage_atop {got p : Bytes} {index : Nat} (hpage : p.size = pageSize)
    (hstop : stop < 2 ^ 24) (hbuffer : stop ≤ pos + buffer.size) (hpos : pos < stop)
    (hfirst : pos / pageSize ≤ index) (hlast : index * pageSize < stop)
    (hgot : got.size = max pos (index * pageSize) - pos) :
    pastePage pos stop (got.atop buffer) index p =
      .ok ((got ++ p.extract (max pos (index * pageSize) - index * pageSize)
        (min ((index + 1) * pageSize) stop - index * pageSize)).atop buffer) := by
  have hnext : (index + 1) * pageSize = index * pageSize + pageSize := Nat.succ_mul _ _
  have hbehind : pos < index * pageSize + pageSize := by
    rw [pageSize_eq] at hfirst ⊢
    omega
  have hsize : (got.atop buffer).size = buffer.size := Bytes.size_atop (by omega)
  have hroom : stop ≤ pos + (got.atop buffer).size := hsize.symm ▸ hbuffer
  obtain ⟨b, hb, hsize', hbytes⟩ := pastePage_eq_ok hpage hstop hroom hpos hfirst hlast
  rw [hb]
  apply congrArg Except.ok
  have hle : max pos (index * pageSize) ≤ min ((index + 1) * pageSize) stop := by omega
  have hpart : min ((index + 1) * pageSize) stop ≤ index * pageSize + p.size := by
    rw [hpage, ← hnext]
    exact Nat.min_le_left _ _
  have hlast' : min ((index + 1) * pageSize) stop ≤ pos + buffer.size :=
    Nat.le_trans (Nat.min_le_right _ _) hbuffer
  exact Bytes.eq_atop_append (Nat.le_max_left _ _) (Nat.le_max_right _ _) hle hpart hlast' hgot
    (hsize'.trans hsize) hbytes

lemma run_copyPages (h : Paged s inv fs inode page) (hstop : stop < 2 ^ 24)
    (hbuffer : stop ≤ pos + buffer.size) (hpos : pos < stop) (n first : Nat)
    (hfirst : pos / pageSize ≤ first) (hn : first + n = Page.count stop) {got : Bytes}
    (hgot : gather page pos (max pos (min (first * pageSize) stop) - pos) = .ok got)
    {c : Cache} (hc : inv c) :
    (((List.range' first n).foldlM (copyPage fs inode pos stop) (got.atop buffer)).run s c).1 =
      (gather page pos (stop - pos)).map fun b => b.atop buffer := by
  induction n generalizing first got c with
  | zero =>
    have hcount : stop ≤ Page.count stop * pageSize := Page.le_count_mul stop
    rw [← hn, Nat.add_zero] at hcount
    have hall : max pos (min (first * pageSize) stop) - pos = stop - pos := by omega
    rw [hall] at hgot
    rw [hgot]
    rfl
  | succ n ih =>
    have hlast : first * pageSize < stop := Page.lt_count_iff.1 (by omega)
    have hnext : (first + 1) * pageSize = first * pageSize + pageSize := Nat.succ_mul _ _
    have hbehind : pos < (first + 1) * pageSize := by
      rw [pageSize_eq] at hfirst ⊢
      omega
    have hsize := size_gather hgot
    rw [Nat.min_eq_left (Nat.le_of_lt hlast)] at hgot hsize
    have hrun := h.run_eq hc first
    rw [List.range'_succ, List.foldlM_cons, copyPage_eq, LawfulMonad.bind_assoc]
    cases hpage : page first with
    | error failure =>
      rw [hpage] at hrun
      rw [Query.run_bind_of_error hrun, gather_next_failed hgot hbehind hlast hpos hpage]
      rfl
    | ok p =>
      rw [hpage] at hrun
      have hwhole := h.size_eq hpage
      have hmore := gather_next hgot hbehind hlast hpos hpage hwhole
      have hreached : max pos (min ((first + 1) * pageSize) stop) - pos =
          min ((first + 1) * pageSize) stop - pos := by omega
      rw [← hreached] at hmore
      rw [Query.run_bind_of_ok hrun,
        pastePage_atop hwhole hstop hbuffer hpos hfirst hlast hsize]
      exact ih (first + 1) (by omega) (by omega) hmore (h.inv_run _ hc)

lemma run_readAt (h : Paged s inv fs inode page) (hpages : inode.hasPages = true) (pos : Nat)
    (hbuffer : buffer.size < 2 ^ 63) (hc : inv c) :
    ((readAt fs inode pos buffer).run s c).1 =
      (gather page pos (min buffer.size (inode.size - pos))).map fun b =>
        (min buffer.size (inode.size - pos), b.atop buffer) := by
  have hinode := inode.size_lt
  unfold readAt
  rw [Query.ensure_bind_of hpages]
  by_cases hnone : inode.size ≤ pos ∨ buffer.size = 0
  · have hlen : min buffer.size (inode.size - pos) = 0 := by omega
    rw [if_pos hnone, hlen, gather_zero]
    change Except.ok (0, buffer) = Except.ok (0, (Bytes.zeros 0).atop buffer)
    rw [Bytes.zeros_zero_atop]
  · have hsum : Word.add 64 pos buffer.size = .ok (pos + buffer.size) :=
      Word.add_eq_ok (by omega)
    rw [if_neg hnone, hsum, liftM_ok, pure_bind]
    dsimp only
    have hlen : min buffer.size (inode.size - pos) =
        min inode.size (pos + buffer.size) - pos := by omega
    rw [hlen]
    generalize hstop : min inode.size (pos + buffer.size) = stop
    have hpos : pos < stop := by omega
    have hfirst : pos / pageSize * pageSize ≤ pos := Nat.div_mul_le_self _ _
    have hcount : pos / pageSize + (Page.count stop - pos / pageSize) = Page.count stop := by
      have hlt : pos / pageSize < Page.count stop := Page.lt_count_iff.2 (by omega)
      omega
    have hstart : gather page pos (max pos (min (pos / pageSize * pageSize) stop) - pos) =
        .ok (Bytes.zeros 0) := by
      have hzero : max pos (min (pos / pageSize * pageSize) stop) - pos = 0 := by omega
      rw [hzero, gather_zero]
    have hroom : stop ≤ pos + buffer.size := by omega
    have hcopy := h.run_copyPages (by omega) hroom hpos _ _ (Nat.le_refl _) hcount hstart hc
    rw [Bytes.zeros_zero_atop] at hcopy
    cases hgather : gather page pos (stop - pos) with
    | error failure =>
      rw [hgather] at hcopy
      exact Query.run_bind_of_error hcopy _
    | ok b =>
      have hsub : Word.sub stop pos = .ok (stop - pos) := Word.sub_eq_ok (Nat.le_of_lt hpos)
      rw [hgather] at hcopy
      unfold touched
      rw [Query.run_bind_of_ok hcopy, hsub]
      rfl

/-- The target of a link is what its pages hold. -/
lemma run_readLink (h : Paged s inv fs inode page) (hlink : inode.isSymlink = true) (hc : inv c) :
    ((readLink fs inode).run s c).1 = gather page 0 inode.size := by
  have hinode := inode.size_lt
  have hpages : inode.hasPages = true := by
    unfold Inode.hasPages
    rw [hlink, Bool.or_true]
  have hbuffer : (Bytes.zeros inode.size).size < 2 ^ 63 := by
    rw [Bytes.size_zeros]
    omega
  have hread := h.run_readAt hpages 0 hbuffer hc
  rw [Bytes.size_zeros, Nat.sub_zero, Nat.min_self] at hread
  unfold readLink
  rw [Query.ensure_bind_of hlink]
  cases hgather : gather page 0 inode.size with
  | error failure =>
    rw [hgather] at hread
    exact Query.run_bind_of_error hread _
  | ok b =>
    have hsize := size_gather hgather
    rw [hgather] at hread
    have hexact : b.atop (Bytes.zeros inode.size) = b :=
      Bytes.atop_of_size (by rw [Bytes.size_zeros, hsize])
    rw [Query.run_bind_of_ok hread]
    dsimp only
    rw [hexact, ← hsize]
    exact congrArg Except.ok ByteArray.extract_zero_size

lemma run_contentFrom (h : Paged s inv fs inode page) (n first : Nat)
    (hn : first + n = inode.pageCount) {before : Bytes}
    (hbefore : gather page 0 (min (first * pageSize) inode.size) = .ok before) {c : Cache}
    (hc : inv c) :
    ∃ written failure?, ((contentFrom fs inode n first before).run s c).1 =
        .ok (written, failure?) ∧
      gather page 0 inode.size = ending written failure? ∧
      gather page 0 written.size = .ok written := by
  induction n generalizing first before c with
  | zero =>
    have hcount : inode.size ≤ inode.pageCount * pageSize := Page.le_count_mul _
    rw [← hn, Nat.add_zero] at hcount
    rw [Nat.min_eq_right hcount] at hbefore
    exact ⟨before, none, rfl, hbefore, gather_size hbefore⟩
  | succ n ih =>
    have hlast : first * pageSize < inode.size := Page.lt_count_iff.1 (by
      unfold Inode.pageCount at hn
      omega)
    have hnext : (first + 1) * pageSize = first * pageSize + pageSize := Nat.succ_mul _ _
    have hsome : 0 < pageSize := Nat.two_pow_pos pageShift
    have hrun := h.run_eq hc first
    have hgot : gather page 0 (max 0 (first * pageSize) - 0) = .ok before := by
      have hreached : max 0 (first * pageSize) - 0 = min (first * pageSize) inode.size := by omega
      rw [hreached]
      exact hbefore
    rw [contentFrom]
    cases hpage : page first with
    | error failure =>
      obtain ⟨cause, rfl⟩ := h.refused hpage
      rw [hpage] at hrun
      rw [Query.run_bind_of_ok (Query.run_attempt_of_refused hrun)]
      have hall := gather_next_failed hgot (by omega) hlast (by omega) hpage
      exact ⟨before, some cause, rfl, hall, gather_size hbefore⟩
    | ok p =>
      have hinode := inode.size_lt
      have hwhole := h.size_eq hpage
      have hmore := gather_next hgot (by omega) hlast (by omega) hpage hwhole
      have hcut : max 0 (first * pageSize) - first * pageSize = 0 := by omega
      have hlen : min ((first + 1) * pageSize) inode.size - first * pageSize =
          min (inode.size - first * pageSize) p.size := by omega
      rw [Nat.sub_zero, hcut, hlen] at hmore
      have hstart : Page.start first = .ok (first * pageSize) := Page.start_eq_ok (by omega)
      have hleft : Word.sub inode.size (first * pageSize) = .ok (inode.size - first * pageSize) :=
        Word.sub_eq_ok (Nat.le_of_lt hlast)
      have hpart : p.slice 0 (min (inode.size - first * pageSize) p.size) =
          .ok (p.extract 0 (min (inode.size - first * pageSize) p.size)) := by
        rw [Bytes.slice_eq_ok (by omega), Nat.zero_add]
      rw [hpage] at hrun
      rw [Query.run_bind_of_ok (Query.run_attempt_of_ok hrun), hstart]
      dsimp only
      rw [liftM_ok, pure_bind, hleft, liftM_ok, pure_bind, hpart, liftM_ok, pure_bind]
      exact ih (first + 1) (by omega) hmore (h.inv_run _ hc)

lemma run_content (h : Paged s inv fs inode page) (hc : inv c) :
    ∃ written failure?, ((content fs inode).run s c).1 = .ok (written, failure?) ∧
      gather page 0 inode.size = ending written failure? ∧
      gather page 0 written.size = .ok written := by
  have hempty : gather page 0 (min (0 * pageSize) inode.size) = .ok (Bytes.zeros 0) := by
    rw [Nat.zero_mul, Nat.zero_min, gather_zero]
  exact h.run_contentFrom inode.pageCount 0 (Nat.zero_add _) hempty hc

end Paged

variable {s : Store} {ts : Timestamp} {c₀ : Cache} {fs : Filesystem} {inode : Inode}

lemma exists_paged (hs : s.Reliable) (hfs : ((Filesystem.mount s ts).run s c₀).1 = .ok fs)
    (inode : Inode) (before : List (Nat × Nat)) :
    ∃ inv, Paged s inv fs inode
        (fun i => ((readPage fs inode i).run s (s.readAll before .empty).2).1) ∧
      ∀ reads, inv (s.readAll reads .empty).2 := by
  obtain ⟨hmode, hsize⟩ := Filesystem.mount_eq_ok hfs
  obtain ⟨inv, hsteady, hempty⟩ := hs.steady
  have hinv (reads : List (Nat × Nat)) : inv (s.readAll reads .empty).2 :=
    hsteady.readAll reads hempty
  have hcases (i : Nat) := ((meets_readPage inode i).fits hsize).run_cases hmode
    (s.readAll before .empty).2
  refine ⟨inv, ⟨?_, ?_, ?_, fun q c hc => hsteady.inv_run q hc⟩, hinv⟩
  · intro c hc i
    exact ((meets_readPage inode i).fits hsize).run_eq hsteady hc (hinv before)
  · intro i p hp
    exact (hcases i).1 p hp
  · intro i failure hfailure
    rcases (hcases i).2 failure hfailure with (hcorrupt | ⟨-, rfl⟩) | hrefused
    · exact hcorrupt.refused
    · exact ⟨_, rfl⟩
    · exact hrefused

/-- Out of a store that cannot fail, all readers of a file give what its pages hold. A range gives
as many bytes as the buffer takes and the file has left, and leaves the rest of the buffer as it
was; the target of a link is the range that covers it; and the command prints the bytes up to the
first page that fails, or all of them. Each fails just as the first page fails that has bytes
wanted. What was read before makes no difference. -/
theorem readers_agree (hs : s.Reliable) (hfs : ((Filesystem.mount s ts).run s c₀).1 = .ok fs)
    (hpages : inode.hasPages = true) (before before' : List (Nat × Nat)) :
    let page := fun i => ((readPage fs inode i).run s (s.readAll before .empty).2).1
    let c := (s.readAll before' .empty).2
    (∀ i p, page i = .ok p → p.size = pageSize) ∧
      (∀ (pos : Nat) (buffer : Bytes), buffer.size < 2 ^ 63 →
        ((readAt fs inode pos buffer).run s c).1 =
          (gather page pos (min buffer.size (inode.size - pos))).map fun b =>
            (min buffer.size (inode.size - pos), b.atop buffer)) ∧
      (inode.isSymlink = true → ∀ buffer : Bytes, buffer.size = inode.size →
        ((readLink fs inode).run s c).1 = ((readAt fs inode 0 buffer).run s c).1.map Prod.snd) ∧
      ∀ path : String, ((Path.resolve fs path.toUTF8).run s c).1 = .ok (some inode) →
        ∃ written failure?,
          ((Command.file fs path).run s c).1 = .ok (some (written, failure?)) ∧
          gather page 0 inode.size = ending written failure? ∧
          gather page 0 written.size = .ok written := by
  obtain ⟨inv, hpaged, hinv⟩ := exists_paged hs hfs inode before
  intro page c
  have hc : inv c := hinv before'
  refine ⟨fun i p hp => hpaged.size_eq hp, ?_, ?_, ?_⟩
  · intro pos buffer hbuffer
    exact hpaged.run_readAt hpages pos hbuffer hc
  · intro hlink buffer hbuffer
    have hinode := inode.size_lt
    rw [hpaged.run_readLink hlink hc, hpaged.run_readAt hpages 0 (by omega) hc, hbuffer,
      Nat.sub_zero, Nat.min_self]
    cases hgather : gather page 0 inode.size with
    | error failure => rfl
    | ok b =>
      have hexact : b.atop buffer = b := Bytes.atop_of_size (hbuffer.trans (size_gather hgather).symm)
      exact congrArg Except.ok hexact.symm
  · intro path hpath
    obtain ⟨written, failure?, hrun, hall, hwritten⟩ :=
      hpaged.run_content (hpaged.inv_run (Path.resolve fs path.toUTF8) hc)
    refine ⟨written, failure?, ?_, hall, hwritten⟩
    unfold Command.file
    rw [Query.run_bind_of_ok hpath]
    dsimp only
    rw [Query.run_bind_of_ok hrun]
    rfl

/-- The first page of the file `a` is read and the second one fails, so a range within the first
comes and one that goes on into the second does not. -/
theorem readers_agree_backward :
    ∃ fs inode p, (Store.mapped backwardMapping).Reliable ∧
      ((Filesystem.mount (.mapped backwardMapping) .epoch).run
        (.mapped backwardMapping) .empty).1 = .ok fs ∧
      ((Directory.lookup fs fs.root (Bytes.ofList [0x61])).run
        (.mapped backwardMapping) .empty).1 = .ok (some inode) ∧
      inode.hasPages = true ∧ (Bytes.zeros 5).size < 2 ^ 63 ∧
      ((readPage fs inode 0).run (.mapped backwardMapping) .empty).1 = .ok p ∧
      ((readAt fs inode 2 (Bytes.zeros 5)).run (.mapped backwardMapping) .empty).1 =
        .ok (5, p.extract 2 7) ∧
      ((readAt fs inode 4092 (Bytes.zeros 5)).run (.mapped backwardMapping) .empty).1 =
        .error (.refused (.badBlockPointers 1 115 114)) := by
  obtain ⟨fs, inode, p, hfs, hinode, hfirst, hsecond, -, hpages, -, hcount, -⟩ := exists_backward
  have hsize : 4096 < inode.size := Page.lt_count_iff.1 hcount
  have hbuffer : (Bytes.zeros 5).size < 2 ^ 63 := by decide
  obtain ⟨hwhole, hread, -⟩ :=
    readers_agree (s := .mapped backwardMapping) trivial hfs hpages [] [(0, 76)]
  have hp : p.size = pageSize := hwhole 0 p hfirst
  generalize hpage : (fun i => ((readPage fs inode i).run (.mapped backwardMapping)
    ((Store.mapped backwardMapping).readAll [] .empty).2).1) = page at hread
  have hzero : page 0 = .ok p := hpage ▸ hfirst
  have hone : page 1 = .error (.refused (.badBlockPointers 1 115 114)) := hpage ▸ hsecond
  have hlow := hread 2 (Bytes.zeros 5) hbuffer
  have hhigh := hread 4092 (Bytes.zeros 5) hbuffer
  rw [Bytes.size_zeros, Nat.min_eq_left (by omega)] at hlow hhigh
  refine ⟨fs, inode, p, trivial, hfs, hinode, hpages, hbuffer, hfirst, ?_, ?_⟩
  · have hpart : gather page 2 (7 - 2) = .ok (p.extract 2 7) :=
      gather_first hzero hp (by decide) (by decide)
    have hexact : Bytes.atop (p.extract 2 7) (Bytes.zeros 5) = p.extract 2 7 := by
      apply Bytes.atop_of_size
      rw [size_gather hpart, Bytes.size_zeros]
    rw [hpart] at hlow
    exact hlow.trans (congrArg (fun b => Except.ok (5, b)) hexact)
  · have hgot : gather page 4092 (max 4092 (1 * pageSize) - 4092) = .ok (p.extract 4092 4096) :=
      gather_first hzero hp (by decide) (by decide)
    have hfailed : gather page 4092 (4097 - 4092) = _ :=
      gather_next_failed hgot (by decide) (by decide) (by decide) hone
    rw [hfailed] at hhigh
    exact hhigh

end File

end CompressedRom
