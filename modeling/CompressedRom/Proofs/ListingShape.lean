import CompressedRom.Proofs.OperationContracts

/-!
# The shape of listings

There is no count of entries, and every length in a directory is read from the image. Still each
listing ends, whatever the bytes: an entry that is accepted takes at least 16 of them, so
`Directory.Chained` items are few, and each starts where the one before ends. Main statement:
`Directory.listAll_sound`, for stores that may fail at any read.
-/

namespace CompressedRom.Directory

/-- The items of a listing in their order. A cause that ends it is the last of them. -/
def Listing.items (l : Listing) : List (Except Error Entry) :=
  l.entries.map .ok ++ l.failure?.toList.map .error

/-- Items that follow `pos` bytes into a directory, each behind the one before it. The entries lie
where they say, and nothing follows an error. -/
inductive Chained (fs : Filesystem) (dir : Inode) : Nat → List (Except Error Entry) → Prop
  | ended {pos : Nat} (hpos : extent dir ≤ pos) : Chained fs dir pos []
  | failed {pos : Nat} (hpos : pos < extent dir) (cause : Error) :
    Chained fs dir pos [.error cause]
  | entry {pos : Nat} {e : Entry} {items : List (Except Error Entry)} (hpos : pos < extent dir)
    (hentry : e.Lies fs dir pos) (hrest : Chained fs dir e.next items) :
    Chained fs dir pos (.ok e :: items)

/-- A listing from `cursor` on is well formed: it has no more items than the directory has room for,
they start at the cursor and then each where the one before ends, the entries are aligned, start
within the directory and lie within the declared size, and an error is the last item. -/
structure Listing.Sound (l : Listing) (fs : Filesystem) (dir : Inode) (cursor : Nat) : Prop where
  length_le : l.items.length ≤ (dir.size - cursor + 15) / 16
  first : ∀ e, l.items[0]? = some (.ok e) → e.offset = cursor
  next : ∀ (k : Nat) (a b : Entry), l.items[k]? = some (.ok a) →
    l.items[k + 1]? = some (.ok b) → b.offset = a.next
  entry : ∀ e, .ok e ∈ l.items → e.offset % 4 = 0 ∧ e.offset < dir.size ∧ e.Lies fs dir e.offset
  last : ∀ (k : Nat) (cause : Error), l.items[k]? = some (.error cause) → l.items.length = k + 1

lemma extent_le (dir : Inode) : extent dir ≤ dir.size := by
  unfold extent
  split
  · exact Nat.zero_le _
  · exact Nat.le_refl _

namespace Chained

variable {fs : Filesystem} {dir : Inode} {pos : Nat} {items : List (Except Error Entry)}

lemma length_le (h : Chained fs dir pos items) : items.length ≤ (extent dir - pos + 15) / 16 := by
  induction h with
  | ended => exact Nat.zero_le _
  | failed hpos =>
    rw [List.length_singleton]
    omega
  | entry hpos hentry hrest ih =>
    have hnext := hentry.le_next
    rw [List.length_cons]
    omega

lemma offset_first (h : Chained fs dir pos items) {e : Entry} (he : items[0]? = some (.ok e)) :
    e.offset = pos := by
  cases h with
  | ended => simp at he
  | failed => simp at he
  | entry hpos hentry hrest =>
    obtain rfl := Except.ok.inj (Option.some.inj he)
    exact hentry.offset_eq

lemma offset_next (h : Chained fs dir pos items) {k : Nat} {a b : Entry}
    (ha : items[k]? = some (.ok a)) (hb : items[k + 1]? = some (.ok b)) : b.offset = a.next := by
  induction h generalizing k with
  | ended => simp at ha
  | failed => simp at hb
  | entry hpos hentry hrest ih =>
    cases k with
    | zero =>
      obtain rfl := Except.ok.inj (Option.some.inj ha)
      exact hrest.offset_first hb
    | succ k => exact ih ha hb

lemma lies (h : Chained fs dir pos items) {e : Entry} (he : .ok e ∈ items) :
    e.offset % 4 = pos % 4 ∧ e.offset < extent dir ∧ e.Lies fs dir e.offset := by
  induction h with
  | ended => simp at he
  | failed => simp at he
  | @entry pos first items hpos hentry hrest ih =>
    rcases List.mem_cons.1 he with heq | he
    · obtain rfl := Except.ok.inj heq
      rw [hentry.offset_eq]
      exact ⟨rfl, hpos, hentry⟩
    · obtain ⟨hmod, hrest⟩ := ih he
      exact ⟨hmod.trans hentry.next_mod, hrest⟩

lemma length_of_error (h : Chained fs dir pos items) {k : Nat} {cause : Error}
    (hk : items[k]? = some (.error cause)) : items.length = k + 1 := by
  induction h generalizing k with
  | ended => simp at hk
  | failed hpos cause =>
    obtain ⟨hlt, -⟩ := List.getElem?_eq_some_iff.1 hk
    rw [List.length_singleton] at hlt ⊢
    omega
  | entry hpos hentry hrest ih =>
    cases k with
    | zero => simp at hk
    | succ k => rw [List.length_cons, ih hk]

end Chained

lemma Listing.Sound.of_chained {fs : Filesystem} {dir : Inode} {cursor : Nat} {l : Listing}
    (hcursor : cursor % 4 = 0) (h : Chained fs dir cursor l.items) : l.Sound fs dir cursor := by
  have hextent := extent_le dir
  constructor
  · have hlength := h.length_le
    omega
  · intro e he
    exact h.offset_first he
  · intro k a b ha hb
    exact h.offset_next ha hb
  · intro e he
    obtain ⟨hmod, hlt, hlies⟩ := h.lies he
    exact ⟨hmod.trans hcursor, Nat.lt_of_lt_of_le hlt hextent, hlies⟩
  · intro k cause hk
    exact h.length_of_error hk

lemma listFrom_ended {fs : Filesystem} {dir : Inode} {pos : Nat} (h : extent dir ≤ pos)
    (limit : Nat) (found : List Entry) :
    listFrom fs dir limit pos found = pure ⟨found.reverse, none⟩ := by
  cases limit with
  | zero => rfl
  | succ limit =>
    rw [listFrom, if_neg (Nat.not_lt_of_le h)]

section Runs

variable {s : Store} {fs : Filesystem} (hs : s.mode ≠ .char)
  (hfs : fs.superblock.size < 2 ^ 32)
include hs hfs

/-- Where `n` items fill what is left of a directory, more than `n` do not come, and the limit of
the listing does not show. -/
lemma run_listFrom_chained (dir : Inode) (n : Nat) {pos : Nat} (h : extent dir ≤ pos + 16 * n)
    (found : List Entry) (c : Cache) :
    ∃ l items, Chained fs dir pos items ∧ l.items = found.reverse.map .ok ++ items ∧
      ∀ limit, n ≤ limit → ((listFrom fs dir limit pos found).run s c).1 = .ok l := by
  induction n generalizing c pos found with
  | zero =>
    have hend : extent dir ≤ pos := h
    refine ⟨⟨found.reverse, none⟩, [], .ended hend, rfl, ?_⟩
    intro limit _
    rw [listFrom_ended hend]
    rfl
  | succ n ih =>
    by_cases hpos : pos < extent dir
    · have hentry := run_entryAt_lies hs hfs dir pos c
      rcases hrun : (entryAt fs dir pos).run s c with ⟨failure | e, c'⟩
      · rw [hrun] at hentry
        obtain ⟨cause, rfl⟩ := hentry
        refine ⟨⟨found.reverse, some cause⟩, [.error cause], .failed hpos cause, rfl, ?_⟩
        intro limit hlimit
        obtain ⟨limit, rfl⟩ := Nat.exists_eq_add_of_le' hlimit
        rw [← Nat.add_assoc, listFrom, if_pos hpos, Query.run_bind, Query.run_attempt, hrun]
        rfl
      · rw [hrun] at hentry
        have hle : extent dir ≤ e.next + 16 * n := by
          have hnext := hentry.le_next
          omega
        obtain ⟨l, items, hrest, hitems, hlimits⟩ := ih hle (e :: found) c'
        refine ⟨l, .ok e :: items, .entry hpos hentry hrest, by simp [hitems], ?_⟩
        intro limit hlimit
        obtain ⟨limit, rfl⟩ := Nat.exists_eq_add_of_le' hlimit
        rw [← Nat.add_assoc, listFrom, if_pos hpos, Query.run_bind, Query.run_attempt, hrun]
        exact hlimits (limit + n) (Nat.le_add_left _ _)
    · have hend := Nat.le_of_not_lt hpos
      refine ⟨⟨found.reverse, none⟩, [], .ended hend, rfl, ?_⟩
      intro limit _
      rw [listFrom_ended hend]
      rfl

lemma run_list_chained {dir : Inode} (hdir : dir.isDirectory = true) {cursor : Nat}
    (hcursor : cursor % 4 = 0) (c : Cache) :
    ∃ l : Listing, Chained fs dir cursor l.items ∧
      ∀ limit, (dir.size - cursor + 15) / 16 ≤ limit →
        ((list fs dir cursor limit).run s c).1 = .ok l := by
  have hextent := extent_le dir
  by_cases hend : dir.size ≤ cursor
  · refine ⟨⟨[], none⟩, .ended (Nat.le_trans hextent hend), ?_⟩
    intro limit _
    unfold list
    rw [Query.ensure_bind_of hdir, if_pos hend]
    rfl
  · have hroom : extent dir ≤ cursor + 16 * ((dir.size - cursor + 15) / 16) := by omega
    obtain ⟨l, items, hchained, hitems, hlimits⟩ := run_listFrom_chained hs hfs dir _ hroom [] c
    obtain rfl : l.items = items := hitems
    refine ⟨l, hchained, ?_⟩
    intro limit hlimit
    unfold list
    rw [Query.ensure_bind_of hdir, if_neg hend, Query.ensure_bind_of hcursor]
    exact hlimits limit hlimit

end Runs

/-- Whatever the bytes of a mounted image, and whether its store fails or not, a listing from an
aligned cursor on comes to its end after no more items than the directory has room for, a sixteenth
of its bytes, and is well formed. To allow for more items does not change it. -/
theorem listAll_sound {s : Store} {ts : Timestamp} {c₀ : Cache} {fs : Filesystem}
    (hfs : ((Filesystem.mount s ts).run s c₀).1 = .ok fs) {dir : Inode}
    (hdir : dir.isDirectory = true) {cursor : Nat} (hcursor : cursor % 4 = 0)
    (before : List (Nat × Nat)) :
    ∃ listing : Listing,
      ((listAll fs dir cursor).run s (s.readAll before .empty).2).1 = .ok listing ∧
      (∀ limit, (dir.size - cursor + 15) / 16 ≤ limit →
        ((list fs dir cursor limit).run s (s.readAll before .empty).2).1 = .ok listing) ∧
      listing.Sound fs dir cursor := by
  obtain ⟨hs, hsize⟩ := Filesystem.mount_eq_ok hfs
  obtain ⟨l, hchained, hlimits⟩ :=
    run_list_chained hs hsize hdir hcursor (s.readAll before .empty).2
  have hroom : (dir.size - cursor + 15) / 16 ≤ dir.size := by omega
  exact ⟨l, hlimits dir.size hroom, hlimits, .of_chained hcursor hchained⟩

/-- An image in memory whose root holds two empty files, `a` and `b`, and has more bytes than the
image declares. -/
def tornStore : Store :=
  .mapped ⟨Bytes.ofList ([0x45, 0x3d, 0xcd, 0x28, 112, 0, 0, 0, 1] ++ List.replicate 55 0 ++
    [0xed, 0x41, 0, 0, 44, 0, 0, 0, 0xc0, 0x04, 0, 0] ++
    [0xa4, 0x81, 0, 0, 0, 0, 0, 0, 1, 0, 0, 0, 0x61, 0, 0, 0] ++
    [0xa4, 0x81, 0, 0, 0, 0, 0, 0, 1, 0, 0, 0, 0x62, 0, 0, 0] ++ List.replicate 4 0), none, false⟩

theorem listAll_sound_torn :
    ∃ (fs : Filesystem) (listing : Listing),
      ((Filesystem.mount tornStore .epoch).run tornStore .empty).1 = .ok fs ∧
      fs.root.isDirectory = true ∧ 0 % 4 = 0 ∧
      ((listAll fs fs.root 0).run tornStore (tornStore.readAll [(0, 76)] .empty).2).1 =
        .ok listing ∧
      listing.Sound fs fs.root 0 ∧ (fs.root.size - 0 + 15) / 16 = 3 ∧ listing.items.length = 3 := by
  have hmount : (match ((Filesystem.mount tornStore .epoch).run tornStore .empty).1 with
      | .error _ => false
      | .ok fs =>
        match ((listAll fs fs.root 0).run tornStore (tornStore.readAll [(0, 76)] .empty).2).1 with
        | .error _ => false
        | .ok listing => decide (fs.root.isDirectory = true ∧ fs.root.size = 44 ∧
            listing.items.length = 3)) = true := by
    decide +kernel
  split at hmount
  · simp at hmount
  · rename_i fs hfs
    split at hmount
    · simp at hmount
    · rename_i found hfound
      obtain ⟨hdir, hsize, hlength⟩ := of_decide_eq_true hmount
      obtain ⟨listing, hlisting, -, hsound⟩ :=
        listAll_sound (s := tornStore) hfs hdir (Nat.zero_mod 4) [(0, 76)]
      obtain rfl : found = listing := Except.ok.inj (hfound.symm.trans hlisting)
      exact ⟨fs, found, hfs, hdir, rfl, hfound, hsound, by rw [hsize], hlength⟩

end CompressedRom.Directory
