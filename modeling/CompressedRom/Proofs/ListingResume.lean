import CompressedRom.Proofs.ListingShape
import CompressedRom.Proofs.SortedLookup
import Mathlib.Algebra.GroupWithZero.Nat

/-!
# Listings taken up again

A listing can be taken up behind any of its entries. `Directory.Walk` says which items follow a
place in a directory, and out of a store that cannot fail every listing from that place on shows
the first of them, as many as it may. So a listing that starts behind an entry shows what is left
of the whole, and pages of any size give the whole one after the other:
`Directory.listAll_resumed`. Sizes are added up by `List.sum`, whose empty sum is the zero that
`Mathlib.Algebra.GroupWithZero.Nat` gives the numbers.
-/

namespace CompressedRom

variable {s : Store} {inv : Cache → Prop}

lemma Store.Steady.inv_run {α : Type} (h : s.Steady inv) (q : Query α) {c : Cache} (hc : inv c) :
    inv (q.run s c).2 := by
  induction q generalizing c with
  | done a => exact hc
  | stop failure => exact hc
  | ask offset len next ih =>
    have hafter : inv (s.read offset len c).2 := h.inv_read hc
    rw [Query.run]
    rcases hread : s.read offset len c with ⟨⟨cause | step⟩ | span, c'⟩
    · rw [hread] at hafter
      exact ih _ hafter
    · rw [hread] at hafter
      exact hafter
    · rw [hread] at hafter
      exact ih _ hafter

namespace Directory

lemma Listing.filterMap_items (l : Listing) : l.items.filterMap Except.toOption = l.entries := by
  rcases l with ⟨entries, _ | cause⟩ <;>
    simp [items, List.filterMap_map, Function.comp_def, Except.toOption]

lemma Listing.eq_of_items {l l' : Listing} (h : l.items = l'.items) : l = l' := by
  have hentries : l.entries = l'.entries := by
    rw [← l.filterMap_items, h, l'.filterMap_items]
  have hfailure : l.failure? = l'.failure? := by
    unfold items at h
    rw [hentries, List.append_cancel_left_eq] at h
    have hcauses := List.map_injective_iff.2 (fun _ _ => Except.error.inj) h
    cases hl : l.failure? <;> cases hl' : l'.failure? <;> simp_all
  exact Listing.mk.injEq .. ▸ ⟨hentries, hfailure⟩

/-- The items that follow `pos` bytes into a directory of the store `s`: one for each entry, up to
the end of the directory or the first entry that is refused. -/
inductive Walk (s : Store) (fs : Filesystem) (dir : Inode) : Nat → List (Except Error Entry) → Prop
  | ended {pos : Nat} (hpos : extent dir ≤ pos) : Walk s fs dir pos []
  | refused {pos : Nat} {cause : Error} (hpos : pos < extent dir)
    (hentry : ((entryAt fs dir pos).run s .empty).1 = .error (.refused cause)) :
    Walk s fs dir pos [.error cause]
  | entry {pos : Nat} {e : Entry} {items : List (Except Error Entry)} (hpos : pos < extent dir)
    (hentry : ((entryAt fs dir pos).run s .empty).1 = .ok e) (hrest : Walk s fs dir e.next items) :
    Walk s fs dir pos (.ok e :: items)

/-- The items of a directory from `cursor` on, in pages of at most so many items as `sizes` says.
Each page starts behind the last entry of the one before, and one that is empty or ends with an
error is the last. -/
def listPages (fs : Filesystem) (dir : Inode) :
    (sizes : List Nat) → (cursor : Nat) → Query (List (List (Except Error Entry)))
  | [], _ => return []
  | size :: sizes, cursor => do
    let page ← list fs dir cursor size
    match page.items.getLast? with
    | some (.ok e) => return page.items :: (← listPages fs dir sizes e.next)
    | some (.error _) | none => return [page.items]

variable {fs : Filesystem} {dir : Inode} {pos : Nat} {items : List (Except Error Entry)}

lemma lies_of_run (hs : s.mode ≠ .char) (hfs : fs.superblock.size < 2 ^ 32) {e : Entry}
    (hentry : ((entryAt fs dir pos).run s .empty).1 = .ok e) : e.Lies fs dir pos := by
  have hrun := run_entryAt_lies hs hfs dir pos .empty
  rwa [hentry] at hrun

lemma exists_walk (hs : s.mode ≠ .char) (hfs : fs.superblock.size < 2 ^ 32) (dir : Inode)
    (pos : Nat) : ∃ items, Walk s fs dir pos items := by
  -- Each entry ends behind where it starts, so less of the directory is left after it.
  induction hrest : extent dir - pos using Nat.strongRecOn generalizing pos with
  | ind rest ih =>
    by_cases hpos : pos < extent dir
    · have hentry := run_entryAt hs hfs dir pos .empty
      rcases hrun : ((entryAt fs dir pos).run s .empty).1 with failure | e
      · rw [hrun] at hentry
        obtain ⟨cause, rfl⟩ := hentry
        exact ⟨_, .refused hpos hrun⟩
      · rw [hrun] at hentry
        have hnext : pos < e.next := hentry.1
        obtain ⟨items, hwalk⟩ := ih (extent dir - e.next) (by omega) e.next rfl
        exact ⟨_, .entry hpos hrun hwalk⟩
    · exact ⟨_, .ended (Nat.le_of_not_lt hpos)⟩

lemma Walk.chained (hs : s.mode ≠ .char) (hfs : fs.superblock.size < 2 ^ 32)
    (h : Walk s fs dir pos items) : Chained fs dir pos items := by
  induction h with
  | ended hpos => exact .ended hpos
  | @refused _ cause hpos hentry => exact .failed hpos cause
  | entry hpos hentry hrest ih => exact .entry hpos (lies_of_run hs hfs hentry) ih

/-- Behind an entry follow just the items that follow it in the walk. -/
lemma Walk.drop (hs : s.mode ≠ .char) (hfs : fs.superblock.size < 2 ^ 32)
    (h : Walk s fs dir pos items) {k : Nat} {e : Entry} (hk : items[k]? = some (.ok e)) :
    Walk s fs dir e.next (items.drop (k + 1)) ∧ e.next % 4 = pos % 4 := by
  induction h generalizing k with
  | ended => simp at hk
  | refused hpos hentry =>
    rw [List.getElem?_singleton] at hk
    split at hk <;> simp at hk
  | entry hpos hentry hrest ih =>
    have hmod := (lies_of_run hs hfs hentry).next_mod
    cases k with
    | zero =>
      obtain rfl := Except.ok.inj (Option.some.inj hk)
      exact ⟨hrest, hmod⟩
    | succ k =>
      obtain ⟨hwalk, hnext⟩ := ih hk
      exact ⟨hwalk, hnext.trans hmod⟩

lemma exists_getElem_of_getLast {α : Type} {l : List α} {n : Nat} {a : α}
    (h : (l.take n).getLast? = some a) : ∃ k, l[k]? = some a ∧ k + 1 = min n l.length := by
  rw [List.getLast?_eq_getElem?, List.length_take] at h
  obtain ⟨hk, -⟩ := List.getElem?_eq_some_iff.1 h
  rw [List.length_take] at hk
  rw [List.getElem?_take_of_lt (by omega)] at h
  exact ⟨_, h, by omega⟩

section Runs

variable (hsteady : s.Steady inv) (hempty : inv .empty) (hfs : fs.superblock.size < 2 ^ 32)
include hsteady hempty hfs

lemma run_entryAt_eq {c : Cache} (hc : inv c) (dir : Inode) (pos : Nat) :
    ((entryAt fs dir pos).run s c).1 = ((entryAt fs dir pos).run s .empty).1 :=
  ((meets_entryAt hfs dir pos).fits hfs).run_eq hsteady hc hempty

lemma Walk.run_listFrom (h : Walk s fs dir pos items) (limit : Nat) (found : List Entry)
    {c : Cache} (hc : inv c) :
    ∃ l, ((listFrom fs dir limit pos found).run s c).1 = .ok l ∧
      l.items = found.reverse.map .ok ++ items.take limit := by
  have hnone (found : List Entry) :
      (⟨found.reverse, none⟩ : Listing).items = found.reverse.map .ok := List.append_nil _
  induction h generalizing limit found c with
  | ended hpos =>
    refine ⟨⟨found.reverse, none⟩, ?_, by simp [hnone]⟩
    rw [listFrom_ended hpos]
    rfl
  | @refused pos cause hpos hentry =>
    cases limit with
    | zero => exact ⟨_, rfl, by simp [hnone]⟩
    | succ limit =>
      have hrun := (run_entryAt_eq hsteady hempty hfs hc dir pos).trans hentry
      refine ⟨⟨found.reverse, some cause⟩, ?_, by simp [Listing.items]⟩
      rw [listFrom, if_pos hpos, Query.run_bind_of_ok (Query.run_attempt_of_refused hrun)]
      rfl
  | @entry pos e items hpos hentry hrest ih =>
    cases limit with
    | zero => exact ⟨_, rfl, by simp [hnone]⟩
    | succ limit =>
      have hrun := (run_entryAt_eq hsteady hempty hfs hc dir pos).trans hentry
      obtain ⟨l, hl, hitems⟩ := ih limit (e :: found) (hsteady.inv_run (entryAt fs dir pos).attempt hc)
      refine ⟨l, ?_, by simp [hitems]⟩
      rw [listFrom, if_pos hpos, Query.run_bind_of_ok (Query.run_attempt_of_ok hrun)]
      exact hl

lemma Walk.run_list (hdir : dir.isDirectory = true) {cursor : Nat} (hcursor : cursor % 4 = 0)
    (h : Walk s fs dir cursor items) (limit : Nat) {c : Cache} (hc : inv c) :
    ∃ l, ((list fs dir cursor limit).run s c).1 = .ok l ∧ l.items = items.take limit := by
  unfold list
  rw [Query.ensure_bind_of hdir]
  by_cases hend : dir.size ≤ cursor
  · have hextent : extent dir ≤ cursor := Nat.le_trans (extent_le dir) hend
    rw [if_pos hend]
    cases h with
    | ended => exact ⟨⟨[], none⟩, rfl, by simp [Listing.items]⟩
    | refused hpos => omega
    | entry hpos => omega
  · rw [if_neg hend, Query.ensure_bind_of hcursor]
    obtain ⟨l, hl, hitems⟩ := h.run_listFrom hsteady hempty hfs limit [] hc
    exact ⟨l, hl, hitems⟩

/-- All items of a listing from a place on are those of the walk. -/
lemma Walk.run_listAll (hs : s.mode ≠ .char) (hdir : dir.isDirectory = true) {cursor : Nat}
    (hcursor : cursor % 4 = 0) (h : Walk s fs dir cursor items) {c : Cache} (hc : inv c) :
    ∃ l, ((listAll fs dir cursor).run s c).1 = .ok l ∧ l.items = items := by
  obtain ⟨l, hl, hitems⟩ := h.run_list hsteady hempty hfs hdir hcursor dir.size hc
  have hlength := (h.chained hs hfs).length_le
  have hextent := extent_le dir
  exact ⟨l, hl, by rw [hitems, List.take_of_length_le (by omega)]⟩

/-- Pages show the items of the walk, as many as their sizes come to. -/
lemma Walk.run_listPages (hs : s.mode ≠ .char) (hdir : dir.isDirectory = true) {sizes : List Nat}
    (hsizes : ∀ n ∈ sizes, 1 ≤ n) {cursor : Nat} (hcursor : cursor % 4 = 0)
    (h : Walk s fs dir cursor items) {c : Cache} (hc : inv c) :
    ∃ pages, ((listPages fs dir sizes cursor).run s c).1 = .ok pages ∧
      pages.flatten = items.take sizes.sum := by
  induction sizes generalizing cursor items c with
  | nil => exact ⟨[], rfl, rfl⟩
  | cons n sizes ih =>
    obtain ⟨hn, hsizes⟩ := List.forall_mem_cons.1 hsizes
    obtain ⟨page, hpage, hitems⟩ := h.run_list hsteady hempty hfs hdir hcursor n hc
    have hafter := hsteady.inv_run (list fs dir cursor n) hc
    rw [listPages, Query.run_bind_of_ok hpage, List.sum_cons, hitems]
    -- A page with fewer items than it may have holds all that are left.
    have hshort (hle : items.length ≤ n) : items.take n = items.take (n + sizes.sum) := by
      rw [List.take_of_length_le hle, List.take_of_length_le (by omega)]
    rcases hlast : (items.take n).getLast? with _ | ⟨cause | e⟩
    · have hnil := List.getLast?_eq_none_iff.1 hlast
      rw [List.take_eq_nil_iff] at hnil
      obtain rfl : items = [] := hnil.resolve_left (by omega)
      exact ⟨[[]], by simp [Query.run], by simp⟩
    · obtain ⟨k, hk, hsize⟩ := exists_getElem_of_getLast hlast
      have hend := (h.chained hs hfs).length_of_error hk
      exact ⟨[items.take n], rfl, by rw [List.flatten_singleton, hshort (by omega)]⟩
    · obtain ⟨k, hk, hsize⟩ := exists_getElem_of_getLast hlast
      obtain ⟨hrest, hnext⟩ := h.drop hs hfs hk
      obtain ⟨pages, hpages, hflatten⟩ := ih hsizes (hnext.trans hcursor) hrest hafter
      refine ⟨items.take n :: pages, ?_, ?_⟩
      · dsimp only
        rw [Query.run_bind_of_ok hpages]
        rfl
      · rw [List.flatten_cons, hflatten]
        by_cases hle : items.length ≤ n
        · rw [List.drop_of_length_le (by omega), List.take_nil, List.append_nil, hshort hle]
        · have hfull : k + 1 = n := by omega
          rw [hfull, List.take_add]

end Runs

/-- Out of a store that cannot fail, a listing that starts behind an entry of another shows just
the items that follow the entry there, the error that ends it included. So pages of any sizes, each
of which starts behind the last entry of the one before, give all items one after the other. What
is read between the listings makes no difference. -/
theorem listAll_resumed (hs : s.Reliable) {ts : Timestamp} {c₀ : Cache}
    (hfs : ((Filesystem.mount s ts).run s c₀).1 = .ok fs) (hdir : dir.isDirectory = true)
    {cursor : Nat} (hcursor : cursor % 4 = 0) (before before' : List (Nat × Nat)) :
    ∃ whole, ((listAll fs dir cursor).run s (s.readAll before .empty).2).1 = .ok whole ∧
      (∀ (k : Nat) (e : Entry), whole.items[k]? = some (.ok e) →
        ∃ rest, ((listAll fs dir e.next).run s (s.readAll before' .empty).2).1 = .ok rest ∧
          rest.items = whole.items.drop (k + 1)) ∧
      ∀ sizes : List Nat, (∀ n ∈ sizes, 1 ≤ n) → whole.items.length ≤ sizes.sum →
        ∃ pages, ((listPages fs dir sizes cursor).run s (s.readAll before' .empty).2).1 = .ok pages ∧
          pages.flatten = whole.items := by
  obtain ⟨hmode, hsize⟩ := Filesystem.mount_eq_ok hfs
  obtain ⟨inv, hsteady, hempty⟩ := hs.steady
  have hinv (reads : List (Nat × Nat)) : inv (s.readAll reads .empty).2 :=
    hsteady.readAll reads hempty
  obtain ⟨items, hwalk⟩ := exists_walk hmode hsize dir cursor
  obtain ⟨whole, hwhole, rfl⟩ :=
    hwalk.run_listAll hsteady hempty hsize hmode hdir hcursor (hinv before)
  refine ⟨whole, hwhole, ?_, ?_⟩
  · intro k e hk
    obtain ⟨hrest, hnext⟩ := hwalk.drop hmode hsize hk
    exact hrest.run_listAll hsteady hempty hsize hmode hdir (hnext.trans hcursor) (hinv before')
  · intro sizes hsizes hsum
    obtain ⟨pages, hpages, hflatten⟩ :=
      hwalk.run_listPages hsteady hempty hsize hmode hdir hsizes hcursor (hinv before')
    exact ⟨pages, hpages, by rw [hflatten, List.take_of_length_le hsum]⟩

theorem listAll_resumed_torn :
    ∃ fs whole e₀ e₁ cause, tornStore.Reliable ∧
      ((Filesystem.mount tornStore .epoch).run tornStore .empty).1 = .ok fs ∧
      fs.root.isDirectory = true ∧ 0 % 4 = 0 ∧
      ((listAll fs fs.root 0).run tornStore (tornStore.readAll [(0, 76)] .empty).2).1 = .ok whole ∧
      whole.items = [.ok e₀, .ok e₁, .error cause] ∧
      (∃ rest, ((listAll fs fs.root e₀.next).run tornStore (tornStore.readAll [] .empty).2).1 =
          .ok rest ∧ rest.items = [.ok e₁, .error cause]) ∧
      ∃ pages, ((listPages fs fs.root [1, 2] 0).run tornStore (tornStore.readAll [] .empty).2).1 =
          .ok pages ∧ pages.flatten = [.ok e₀, .ok e₁, .error cause] := by
  have hmount : (match ((Filesystem.mount tornStore .epoch).run tornStore .empty).1 with
      | .error _ => false
      | .ok fs => fs.root.isDirectory &&
        match ((listAll fs fs.root 0).run tornStore (tornStore.readAll [(0, 76)] .empty).2).1 with
        | .error _ => false
        | .ok whole => decide (whole.entries.length = 2) && whole.failure?.isSome) = true := by
    decide +kernel
  split at hmount
  · simp at hmount
  · rename_i fs hfs
    obtain ⟨hdir, hlist⟩ := (Bool.and_eq_true _ _).mp hmount
    obtain ⟨whole, hwhole, hrest, hpages⟩ :=
      listAll_resumed (s := tornStore) trivial hfs hdir (Nat.zero_mod 4) [(0, 76)] []
    rw [hwhole] at hlist
    obtain ⟨hlength, hcause⟩ := (Bool.and_eq_true _ _).mp hlist
    obtain ⟨e₀, e₁, hentries⟩ := List.length_eq_two.1 (of_decide_eq_true hlength)
    obtain ⟨cause, hfailure⟩ := Option.isSome_iff_exists.1 hcause
    have hitems : whole.items = [.ok e₀, .ok e₁, .error cause] := by
      rw [Listing.items, hentries, hfailure]
      rfl
    rw [hitems] at hrest hpages
    refine ⟨fs, whole, e₀, e₁, cause, trivial, hfs, hdir, rfl, hwhole, hitems, ?_, ?_⟩
    · exact hrest 0 e₀ rfl
    · exact hpages [1, 2] (by decide) (Nat.le_refl 3)

end Directory

end CompressedRom
