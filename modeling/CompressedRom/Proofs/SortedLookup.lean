import CompressedRom.Proofs.OperationContracts

/-!
# Lookup in sorted directories

In a sorted directory a search gives up at the first entry that comes after the name. Here it is
shown that this changes no answer: `Directory.lookup_sorted` compares a lookup with the listing of
the directory.
-/

namespace CompressedRom

namespace Bytes

lemma orderLists_cases (a b : List UInt8) :
    orderLists a b = .lt ∧ a < b ∨ orderLists a b = .eq ∧ a = b ∨ orderLists a b = .gt ∧ b < a := by
  induction a generalizing b with
  | nil =>
    cases b with
    | nil => exact .inr (.inl ⟨rfl, rfl⟩)
    | cons y ys => exact .inl ⟨rfl, List.nil_lt_cons y ys⟩
  | cons x xs ih =>
    cases b with
    | nil => exact .inr (.inr ⟨rfl, List.nil_lt_cons x xs⟩)
    | cons y ys =>
      rw [orderLists]
      rcases hxy : compare x y with _ | _ | _
      · have hlt : x < y := Std.compare_eq_lt.1 hxy
        exact .inl ⟨rfl, List.cons_lt_cons_iff.2 (.inl hlt)⟩
      · have heq : x = y := by simpa using hxy
        subst heq
        rcases ih ys with ⟨h, hlt⟩ | ⟨h, heq⟩ | ⟨h, hgt⟩
        · exact .inl ⟨h, List.cons_lt_cons_iff.2 (.inr ⟨rfl, hlt⟩)⟩
        · exact .inr (.inl ⟨h, heq ▸ rfl⟩)
        · exact .inr (.inr ⟨h, List.cons_lt_cons_iff.2 (.inr ⟨rfl, hgt⟩)⟩)
      · have hgt : y < x := Std.compare_eq_gt.1 hxy
        exact .inr (.inr ⟨rfl, List.cons_lt_cons_iff.2 (.inl hgt)⟩)

lemma byteAt_zero (b : Bytes) : b.byteAt 0 = b.data.toList.headD 0 := by
  rcases b with ⟨⟨_ | ⟨x, xs⟩⟩⟩ <;> rfl

lemma byte_eq_ok {b : Bytes} {i : Nat} (h : i < b.size) : b.byte i = .ok (b.byteAt i) := by
  simp [byte, byteAt, h]

lemma lt_of_byteAt_lt {a b : Bytes} (h : a.byteAt 0 < b.byteAt 0) : a.data.toList < b.data.toList := by
  rw [byteAt_zero, byteAt_zero] at h
  rcases hb : b.data.toList with _ | ⟨y, ys⟩
  · rw [hb] at h
    exact absurd h (UInt8.not_lt_zero)
  · rcases ha : a.data.toList with _ | ⟨x, xs⟩
    · exact List.nil_lt_cons y ys
    · rw [ha, hb] at h
      exact List.cons_lt_cons_iff.2 (.inl h)

end Bytes

namespace Directory

/-- What a search comes to on the entries of a listing and the cause that ends it. -/
def scan (sorted : Bool) (name : Bytes) (failure? : Option Error) :
    List Entry → Except Failure (Option Inode)
  | [] =>
    match failure? with
    | some cause => .error (.refused cause)
    | none => .ok none
  | e :: entries =>
    if sorted ∧ name.byteAt 0 < e.name.byteAt 0 then .ok none
    else if e.name.size ≠ name.size then scan sorted name failure? entries
    else
      match name.order e.name with
      | .gt => scan sorted name failure? entries
      | .eq => .ok (some e.inode)
      | .lt => if sorted then .ok none else scan sorted name failure? entries

/-- The answer is what a listing tells of a name, which has `first?` as its first entry of that name
and ends with `failure?`. -/
def AnswerOf (first? : Option Entry) (failure? : Option Error)
    (answer : Except Failure (Option Inode)) : Prop :=
  match first?, failure? with
  | some e, _ => answer = .ok (some e.inode)
  | none, none => answer = .ok none
  | none, some cause => answer = .ok none ∨ answer = .error (.refused cause)

variable {sorted : Bool} {name : Bytes} {failure? : Option Error}

/-- An entry is the one looked for, or it is passed over, or it comes after the name and ends the
search. -/
lemma scan_cons_cases (sorted : Bool) (name : Bytes) (failure? : Option Error) (e : Entry)
    (entries : List Entry) :
    e.name = name ∧ scan sorted name failure? (e :: entries) = .ok (some e.inode) ∨
      e.name ≠ name ∧ scan sorted name failure? (e :: entries) = scan sorted name failure? entries ∨
      sorted ∧ name.data.toList < e.name.data.toList ∧
        scan sorted name failure? (e :: entries) = .ok none := by
  have hdata (h : name.data.toList ≠ e.name.data.toList) : e.name ≠ name :=
    fun heq => h (by rw [heq])
  rw [scan]
  by_cases hfirst : sorted ∧ name.byteAt 0 < e.name.byteAt 0
  · rw [if_pos hfirst]
    exact .inr (.inr ⟨hfirst.1, Bytes.lt_of_byteAt_lt hfirst.2, rfl⟩)
  · rw [if_neg hfirst]
    by_cases hsize : e.name.size ≠ name.size
    · rw [if_pos hsize]
      exact .inr (.inl ⟨fun heq => hsize (by rw [heq]), rfl⟩)
    · rw [if_neg hsize, Bytes.order]
      rcases Bytes.orderLists_cases name.data.toList e.name.data.toList with
        ⟨h, hlt⟩ | ⟨h, heq⟩ | ⟨h, hgt⟩
      · rw [h]
        dsimp only
        by_cases hsorted : sorted = true
        · rw [if_pos hsorted]
          exact .inr (.inr ⟨hsorted, hlt, rfl⟩)
        · rw [if_neg hsorted]
          exact .inr (.inl ⟨hdata fun heq => List.lt_irrefl _ (heq ▸ hlt), rfl⟩)
      · rw [h]
        exact .inl ⟨ByteArray.ext (Array.ext' heq.symm), rfl⟩
      · rw [h]
        exact .inr (.inl ⟨hdata fun heq => List.lt_irrefl _ (heq ▸ hgt), rfl⟩)

lemma find_of_scan {entries : List Entry} {inode : Inode}
    (h : scan sorted name failure? entries = .ok (some inode)) :
    ∃ e, entries.find? (·.name = name) = some e ∧ e.inode = inode := by
  induction entries with
  | nil => cases failure? <;> simp [scan] at h
  | cons e entries ih =>
    rcases scan_cons_cases sorted name failure? e entries with
      ⟨hname, hscan⟩ | ⟨hname, hscan⟩ | ⟨-, -, hscan⟩
    · rw [hscan] at h
      exact ⟨e, by simp [hname], by simpa using h⟩
    · rw [hscan] at h
      obtain ⟨e', he', hinode⟩ := ih h
      exact ⟨e', by simp [hname, he'], hinode⟩
    · rw [hscan] at h
      simp at h

lemma scan_of_pairwise {entries : List Entry}
    (horder : sorted →
      entries.Pairwise fun a b => a.name.data.toList ≤ b.name.data.toList) :
    AnswerOf (entries.find? (·.name = name)) failure? (scan sorted name failure? entries) := by
  induction entries with
  | nil =>
    cases failure? with
    | none => rfl
    | some cause => exact .inr rfl
  | cons e entries ih =>
    rcases scan_cons_cases sorted name failure? e entries with
      ⟨hname, hscan⟩ | ⟨hname, hscan⟩ | ⟨hsorted, hlt, hscan⟩
    · rw [hscan, List.find?_cons_of_pos (by simpa using hname)]
      rfl
    · have hrest := ih fun hsorted => (List.pairwise_cons.1 (horder hsorted)).2
      rwa [hscan, List.find?_cons_of_neg (by simpa using hname)]
    -- The name comes before `e`, and no entry behind `e` comes before `e`.
    · have hnone : (e :: entries).find? (·.name = name) = none := by
        rw [List.find?_eq_none]
        intro e' he'
        have hle : e.name.data.toList ≤ e'.name.data.toList := by
          rcases List.mem_cons.1 he' with rfl | he'
          · exact List.le_refl _
          · exact (List.pairwise_cons.1 (horder hsorted)).1 e' he'
        simp only [decide_eq_true_eq]
        rintro rfl
        exact hle hlt
      rw [hnone, hscan]
      cases failure? with
      | none => rfl
      | some cause => exact .inl rfl

variable {fs : Filesystem} {s : Store} {c : Cache}

/-- A search comes to what a listing from the same place on tells. -/
lemma run_search (hs : s.mode ≠ .char) (hfs : fs.superblock.size < 2 ^ 32) (dir : Inode)
    (name : Bytes) (limit pos : Nat) (found : List Entry) {items : Listing}
    (h : ((listFrom fs dir limit pos found).run s c).1 = .ok items) :
    ∃ entries, items.entries = found.reverse ++ entries ∧
      ((search fs dir name (name.byteAt 0) limit pos).run s c).1 =
        scan fs.superblock.isSorted name items.failure? entries := by
  have hend (found : List Entry) {items : Listing}
      (h : Except.ok ⟨found.reverse, none⟩ = (.ok items : Except Failure _)) :
      ∃ entries, items.entries = found.reverse ++ entries ∧
        .ok none = scan fs.superblock.isSorted name items.failure? entries := by
    obtain rfl := Except.ok.inj h
    exact ⟨[], (List.append_nil _).symm, rfl⟩
  induction limit generalizing c pos found with
  | zero => exact hend found h
  | succ limit ih =>
    rw [listFrom] at h
    rw [search]
    by_cases hpos : pos < extent dir
    · rw [if_pos hpos, Query.run_bind, Query.run_attempt] at h
      rw [if_pos hpos, Query.run_bind]
      have hentry := run_entryAt hs hfs dir pos c
      rcases hrun : (entryAt fs dir pos).run s c with ⟨⟨cause | step⟩ | entry, c'⟩
      · rw [hrun] at h
        obtain rfl := Except.ok.inj h
        exact ⟨[], (List.append_nil _).symm, rfl⟩
      · rw [hrun] at h
        simp at h
      · rw [hrun] at h hentry
        obtain ⟨entries, hentries, hrest⟩ := ih entry.next (entry :: found) h
        refine ⟨entry :: entries, by simp [hentries], ?_⟩
        dsimp only
        rw [Bytes.byte_eq_ok (Nat.pos_of_ne_zero hentry.2), scan]
        change (Query.run s (if _ then _ else _) c').1 = _
        split
        · rfl
        · split
          · exact hrest
          · cases name.order entry.name with
            | gt => exact hrest
            | eq => rfl
            | lt =>
              dsimp only
              split
              · rfl
              · exact hrest
    · rw [if_neg hpos] at h ⊢
      exact hend found h

lemma listAll_zero {dir : Inode} (hdir : dir.isDirectory = true) :
    listAll fs dir 0 = listFrom fs dir (extent dir) 0 [] := by
  unfold listAll list Query.ensure
  rw [if_pos hdir, Query.done_bind]
  by_cases hsize : dir.size ≤ 0
  · have hextent : extent dir = 0 := by
      unfold extent
      split
      · rfl
      · exact Nat.le_zero.1 hsize
    rw [if_pos hsize, hextent]
    rfl
  · rw [if_neg hsize]
    by_cases hoffset : dir.offset = 0
    · obtain ⟨n, hn⟩ := Nat.exists_eq_succ_of_ne_zero (mt Nat.le_of_eq hsize)
      have hextent : extent dir = 0 := if_pos hoffset
      rw [hn, hextent, if_pos (Nat.zero_mod 4), Query.done_bind]
      simp [listFrom, hextent]
    · have hextent : extent dir = dir.size := if_neg hoffset
      rw [hextent, if_pos (Nat.zero_mod 4), Query.done_bind]

lemma lookup_eq {dir : Inode} (hdir : dir.isDirectory = true) {name : Bytes}
    (hname : name.size ≠ 0) :
    lookup fs dir name = search fs dir name (name.byteAt 0) (extent dir) 0 := by
  unfold lookup Query.ensure
  rw [if_pos hdir, Query.done_bind, if_neg hname, Bytes.byte_eq_ok (Nat.pos_of_ne_zero hname)]
  rfl

lemma run_lookup (hs : s.mode ≠ .char) (hfs : fs.superblock.size < 2 ^ 32)
    {dir : Inode} (hdir : dir.isDirectory = true) {name : Bytes} (hname : name.size ≠ 0)
    (c : Cache) :
    ∃ items, ((listAll fs dir 0).run s c).1 = .ok items ∧
      ((lookup fs dir name).run s c).1 =
        scan fs.superblock.isSorted name items.failure? items.entries := by
  rw [listAll_zero hdir, lookup_eq hdir hname]
  obtain ⟨items, hitems, -⟩ := run_listFrom hs hfs dir (extent dir) 0 [] c
  obtain ⟨entries, hentries, hsearch⟩ := run_search hs hfs dir name (extent dir) 0 [] hitems
  rw [List.reverse_nil, List.nil_append] at hentries
  exact ⟨items, hitems, hentries ▸ hsearch⟩

end Directory

/-- A store that cannot fail: a mapping, or a device that answers every call. -/
def Store.Reliable : Store → Prop
  | mapped _ => True
  | buffered d length? =>
    (∃ content, d.Serves content length?) ∧ ∀ call pos len e, d.read call pos len ≠ .error e
  | characters => False

lemma Store.reliable_ofFile (content : Bytes) : (ofFile content).Reliable := by
  refine ⟨⟨_, Device.serves_ofBytes content⟩, ?_⟩
  intro call pos len e h
  exact absurd h nofun

/-- What makes a state of the cache as good as another: reads keep `inv`, and a span that fits comes
the same out of all caches that satisfy it. -/
structure Store.Steady (s : Store) (inv : Cache → Prop) : Prop where
  read_eq : ∀ {offset len : Nat} {c c' : Cache}, Fits offset len → inv c → inv c' →
    (s.read offset len c).1 = (s.read offset len c').1
  size_read : ∀ {offset len : Nat} {c : Cache} {span : Bytes}, Fits offset len → inv c →
    (s.read offset len c).1 = .ok span → span.size = len
  inv_read : ∀ {offset len : Nat} {c : Cache}, inv c → inv (s.read offset len c).2

lemma Store.Steady.readAll {s : Store} {inv : Cache → Prop} (h : s.Steady inv)
    (reads : List (Nat × Nat)) {c : Cache} (hc : inv c) : inv (s.readAll reads c).2 := by
  induction reads generalizing c with
  | nil => exact hc
  | cons r reads ih => exact ih (h.inv_read hc)

lemma Store.Reliable.steady {s : Store} (hs : s.Reliable) : ∃ inv, s.Steady inv ∧ inv .empty := by
  cases s with
  | mapped m =>
    refine ⟨fun _ => True, ⟨fun _ _ _ => rfl, fun hfits _ h => ?_, fun _ => trivial⟩, trivial⟩
    have hmode : (Store.mapped m).mode ≠ .char := by
      cases hm : m.inPlace <;> simp [mode, hm]
    have hread := read_fits hmode hfits .empty
    change ((mapped m).read _ _ Cache.empty).1 = _ at h
    rw [h] at hread
    exact hread
  | buffered d length? =>
    obtain ⟨⟨content, hd⟩, hanswers⟩ := hs
    have hok {offset len : Nat} {c : Cache} (hfits : Fits offset len)
        (hc : c.Coherent (Device.zeroPast content length?)) :
        ∃ span, ((buffered d length?).read offset len c).1 = .ok span ∧
          span.IsRange (Device.zeroPast content length?) offset len := by
      rcases hr : ((buffered d length?).read offset len c).1 with failure | span
      · obtain ⟨e, -, k, hk, hb⟩ := Cache.breaks_of_read hfits.1 hfits.2 hr
        exact absurd (hb.failed hd (Cache.pageCalls_of_mem_readCalls hk)) (hanswers _ _ _ _)
      · exact ⟨span, rfl, Cache.range_read hd hc hr⟩
    refine ⟨_, ⟨fun hfits hc hc' => ?_, fun _ _ h => Cache.size_read h,
      fun hc => Cache.coherent_read hd _ _ hc⟩, Cache.every_empty _⟩
    obtain ⟨span, hspan, hrange⟩ := hok hfits hc
    obtain ⟨span', hspan', hrange'⟩ := hok hfits hc'
    rw [hspan, hspan', hrange.unique hrange']
  | characters => exact hs.elim

lemma Query.Meets.run_eq {α : Type} {q : Query α} {stops : Failure → Prop} {post : α → Prop}
    {s : Store} {inv : Cache → Prop} (hs : s.Steady inv) (hq : q.Meets Fits stops post)
    {c c' : Cache} (hc : inv c) (hc' : inv c') : (q.run s c).1 = (q.run s c').1 := by
  induction q generalizing c c' with
  | done a => rfl
  | stop failure => rfl
  | ask offset len next ih =>
    obtain ⟨hfits, hrefused, hnext⟩ := hq.of_ask
    have hread := hs.read_eq hfits hc hc'
    have hsize {span : Bytes} : (s.read offset len c).1 = .ok span → span.size = len :=
      hs.size_read hfits hc
    have hafter : inv (s.read offset len c).2 := hs.inv_read hc
    have hafter' : inv (s.read offset len c').2 := hs.inv_read hc'
    rw [Query.run, Query.run]
    rcases hr : s.read offset len c with ⟨result, c₁⟩
    rcases hr' : s.read offset len c' with ⟨result', c₁'⟩
    rw [hr] at hread hafter hsize
    rw [hr'] at hread hafter'
    obtain rfl : result = result' := hread
    rcases result with ⟨cause | step⟩ | span
    · dsimp only
      rw [hrefused]
      rfl
    · rfl
    · exact ih (.ok span) (hnext span (hsize rfl)) hafter hafter'

namespace Directory

variable {fs : Filesystem} {s : Store}

/-- Whether a search may end early or not, in a directory whose names are in order whenever the
image says so, a lookup gives the first entry of the name in the listing of the directory, or none
if there is none; if the listing ends with an error, then that error may take the place of none.
In any order, what is found is the first entry of the name. Listing and lookup start from the same
state of the cache, or from any two states if the store cannot fail. -/
theorem lookup_sorted {ts : Timestamp} {c₀ : Cache}
    (hfs : ((Filesystem.mount s ts).run s c₀).1 = .ok fs)
    {dir : Inode} (hdir : dir.isDirectory = true) {name : Bytes} (hname : name.size ≠ 0)
    {before before' : List (Nat × Nat)} (hbefore : before = before' ∨ s.Reliable) :
    ∃ items, ((listAll fs dir 0).run s (s.readAll before .empty).2).1 = .ok items ∧
      ((fs.superblock.isSorted = true →
          items.entries.Pairwise fun a b => a.name.data.toList ≤ b.name.data.toList) →
        AnswerOf (items.entries.find? (·.name = name)) items.failure?
          ((lookup fs dir name).run s (s.readAll before' .empty).2).1) ∧
      ∀ inode, ((lookup fs dir name).run s (s.readAll before' .empty).2).1 = .ok (some inode) →
        ∃ e, items.entries.find? (·.name = name) = some e ∧ e.inode = inode := by
  obtain ⟨hs, hsize⟩ := Filesystem.mount_eq_ok hfs
  have hsame : ((lookup fs dir name).run s (s.readAll before' .empty).2).1 =
      ((lookup fs dir name).run s (s.readAll before .empty).2).1 := by
    rcases hbefore with rfl | hreliable
    · rfl
    · obtain ⟨inv, hsteady, hempty⟩ := hreliable.steady
      have hfits := (meets_lookup hsize dir name).fits hsize
      exact hfits.run_eq hsteady (hsteady.readAll _ hempty) (hsteady.readAll _ hempty)
  obtain ⟨items, hitems, hlookup⟩ := run_lookup hs hsize hdir hname (s.readAll before .empty).2
  rw [hsame, hlookup]
  exact ⟨items, hitems, scan_of_pairwise, fun inode h => find_of_scan h⟩

/-- A sorted image in memory, whose root holds two empty files, `a` and `c`, and behind them an
entry without a name. -/
def pairStore : Store :=
  .mapped ⟨Bytes.ofList ([0x45, 0x3d, 0xcd, 0x28, 124, 0, 0, 0, 3] ++ List.replicate 55 0 ++
    [0xed, 0x41, 0, 0, 48, 0, 0, 0, 0xc0, 0x04, 0, 0] ++
    [0xa4, 0x81, 0, 0, 0, 0, 0, 0, 1, 0, 0, 0, 0x61, 0, 0, 0] ++
    [0xa4, 0x81, 0, 0, 0, 0, 0, 3, 1, 0, 0, 0, 0x63, 0, 0, 0] ++
    [0xa4, 0x81, 0, 0, 0, 0, 0, 0, 1, 0, 0, 0, 0, 0, 0, 0]), none, false⟩

/-- `c` is found, and the search for `b` ends there, before the entry that is broken. -/
theorem lookup_pairStore :
    ∃ fs items entry cause,
      ((Filesystem.mount pairStore .epoch).run pairStore .empty).1 = .ok fs ∧
      fs.root.isDirectory = true ∧ fs.superblock.isSorted = true ∧
      (Bytes.ofList [0x62]).size ≠ 0 ∧ (Bytes.ofList [0x63]).size ≠ 0 ∧ pairStore.Reliable ∧
      ((listAll fs fs.root 0).run pairStore (pairStore.readAll [] .empty).2).1 = .ok items ∧
      (items.entries.Pairwise fun a b => a.name.data.toList ≤ b.name.data.toList) ∧
      items.failure? = some cause ∧
      items.entries.find? (·.name = .ofList [0x63]) = some entry ∧ entry.inode.gid = 3 ∧
      ((lookup fs fs.root (.ofList [0x63])).run pairStore
        (pairStore.readAll [(0, 76)] .empty).2).1 = .ok (some entry.inode) ∧
      items.entries.find? (·.name = .ofList [0x62]) = none ∧
      ((lookup fs fs.root (.ofList [0x62])).run pairStore
        (pairStore.readAll [(0, 76)] .empty).2).1 = .ok none := by
  have hmount : (match ((Filesystem.mount pairStore .epoch).run pairStore .empty).1 with
      | .error _ => false
      | .ok fs => decide (fs.root.isDirectory = true ∧ fs.superblock.isSorted = true) &&
        (match ((listAll fs fs.root 0).run pairStore (pairStore.readAll [] .empty).2).1 with
        | .error _ => false
        | .ok items => decide ((items.entries.Pairwise fun a b =>
              a.name.data.toList ≤ b.name.data.toList) ∧ items.failure?.isSome = true ∧
            (items.entries.find? (·.name = .ofList [0x63])).any (·.inode.gid = 3) = true ∧
            items.entries.find? (·.name = .ofList [0x62]) = none)) &&
        (match ((lookup fs fs.root (.ofList [0x62])).run pairStore
          (pairStore.readAll [(0, 76)] .empty).2).1 with
        | .error _ => false
        | .ok _ => true)) = true := by decide +kernel
  have hb : (Bytes.ofList [0x62]).size ≠ 0 := by decide
  have hc : (Bytes.ofList [0x63]).size ≠ 0 := by decide
  have hreads : [] = [(0, 76)] ∨ pairStore.Reliable := .inr trivial
  split at hmount
  · simp at hmount
  · rename_i fs hfs
    simp only [Bool.and_eq_true] at hmount
    obtain ⟨⟨hroot, hlist⟩, hearly⟩ := hmount
    obtain ⟨hdir, hsorted⟩ := of_decide_eq_true hroot
    obtain ⟨items, hitems, hfound, -⟩ := lookup_sorted hfs hdir hc hreads
    obtain ⟨items', hitems', hmissed, -⟩ := lookup_sorted hfs hdir hb hreads
    obtain rfl := Except.ok.inj (hitems.symm.trans hitems')
    rw [hitems] at hlist
    obtain ⟨horder, hcause, hany, hnone⟩ := of_decide_eq_true hlist
    obtain ⟨cause, hfailure⟩ := Option.isSome_iff_exists.1 hcause
    obtain ⟨entry, hentry, hgid⟩ := (Option.any_eq_true _ _).1 hany
    have hfound := hfound fun _ => horder
    rw [hentry] at hfound
    have hmissed := hmissed fun _ => horder
    rw [hnone, hfailure] at hmissed
    have hearly : ((lookup fs fs.root (.ofList [0x62])).run pairStore
        (pairStore.readAll [(0, 76)] .empty).2).1 = .ok none := by
      rcases hmissed with hmissed | hmissed
      · exact hmissed
      · rw [hmissed] at hearly
        simp at hearly
    exact ⟨fs, items, entry, cause, hfs, hdir, hsorted, hb, hc, trivial, hitems, horder, hfailure,
      hentry, of_decide_eq_true hgid, hfound, hnone, hearly⟩

end Directory

end CompressedRom
