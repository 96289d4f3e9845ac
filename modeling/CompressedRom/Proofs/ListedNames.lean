import CompressedRom.Proofs.ImageReads
import CompressedRom.Proofs.ListingResume

/-!
# Names that a listing shows

Lookups find what listings show. Without the order of names that a sorted image promises, a lookup
is the search of a name in the listing of the directory: `Directory.lookup_unsorted`. A path made of
the names of entries, each listed in the directory before it, leads to the last of them:
`Path.resolve_listed`.
-/

namespace CompressedRom

namespace Directory

/-- What a listing tells of a name: the file of the first entry that has it, or else how the listing
ends. -/
def Listing.named (items : Listing) (name : Bytes) : Except Failure (Option Inode) :=
  match items.entries.find? (·.name = name), items.failure? with
  | some e, _ => .ok (some e.inode)
  | none, some cause => .error (.refused cause)
  | none, none => .ok none

/-- Without an order a search passes over every entry of another name. -/
lemma scan_unsorted (name : Bytes) (failure? : Option Error) (entries : List Entry) :
    scan false name failure? entries = Listing.named ⟨entries, failure?⟩ name := by
  induction entries with
  | nil => cases failure? <;> rfl
  | cons e entries ih =>
    rcases scan_cons_cases false name failure? e entries with
      ⟨hname, hscan⟩ | ⟨hname, hscan⟩ | ⟨hsorted, -, -⟩
    · rw [hscan, Listing.named, List.find?_cons_of_pos (by simpa using hname)]
    · rw [hscan, ih, Listing.named, Listing.named, List.find?_cons_of_neg (by simpa using hname)]
    · simp at hsorted

lemma find_of_pairwise_ne {entries : List Entry} (h : entries.Pairwise fun a b => a.name ≠ b.name)
    {e : Entry} (he : e ∈ entries) : entries.find? (·.name = e.name) = some e := by
  induction entries with
  | nil => simp at he
  | cons a entries ih =>
    obtain ⟨hhead, htail⟩ := List.pairwise_cons.1 h
    rcases List.mem_cons.1 he with rfl | he
    · exact List.find?_cons_of_pos (by simp)
    · rw [List.find?_cons_of_neg (by simpa using hhead e he)]
      exact ih htail he

lemma scan_of_mem {sorted : Bool} (failure? : Option Error) {entries : List Entry}
    (hdistinct : entries.Pairwise fun a b => a.name ≠ b.name)
    (horder : sorted → entries.Pairwise fun a b => a.name.data.toList ≤ b.name.data.toList)
    {e : Entry} (he : e ∈ entries) : scan sorted e.name failure? entries = .ok (some e.inode) := by
  have hanswer : AnswerOf (entries.find? (·.name = e.name)) failure?
      (scan sorted e.name failure? entries) := scan_of_pairwise horder
  rwa [find_of_pairwise_ne hdistinct he] at hanswer

section Runs

variable {s : Store} {inv : Cache → Prop} {fs : Filesystem} {dir : Inode} {items : Listing}
  {c c' : Cache}

lemma isDirectory_of_listAll {cursor : Nat} (h : ((listAll fs dir cursor).run s c).1 = .ok items) :
    dir.isDirectory = true := by
  unfold listAll list at h
  by_cases hdir : dir.isDirectory = true
  · exact hdir
  · rw [Query.ensure_bind_of_not hdir] at h
    exact absurd h nofun

variable (hsteady : s.Steady inv) (hempty : inv .empty) (hmode : s.mode ≠ .char)
  (hfs : fs.superblock.size < 2 ^ 32)
include hsteady hempty hmode hfs

/-- Out of a store that cannot fail, all listings of a directory are the same. -/
lemma run_listAll_eq (hdir : dir.isDirectory = true) (hc : inv c) (hc' : inv c') :
    ((listAll fs dir 0).run s c).1 = ((listAll fs dir 0).run s c').1 := by
  obtain ⟨items, hwalk⟩ := exists_walk hmode hfs dir 0
  obtain ⟨l, hl, hitems⟩ :=
    hwalk.run_listAll hsteady hempty hfs hmode hdir (Nat.zero_mod 4) hc
  obtain ⟨l', hl', hitems'⟩ :=
    hwalk.run_listAll hsteady hempty hfs hmode hdir (Nat.zero_mod 4) hc'
  rw [hl, hl', Listing.eq_of_items (hitems.trans hitems'.symm)]

/-- A lookup comes to what any listing of the directory tells. -/
lemma run_lookup_of_listAll {name : Bytes} (hname : name.size ≠ 0)
    (hitems : ((listAll fs dir 0).run s c).1 = .ok items) (hc : inv c) (hc' : inv c') :
    ((lookup fs dir name).run s c').1 =
      scan fs.superblock.isSorted name items.failure? items.entries := by
  have hdir := isDirectory_of_listAll hitems
  obtain ⟨items', hitems', hlookup⟩ := run_lookup hmode hfs hdir hname .empty
  have hsame := run_listAll_eq hsteady hempty hmode hfs hdir hc hempty
  rw [hitems, hitems'] at hsame
  obtain rfl := Except.ok.inj hsame
  have hfits := (meets_lookup hfs dir name).fits hfs
  rw [hfits.run_eq hsteady hc' hempty, hlookup]

lemma name_ne_of_listAll (hitems : ((listAll fs dir 0).run s c).1 = .ok items) (hc : inv c)
    {e : Entry} (he : e ∈ items.entries) : e.name.size ≠ 0 := by
  have hdir := isDirectory_of_listAll hitems
  obtain ⟨shown, hwalk⟩ := exists_walk hmode hfs dir 0
  obtain ⟨l, hl, hshown⟩ :=
    hwalk.run_listAll hsteady hempty hfs hmode hdir (Nat.zero_mod 4) hc
  obtain rfl := Except.ok.inj (hl.symm.trans hitems)
  have hmem : .ok e ∈ shown := hshown ▸ List.mem_append_left _ (List.mem_map_of_mem he)
  exact ((hwalk.chained hmode hfs).lies hmem).2.2.name_ne

end Runs

/-- In an image whose directories need not be sorted, a lookup gives the first entry of the name in
the listing of the directory; if there is none it fails as the listing does, or finds nothing.
Out of a store that cannot fail this holds of any two of them, whatever is read between. -/
theorem lookup_unsorted {s : Store} (hs : s.Reliable) {ts : Timestamp} {c₀ : Cache}
    {fs : Filesystem} (hfs : ((Filesystem.mount s ts).run s c₀).1 = .ok fs)
    (hsorted : fs.superblock.isSorted = false) {dir : Inode} (hdir : dir.isDirectory = true)
    {name : Bytes} (hname : name.size ≠ 0) (before before' : List (Nat × Nat)) :
    ∃ items, ((listAll fs dir 0).run s (s.readAll before .empty).2).1 = .ok items ∧
      ((lookup fs dir name).run s (s.readAll before' .empty).2).1 = items.named name := by
  obtain ⟨hmode, hsize⟩ := Filesystem.mount_eq_ok hfs
  obtain ⟨inv, hsteady, hempty⟩ := hs.steady
  have hinv (reads : List (Nat × Nat)) : inv (s.readAll reads .empty).2 :=
    hsteady.readAll reads hempty
  obtain ⟨_, hwalk⟩ := exists_walk hmode hsize dir 0
  obtain ⟨items, hitems, -⟩ := hwalk.run_listAll hsteady hempty hsize hmode hdir (Nat.zero_mod 4)
    (hinv before)
  have hlookup := run_lookup_of_listAll hsteady hempty hmode hsize hname hitems (hinv before)
    (hinv before')
  rw [hsorted, scan_unsorted] at hlookup
  exact ⟨items, hitems, hlookup⟩

/-- An image in memory, not sorted, whose root holds the empty files `b`, `a`, `ab` and `a` again,
and has more bytes than the image declares. -/
def repeatedStore : Store :=
  .mapped ⟨Bytes.ofList ([0x45, 0x3d, 0xcd, 0x28, 144, 0, 0, 0, 1] ++ List.replicate 55 0 ++
    [0xed, 0x41, 0, 0, 76, 0, 0, 0, 0xc0, 0x04, 0, 0] ++
    [0xa4, 0x81, 0, 0, 0, 0, 0, 0, 1, 0, 0, 0, 0x62, 0, 0, 0] ++
    [0xa4, 0x81, 0, 0, 0, 0, 0, 1, 1, 0, 0, 0, 0x61, 0, 0, 0] ++
    [0xa4, 0x81, 0, 0, 0, 0, 0, 2, 1, 0, 0, 0, 0x61, 0x62, 0, 0] ++
    [0xa4, 0x81, 0, 0, 0, 0, 0, 3, 1, 0, 0, 0, 0x61, 0, 0, 0] ++ List.replicate 4 0), none, false⟩

theorem lookup_repeated :
    ∃ fs items first cause, repeatedStore.Reliable ∧
      ((Filesystem.mount repeatedStore .epoch).run repeatedStore .empty).1 = .ok fs ∧
      fs.superblock.isSorted = false ∧ fs.root.isDirectory = true ∧
      (Bytes.ofList [0x61]).size ≠ 0 ∧ (Bytes.ofList [0x63]).size ≠ 0 ∧
      ((listAll fs fs.root 0).run repeatedStore (repeatedStore.readAll [] .empty).2).1 = .ok items ∧
      items.entries.length = 4 ∧ first.gid = 1 ∧
      ((lookup fs fs.root (.ofList [0x61])).run repeatedStore
        (repeatedStore.readAll [(0, 76)] .empty).2).1 = .ok (some first) ∧
      ((lookup fs fs.root (.ofList [0x63])).run repeatedStore
        (repeatedStore.readAll [(0, 76)] .empty).2).1 = .error (.refused cause) := by
  have hmount : (match ((Filesystem.mount repeatedStore .epoch).run repeatedStore .empty).1 with
      | .error _ => false
      | .ok fs => decide (fs.superblock.isSorted = false ∧ fs.root.isDirectory = true) &&
        match ((listAll fs fs.root 0).run repeatedStore (repeatedStore.readAll [] .empty).2).1 with
        | .error _ => false
        | .ok items => decide (items.entries.length = 4 ∧ items.failure?.isSome = true ∧
            (items.entries.find? (·.name = .ofList [0x61])).any (·.inode.gid = 1) = true ∧
            items.entries.find? (·.name = .ofList [0x63]) = none)) = true := by decide +kernel
  have ha : (Bytes.ofList [0x61]).size ≠ 0 := by decide
  have hc : (Bytes.ofList [0x63]).size ≠ 0 := by decide
  split at hmount
  · simp at hmount
  · rename_i fs hfs
    obtain ⟨hroot, hlist⟩ := (Bool.and_eq_true _ _).mp hmount
    obtain ⟨hsorted, hdir⟩ := of_decide_eq_true hroot
    obtain ⟨items, hitems, hfound⟩ :=
      lookup_unsorted (s := repeatedStore) trivial hfs hsorted hdir ha [] [(0, 76)]
    obtain ⟨items', hitems', hmissed⟩ :=
      lookup_unsorted (s := repeatedStore) trivial hfs hsorted hdir hc [] [(0, 76)]
    obtain rfl := Except.ok.inj (hitems.symm.trans hitems')
    rw [hitems] at hlist
    obtain ⟨hlength, hcause, hany, hnone⟩ := of_decide_eq_true hlist
    obtain ⟨cause, hfailure⟩ := Option.isSome_iff_exists.1 hcause
    obtain ⟨e, he, hgid⟩ := (Option.any_eq_true _ _).1 hany
    rw [Listing.named, he] at hfound
    rw [Listing.named, hnone, hfailure] at hmissed
    exact ⟨fs, items, e.inode, cause, trivial, hfs, hsorted, hdir, ha, hc, hitems, hlength,
      of_decide_eq_true hgid, hfound, hmissed⟩

end Directory

lemma Inode.eq_of_fields {i j : Inode} (hmode : i.mode.bits = j.mode.bits) (huid : i.uid = j.uid)
    (hgid : i.gid = j.gid) (hsize : i.sizeField = j.sizeField) (hoffset : i.offset = j.offset)
    (hmtime : i.mtime = j.mtime) : i = j := by
  rcases i with ⟨⟨⟨bits⟩, uid, gid, sizeField, offset, _, _, _⟩, mtime⟩
  rcases j with ⟨⟨⟨bits'⟩, uid', gid', sizeField', offset', _, _, _⟩, mtime'⟩
  simp_all

namespace Path

/-- The path that goes through the given names, with a slash between each two of them. -/
def ofNames (names : List Bytes) : List UInt8 :=
  List.intercalate [0x2f] (names.map (·.data.toList))

/-- The name means itself in a path: it has no slash, and it is neither `.` nor `..`. -/
def IsPlain (name : Bytes) : Prop :=
  0x2f ∉ name.data.toList ∧ name ≠ Bytes.ofList [0x2e] ∧ name ≠ Bytes.ofList [0x2e, 0x2e]

lemma components_of_not_mem {part : List UInt8} (h : 0x2f ∉ part) : components part = [part] := by
  induction part with
  | nil => rfl
  | cons c part ih =>
    obtain ⟨hc, hpart⟩ := not_or.1 (mt List.mem_cons.2 h)
    rw [components, List.foldr_cons, ← components, ih hpart, prepend, if_neg (Ne.symm hc)]
    rfl

lemma components_ne_nil (path : List UInt8) : components path ≠ [] := by
  cases path with
  | nil => exact List.cons_ne_nil _ _
  | cons c path =>
    rw [components, List.foldr_cons, prepend]
    split <;> exact List.cons_ne_nil _ _

lemma prepend_append {parts : List (List UInt8)} (h : parts ≠ []) (c : UInt8)
    (rest : List (List UInt8)) : prepend c (parts ++ rest) = prepend c parts ++ rest := by
  obtain ⟨part, parts, rfl⟩ := List.exists_cons_of_ne_nil h
  unfold prepend
  split <;> rfl

/-- A slash cuts a path in two. -/
lemma components_append (path rest : List UInt8) :
    components (path ++ 0x2f :: rest) = components path ++ components rest := by
  induction path with
  | nil => rfl
  | cons c path ih =>
    rw [List.cons_append, components, List.foldr_cons, ← components, ih,
      prepend_append (components_ne_nil path)]
    rfl

/-- Cutting a path at its slashes gives back the parts that were put together. -/
lemma components_intercalate {part : List UInt8} {parts : List (List UInt8)}
    (h : ∀ p ∈ part :: parts, 0x2f ∉ p) :
    components (List.intercalate [0x2f] (part :: parts)) = part :: parts := by
  induction parts generalizing part with
  | nil =>
    rw [List.intercalate_singleton]
    exact components_of_not_mem (h part List.mem_cons_self)
  | cons next parts ih =>
    obtain ⟨hpart, hrest⟩ := List.forall_mem_cons.1 h
    rw [List.intercalate_cons_cons, List.append_assoc]
    change components (part ++ 0x2f :: List.intercalate [0x2f] (next :: parts)) = _
    rw [components_append, components_of_not_mem hpart, ih hrest]
    rfl

lemma ofComponent_of_isPlain {name : Bytes} (hname : name.size ≠ 0) (hplain : IsPlain name) :
    Step.ofComponent name.data.toList = .enter name := by
  have hself : Bytes.ofList name.data.toList = name := rfl
  have hne (l : List UInt8) (h : name ≠ Bytes.ofList l) : name.data.toList ≠ l :=
    fun heq => h (by rw [← heq, hself])
  have hnil : name ≠ Bytes.ofList [] := by
    rintro rfl
    exact hname rfl
  unfold Step.ofComponent
  rw [if_neg (not_or.2 ⟨hne _ hnil, hne _ hplain.2.1⟩), if_neg (hne _ hplain.2.2), hself]

lemma steps_ofNames {names : List Bytes}
    (h : ∀ name ∈ names, name.size ≠ 0 ∧ IsPlain name) :
    steps (Bytes.ofList (ofNames names)) =
      if names = [] then [.stay] else names.map .enter := by
  cases names with
  | nil => rfl
  | cons name names =>
    have hparts : ∀ p ∈ (name :: names).map (·.data.toList), 0x2f ∉ p := by
      intro p hp
      obtain ⟨name', hname', rfl⟩ := List.mem_map.1 hp
      exact (h name' hname').2.1
    have hcut : components (ofNames (name :: names)) = (name :: names).map (·.data.toList) :=
      components_intercalate hparts
    rw [if_neg (List.cons_ne_nil _ _)]
    change (components (ofNames (name :: names))).map _ = _
    rw [hcut, List.map_map]
    apply List.map_congr_left
    intro name' hname'
    exact ofComponent_of_isPlain (h name' hname').1 (h name' hname').2

/-- The entries lead from the file `dir` down to the file `last`: each is listed in the one before
it, which has no two entries of one name, and has them in order if the image says so. -/
inductive Leads (s : Store) (fs : Filesystem) :
    (dir : Inode) → List Directory.Entry → (last : Inode) → Prop
  | here (dir : Inode) : Leads s fs dir [] dir
  | down {dir last : Inode} {e : Directory.Entry} {entries : List Directory.Entry}
    {items : Directory.Listing} (before : List (Nat × Nat))
    (listed : ((Directory.listAll fs dir 0).run s (s.readAll before .empty).2).1 = .ok items)
    (mem : e ∈ items.entries) (distinct : items.entries.Pairwise fun a b => a.name ≠ b.name)
    (ordered : fs.superblock.isSorted = true →
      items.entries.Pairwise fun a b => a.name.data.toList ≤ b.name.data.toList)
    (plain : IsPlain e.name) (rest : Leads s fs e.inode entries last) :
    Leads s fs dir (e :: entries) last

section Runs

variable {s : Store} {inv : Cache → Prop} {fs : Filesystem} {dir last : Inode}
  {entries : List Directory.Entry} (hsteady : s.Steady inv) (hempty : inv .empty)
  (hmode : s.mode ≠ .char) (hfs : fs.superblock.size < 2 ^ 32)
include hsteady hempty hmode hfs

lemma Leads.names (h : Leads s fs dir entries last) :
    ∀ name ∈ entries.map (·.name), name.size ≠ 0 ∧ IsPlain name := by
  induction h with
  | here => simp
  | down before listed mem distinct ordered plain rest ih =>
    have hname := Directory.name_ne_of_listAll hsteady hempty hmode hfs listed
      (hsteady.readAll before hempty) mem
    exact List.forall_mem_cons.2 ⟨⟨hname, plain⟩, ih⟩

/-- Each step down looks up the name of an entry where it is listed, and so finds it. -/
lemma Leads.run_follow (h : Leads s fs dir entries last) {trail : List Inode}
    (htrail : trail.headD fs.root = dir) {c : Cache} (hc : inv c) :
    ((follow fs ((entries.map (·.name)).map .enter) trail).run s c).1 = .ok (some last) := by
  induction h generalizing trail c with
  | here dir =>
    rw [List.map_nil, List.map_nil, follow, htrail]
    rfl
  | @down dir last e entries items before listed mem distinct ordered plain rest ih =>
    have hbefore := hsteady.readAll before hempty
    have hname := Directory.name_ne_of_listAll hsteady hempty hmode hfs listed hbefore mem
    have hlookup := Directory.run_lookup_of_listAll hsteady hempty hmode hfs hname listed hbefore hc
    rw [Directory.scan_of_mem _ distinct ordered mem] at hlookup
    have hafter := hsteady.inv_run (Directory.lookup fs dir e.name) hc
    rw [List.map_cons, List.map_cons, follow, htrail, Query.run_bind_of_ok hlookup]
    exact ih rfl hafter

end Runs

/-- Out of a store that cannot fail, the names of entries that lead down from the root make a path
that resolves to the last of them, with a slash before the first name or without. -/
theorem resolve_listed {s : Store} (hs : s.Reliable) {ts : Timestamp} {c₀ : Cache}
    {fs : Filesystem} (hfs : ((Filesystem.mount s ts).run s c₀).1 = .ok fs)
    {entries : List Directory.Entry} {last : Inode} (h : Leads s fs fs.root entries last)
    (before : List (Nat × Nat)) :
    ((resolve fs (.ofList (ofNames (entries.map (·.name))))).run s
        (s.readAll before .empty).2).1 = .ok (some last) ∧
      ((resolve fs (.ofList (0x2f :: ofNames (entries.map (·.name))))).run s
        (s.readAll before .empty).2).1 = .ok (some last) := by
  obtain ⟨hmode, hsize⟩ := Filesystem.mount_eq_ok hfs
  obtain ⟨inv, hsteady, hempty⟩ := hs.steady
  have hroot : ([] : List Inode).headD fs.root = fs.root := rfl
  have hfollow := h.run_follow hsteady hempty hmode hsize hroot (hsteady.readAll before hempty)
  have hsteps := steps_ofNames (h.names hsteady hempty hmode hsize)
  have hslash : steps (.ofList (0x2f :: ofNames (entries.map (·.name)))) =
      .stay :: steps (.ofList (ofNames (entries.map (·.name)))) := rfl
  have hresolve : ((follow fs (steps (.ofList (ofNames (entries.map (·.name))))) []).run s
      (s.readAll before .empty).2).1 = .ok (some last) := by
    rw [hsteps]
    split
    · rename_i hnil
      rw [hnil] at hfollow
      exact hfollow
    · exact hfollow
  refine ⟨hresolve, ?_⟩
  rw [resolve, hslash]
  exact hresolve

/-- A sorted image whose root holds one directory, `d`, which is the root again. -/
def loopImage : Bytes :=
  .ofList ([0x45, 0x3d, 0xcd, 0x28, 92, 0, 0, 0, 3] ++ List.replicate 55 0 ++
    [0xed, 0x41, 0, 0, 16, 0, 0, 0, 0xc0, 0x04, 0, 0] ++
    [0xed, 0x41, 0, 0, 16, 0, 0, 0, 0xc1, 0x04, 0, 0, 0x64, 0, 0, 0])

/-- A device with that image. -/
def loopStore : Store := .ofFile loopImage

theorem resolve_listed_loop :
    ∃ fs e, loopStore.Reliable ∧
      ((Filesystem.mount loopStore .epoch).run loopStore .empty).1 = .ok fs ∧
      Leads loopStore fs fs.root [e, e, e] fs.root ∧
      ((resolve fs (.ofList [0x64, 0x2f, 0x64, 0x2f, 0x64])).run loopStore
        (loopStore.readAll [] .empty).2).1 = .ok (some fs.root) ∧
      ((resolve fs (.ofList [0x2f, 0x64, 0x2f, 0x64, 0x2f, 0x64])).run loopStore
        (loopStore.readAll [] .empty).2).1 = .ok (some fs.root) := by
  have hmount : (match (Filesystem.mount loopStore .epoch).answered? loopImage with
      | none => false
      | some fs =>
        match (Directory.listAll fs fs.root 0).answered? loopImage with
        | none => false
        | some items => decide (items.entries.length = 1 ∧ ∀ e ∈ items.entries,
            e.name = .ofList [0x64] ∧
            e.inode.mode.bits = fs.root.mode.bits ∧ e.inode.uid = fs.root.uid ∧
            e.inode.gid = fs.root.gid ∧ e.inode.sizeField = fs.root.sizeField ∧
            e.inode.offset = fs.root.offset ∧ e.inode.mtime = fs.root.mtime)) = true := by
    decide +kernel
  have hreliable : loopStore.Reliable := Store.reliable_ofFile _
  split at hmount
  · simp at hmount
  · rename_i fs hfs
    split at hmount
    · simp at hmount
    · rename_i items hitems
      have hfs : ((Filesystem.mount loopStore .epoch).run loopStore .empty).1 = .ok fs :=
        Store.run_ofFile hfs []
      have hlist := Store.run_ofFile hitems []
      obtain ⟨hlength, hentry⟩ := of_decide_eq_true hmount
      obtain ⟨e, he⟩ := List.length_eq_one_iff.1 hlength
      have hmem : e ∈ items.entries := by
        rw [he]
        exact List.mem_singleton_self e
      obtain ⟨hname, hmode, huid, hgid, hsize, hoffset, hmtime⟩ := hentry e hmem
      have hinode : e.inode = fs.root := Inode.eq_of_fields hmode huid hgid hsize hoffset hmtime
      have hplain : IsPlain e.name := by
        rw [hname]
        unfold IsPlain
        decide
      have hpairwise (r : Directory.Entry → Directory.Entry → Prop) : items.entries.Pairwise r := by
        rw [he]
        exact List.pairwise_singleton r e
      have hdown {entries : List Directory.Entry} {last : Inode}
          (rest : Leads loopStore fs fs.root entries last) :
          Leads loopStore fs fs.root (e :: entries) last := by
        rw [← hinode] at rest
        exact .down [] hlist hmem (hpairwise _) (fun _ => hpairwise _) hplain rest
      have hleads : Leads loopStore fs fs.root [e, e, e] fs.root :=
        hdown (hdown (hdown (.here fs.root)))
      have hpath : ofNames ([e, e, e].map (·.name)) = [0x64, 0x2f, 0x64, 0x2f, 0x64] := by
        simp only [List.map_cons, List.map_nil, hname]
        rfl
      have hresolve := resolve_listed hreliable hfs hleads []
      rw [hpath] at hresolve
      exact ⟨fs, e, hreliable, hfs, hleads, hresolve⟩

end Path

end CompressedRom
