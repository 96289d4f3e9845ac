import CompressedRom.Path
import CompressedRom.Proofs.FileArithmetic
import CompressedRom.Proofs.InflateSize
import CompressedRom.Proofs.QueryContract

/-!
# Contracts of the operations

A mounted image declares a size below 4 GiB, and every operation on it asks for spans that lie
within that size and take at most two pages, so that each fits into a buffer of the block cache.
Directories are walked without a fault, and what is wrong with their bytes is refused as
corruption.
-/

namespace CompressedRom

/-- A span of 32-bit offsets that a buffer of the block cache can hold. -/
def Fits (offset len : Nat) : Prop :=
  offset + len ≤ 2 ^ 32 ∧ offset % pageSize + len ≤ bufferSize

instance (offset len : Nat) : Decidable (Fits offset len) := inferInstanceAs (Decidable (_ ∧ _))

/-- A span that operations on a mounted image may ask for. -/
def Filesystem.Allows (fs : Filesystem) (offset len : Nat) : Prop :=
  offset + len ≤ fs.superblock.size ∧ len ≤ File.maxCompressedPage

lemma Filesystem.Allows.fits {fs : Filesystem} (hfs : fs.superblock.size < 2 ^ 32)
    {offset len : Nat} (h : fs.Allows offset len) : Fits offset len := by
  obtain ⟨hsize, hlen⟩ := h
  refine ⟨by omega, ?_⟩
  unfold File.maxCompressedPage at hlen
  unfold bufferSize pagesPerBuffer bufferShift
  have : offset % pageSize < pageSize := Nat.mod_lt _ (by decide)
  omega

/-- The bytes of the image are at fault. -/
def Failure.IsCorrupt : Failure → Prop
  | .refused cause => cause.kind = .corrupt
  | .fault _ => False

lemma Failure.IsCorrupt.refused {failure : Failure} (h : failure.IsCorrupt) :
    ∃ cause, failure = .refused cause := by
  cases failure with
  | refused cause => exact ⟨cause, rfl⟩
  | fault step => exact h.elim

section Runs

variable {α : Type} {s : Store}

lemma Store.read_fits (hs : s.mode ≠ .char) {offset len : Nat} (h : Fits offset len) (c : Cache) :
    match (s.read offset len c).1 with
    | .ok span => span.size = len
    | .error failure => ∃ cause, failure = .refused cause := by
  cases s with
  | mapped m =>
    rw [read, Mapping.read_eq]
    split_ifs with hl hin
    · rw [hl]
      exact Bytes.size_zeros 0
    · dsimp only
      rw [ByteArray.size_extract]
      omega
    · exact ⟨_, rfl⟩
  | buffered d length? =>
    unfold read
    split
    · exact Cache.size_read (by assumption)
    · obtain ⟨e, he, -⟩ := Cache.breaks_of_read h.1 h.2 (by assumption)
      exact ⟨_, he⟩
  | characters => exact absurd rfl hs

lemma Query.Meets.fits {q : Query α} {fs : Filesystem} {stops : Failure → Prop} {post : α → Prop}
    (hq : q.Meets fs.Allows stops post) (hfs : fs.superblock.size < 2 ^ 32) :
    q.Meets Fits stops post :=
  hq.mono_asks fun _ _ h => h.fits hfs

lemma Query.Meets.run_fits {q : Query α} {stops : Failure → Prop} {post : α → Prop}
    (hq : q.Meets Fits stops post) (hs : s.mode ≠ .char) (c : Cache) :
    match (q.run s c).1 with
    | .ok a => post a
    | .error failure => stops failure ∨ ∃ cause, failure = .refused cause :=
  hq.run (fun _ _ c hfits => Store.read_fits hs hfits c) c

lemma Query.Meets.run_cases {q : Query α} {stops : Failure → Prop} {post : α → Prop}
    (hq : q.Meets Fits stops post) (hs : s.mode ≠ .char) (c : Cache) :
    (∀ a, (q.run s c).1 = .ok a → post a) ∧
      ∀ failure, (q.run s c).1 = .error failure →
        stops failure ∨ ∃ cause, failure = .refused cause := by
  have hrun := hq.run_fits hs c
  constructor
  · intro a ha
    rwa [ha] at hrun
  · intro failure hfailure
    rwa [hfailure] at hrun

end Runs

namespace Query

variable {α β : Type}

/-- Whatever the store, a value that `q` comes to satisfies `post`. -/
def Yields (q : Query α) (post : α → Prop) : Prop :=
  ∀ s c a, (q.run s c).1 = .ok a → post a

lemma Yields.bind {q : Query α} {f : α → Query β} {post : α → Prop} {post' : β → Prop}
    (hq : q.Yields post) (hf : ∀ a, post a → (f a).Yields post') : (q >>= f).Yields post' := by
  intro s c b h
  obtain ⟨a, c', hr, ha⟩ := run_bind_eq_ok h
  exact hf a (hq s c a (congrArg Prod.fst hr)) s c' b ha

lemma Yields.pure {a : α} {post : α → Prop} (h : post a) : (Pure.pure a : Query α).Yields post :=
  fun _ _ _ hr => Except.ok.inj hr ▸ h

lemma Yields.refuse {cause : Error} {post : α → Prop} : (Query.refuse cause).Yields post :=
  fun _ _ _ hr => by simp [Query.refuse, run] at hr

lemma Yields.ofExcept {x : Except Error α} {post : α → Prop} (h : ∀ a, x = .ok a → post a) :
    (liftM x : Query α).Yields post := by
  intro s c a hr
  cases x with
  | ok b => exact Except.ok.inj hr ▸ h b rfl
  | error cause =>
    change Except.error _ = Except.ok a at hr
    simp at hr

lemma Yields.trivial (q : Query α) : q.Yields fun _ => True := fun _ _ _ _ => True.intro

lemma Yields.attempt {q : Query α} {post : α → Prop} (hq : q.Yields post) :
    q.attempt.Yields fun x => ∀ a, x = .ok a → post a := by
  rintro s c x h a rfl
  rw [run_attempt] at h
  rcases hr : q.run s c with ⟨failure | a', c'⟩
  · cases failure <;> simp [hr] at h
  · simp only [hr, Except.ok.injEq] at h
    exact h ▸ hq s c a' (by rw [hr])

end Query

namespace Superblock

lemma yields_readHeader (offset : Nat) : (readHeader offset).Yields fun h => h.size < 2 ^ 32 := by
  refine (Query.Yields.trivial _).bind fun bytes _ => ?_
  split
  · rename_i h hunpack
    apply Query.Yields.pure
    unfold Header.unpack? at hunpack
    split at hunpack
    · rcases hroot : Record.unpack? (bytes.extract 64 76) with _ | root
      · simp [hroot] at hunpack
      · simp only [hroot, Option.map_some, Option.some.injEq] at hunpack
        exact hunpack ▸ Bytes.wordAt_lt _ _
    · simp at hunpack
  · exact .refuse

lemma yields_locate : locate.Yields fun found => found.2.size < 2 ^ 32 := by
  refine (yields_readHeader 0).bind fun first hfirst => ?_
  split
  · exact .pure hfirst
  · refine (yields_readHeader bootSectorSize).attempt.bind fun second hsecond => ?_
    split
    · split
      · exact .pure (hsecond _ rfl)
      · exact .refuse
    · exact .refuse

lemma size_lt_of_ofHeader {base : Nat} {h : Header} {sb : Superblock} (hh : h.size < 2 ^ 32)
    (hsb : ofHeader base h = .ok sb) : sb.size < 2 ^ 32 := by
  unfold ofHeader at hsb
  split at hsb
  · simp at hsb
  · split at hsb
    · simp at hsb
    · split at hsb
      · simp at hsb
      · rw [← Except.ok.inj hsb]
        dsimp only
        split
        · exact hh
        · decide

lemma yields_parse : parse.Yields fun sb => sb.size < 2 ^ 32 := by
  exact yields_locate.bind fun found hfound =>
    .ofExcept fun sb hsb => size_lt_of_ofHeader hfound hsb

end Superblock

namespace Filesystem

/-- The mounted image that a superblock describes. -/
def ofSuperblock (s : Store) (ts : Timestamp) (sb : Superblock) : Filesystem where
  mode := s.mode
  physBase? := s.physBase?
  isInPlace := s.isInPlace
  superblock := sb
  root := .ofRecord sb.root ts
  timestamp := ts

lemma mount_eq {s : Store} (hs : s.mode ≠ .char) (ts : Timestamp) :
    mount s ts = Superblock.parse >>= fun sb => pure (ofSuperblock s ts sb) := by
  unfold mount Query.ensure
  rw [if_pos hs]
  rfl

/-- A store that has been mounted can be read, and its image declares a size below 4 GiB. -/
lemma mount_eq_ok {s s' : Store} {ts : Timestamp} {c : Cache} {fs : Filesystem}
    (h : ((mount s ts).run s' c).1 = .ok fs) : s.mode ≠ .char ∧ fs.superblock.size < 2 ^ 32 := by
  by_cases hs : s.mode ≠ .char
  · rw [mount_eq hs] at h
    have hmount : (Superblock.parse >>= fun sb => pure (ofSuperblock s ts sb)).Yields
        fun fs => fs.superblock.size < 2 ^ 32 :=
      Superblock.yields_parse.bind fun sb hsb => .pure hsb
    exact ⟨hs, hmount _ _ _ h⟩
  · unfold mount Query.ensure at h
    rw [if_neg hs] at h
    simp [Query.refuse, Query.run] at h

/-- Past the declared size nothing is read. -/
lemma meets_read {fs : Filesystem} {stops : Failure → Prop} {offset len : Nat}
    (hc : ∀ failure, failure.IsCorrupt → stops failure)
    (hw : 2 ^ 64 ≤ offset + len → stops (.fault .overflow)) (hl : len ≤ File.maxCompressedPage) :
    (fs.read offset len).Meets fs.Allows stops fun b =>
      b.size = len ∧ offset + len ≤ fs.superblock.size := by
  unfold read
  refine (Query.Meets.add hw).bind fun stop hstop => ?_
  refine (Query.Meets.ensure fun _ => hc (.refused (.outsideImage ..)) rfl).bind fun _ hle => ?_
  rw [hstop.1] at hle
  apply (Query.Meets.span ⟨hle, hl⟩).mono_post
  intro b hb
  exact ⟨hb, hle⟩

end Filesystem

namespace Directory

variable {fs : Filesystem}

/-- The entry that a directory has at `pos`: it takes at least 16 bytes, which lie within the
declared size, and has a name of at most 252 bytes that does not end with a zero byte. -/
structure Entry.Lies (fs : Filesystem) (dir : Inode) (pos : Nat) (e : Entry) : Prop where
  offset_eq : e.offset = pos
  next_mod : e.next % 4 = pos % 4
  le_next : pos + 16 ≤ e.next
  next_le : dir.offset + e.next ≤ fs.superblock.size
  name_ne : e.name.size ≠ 0
  name_le : e.name.size ≤ 252
  last_ne : e.name.byteAt (e.name.size - 1) ≠ 0

lemma Entry.Lies.lt_next {dir : Inode} {pos : Nat} {e : Entry} (h : e.Lies fs dir pos) :
    pos < e.next := by
  have := h.le_next
  omega

lemma meets_entryAt_lies (hfs : fs.superblock.size < 2 ^ 32) (dir : Inode) (pos : Nat) :
    (entryAt fs dir pos).Meets fs.Allows Failure.IsCorrupt (Entry.Lies fs dir pos) := by
  -- The size of the image bounds every sum below: none of them leaves its word.
  have hcorrupt : ∀ failure : Failure, failure.IsCorrupt → failure.IsCorrupt := fun _ h => h
  unfold entryAt
  dsimp only
  refine Query.Meets.bind (Query.Meets.ensure fun _ => rfl) fun _ hoffset => ?_
  have hmax : Word.max 32 < 2 ^ 32 := by decide
  refine (Filesystem.meets_read hcorrupt (fun h => ?_) (by decide)).bind fun bytes hbytes => ?_
  · unfold Record.size at h
    omega
  · split
    · exact Query.Meets.refuse rfl
    · rename_i record hrecord
      have hname := record.nameLen_lt
      have hmod := record.nameLen_mod
      have hsize : Record.size = 12 := rfl
      refine (Query.Meets.add (fun h => ?_)).bind fun nameOffset hnameOffset => ?_
      · omega
      · refine (Filesystem.meets_read hcorrupt (fun h => ?_) ?_).bind fun padded hpadded => ?_
        · omega
        · unfold File.maxCompressedPage pageSize pageShift
          omega
        · refine Query.Meets.bind (Query.Meets.ensure fun _ => rfl) fun _ hne => ?_
          refine (Query.Meets.add (fun h => ?_)).bind fun next hnext => ?_
          · omega
          · -- A name takes a multiple of four bytes, and a name that is there takes some.
            have hle : padded.trimZeros.size ≤ record.nameLen := by
              rw [Bytes.size_trimZeros, ← hpadded.1]
              exact padded.usedUpTo_le _
            apply Query.Meets.pure
            constructor
            · rfl
            · change next % 4 = pos % 4
              omega
            · change pos + 16 ≤ next
              omega
            · change dir.offset + next ≤ _
              omega
            · exact hne
            · change padded.trimZeros.size ≤ 252
              omega
            · exact Bytes.byteAt_trimZeros hne

/-- An entry ends behind where it starts, and has a name. -/
lemma meets_entryAt (hfs : fs.superblock.size < 2 ^ 32) (dir : Inode) (pos : Nat) :
    (entryAt fs dir pos).Meets fs.Allows Failure.IsCorrupt fun e =>
      pos < e.next ∧ e.name.size ≠ 0 := by
  apply (meets_entryAt_lies hfs dir pos).mono_post
  intro e he
  exact ⟨he.lt_next, he.name_ne⟩

lemma run_entryAt_lies {s : Store} (hs : s.mode ≠ .char) (hfs : fs.superblock.size < 2 ^ 32)
    (dir : Inode) (pos : Nat) (c : Cache) :
    match ((entryAt fs dir pos).run s c).1 with
    | .ok e => e.Lies fs dir pos
    | .error failure => ∃ cause, failure = .refused cause := by
  obtain ⟨hok, herror⟩ := ((meets_entryAt_lies hfs dir pos).fits hfs).run_cases hs c
  rcases hr : ((entryAt fs dir pos).run s c).1 with failure | e
  · exact (herror failure hr).elim Failure.IsCorrupt.refused id
  · exact hok e hr

lemma run_entryAt {s : Store} (hs : s.mode ≠ .char) (hfs : fs.superblock.size < 2 ^ 32)
    (dir : Inode) (pos : Nat) (c : Cache) :
    match ((entryAt fs dir pos).run s c).1 with
    | .ok e => pos < e.next ∧ e.name.size ≠ 0
    | .error failure => ∃ cause, failure = .refused cause := by
  have hrun := run_entryAt_lies hs hfs dir pos c
  rcases hr : ((entryAt fs dir pos).run s c).1 with failure | e
  · rwa [hr] at hrun
  · rw [hr] at hrun
    exact ⟨hrun.lt_next, hrun.name_ne⟩

/-- A listing always comes to an end of its own, and starts with what was found before. -/
lemma run_listFrom {s : Store} (hs : s.mode ≠ .char) (hfs : fs.superblock.size < 2 ^ 32)
    (dir : Inode) (limit pos : Nat) (found : List Entry) (c : Cache) :
    ∃ items, ((listFrom fs dir limit pos found).run s c).1 = .ok items ∧
      found.reverse <+: items.entries := by
  induction limit generalizing c pos found with
  | zero => exact ⟨_, rfl, List.prefix_rfl⟩
  | succ limit ih =>
    rw [listFrom]
    split
    · have hentry := run_entryAt hs hfs dir pos c
      rw [Query.run_bind, Query.run_attempt]
      rcases hrun : (entryAt fs dir pos).run s c with ⟨failure | entry, c'⟩
      · rw [hrun] at hentry
        obtain ⟨cause, rfl⟩ := hentry
        exact ⟨_, rfl, List.prefix_rfl⟩
      · obtain ⟨items, hitems, hfound⟩ := ih entry.next (entry :: found) c'
        refine ⟨items, hitems, List.IsPrefix.trans ?_ hfound⟩
        rw [List.reverse_cons]
        exact List.prefix_append _ _
    · exact ⟨_, rfl, List.prefix_rfl⟩

lemma meets_search (hfs : fs.superblock.size < 2 ^ 32) (dir : Inode) (name : Bytes)
    (first : UInt8) (limit pos : Nat) :
    (search fs dir name first limit pos).Meets fs.Allows Failure.IsCorrupt fun _ => True := by
  induction limit generalizing pos with
  | zero => exact .pure trivial
  | succ limit ih =>
    rw [search]
    split
    · refine (meets_entryAt hfs dir pos).bind fun entry hentry => ?_
      refine (Query.Meets.within fun step hstep => ?_).bind fun initial hinitial => ?_
      · simp [Bytes.byte, Nat.pos_of_ne_zero hentry.2] at hstep
      · dsimp only
        split
        · exact .pure trivial
        · split
          · exact ih _
          · split
            · exact ih _
            · exact .pure trivial
            · split
              · exact .pure trivial
              · exact ih _
    · exact .pure trivial

lemma meets_lookup (hfs : fs.superblock.size < 2 ^ 32) (dir : Inode) (name : Bytes) :
    (lookup fs dir name).Meets fs.Allows
      (fun failure => failure.IsCorrupt ∨
        ¬dir.isDirectory ∧ failure = .refused (.notDirectory dir.number)) fun _ => True := by
  unfold lookup
  refine Query.Meets.bind (Query.Meets.ensure fun h => .inr ⟨h, rfl⟩) fun _ _ => ?_
  split
  · exact .pure trivial
  · rename_i hne
    refine (Query.Meets.within fun step hstep => ?_).bind fun first _ => ?_
    · simp [Bytes.byte, Nat.pos_of_ne_zero hne] at hstep
    · exact (meets_search hfs dir name first _ 0).mono_stops fun _ h => .inl h

end Directory

namespace Path

variable {fs : Filesystem}

lemma meets_follow (hfs : fs.superblock.size < 2 ^ 32) (steps : List Step) (trail : List Inode) :
    (follow fs steps trail).Meets fs.Allows
      (fun failure => failure.IsCorrupt ∨ ∃ number, failure = .refused (.notDirectory number))
      fun _ => True := by
  induction steps generalizing trail with
  | nil => exact .pure trivial
  | cons step steps ih =>
    cases step with
    | stay => exact ih _
    | back => exact ih _
    | enter name =>
      rw [follow]
      have hlookup : (Directory.lookup fs (trail.headD fs.root) name).Meets fs.Allows
          (fun failure => failure.IsCorrupt ∨
            ∃ number, failure = .refused (.notDirectory number)) fun _ => True :=
        (Directory.meets_lookup hfs _ name).mono_stops fun _ h => h.imp id fun h => ⟨_, h.2⟩
      refine hlookup.bind fun found _ => ?_
      cases found with
      | none => exact .pure trivial
      | some inode => exact ih _

lemma meets_resolve (hfs : fs.superblock.size < 2 ^ 32) (path : Bytes) :
    (resolve fs path).Meets fs.Allows
      (fun failure => failure.IsCorrupt ∨ ∃ number, failure = .refused (.notDirectory number))
      fun _ => True :=
  meets_follow hfs _ _

end Path

namespace File

variable {fs : Filesystem} {inode : Inode} {index : Nat}

lemma meets_read {offset len : Nat} (ho : offset < 2 ^ 32) (hl : len ≤ maxCompressedPage) :
    (fs.read offset len).Meets fs.Allows Failure.IsCorrupt fun b => b.size = len := by
  have hsize : maxCompressedPage < 2 ^ 32 := by decide
  exact (Filesystem.meets_read (fun _ h => h) (fun h => by omega) hl).mono_post fun _ h => h.1

lemma meets_readWord {offset : Nat} (ho : offset < 2 ^ 32) :
    (fs.readWord offset).Meets fs.Allows Failure.IsCorrupt fun n => n < 2 ^ 32 := by
  refine (meets_read ho (by decide)).bind fun bytes hbytes => ?_
  have hword : bytes.word = .ok (bytes.wordAt 0) := if_pos (Nat.le_of_eq hbytes.symm)
  refine (Query.Meets.within fun step hstep => ?_).mono_post fun n hn => ?_
  · rw [hword] at hstep
    simp at hstep
  · rw [← Except.ok.inj (hword.symm.trans hn)]
    exact Bytes.wordAt_lt _ _

lemma meets_storedPage (hindex : index < inode.pageCount) :
    (storedPage fs inode index).Meets fs.Allows Failure.IsCorrupt fun b => b.size = pageSize := by
  have hcount := inode.pageCount_le
  have hoffset := inode.offset_lt
  have haligned := Page.aligned_lt inode.offset
  rw [pageSize_eq] at haligned
  rw [storedPage_eq fs hindex]
  refine (meets_read (by rw [pageSize_eq]; omega) (by decide)).bind fun bytes hbytes => ?_
  rw [if_pos hbytes]
  exact .pure hbytes

lemma meets_pageBounds (hindex : index < inode.pageCount) :
    (pageBounds fs inode index).Meets fs.Allows Failure.IsCorrupt fun bounds =>
      bounds.1 < 2 ^ 32 := by
  have hcount := inode.pageCount_le
  have hoffset := inode.offset_lt
  cases index with
  | zero =>
    rw [pageBounds_zero]
    refine (meets_readWord (by omega)).bind fun stop _ => .pure ?_
    change inode.offset + 4 * inode.pageCount < 2 ^ 32
    omega
  | succ index =>
    rw [pageBounds_succ fs hindex]
    refine (meets_readWord (by omega)).bind fun start hstart => ?_
    exact (meets_readWord (by omega)).bind fun stop _ => .pure hstart

lemma meets_compressedPage (hindex : index < inode.pageCount) :
    (compressedPage fs inode index).Meets fs.Allows Failure.IsCorrupt fun b =>
      b.size ≤ pageSize := by
  rw [compressedPage, unpackedPage_eq]
  refine (meets_pageBounds hindex).bind fun bounds hbounds => ?_
  obtain ⟨start, stop⟩ := bounds
  refine Query.Meets.bind (Query.Meets.ensure fun _ => rfl) fun _ hlen => ?_
  split
  · exact .pure (Nat.zero_le _)
  · refine (meets_read hbounds hlen.2).bind fun packed _ => ?_
    split
    · rename_i bytes hbytes
      exact .pure (Zlib.size_decompress_le hbytes)
    · exact .refuse rfl

lemma meets_pageBytes (inode : Inode) (index : Nat) :
    (pageBytes fs inode index).Meets fs.Allows Failure.IsCorrupt fun b => b.size ≤ pageSize := by
  unfold pageBytes
  split
  · exact .pure (Nat.zero_le _)
  · rename_i hindex
    have hindex := Nat.lt_of_not_le hindex
    split
    · exact (meets_storedPage hindex).mono_post fun _ h => Nat.le_of_eq h
    · exact meets_compressedPage hindex

lemma meets_readPageInto (inode : Inode) (index : Nat) (buffer : Bytes) :
    (readPageInto fs inode index buffer).Meets fs.Allows
      (fun failure => failure.IsCorrupt ∨
        buffer.size ≠ pageSize ∧ failure = .refused (.badPageBuffer buffer.size pageSize) ∨
        ¬inode.hasPages ∧ failure = .refused (.noDataPages inode.number))
      fun page => page.size = pageSize := by
  unfold readPageInto
  refine Query.Meets.bind (Query.Meets.ensure fun h => .inr (.inl ⟨h, rfl⟩)) fun _ hbuffer => ?_
  refine Query.Meets.bind (Query.Meets.ensure fun h => .inr (.inr ⟨h, rfl⟩)) fun _ _ => ?_
  refine ((meets_pageBytes inode index).mono_stops fun _ h => .inl h).bind fun bytes hbytes => ?_
  have hpadded := padded_of_le (hbuffer.symm ▸ hbytes : bytes.size ≤ buffer.size)
  refine (Query.Meets.within fun step hstep => ?_).mono_post fun page hpage => ?_
  · rw [hpadded] at hstep
    simp at hstep
  · rw [← Except.ok.inj (hpadded.symm.trans hpage), ByteArray.size_append, Bytes.size_zeros]
    omega

lemma meets_readPage (inode : Inode) (index : Nat) :
    (readPage fs inode index).Meets fs.Allows
      (fun failure => failure.IsCorrupt ∨
        ¬inode.hasPages ∧ failure = .refused (.noDataPages inode.number))
      fun page => page.size = pageSize := by
  refine (meets_readPageInto inode index _).mono_stops fun failure h => ?_
  rcases h with h | ⟨h, -⟩ | h
  · exact .inl h
  · exact absurd (Bytes.size_zeros pageSize) h
  · exact .inr h

lemma meets_copyPage {pos stop : Nat} {buffer : Bytes} (hstop : stop < 2 ^ 24)
    (hbuffer : stop ≤ pos + buffer.size) (hpos : pos < stop) (hindex : index ∈ touched pos stop) :
    (copyPage fs inode pos stop buffer index).Meets fs.Allows
      (fun failure => failure.IsCorrupt ∨
        ¬inode.hasPages ∧ failure = .refused (.noDataPages inode.number))
      fun b => b.size = buffer.size := by
  rw [copyPage_eq]
  refine (meets_readPage inode index).bind fun page hpage => ?_
  obtain ⟨hfirst, hlast⟩ := mem_touched.1 hindex
  obtain ⟨b, hb, hsize, -⟩ := pastePage_eq_ok hpage hstop hbuffer hpos hfirst hlast
  refine (Query.Meets.within fun step hstep => ?_).mono_post fun b' hb' => ?_
  · rw [hb] at hstep
    simp at hstep
  · rw [← Except.ok.inj (hb.symm.trans hb'), hsize]

lemma meets_readAt (inode : Inode) (pos : Nat) (buffer : Bytes) :
    (readAt fs inode pos buffer).Meets fs.Allows
      (fun failure => failure.IsCorrupt ∨
        ¬inode.hasPages ∧ failure = .refused (.noDataPages inode.number) ∨
        (pos < inode.size ∧ 2 ^ 64 ≤ pos + buffer.size) ∧ failure = .fault .overflow)
      fun read => read.2.size = buffer.size := by
  unfold readAt
  refine Query.Meets.bind (Query.Meets.ensure fun h => .inr (.inl ⟨h, rfl⟩)) fun _ _ => ?_
  split
  · exact .pure rfl
  · rename_i hsome
    have hbefore : pos < inode.size := by omega
    refine (Query.Meets.add fun h => .inr (.inr ⟨⟨hbefore, h⟩, rfl⟩)).bind fun wanted hwanted => ?_
    rw [hwanted.1]
    have hsize := inode.size_lt
    have hcopy : ((touched pos (min inode.size (pos + buffer.size))).foldlM
        (copyPage fs inode pos (min inode.size (pos + buffer.size))) buffer).Meets fs.Allows
        (fun failure => failure.IsCorrupt ∨
          ¬inode.hasPages ∧ failure = .refused (.noDataPages inode.number))
        fun b => b.size = buffer.size := by
      refine Query.Meets.foldlM (fun b hb index hindex => ?_) rfl
      exact (meets_copyPage (by omega) (by omega) (by omega) hindex).mono_post fun _ h => h.trans hb
    refine (hcopy.mono_stops fun _ h => h.imp id .inl).bind fun b hb => ?_
    refine (Query.Meets.within fun step hstep => ?_).bind fun count _ => .pure hb
    rw [Word.sub_eq_ok (by omega)] at hstep
    simp at hstep

lemma meets_readLink (inode : Inode) :
    (readLink fs inode).Meets fs.Allows
      (fun failure => failure.IsCorrupt ∨
        ¬inode.isSymlink ∧ failure = .refused (.noDataPages inode.number)) fun _ => True := by
  have hsize := inode.size_lt
  unfold readLink
  refine Query.Meets.bind (Query.Meets.ensure fun h => .inr ⟨h, rfl⟩) fun _ hlink => ?_
  have hpages : inode.hasPages := by
    unfold Inode.hasPages
    rw [hlink, Bool.or_true]
  refine ((meets_readAt inode 0 _).mono_stops fun failure h => ?_).bind fun _ _ => .pure trivial
  rcases h with h | ⟨h, -⟩ | ⟨⟨-, h⟩, -⟩
  · exact .inl h
  · exact absurd hpages h
  · rw [Bytes.size_zeros] at h
    omega

end File

end CompressedRom
