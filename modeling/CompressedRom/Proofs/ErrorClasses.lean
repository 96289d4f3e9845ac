import CompressedRom.Proofs.DirectoryFormat
import CompressedRom.Proofs.ImageComparison

/-!
# Classes of errors

A client that asks for something that cannot be had is told whose fault it is. On a mounted image
a request is wrong in itself only for reasons that the client can see from the inode and the
arguments; the device is at fault only if one of the calls of this very request came to nothing;
and all else is corruption. In particular no image provokes a read that fits into no buffer:
`Filesystem.error_classes`.
-/

namespace CompressedRom

/-- The call to the device of the store comes to nothing: it fails, or it brings no bytes. -/
def Store.Breaks (s : Store) (k : Device.Call) (e : IoError) : Prop :=
  match s with
  | buffered d _ => k.Breaks d e
  | mapped _ | characters => False

/-- The cause is corruption, or the error of one of the calls `ks`, which came to nothing. -/
def Error.Stems (s : Store) (ks : List Device.Call) (cause : Error) : Prop :=
  cause.kind = .corrupt ∨ ∃ e, cause = .io e ∧ ∃ k ∈ ks, s.Breaks k e

/-- The request is wrong in itself, and not for a span that it came to read. -/
def Error.IsMisuse (cause : Error) : Prop :=
  cause.kind = .invalidArgument ∧ ∀ offset len, cause ≠ .spanTooLarge offset len

namespace Error.Stems

variable {s : Store} {ks ks' : List Device.Call} {cause : Error}

lemma mono (h : cause.Stems s ks) (hks : ∀ k ∈ ks, k ∈ ks') : cause.Stems s ks' := by
  rcases h with hkind | ⟨e, he, k, hk, hbreaks⟩
  · exact .inl hkind
  · exact .inr ⟨e, he, k, hks k hk, hbreaks⟩

lemma kind_ne (h : cause.Stems s ks) {k : ErrorKind} (hcorrupt : k ≠ .corrupt) (hio : k ≠ .io) :
    cause.kind ≠ k := by
  rcases h with h | ⟨e, rfl, -⟩
  · rw [h]
    exact hcorrupt.symm
  · exact hio.symm

lemma ne_spanTooLarge (h : cause.Stems s ks) (offset len : Nat) :
    cause ≠ .spanTooLarge offset len := by
  rintro rfl
  exact h.kind_ne (k := .invalidArgument) (by decide) (by decide) rfl

end Error.Stems

section Runs

variable {α : Type} {s : Store} {c : Cache}

/-- A span that fits is refused for the sake of the image or of a call to the device. -/
lemma Store.stems_of_read (hs : s.mode ≠ .char) {offset len : Nat} (h : Fits offset len)
    {failure : Failure} (hr : (s.read offset len c).1 = .error failure) :
    ∃ cause, failure = .refused cause ∧ cause.Stems s (s.readCalls offset len c) := by
  cases s with
  | mapped m =>
    change m.read offset len = _ at hr
    rw [Mapping.read_eq] at hr
    split_ifs at hr
    rw [← Except.error.inj hr]
    exact ⟨_, rfl, .inl rfl⟩
  | buffered d length? =>
    obtain ⟨e, rfl, k, hk, hbreaks⟩ := Cache.breaks_of_read h.1 h.2 hr
    exact ⟨_, rfl, .inr ⟨e, rfl, k, hk, hbreaks⟩⟩
  | characters => exact absurd rfl hs

/-- Beside what a contract says, a query fails only for the sake of the image or of one of its calls
to the device. -/
lemma Query.Meets.stems {q : Query α} {stops : Failure → Prop} {post : α → Prop}
    (hq : q.Meets Fits stops post) (hs : s.mode ≠ .char) {failure : Failure}
    (hr : (q.run s c).1 = .error failure) :
    stops failure ∨ ∃ cause, failure = .refused cause ∧ cause.Stems s (q.calls s c) := by
  induction q generalizing c with
  | done a => simp [Query.run] at hr
  | stop failure' =>
    rw [← Except.error.inj hr]
    exact .inl hq.of_stop
  | ask offset len next ih =>
    obtain ⟨hfits, hrefused, hnext⟩ := hq.of_ask
    rw [Query.run] at hr
    rw [Query.calls]
    -- Calls are gathered along the run: those of a span that fails are the last ones.
    rcases hread : s.read offset len c with ⟨failure' | span, c'⟩
    · obtain ⟨cause, rfl, hstems⟩ := s.stems_of_read hs hfits (congrArg Prod.fst hread)
      rw [hread] at hr
      dsimp only at hr ⊢
      rw [hrefused] at hr
      rw [← Except.error.inj hr]
      refine .inr ⟨cause, rfl, hstems.mono ?_⟩
      intro k hk
      exact List.mem_append_left _ hk
    · rw [hread] at hr
      have hsize := Store.read_fits hs hfits c
      rw [hread] at hsize
      refine (ih _ (hnext span hsize) hr).imp id ?_
      rintro ⟨cause, rfl, hstems⟩
      refine ⟨cause, rfl, hstems.mono ?_⟩
      intro k hk
      exact List.mem_append_right _ hk

end Runs

/-- The operation is not refused for a span that fits into no buffer. -/
def Query.SpansFit {α : Type} (q : Query α) (s : Store) (c : Cache) : Prop :=
  ∀ offset len, (q.run s c).1 ≠ .error (.refused (.spanTooLarge offset len))

lemma Query.SpansFit.map {α β : Type} {q : Query α} {s : Store} {c : Cache} (hq : q.SpansFit s c)
    (f : α → β) : (f <$> q).SpansFit s c := by
  intro offset len h
  rw [run_map] at h
  rcases hr : (q.run s c).1 with failure | a
  · rw [hr] at h
    exact hq offset len (hr.trans (congrArg Except.error (Except.error.inj h)))
  · rw [hr] at h
    simp [Except.map] at h

/-- The refusals of an operation, which is wrong in itself just if `wrong` holds. -/
structure Query.Classified {α : Type} (q : Query α) (s : Store) (c : Cache) (wrong : Prop) : Prop
    where
  invalidArgument : (∃ cause, (q.run s c).1 = .error (.refused cause) ∧
    cause.kind = .invalidArgument) ↔ wrong
  unsupported : ∀ cause, (q.run s c).1 = .error (.refused cause) → cause.kind ≠ .unsupported
  io : ∀ cause, (q.run s c).1 = .error (.refused cause) → cause.kind = .io →
    ∃ e, cause = .io e ∧ ∃ k ∈ q.calls s c, s.Breaks k e
  corrupt : ∀ cause, (q.run s c).1 = .error (.refused cause) → ¬wrong →
    (∀ k ∈ q.calls s c, ∀ e, ¬s.Breaks k e) → cause.kind = .corrupt
  spansFit : q.SpansFit s c

namespace Query.Classified

variable {α : Type} {s : Store} {c : Cache} {wrong : Prop} {q : Query α}

/-- It is enough to tell misuse from causes that stem from the image or the device. -/
lemma of_cases
    (hcases : ∀ cause, (q.run s c).1 = .error (.refused cause) →
      wrong ∧ cause.IsMisuse ∨ cause.Stems s (q.calls s c))
    (hwrong : wrong → ∃ cause, (q.run s c).1 = .error (.refused cause) ∧ cause.IsMisuse) :
    q.Classified s c wrong where
  invalidArgument := by
    constructor
    · rintro ⟨cause, hr, hkind⟩
      rcases hcases cause hr with ⟨h, -⟩ | hstems
      · exact h
      · exact absurd hkind (hstems.kind_ne (by decide) (by decide))
    · intro h
      obtain ⟨cause, hr, hmisuse⟩ := hwrong h
      exact ⟨cause, hr, hmisuse.1⟩
  unsupported := by
    intro cause hr
    rcases hcases cause hr with ⟨-, hmisuse⟩ | hstems
    · rw [hmisuse.1]
      decide
    · exact hstems.kind_ne (by decide) (by decide)
  io := by
    intro cause hr hkind
    rcases hcases cause hr with ⟨-, hmisuse⟩ | hcorrupt | hio
    · rw [hmisuse.1] at hkind
      simp at hkind
    · rw [hcorrupt] at hkind
      simp at hkind
    · exact hio
  corrupt := by
    intro cause hr hright hcalls
    rcases hcases cause hr with ⟨h, -⟩ | hcorrupt | ⟨e, -, k, hk, hbreaks⟩
    · exact absurd h hright
    · exact hcorrupt
    · exact absurd hbreaks (hcalls k hk e)
  spansFit := by
    intro offset len hr
    rcases hcases _ hr with ⟨-, hmisuse⟩ | hstems
    · exact hmisuse.2 offset len rfl
    · exact hstems.ne_spanTooLarge offset len rfl

lemma of_ok {a : α} (hr : (q.run s c).1 = .ok a) (hright : ¬wrong) : q.Classified s c wrong := by
  apply of_cases
  · intro cause hcause
    rw [hr] at hcause
    simp at hcause
  · intro hwrong
    exact absurd hwrong hright

lemma of_refuse {cause : Error} (hwrong : wrong) (hmisuse : cause.IsMisuse) :
    (Query.refuse cause : Query α).Classified s c wrong := by
  apply of_cases
  · intro cause' hcause
    obtain rfl := Failure.refused.inj (Except.error.inj hcause)
    exact .inl ⟨hwrong, hmisuse⟩
  · intro _
    exact ⟨cause, rfl, hmisuse⟩

/-- A contract leaves misuse to be told apart, where it says how the operation stops of itself. -/
lemma of_meets {fs : Filesystem} (hfs : fs.superblock.size < 2 ^ 32) (hs : s.mode ≠ .char)
    {stops : Failure → Prop} {post : α → Prop} (hq : q.Meets fs.Allows stops post)
    (hstops : ∀ cause, stops (.refused cause) → cause.kind = .corrupt ∨ wrong ∧ cause.IsMisuse)
    (hwrong : wrong → ∃ cause, (q.run s c).1 = .error (.refused cause) ∧ cause.IsMisuse) :
    q.Classified s c wrong := by
  apply of_cases _ hwrong
  intro cause hr
  rcases (hq.fits hfs).stems hs hr with hstop | ⟨cause', hcause, hstems⟩
  · rcases hstops cause hstop with hcorrupt | hmisuse
    · exact .inr (.inl hcorrupt)
    · exact .inl hmisuse
  · obtain rfl := Failure.refused.inj hcause
    exact .inr hstems

end Query.Classified

/-- All that a listing can be: a refusal of the request, nothing, or items one by one. -/
lemma Directory.list_cases (fs : Filesystem) (dir : Inode) (cursor limit : Nat) :
    ¬dir.isDirectory ∧ list fs dir cursor limit = Query.refuse (.notDirectory dir.number) ∨
      dir.isDirectory ∧ dir.size ≤ cursor ∧ list fs dir cursor limit = pure ⟨[], none⟩ ∨
      (cursor < dir.size ∧ cursor % 4 ≠ 0) ∧
        list fs dir cursor limit = Query.refuse (.unalignedCursor cursor) ∨
      dir.isDirectory ∧ cursor % 4 = 0 ∧
        list fs dir cursor limit = listFrom fs dir limit cursor [] := by
  unfold list
  by_cases hdir : dir.isDirectory
  · rw [Query.ensure_bind_of hdir]
    by_cases hend : dir.size ≤ cursor
    · rw [if_pos hend]
      exact .inr (.inl ⟨hdir, hend, rfl⟩)
    · rw [if_neg hend]
      by_cases hcursor : cursor % 4 = 0
      · rw [Query.ensure_bind_of hcursor]
        exact .inr (.inr (.inr ⟨hdir, hcursor, rfl⟩))
      · rw [Query.ensure_bind_of_not hcursor]
        exact .inr (.inr (.inl ⟨⟨Nat.lt_of_not_le hend, hcursor⟩, rfl⟩))
  · rw [Query.ensure_bind_of_not hdir]
    exact .inl ⟨hdir, rfl⟩

lemma File.meets_physicalRange (fs : Filesystem) (inode : Inode) (page len : Nat) :
    (physicalRange fs inode page len).Meets fs.Allows
      (fun failure =>
        failure = .refused (.notMappable inode.number) ∨ ∃ step, failure = .fault step)
      fun _ => True := by
  unfold physicalRange
  refine Query.Meets.bind (Query.Meets.ensure fun _ => .inl rfl) fun _ _ => ?_
  split
  · exact .refuse (.inl rfl)
  · iterate 5
      refine Query.Meets.bind (Query.Meets.within fun step _ => .inr ⟨step, rfl⟩) fun _ _ => ?_
    exact .pure trivial

section Operations

variable {s : Store} {c : Cache} {fs : Filesystem} (hfs : fs.superblock.size < 2 ^ 32)
  (hs : s.mode ≠ .char)

include hfs hs

namespace Directory

lemma classified_lookup (dir : Inode) (name : Bytes) :
    (lookup fs dir name).Classified s c (¬dir.isDirectory) := by
  apply Query.Classified.of_meets hfs hs (meets_lookup hfs dir name)
  · rintro cause (hcorrupt | ⟨hdir, hcause⟩)
    · exact .inl hcorrupt
    · obtain rfl := Failure.refused.inj hcause
      exact .inr ⟨hdir, rfl, nofun⟩
  · intro hdir
    unfold lookup
    rw [Query.ensure_bind_of_not hdir]
    exact ⟨_, rfl, rfl, nofun⟩

/-- What ends a listing early is corruption or a call to the device. -/
lemma stems_of_listFrom (dir : Inode) {limit pos : Nat} {found : List Entry} {items : Listing}
    (hr : ((listFrom fs dir limit pos found).run s c).1 = .ok items) {cause : Error}
    (hcause : items.failure? = some cause) :
    cause.Stems s ((listFrom fs dir limit pos found).calls s c) := by
  induction limit generalizing c pos found with
  | zero =>
    rw [← Except.ok.inj hr] at hcause
    simp at hcause
  | succ limit ih =>
    rw [listFrom] at hr ⊢
    split at hr
    · rename_i hpos
      rw [if_pos hpos]
      have hmeets := (meets_entryAt hfs dir pos).fits hfs
      rw [Query.run_bind, Query.run_attempt] at hr
      rw [Query.calls_bind, Query.calls_attempt, Query.run_attempt]
      -- An entry that is refused ends the listing with its own cause.
      rcases hentry : (entryAt fs dir pos).run s c with ⟨⟨cause' | step⟩ | entry, c'⟩
      · rw [hentry] at hr
        rw [← Except.ok.inj hr] at hcause
        obtain rfl := Option.some.inj hcause
        have hstems : cause'.Stems s ((entryAt fs dir pos).calls s c) := by
          rcases hmeets.stems hs (congrArg Prod.fst hentry) with hcorrupt | ⟨_, heq, hstems⟩
          · exact .inl hcorrupt
          · obtain rfl := Failure.refused.inj heq
            exact hstems
        exact hstems.mono fun k hk => List.mem_append_left _ hk
      · rw [hentry] at hr
        simp at hr
      · rw [hentry] at hr
        exact (ih hr).mono fun k hk => List.mem_append_right _ hk
    · rw [← Except.ok.inj hr] at hcause
      simp at hcause

lemma stems_of_list (dir : Inode) (cursor limit : Nat) {items : Listing}
    (hr : ((list fs dir cursor limit).run s c).1 = .ok items) {cause : Error}
    (hcause : items.failure? = some cause) :
    cause.Stems s ((list fs dir cursor limit).calls s c) := by
  rcases list_cases fs dir cursor limit with
    ⟨-, hlist⟩ | ⟨-, -, hlist⟩ | ⟨-, hlist⟩ | ⟨-, -, hlist⟩
  · rw [hlist] at hr
    simp [Query.refuse, Query.run] at hr
  · rw [hlist] at hr
    rw [← Except.ok.inj hr] at hcause
    simp at hcause
  · rw [hlist] at hr
    simp [Query.refuse, Query.run] at hr
  · rw [hlist] at hr ⊢
    exact stems_of_listFrom hfs hs dir hr hcause

lemma classified_list (dir : Inode) (cursor limit : Nat) :
    (list fs dir cursor limit).Classified s c
      (¬dir.isDirectory ∨ cursor < dir.size ∧ cursor % 4 ≠ 0) := by
  rcases list_cases fs dir cursor limit with
    ⟨hdir, hlist⟩ | ⟨hdir, hend, hlist⟩ | ⟨hcursor, hlist⟩ | ⟨hdir, hcursor, hlist⟩
  · rw [hlist]
    exact .of_refuse (.inl hdir) ⟨rfl, nofun⟩
  · rw [hlist]
    apply Query.Classified.of_ok rfl
    rintro (hnot | hbefore)
    · exact hnot hdir
    · omega
  · rw [hlist]
    exact .of_refuse (.inr hcursor) ⟨rfl, nofun⟩
  · rw [hlist]
    obtain ⟨items, hr, -⟩ := run_listFrom hs hfs dir limit cursor [] c
    apply Query.Classified.of_ok hr
    rintro (hnot | hunaligned)
    · exact hnot hdir
    · omega

end Directory

namespace File

lemma classified_readPageInto (inode : Inode) (index : Nat) (buffer : Bytes) :
    (readPageInto fs inode index buffer).Classified s c
      (buffer.size ≠ pageSize ∨ ¬inode.hasPages) := by
  apply Query.Classified.of_meets hfs hs (meets_readPageInto inode index buffer)
  · rintro cause (hcorrupt | ⟨hbuffer, hcause⟩ | ⟨hpages, hcause⟩)
    · exact .inl hcorrupt
    · obtain rfl := Failure.refused.inj hcause
      exact .inr ⟨.inl hbuffer, rfl, nofun⟩
    · obtain rfl := Failure.refused.inj hcause
      exact .inr ⟨.inr hpages, rfl, nofun⟩
  · intro hwrong
    unfold readPageInto
    by_cases hbuffer : buffer.size = pageSize
    · have hpages : ¬inode.hasPages := hwrong.resolve_left (absurd hbuffer)
      rw [Query.ensure_bind_of hbuffer, Query.ensure_bind_of_not hpages]
      exact ⟨_, rfl, rfl, nofun⟩
    · rw [Query.ensure_bind_of_not hbuffer]
      exact ⟨_, rfl, rfl, nofun⟩

lemma classified_readAt (inode : Inode) (pos : Nat) (buffer : Bytes) :
    (readAt fs inode pos buffer).Classified s c (¬inode.hasPages) := by
  apply Query.Classified.of_meets hfs hs (meets_readAt inode pos buffer)
  · rintro cause (hcorrupt | ⟨hpages, hcause⟩ | ⟨-, hcause⟩)
    · exact .inl hcorrupt
    · obtain rfl := Failure.refused.inj hcause
      exact .inr ⟨hpages, rfl, nofun⟩
    · simp at hcause
  · intro hpages
    unfold readAt
    rw [Query.ensure_bind_of_not hpages]
    exact ⟨_, rfl, rfl, nofun⟩

lemma classified_readLink (inode : Inode) :
    (readLink fs inode).Classified s c (¬inode.isSymlink) := by
  apply Query.Classified.of_meets hfs hs (meets_readLink inode)
  · rintro cause (hcorrupt | ⟨hlink, hcause⟩)
    · exact .inl hcorrupt
    · obtain rfl := Failure.refused.inj hcause
      exact .inr ⟨hlink, rfl, nofun⟩
  · intro hlink
    unfold readLink
    rw [Query.ensure_bind_of_not hlink]
    exact ⟨_, rfl, rfl, nofun⟩

end File

lemma Query.Meets.spansFit {α : Type} {q : Query α} {stops : Failure → Prop} {post : α → Prop}
    (hq : q.Meets fs.Allows stops post)
    (hstops : ∀ offset len, ¬stops (.refused (.spanTooLarge offset len))) : q.SpansFit s c := by
  intro offset len hr
  rcases (hq.fits hfs).stems hs hr with hstop | ⟨cause, hcause, hstems⟩
  · exact hstops offset len hstop
  · exact hstems.ne_spanTooLarge offset len (Failure.refused.inj hcause).symm

lemma Operation.spansFit_query (op : Operation) : (op.query fs).SpansFit s c := by
  cases op with
  | lookup dir name => exact (Directory.classified_lookup hfs hs dir name).spansFit.map _
  | list dir cursor => exact (Directory.classified_list hfs hs dir cursor _).spansFit.map _
  | resolve path =>
    apply Query.SpansFit.map
    apply (Path.meets_resolve hfs path).spansFit hfs hs
    simp [Failure.IsCorrupt, Error.kind]
  | readPage inode index =>
    exact (File.classified_readPageInto hfs hs inode index _).spansFit.map _
  | readAt inode pos buffer =>
    exact (File.classified_readAt hfs hs inode pos buffer).spansFit.map _
  | readLink inode => exact (File.classified_readLink hfs hs inode).spansFit.map _

lemma Request.spansFit_query (r : Request) : (r.query fs).SpansFit s c := by
  cases r with
  | perform op => exact op.spansFit_query hfs hs
  | fill inode index buffer =>
    exact (File.classified_readPageInto hfs hs inode index buffer).spansFit.map _
  | walk path =>
    rw [query, Path.walk_eq_resolve]
    exact (Operation.resolve path).spansFit_query hfs hs

lemma Demand.spansFit_query (demand : Demand) : (demand.query fs).SpansFit s c := by
  cases demand with
  | request r => exact (r.spansFit_query hfs hs).map _
  | items dir cursor limit =>
    exact (Directory.classified_list hfs hs dir cursor limit).spansFit.map _
  | range inode page len =>
    apply Query.SpansFit.map
    apply (File.meets_physicalRange fs inode page len).spansFit hfs hs
    simp

end Operations

/-- On a mounted image, whatever its bytes, an operation is called wrong in itself just if its inode
or its arguments are, and never unsupported; an error of the device shows only if one of the calls
of this operation came to nothing; and all other refusals are corruption. What ends a listing early
is one of the latter two. No reply says that a span does not fit into a buffer. -/
theorem Filesystem.error_classes {s : Store} {ts : Timestamp} {c₀ : Cache} {fs : Filesystem}
    (hfs : ((mount s ts).run s c₀).1 = .ok fs) (c : Cache) (inode : Inode) :
    (∀ name, (Directory.lookup fs inode name).Classified s c (¬inode.isDirectory)) ∧
    (∀ cursor limit,
      (Directory.list fs inode cursor limit).Classified s c
        (¬inode.isDirectory ∨ cursor < inode.size ∧ cursor % 4 ≠ 0) ∧
      ∀ items cause, ((Directory.list fs inode cursor limit).run s c).1 = .ok items →
        items.failure? = some cause →
        cause.Stems s ((Directory.list fs inode cursor limit).calls s c)) ∧
    (∀ index buffer, (File.readPageInto fs inode index buffer).Classified s c
      (buffer.size ≠ pageSize ∨ ¬inode.hasPages)) ∧
    (∀ pos buffer, (File.readAt fs inode pos buffer).Classified s c (¬inode.hasPages)) ∧
    (File.readLink fs inode).Classified s c (¬inode.isSymlink) ∧
    ∀ demand : Demand, (demand.query fs).SpansFit s c := by
  obtain ⟨hs, hdeclared⟩ := mount_eq_ok hfs
  refine ⟨?_, ?_, ?_, ?_, ?_, ?_⟩
  · exact Directory.classified_lookup hdeclared hs inode
  · intro cursor limit
    refine ⟨Directory.classified_list hdeclared hs inode cursor limit, ?_⟩
    intro items cause hitems hcause
    exact Directory.stems_of_list hdeclared hs inode cursor limit hitems hcause
  · exact File.classified_readPageInto hdeclared hs inode
  · exact File.classified_readAt hdeclared hs inode
  · exact File.classified_readLink hdeclared hs inode
  · intro demand
    exact demand.spansFit_query hdeclared hs

theorem Filesystem.error_classes_device :
    ∃ fs, ((mount (.ofFile Directory.deviceImage) .epoch).run
        (.ofFile Directory.deviceImage) .empty).1 = .ok fs ∧
      (∃ cause, ((File.readPageInto fs (.ofRecord Directory.gapItem.record .epoch) 0
          (Bytes.zeros 7)).run (.ofFile Directory.deviceImage) .empty).1 =
            .error (.refused cause) ∧ cause.kind = .invalidArgument) ∧
      ((Demand.request (.walk (Bytes.ofList [0x61]))).query fs).SpansFit
        (.ofFile Directory.deviceImage) .empty := by
  obtain ⟨sb, -, hmount⟩ := exists_mount_of_accepted (by decide) accepted_deviceHeader
  have hholds := Store.holds_ofFile Directory.deviceImage
  have hfs := hmount (.ofFile Directory.deviceImage) _ .epoch hholds nofun
  obtain ⟨-, -, hpage, -, -, hspans⟩ :=
    error_classes hfs .empty (.ofRecord Directory.gapItem.record .epoch)
  refine ⟨_, hfs, ?_, hspans _⟩
  apply (hpage 0 (Bytes.zeros 7)).invalidArgument.mpr
  exact .inl (by decide)

end CompressedRom
