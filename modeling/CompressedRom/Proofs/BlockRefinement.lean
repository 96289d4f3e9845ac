import CompressedRom.Proofs.OperationContracts

/-!
# Refinement of an image in memory by a block device

A query comes to the same over a block device as over the image in memory with zero bytes behind
it, unless one of the calls that it makes to the device fails. `Query.Refines` says this for every
state that the block cache may be in. A mount and a listing look at refusals themselves, so that
they are treated apart; all else follows from the contracts of the operations.
-/

namespace CompressedRom

/-- The image in memory, with `n` zero bytes behind it. -/
def Store.extended (image : Bytes) (n : Nat) : Store := .mapped ⟨image ++ Bytes.zeros n, none, false⟩

lemma Store.mode_extended (image : Bytes) (n : Nat) : (extended image n).mode = .linear := rfl

/-- The calls to the device that a read of a store takes. -/
def Store.readCalls (s : Store) (offset len : Nat) (c : Cache) : List Device.Call :=
  match s with
  | buffered d length? => c.readCalls d length? offset len
  | mapped _ | characters => []

/-- A block device that serves an image, which fills all 32-bit offsets when it is followed by `n`
zero bytes. -/
structure Device.Holds (d : Device) (image : Bytes) (n : Nat) : Prop where
  length_eq : d.length = .ok (some image.size)
  serves : d.Serves image.byteAt (some image.size)
  reaches : 2 ^ 32 ≤ image.size + n

/-- The call fails. -/
def Device.Call.Fails (d : Device) (k : Call) (e : IoError) : Prop :=
  d.read k.number k.pos k.len = .error e

lemma Device.zeroPast_byteAt (b : Bytes) : zeroPast b.byteAt (some b.size) = b.byteAt := by
  funext i
  by_cases h : i < b.size
  · exact zeroPast_of_lt h
  · rw [zeroPast_of_le (Nat.le_of_not_lt h), Bytes.byteAt_of_le (Nat.le_of_not_lt h)]

namespace Query

variable {α β : Type}

/-- The calls to the device that the run of a query takes. -/
def calls (s : Store) : Query α → Cache → List Device.Call
  | done _, _ => []
  | stop _, _ => []
  | ask offset len next, c =>
    s.readCalls offset len c ++
      match s.read offset len c with
      | (.ok span, c) => (next (.ok span)).calls s c
      | (.error (.refused cause), c) => (next (.error cause)).calls s c
      | (.error (.fault _), _) => []

lemma calls_bind (s : Store) (q : Query α) (f : α → Query β) (c : Cache) :
    (q >>= f).calls s c =
      q.calls s c ++
        match q.run s c with
        | (.ok a, c) => (f a).calls s c
        | (.error _, _) => [] := by
  induction q generalizing c with
  | done a => rfl
  | stop failure => rfl
  | ask offset len next ih =>
    rw [ask_bind, calls, calls, run, List.append_assoc]
    rcases s.read offset len c with ⟨failure | span, c'⟩
    · cases failure with
      | refused cause => exact congrArg (s.readCalls offset len c ++ ·) (ih _ c')
      | fault step => rfl
    · exact congrArg (s.readCalls offset len c ++ ·) (ih _ c')

lemma calls_attempt (s : Store) (q : Query α) (c : Cache) :
    q.attempt.calls s c = q.calls s c := by
  induction q generalizing c with
  | done a => rfl
  | stop failure => cases failure <;> rfl
  | ask offset len next ih =>
    rw [attempt, calls, calls]
    rcases s.read offset len c with ⟨failure | span, c'⟩
    · cases failure with
      | refused cause => exact congrArg (s.readCalls offset len c ++ ·) (ih _ c')
      | fault step => rfl
    · exact congrArg (s.readCalls offset len c ++ ·) (ih _ c')

/-- What a failure `e` of the device makes of the result `whole`: itself, or a value that `cut`
allows. -/
def Spoilt (cut : α → IoError → α → Prop) (whole : Except Failure α) (e : IoError)
    (part : Except Failure α) : Prop :=
  part = .error (.refused (.io e)) ∨ ∃ a b, whole = .ok a ∧ part = .ok b ∧ cut a e b

/-- No value is cut short. -/
def Uncut (_ : α) (_ : IoError) (_ : α) : Prop := False

/-- The cache is coherent, and the result is `whole`, or what the failure of one of the calls `ks`
makes of it. -/
structure Follows (d : Device) (image : Bytes) (cut : α → IoError → α → Prop)
    (whole : Except Failure α) (ks : List Device.Call) (result : Except Failure α × Cache) :
    Prop where
  coherent : result.2.Coherent image.byteAt
  agrees : result.1 = whole ∨ ∃ e, Spoilt cut whole e result.1 ∧ ∃ k ∈ ks, k.Fails d e

/-- Over a block device that serves `image`, from any coherent cache, the query comes to what it
comes to over the image in memory, unless one of its calls to the device fails. -/
def Refines (d : Device) (image : Bytes) (n : Nat) (cut : α → IoError → α → Prop)
    (q : Query α) : Prop :=
  ∀ c : Cache, c.Coherent image.byteAt →
    Follows d image cut (q.run (.extended image n) .empty).1
      (q.calls (.buffered d (some image.size)) c) (q.run (.buffered d (some image.size)) c)

end Query

variable {d : Device} {image : Bytes} {n : Nat}

lemma Store.read_extended (hn : 2 ^ 32 ≤ image.size + n) {offset len : Nat}
    (h : offset + len ≤ 2 ^ 32) (c : Cache) :
    ∃ span, (extended image n).read offset len c = (.ok span, c) ∧
      span.IsRange image.byteAt offset len := by
  have hsize : (image ++ Bytes.zeros n).size = image.size + n := by
    rw [ByteArray.size_append, Bytes.size_zeros]
  rw [extended, read, Mapping.read_eq]
  split_ifs with hl hin
  · rw [hl]
    exact ⟨_, rfl, .empty _ _⟩
  · exact ⟨_, rfl, (Bytes.IsRange.of_extract hin).congr fun i _ => Bytes.byteAt_append_zeros _ _ _⟩
  · dsimp only at hin
    omega

/-- A span that fits comes out of the device as it stands in memory, unless a call fails. -/
lemma Device.Holds.read_cases (hd : d.Holds image n) {offset len : Nat} (h : Fits offset len)
    {c : Cache} (hc : c.Coherent image.byteAt) :
    ((Store.buffered d (some image.size)).read offset len c).2.Coherent image.byteAt ∧
      (((Store.buffered d (some image.size)).read offset len c).1 =
          ((Store.extended image n).read offset len .empty).1 ∨
        ∃ e, ((Store.buffered d (some image.size)).read offset len c).1 =
            .error (.refused (.io e)) ∧
          ∃ k ∈ (Store.buffered d (some image.size)).readCalls offset len c, k.Fails d e) := by
  have hserves := hd.serves
  have hcoherent : c.Coherent (zeroPast image.byteAt (some image.size)) := by
    rwa [zeroPast_byteAt]
  have hafter := Cache.coherent_read hserves offset len hcoherent
  rw [zeroPast_byteAt] at hafter
  refine ⟨hafter, ?_⟩
  obtain ⟨span, hspan, hrange⟩ := Store.read_extended hd.reaches h.1 .empty
  rcases hr : ((Store.buffered d (some image.size)).read offset len c).1 with failure | found
  · obtain ⟨e, rfl, k, hk, hb⟩ := Cache.breaks_of_read h.1 h.2 hr
    exact .inr ⟨e, rfl, k, hk, hb.failed hserves (Cache.pageCalls_of_mem_readCalls hk)⟩
  · have hfound := Cache.range_read hserves hcoherent hr
    rw [zeroPast_byteAt] at hfound
    rw [hspan, hfound.unique hrange]
    exact .inl rfl

namespace Query

variable {α β : Type} {cut : α → IoError → α → Prop} {cut' : β → IoError → β → Prop} {q : Query α}

lemma Follows.after {whole : Except Failure α} {ks : List Device.Call}
    {result : Except Failure α × Cache} (h : Follows d image cut whole ks result)
    (before : List Device.Call) : Follows d image cut whole (before ++ ks) result := by
  refine ⟨h.coherent, h.agrees.imp id ?_⟩
  rintro ⟨e, hspoilt, k, hk, hfails⟩
  exact ⟨e, hspoilt, k, List.mem_append_right _ hk, hfails⟩

/-- A contract is all that it takes, as long as the spans fit. -/
lemma Meets.refines {stops : Failure → Prop} {post : α → Prop} (hd : d.Holds image n)
    (hq : q.Meets Fits stops post) : q.Refines d image n cut := by
  induction q with
  | done a => exact fun c hc => ⟨hc, .inl rfl⟩
  | stop failure => exact fun c hc => ⟨hc, .inl rfl⟩
  | ask offset len next ih =>
    obtain ⟨hfits, hrefused, hnext⟩ := hq.of_ask
    intro c hc
    obtain ⟨hafter, hread⟩ := hd.read_cases hfits hc
    obtain ⟨span, hspan, hrange⟩ := Store.read_extended hd.reaches hfits.1 .empty
    rw [Query.run, Query.run, calls]
    rcases hr : (Store.buffered d (some image.size)).read offset len c with ⟨result, c'⟩
    rw [hr, hspan] at hread
    rw [hr] at hafter
    rw [hspan]
    -- A span that is had is the same on both sides. One that is not ends the query, since the
    -- contract passes refusals on.
    rcases hread with hread | ⟨e, hread, k, hk, hfails⟩
    · dsimp only at hread
      subst hread
      exact (ih (.ok span) (hnext span hrange.size_eq) c' hafter).after _
    · dsimp only at hread
      subst hread
      dsimp only
      rw [hrefused]
      exact ⟨hafter, .inr ⟨e, .inl rfl, k, List.mem_append_left _ hk, hfails⟩⟩

namespace Refines

lemma pure (a : α) : (Pure.pure a : Query α).Refines d image n cut := fun _ hc => ⟨hc, .inl rfl⟩

lemma stop (failure : Failure) : (Query.stop failure : Query α).Refines d image n cut :=
  fun _ hc => ⟨hc, .inl rfl⟩

lemma ofExcept (x : Except Error α) : (liftM x : Query α).Refines d image n cut := by
  cases x with
  | ok a => exact pure a
  | error cause => exact stop _

lemma ensure (p : Prop) [Decidable p] (cause : Error) :
    (Query.ensure p cause).Refines d image n Uncut := by
  unfold Query.ensure
  split
  · exact pure ()
  · exact stop _

lemma cases (hq : q.Refines d image n Uncut) {c : Cache} (hc : c.Coherent image.byteAt) :
    ∃ c', c'.Coherent image.byteAt ∧
      ((∃ result, q.run (.buffered d (some image.size)) c = (result, c') ∧
          q.run (.extended image n) .empty = (result, .empty)) ∨
        ∃ e, q.run (.buffered d (some image.size)) c = (.error (.refused (.io e)), c') ∧
          ∃ k ∈ q.calls (.buffered d (some image.size)) c, k.Fails d e) := by
  obtain ⟨hafter, hsame⟩ := hq c hc
  have hempty : (q.run (.extended image n) .empty).2 = .empty :=
    congrArg Prod.snd (run_mapped _ q _ .empty)
  refine ⟨_, hafter, ?_⟩
  rcases hsame with hsame | ⟨e, hspoilt | ⟨a, b, -, -, hcut⟩, hk⟩
  · exact .inl ⟨_, rfl, Prod.ext hsame.symm hempty⟩
  · exact .inr ⟨e, Prod.ext hspoilt rfl, hk⟩
  · exact hcut.elim

lemma bind {f : α → Query β} (hq : q.Refines d image n Uncut)
    (hf : ∀ a, (f a).Refines d image n cut') : (q >>= f).Refines d image n cut' := by
  intro c hc
  obtain ⟨c', hafter, ⟨result, hr, hl⟩ | ⟨e, hr, k, hk, hfails⟩⟩ := hq.cases hc
  · rw [run_bind, run_bind, calls_bind, hr, hl]
    cases result with
    | error failure => exact ⟨hafter, .inl rfl⟩
    | ok a => exact (hf a c' hafter).after _
  · rw [run_bind, run_bind, calls_bind, hr]
    exact ⟨hafter, .inr ⟨e, .inl rfl, k, List.mem_append_left _ hk, hfails⟩⟩

lemma map {f : α → β} (hq : q.Refines d image n cut)
    (hf : ∀ a e b, cut a e b → cut' (f a) e (f b)) : (f <$> q).Refines d image n cut' := by
  intro c hc
  obtain ⟨hafter, hsame⟩ := hq c hc
  have hcalls (s : Store) (c : Cache) : (f <$> q).calls s c = q.calls s c := by
    rw [← bind_pure_comp, calls_bind]
    rcases q.run s c with ⟨failure | a, c'⟩ <;> exact List.append_nil _
  rw [run_map, run_map, hcalls]
  refine ⟨hafter, hsame.imp (congrArg (Except.map f)) ?_⟩
  rintro ⟨e, hspoilt, hk⟩
  refine ⟨e, ?_, hk⟩
  rcases hspoilt with hpart | ⟨a, b, hwhole, hpart, hcut⟩
  · exact .inl (by rw [hpart]; rfl)
  · exact .inr ⟨f a, f b, by rw [hwhole]; rfl, by rw [hpart]; rfl, hf a e b hcut⟩

/-- A query that looks at the refusals of another must itself come to something spoilt when it
meets the failure of a call. -/
lemma attempt_bind {h : Except Error α → Query β} (hq : q.Refines d image n Uncut)
    (hh : ∀ x, (h x).Refines d image n cut')
    (hio : ∀ e c, Spoilt cut' ((q.attempt >>= h).run (.extended image n) .empty).1 e
      ((h (.error (.io e))).run (.buffered d (some image.size)) c).1) :
    (q.attempt >>= h).Refines d image n cut' := by
  intro c hc
  obtain ⟨c', hafter, ⟨result, hr, hl⟩ | ⟨e, hr, k, hk, hfails⟩⟩ := hq.cases hc
  · rw [run_bind, run_bind, calls_bind, calls_attempt, run_attempt, run_attempt, hr, hl]
    rcases result with ⟨cause | step⟩ | a
    · exact (hh (.error cause) c' hafter).after _
    · exact ⟨hafter, .inl rfl⟩
    · exact (hh (.ok a) c' hafter).after _
  · have hrun : (q.attempt >>= h).run (.buffered d (some image.size)) c =
        (h (.error (.io e))).run (.buffered d (some image.size)) c' := by
      rw [run_bind, run_attempt, hr]
    rw [hrun, calls_bind, calls_attempt]
    exact ⟨(hh _ c' hafter).coherent, .inr ⟨e, hio e c', k, List.mem_append_left _ hk, hfails⟩⟩

end Refines

end Query

namespace Superblock

lemma meets_readHeader {offset : Nat} (h : Fits offset Header.length) :
    (readHeader offset).Meets Fits Failure.IsCorrupt fun _ => True := by
  refine (Query.Meets.span h).bind fun bytes _ => ?_
  split
  · exact .pure trivial
  · exact .refuse rfl

lemma refines_locate (hd : d.Holds image n) : locate.Refines d image n Query.Uncut := by
  have hfirst : Fits 0 Header.length := by decide
  have hsecond : Fits bootSectorSize Header.length := by decide
  refine Query.Refines.bind ((meets_readHeader hfirst).refines hd) fun first => ?_
  split
  · exact .pure _
  -- The failure of a call is no corruption, so that it is not taken for a missing superblock.
  · refine Query.Refines.attempt_bind ((meets_readHeader hsecond).refines hd) (fun x => ?_)
      fun e c => .inl rfl
    cases x with
    | error cause => exact .stop _
    | ok second =>
      dsimp only
      split
      · exact .pure _
      · exact .stop _

lemma refines_parse (hd : d.Holds image n) : parse.Refines d image n Query.Uncut :=
  (refines_locate hd).bind fun _ => .ofExcept _

end Superblock

namespace Directory

/-- The listing `part` starts like `whole` and ends with the failure `e` of the device. -/
def Listing.CutShort (whole : Listing) (e : IoError) (part : Listing) : Prop :=
  part.entries <+: whole.entries ∧ part.failure? = some (.io e)

variable {fs : Filesystem}

lemma refines_listFrom (hd : d.Holds image n) (hfs : fs.superblock.size < 2 ^ 32) (dir : Inode)
    (limit pos : Nat) (found : List Entry) :
    (listFrom fs dir limit pos found).Refines d image n Listing.CutShort := by
  induction limit generalizing pos found with
  | zero => exact .pure _
  | succ limit ih =>
    by_cases hpos : pos < extent dir
    · have hmode : (Store.extended image n).mode ≠ .char := by rw [Store.mode_extended]; decide
      have hlinear := run_listFrom hmode hfs dir (limit + 1) pos found .empty
      rw [listFrom, if_pos hpos] at hlinear ⊢
      have hentry := (meets_entryAt hfs dir pos).fits hfs
      refine Query.Refines.attempt_bind (hentry.refines hd) (fun x => ?_) fun e c => ?_
      · cases x with
        | ok entry => exact ih entry.next (entry :: found)
        | error cause => exact .pure _
      · obtain ⟨items, hitems, hprefix⟩ := hlinear
        exact .inr ⟨items, ⟨found.reverse, some (.io e)⟩, hitems, rfl, hprefix, rfl⟩
    · rw [listFrom, if_neg hpos]
      exact .pure _

lemma refines_listAll (hd : d.Holds image n) (hfs : fs.superblock.size < 2 ^ 32) (dir : Inode)
    (cursor : Nat) : (listAll fs dir cursor).Refines d image n Listing.CutShort := by
  unfold listAll list
  refine (Query.Refines.ensure _ _).bind fun _ => ?_
  split
  · exact .pure _
  · exact (Query.Refines.ensure _ _).bind fun _ => refines_listFrom hd hfs dir _ _ _

end Directory

end CompressedRom
