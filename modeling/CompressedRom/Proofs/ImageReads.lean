import CompressedRom.Proofs.BlockRefinement
import CompressedRom.Proofs.ByteLayout

/-!
# Reading what an image holds

A store holds an image if it is the image in memory or a device with just these bytes. A query is
followed over the bytes of the image by `Query.Succeeds`: if it comes to a value there, then a run
over any store that holds the image comes to this value, whatever was read before, as long as no
call to the device fails while it runs. `Query.answered?` computes the value of a query over a given
image, so that it can be found out by evaluation.
-/

namespace CompressedRom

/-- The bytes of a store are those of `image`. A device may fail, but it has no other bytes. -/
def Store.Holds (s : Store) (image : Bytes) : Prop :=
  match s with
  | mapped m => m.bytes = image
  | buffered d length? => d.Serves image.byteAt length? ∧ ∀ n ∈ length?, n = image.size
  | characters => False

/-- A call to the device of the store does not fail. -/
def Store.Answers (s : Store) (k : Device.Call) : Prop :=
  match s with
  | buffered d _ => ∀ e, ¬k.Fails d e
  | mapped _ | characters => True

/-- No call to the device fails while `q` runs. -/
def Query.Unhindered {α : Type} (q : Query α) (s : Store) (c : Cache) : Prop :=
  ∀ k ∈ q.calls s c, s.Answers k

lemma Query.unhindered_mapped {α : Type} (q : Query α) (m : Mapping) (c : Cache) :
    q.Unhindered (.mapped m) c := fun _ _ => trivial

variable {s : Store} {image : Bytes}

namespace Store.Holds

lemma mode_ne_char (hs : s.Holds image) : s.mode ≠ .char := by
  cases s with
  | mapped m => cases hm : m.inPlace <;> simp [mode, hm]
  | buffered d length? => simp [mode]
  | characters => exact hs.elim

lemma zeroPast_eq {length? : Option Nat} (h : ∀ n ∈ length?, n = image.size) :
    Device.zeroPast image.byteAt length? = image.byteAt := by
  cases length? with
  | none => rfl
  | some n =>
    obtain rfl := h n rfl
    exact Device.zeroPast_byteAt image

lemma coherent_readAll (hs : s.Holds image) (reads : List (Nat × Nat)) :
    (s.readAll reads .empty).2.Coherent image.byteAt := by
  cases s with
  | mapped m =>
    induction reads with
    | nil => exact Cache.every_empty _
    | cons r reads ih => exact ih
  | buffered d length? =>
    obtain ⟨hserves, hlength⟩ := hs
    have hafter := (Store.coherent_readAll hserves reads (Cache.every_empty _)).2
    rwa [zeroPast_eq hlength] at hafter
  | characters => exact hs.elim

lemma coherent_read (hs : s.Holds image) (offset len : Nat) {c : Cache}
    (hc : c.Coherent image.byteAt) : (s.read offset len c).2.Coherent image.byteAt := by
  cases s with
  | mapped m => exact hc
  | buffered d length? =>
    obtain ⟨hserves, hlength⟩ := hs
    have hzero := zeroPast_eq hlength
    exact hzero ▸ Cache.coherent_read hserves offset len (hzero.symm ▸ hc)
  | characters => exact hs.elim

lemma coherent_run {α : Type} (hs : s.Holds image) (q : Query α) {c : Cache}
    (hc : c.Coherent image.byteAt) : (q.run s c).2.Coherent image.byteAt := by
  induction q generalizing c with
  | done a => exact hc
  | stop failure => exact hc
  | ask offset len next ih =>
    have hafter := hs.coherent_read offset len hc
    rw [Query.run]
    rcases hr : s.read offset len c with ⟨⟨cause | step⟩ | span, c'⟩
    · rw [hr] at hafter
      exact ih _ hafter
    · rw [hr] at hafter
      exact hafter
    · rw [hr] at hafter
      exact ih _ hafter

lemma read (hs : s.Holds image) {offset len : Nat} (hfits : Fits offset len)
    (hin : offset + len ≤ image.size) {c : Cache} (hc : c.Coherent image.byteAt)
    (hcalls : ∀ k ∈ s.readCalls offset len c, s.Answers k) :
    (s.read offset len c).1 = .ok (image.extract offset (offset + len)) ∧
      (s.read offset len c).2.Coherent image.byteAt := by
  have himage : Bytes.IsRange image.byteAt offset len (image.extract offset (offset + len)) :=
    .of_extract hin
  refine ⟨?_, hs.coherent_read offset len hc⟩
  cases s with
  | mapped m =>
    obtain rfl : m.bytes = image := hs
    rw [Store.read, Mapping.read_eq]
    by_cases hl : len = 0
    · subst hl
      exact congrArg Except.ok ((Bytes.IsRange.empty _ _).unique himage)
    · rw [if_neg hl, if_pos hin]
  | buffered d length? =>
    obtain ⟨hserves, hlength⟩ := hs
    have hzero := zeroPast_eq hlength
    have hcoherent : c.Coherent (Device.zeroPast image.byteAt length?) := hzero.symm ▸ hc
    rcases hr : ((buffered d length?).read offset len c).1 with failure | span
    · obtain ⟨e, -, k, hk, hb⟩ := Cache.breaks_of_read hfits.1 hfits.2 hr
      exact absurd (hb.failed hserves (Cache.pageCalls_of_mem_readCalls hk)) (hcalls k hk e)
    · have hspan := Cache.range_read hserves hcoherent hr
      rw [hzero] at hspan
      rw [hspan.unique himage]
  | characters => exact hs.elim

end Store.Holds

namespace Query

variable {α β : Type}

/-- Answered with the bytes of `image`, the query asks for spans of it that fit, and comes to a
value that satisfies `post`. -/
def Succeeds (image : Bytes) (post : α → Prop) : Query α → Prop
  | done a => post a
  | stop _ => False
  | ask offset len next =>
    Fits offset len ∧ offset + len ≤ image.size ∧
      Succeeds image post (next (.ok (image.extract offset (offset + len))))

/-- The value that the query comes to if it is answered with the bytes of `image`, and asks for spans
of it only that fit. -/
def answered? (image : Bytes) : Query α → Option α
  | done a => some a
  | stop _ => none
  | ask offset len next =>
    if Fits offset len ∧ offset + len ≤ image.size then
      answered? image (next (.ok (image.extract offset (offset + len))))
    else none

lemma answered_bind (image : Bytes) (q : Query α) (f : α → Query β) :
    (q >>= f).answered? image = (q.answered? image).bind fun a => (f a).answered? image := by
  induction q with
  | done a => rfl
  | stop failure => rfl
  | ask offset len next ih =>
    rw [ask_bind, answered?, answered?]
    split
    · exact ih _
    · rfl

lemma answered_map (image : Bytes) (f : α → β) (q : Query α) :
    (f <$> q).answered? image = (q.answered? image).map f :=
  (answered_bind image q _).trans Option.map_eq_bind.symm

namespace Succeeds

variable {post post' : α → Prop} {q : Query α}

lemma of_answered {a : α} (h : q.answered? image = some a) :
    q.Succeeds image fun b => b = a := by
  induction q with
  | done b => exact Option.some.inj h
  | stop failure => cases h
  | ask offset len next ih =>
    rw [answered?] at h
    split at h
    · rename_i hspan
      exact ⟨hspan.1, hspan.2, ih _ h⟩
    · cases h

/-- More bytes behind an image change nothing. -/
lemma append (hq : q.Succeeds image post) (rest : Bytes) : q.Succeeds (image ++ rest) post := by
  induction q with
  | done a => exact hq
  | stop failure => exact hq.elim
  | ask offset len next ih =>
    obtain ⟨hfits, hin, hnext⟩ := hq
    have hin' : offset + len ≤ (image ++ rest).size := by
      rw [ByteArray.size_append]
      omega
    have hrange : Bytes.IsRange image.byteAt offset len
        ((image ++ rest).extract offset (offset + len)) :=
      (Bytes.IsRange.of_extract hin').congr fun i hi => Bytes.byteAt_append_left (by omega)
    refine ⟨hfits, hin', ?_⟩
    rw [hrange.unique (.of_extract hin)]
    exact ih _ hnext

lemma mono (hq : q.Succeeds image post) (h : ∀ a, post a → post' a) : q.Succeeds image post' := by
  induction q with
  | done a => exact h a hq
  | stop failure => exact hq.elim
  | ask offset len next ih => exact ⟨hq.1, hq.2.1, ih _ hq.2.2⟩

lemma pure {a : α} (h : post a) : (Pure.pure a : Query α).Succeeds image post := h

lemma bind {f : α → Query β} {post' : β → Prop} (hq : q.Succeeds image post)
    (hf : ∀ a, post a → (f a).Succeeds image post') : (q >>= f).Succeeds image post' := by
  induction q with
  | done a => exact hf a hq
  | stop failure => exact hq.elim
  | ask offset len next ih => exact ⟨hq.1, hq.2.1, ih _ hq.2.2⟩

lemma ensure {p : Prop} [Decidable p] {cause : Error} (h : p) :
    (Query.ensure p cause).Succeeds image fun _ => True := by
  unfold Query.ensure
  rw [if_pos h]
  trivial

lemma within {x : Except Fault α} {a : α} (h : x = .ok a) :
    (liftM x : Query α).Succeeds image fun b => b = a := by
  rw [h]
  exact rfl

lemma span {offset len : Nat} (hfits : Fits offset len) (hin : offset + len ≤ image.size) :
    (Query.span offset len).Succeeds image fun b => b = image.extract offset (offset + len) :=
  ⟨hfits, hin, rfl⟩

lemma attempt (hq : q.Succeeds image post) :
    q.attempt.Succeeds image fun x => ∃ a, x = .ok a ∧ post a := by
  induction q with
  | done a => exact ⟨a, rfl, hq⟩
  | stop failure => exact hq.elim
  | ask offset len next ih => exact ⟨hq.1, hq.2.1, ih _ hq.2.2⟩

/-- The value that a query comes to over the bytes of an image comes out of every store that holds
the image. -/
lemma run (hs : s.Holds image) (hq : q.Succeeds image post) {c : Cache}
    (hc : c.Coherent image.byteAt) (hcalls : q.Unhindered s c) :
    ∃ a, (q.run s c).1 = .ok a ∧ post a := by
  induction q generalizing c with
  | done a => exact ⟨a, rfl, hq⟩
  | stop failure => exact hq.elim
  | ask offset len next ih =>
    obtain ⟨hfits, hin, hnext⟩ := hq
    unfold Unhindered at hcalls
    rw [calls] at hcalls
    obtain ⟨hspan, hafter⟩ := hs.read hfits hin hc fun k hk =>
      hcalls k (List.mem_append_left _ hk)
    rw [Query.run]
    rcases hr : s.read offset len c with ⟨result, c'⟩
    rw [hr] at hcalls hspan hafter
    dsimp only at hspan
    subst hspan
    exact ih _ hnext hafter fun k hk => hcalls k (List.mem_append_right _ hk)

end Succeeds

attribute [irreducible] Succeeds

end Query

lemma Store.holds_ofFile (image : Bytes) : (ofFile image).Holds image :=
  ⟨Device.serves_ofBytes image, fun _ hn => (Option.some.inj hn).symm⟩

/-- What an image answers comes out of a file that holds it, whatever was read before. -/
lemma Store.run_ofFile {α : Type} {q : Query α} {a : α} (h : q.answered? image = some a)
    (reads : List (Nat × Nat)) :
    (q.run (ofFile image) ((ofFile image).readAll reads .empty).2).1 = .ok a := by
  have hs := holds_ofFile image
  obtain ⟨b, hrun, rfl⟩ := (Query.Succeeds.of_answered h).run hs (hs.coherent_readAll reads)
    fun _ _ => nofun
  exact hrun

/-- A record at the start of an image that carries the magic word is the one that counts. -/
lemma Superblock.succeeds_parse {h : Header} {sb : Superblock} (hsize : Header.length ≤ image.size)
    (hheader : Header.unpack? (image.extract 0 Header.length) = some h) (hmagic : h.hasMagic = true)
    (hsb : ofHeader 0 h = .ok sb) : parse.Succeeds image fun found => found = sb := by
  have hread : (readHeader 0).Succeeds image fun found => found = h := by
    have hfits : Fits 0 Header.length := by decide
    have hin : 0 + Header.length ≤ image.size := by omega
    refine (Query.Succeeds.span hfits hin).bind fun bytes hbytes => ?_
    rw [hbytes, Nat.zero_add, hheader]
    exact .pure rfl
  have hlocate : locate.Succeeds image fun found => found = (0, h) := by
    refine hread.bind fun first hfirst => ?_
    rw [hfirst, if_pos hmagic]
    exact .pure rfl
  refine hlocate.bind fun found hfound => ?_
  subst hfound
  dsimp only
  rw [hsb]
  exact .pure rfl

/-- The record is accepted as a superblock of which `p` holds. -/
def Superblock.accepted (header : Bytes) (p : Superblock → Bool) : Bool :=
  match Header.unpack? header with
  | none => false
  | some h =>
    match ofHeader 0 h with
    | .error _ => false
    | .ok sb => h.hasMagic && p sb

/-- All images that start with an accepted record have one superblock. -/
lemma Superblock.exists_parse_of_accepted {header : Bytes} {p : Superblock → Bool}
    (hsize : header.size = Header.length) (haccepted : accepted header p = true) :
    ∃ sb, p sb = true ∧ ∀ rest, parse.Succeeds (header ++ rest) fun found => found = sb := by
  unfold accepted at haccepted
  split at haccepted
  · simp at haccepted
  · rename_i h hunpack
    split at haccepted
    · simp at haccepted
    · rename_i sb hsb
      obtain ⟨hmagic, hp⟩ := (Bool.and_eq_true _ _).mp haccepted
      refine ⟨sb, hp, ?_⟩
      intro rest
      have hheader : (header ++ rest).extract 0 Header.length = header :=
        ByteArray.extract_append_eq_left hsize.symm
      have hlong : Header.length ≤ (header ++ rest).size := by
        rw [ByteArray.size_append]
        omega
      exact succeeds_parse hlong (hheader.symm ▸ hunpack) hmagic hsb

lemma Filesystem.answered_mount {sb : Superblock} (hs : s.mode ≠ .char) (ts : Timestamp)
    (h : Superblock.parse.answered? image = some sb) :
    (mount s ts).answered? image = some (ofSuperblock s ts sb) := by
  have hmap : mount s ts = ofSuperblock s ts <$> Superblock.parse := mount_eq hs ts
  rw [hmap, Query.answered_map, h]
  rfl

lemma Filesystem.succeeds_mount {sb : Superblock} (hs : s.mode ≠ .char) (ts : Timestamp)
    (hparse : Superblock.parse.Succeeds image fun found => found = sb) :
    (mount s ts).Succeeds image fun fs => fs = ofSuperblock s ts sb := by
  rw [mount_eq hs]
  exact hparse.bind fun found hfound => .pure (hfound ▸ rfl)

/-- All images that start with an accepted record are mounted with one superblock, out of any store
that answers. -/
lemma Filesystem.exists_mount_of_accepted {header : Bytes} {p : Superblock → Bool}
    (hsize : header.size = Superblock.Header.length)
    (haccepted : Superblock.accepted header p = true) :
    ∃ sb, p sb = true ∧ ∀ (s : Store) (rest : Bytes) (ts : Timestamp), s.Holds (header ++ rest) →
      (∀ k, s.Answers k) → ((mount s ts).run s .empty).1 = .ok (ofSuperblock s ts sb) := by
  obtain ⟨sb, hp, hparse⟩ := Superblock.exists_parse_of_accepted hsize haccepted
  refine ⟨sb, hp, ?_⟩
  intro s rest ts hs hanswers
  obtain ⟨fs, hfs, rfl⟩ := (succeeds_mount hs.mode_ne_char ts (hparse rest)).run hs
    (hs.coherent_readAll []) fun k _ => hanswers k
  exact hfs

/-- The image holds `part` at `offset`, within the size that it declares. -/
structure Filesystem.Shows (fs : Filesystem) (image : Bytes) (offset : Nat) (part : Bytes) :
    Prop where
  range : part.IsRange image.byteAt offset part.size
  le_image : offset + part.size ≤ image.size
  le_declared : offset + part.size ≤ fs.superblock.size

namespace Filesystem

variable {fs : Filesystem} {offset : Nat} {part : Bytes}

lemma Shows.append_iff {a b : Bytes} :
    fs.Shows image offset (a ++ b) ↔ fs.Shows image offset a ∧ fs.Shows image (offset + a.size) b := by
  have hsize : (a ++ b).size = a.size + b.size := ByteArray.size_append
  constructor
  · rintro ⟨hrange, himage, hdeclared⟩
    obtain ⟨ha, hb⟩ := Bytes.IsRange.append_iff.1 hrange
    exact ⟨⟨ha, by omega, by omega⟩, hb, by omega, by omega⟩
  · rintro ⟨ha, hb⟩
    have := hb.le_image
    have := hb.le_declared
    exact ⟨Bytes.IsRange.append_iff.2 ⟨ha.range, hb.range⟩, by omega, by omega⟩

lemma Shows.extract_eq (h : fs.Shows image offset part) :
    image.extract offset (offset + part.size) = part :=
  (Bytes.IsRange.of_extract h.le_image).unique h.range

lemma succeeds_read (hfs : fs.superblock.size < 2 ^ 32) (h : fs.Shows image offset part)
    (hlen : part.size ≤ File.maxCompressedPage) :
    (fs.read offset part.size).Succeeds image fun b => b = part := by
  have hdeclared := h.le_declared
  have hallows : fs.Allows offset part.size := ⟨hdeclared, hlen⟩
  unfold read
  refine (Query.Succeeds.within (Word.add_eq_ok (by omega))).bind fun stop hstop => ?_
  subst hstop
  refine (Query.Succeeds.ensure hdeclared).bind fun _ _ => ?_
  refine (Query.Succeeds.span (hallows.fits hfs) h.le_image).mono fun b hb => ?_
  exact hb.trans h.extract_eq

lemma succeeds_readWord (hfs : fs.superblock.size < 2 ^ 32) {n : Nat}
    (h : fs.Shows image offset (Bytes.ofWord n)) (hn : n < 2 ^ 32) :
    (fs.readWord offset).Succeeds image fun word => word = n := by
  have hbytes : (fs.read offset 4).Succeeds image fun b => b = Bytes.ofWord n :=
    succeeds_read hfs h (by rw [Bytes.size_ofWord]; decide)
  refine hbytes.bind fun b hb => ?_
  subst hb
  have hword : (Bytes.ofWord n).word = .ok n := by
    rw [Bytes.word, Bytes.size_ofWord, if_pos (Nat.le_refl 4), Bytes.wordAt_ofWord hn]
  exact Query.Succeeds.within hword

end Filesystem

end CompressedRom
