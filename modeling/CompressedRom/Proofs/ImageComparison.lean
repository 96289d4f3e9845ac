import CompressedRom.Proofs.FaultFreedom
import CompressedRom.Proofs.InPlace

/-!
# Comparing two images

Two images in memory may agree on some of their bytes only. A query comes to the same over both,
`Query.Same`, as long as the bytes that it asks for are among them. A directory is read entry by
entry, so that it is enough to compare these; and a client sees of a mount no more than the
replies to its demands.
-/

namespace CompressedRom

/-- `a` and `b` have the same bytes from `start` up to `stop`. -/
def Bytes.SameOn (a b : Bytes) (start stop : Nat) : Prop :=
  ∀ i, start ≤ i → i < stop → a.byteAt i = b.byteAt i

namespace Bytes.SameOn

variable {a b : Bytes} {start stop : Nat}

lemma mono (h : SameOn a b start stop) {start' stop' : Nat} (hstart : start ≤ start')
    (hstop : stop' ≤ stop) : SameOn a b start' stop' := by
  intro i hi hi'
  exact h i (Nat.le_trans hstart hi) (Nat.lt_of_lt_of_le hi' hstop)

/-- Strings that differ in one part only agree before and behind it. -/
lemma of_patch {x y : Bytes} (hxy : x.size = y.size)
    (h : stop ≤ a.size ∨ a.size + x.size ≤ start) :
    SameOn (a ++ (x ++ b)) (a ++ (y ++ b)) start stop := by
  intro i hi hi'
  rcases h with h | h
  · rw [byteAt_append_left (by omega), byteAt_append_left (by omega)]
  · rw [byteAt_append_right (by omega), byteAt_append_right (by omega),
      byteAt_append_right (by omega), byteAt_append_right (by omega), hxy]

/-- Strings that have one part in the same place agree on it. -/
lemma of_between {a' x b' : Bytes} (ha : a.size = a'.size) (hstart : a.size ≤ start)
    (hstop : stop ≤ a.size + x.size) : SameOn (a ++ (x ++ b)) (a' ++ (x ++ b')) start stop := by
  intro i hi hi'
  have hplace {y z : Bytes} (hy : y.size = a.size) :
      (y ++ (x ++ z)).byteAt i = x.byteAt (i - a.size) := by
    rw [byteAt_append_right (by omega), hy, byteAt_append_left (by omega)]
  rw [hplace rfl, hplace ha.symm]

lemma extract_eq {len : Nat} (h : SameOn a b start (start + len)) (ha : start + len ≤ a.size)
    (hb : start + len ≤ b.size) :
    a.extract start (start + len) = b.extract start (start + len) := by
  have hrange : Bytes.IsRange b.byteAt start len (a.extract start (start + len)) := by
    apply (IsRange.of_extract ha).congr
    intro i hi
    exact h _ (Nat.le_add_right _ _) (by omega)
  exact hrange.unique (.of_extract hb)

end Bytes.SameOn

namespace Mapping

variable {m m' : Mapping} {offset len : Nat}

/-- Marked files may be executed out of both mappings, which then lie at the same place, or out of
neither. -/
structure SameKind (m m' : Mapping) : Prop where
  inPlace_eq : m.inPlace = m'.inPlace
  physBase_eq : m.inPlace = true → m.physBase? = m'.physBase?

lemma range_read {span : Bytes} (h : m.read offset len = .ok span) :
    span.IsRange m.bytes.byteAt offset len := by
  rw [read_eq] at h
  split_ifs at h with hl hin
  · rw [← Except.ok.inj h, hl]
    exact .empty _ _
  · rw [← Except.ok.inj h]
    exact .of_extract hin

lemma read_congr_of_le (hm : offset + len ≤ m.bytes.size) (hm' : offset + len ≤ m'.bytes.size)
    (h : Bytes.SameOn m.bytes m'.bytes offset (offset + len)) :
    m.read offset len = m'.read offset len := by
  rw [read_eq, read_eq, if_pos hm, if_pos hm', h.extract_eq hm hm']

lemma read_congr_of_size_eq (hsize : m.bytes.size = m'.bytes.size)
    (h : Bytes.SameOn m.bytes m'.bytes offset (offset + len)) :
    m.read offset len = m'.read offset len := by
  by_cases hm : offset + len ≤ m.bytes.size
  · exact read_congr_of_le hm (hsize ▸ hm) h
  · rw [read_eq, read_eq, ← hsize, if_neg hm, if_neg hm]

end Mapping

namespace Query

variable {α β : Type} {m m' : Mapping}

/-- The query comes to the same over both mappings. -/
def Same (m m' : Mapping) (q : Query α) : Prop := ∀ c, q.run (.mapped m) c = q.run (.mapped m') c

/-- A query that keeps to spans on which the mappings agree cannot tell them apart. -/
lemma Meets.same {asks : Nat → Nat → Prop} {stops : Failure → Prop} {post : α → Prop}
    {q : Query α} (hread : ∀ offset len, asks offset len → m.read offset len = m'.read offset len)
    (hq : q.Meets asks stops post) : q.Same m m' := by
  induction q with
  | done a => exact fun _ => rfl
  | stop failure => exact fun _ => rfl
  | ask offset len next ih =>
    obtain ⟨hasks, hrefused, hnext⟩ := hq.of_ask
    intro c
    rw [Query.run, Query.run, Store.read, Store.read, ← hread _ _ hasks]
    -- A refused span ends both runs, since the contract passes the refusal on.
    rcases hspan : m.read offset len with ⟨cause | step⟩ | span
    · dsimp only
      rw [hrefused]
      rfl
    · rfl
    · exact ih _ (hnext span (Mapping.range_read hspan).size_eq) c

namespace Same

variable {q : Query α}

lemma pure (a : α) : (Pure.pure a : Query α).Same m m' := fun _ => rfl

lemma stop (failure : Failure) : (Query.stop failure : Query α).Same m m' := fun _ => rfl

lemma refuse (cause : Error) : (Query.refuse cause : Query α).Same m m' := stop _

lemma within (x : Except Fault α) : (liftM x : Query α).Same m m' := by
  cases x with
  | ok a => exact pure a
  | error step => exact stop _

/-- What comes after `q` needs to be the same only for the values that `q` comes to. -/
lemma bind_of_run {f : α → Query β} (hq : q.Same m m')
    (hf : ∀ a c, (q.run (.mapped m) c).1 = .ok a → (f a).Same m m') : (q >>= f).Same m m' := by
  intro c
  rw [run_bind, run_bind, ← hq c]
  rcases hr : q.run (.mapped m) c with ⟨failure | a, c'⟩
  · rfl
  · exact hf a c (by rw [hr]) c'

lemma bind {f : α → Query β} (hq : q.Same m m') (hf : ∀ a, (f a).Same m m') :
    (q >>= f).Same m m' :=
  hq.bind_of_run fun a _ _ => hf a

lemma map (f : α → β) (hq : q.Same m m') : (f <$> q).Same m m' := hq.bind fun a => pure (f a)

lemma ensure_bind {p : Prop} [Decidable p] {cause : Error} {f : Unit → Query β}
    (hf : p → (f ()).Same m m') : (Query.ensure p cause >>= f).Same m m' := by
  by_cases hp : p
  · rw [ensure_bind_of hp]
    exact hf hp
  · rw [ensure_bind_of_not hp]
    exact refuse cause

lemma within_bind {x : Except Fault α} {f : α → Query β}
    (hf : ∀ a, x = .ok a → (f a).Same m m') : ((liftM x : Query α) >>= f).Same m m' := by
  cases x with
  | ok a => exact hf a rfl
  | error step => exact stop _

lemma attempt (hq : q.Same m m') : q.attempt.Same m m' := by
  intro c
  rw [run_attempt, run_attempt, hq c]

end Same

end Query

variable {m m' : Mapping} {fs : Filesystem}

lemma Filesystem.same_read {offset len : Nat}
    (h : offset + len ≤ fs.superblock.size → m.read offset len = m'.read offset len) :
    (fs.read offset len).Same m m' := by
  unfold read
  apply Query.Same.within_bind
  intro stop hstop
  apply Query.Same.ensure_bind
  intro hle
  have hsum : stop = offset + len := by
    unfold Word.add at hstop
    split at hstop
    · exact (Except.ok.inj hstop).symm
    · simp at hstop
  intro c
  rw [Query.span, Query.run, Query.run, Store.read, Store.read, h (hsum ▸ hle)]
  rfl

namespace Directory

variable {dir : Inode}

lemma same_search (h : ∀ pos < extent dir, (entryAt fs dir pos).Same m m') (name : Bytes)
    (first : UInt8) (limit pos : Nat) : (search fs dir name first limit pos).Same m m' := by
  induction limit generalizing pos with
  | zero => exact .pure _
  | succ limit ih =>
    rw [search]
    split
    · rename_i hpos
      refine (h pos hpos).bind fun entry => Query.Same.within_bind fun initial _ => ?_
      dsimp only
      split
      · exact .pure _
      · split
        · exact ih _
        · split
          · exact ih _
          · exact .pure _
          · split
            · exact .pure _
            · exact ih _
    · exact .pure _

lemma same_lookup (h : ∀ pos < extent dir, (entryAt fs dir pos).Same m m') (name : Bytes) :
    (lookup fs dir name).Same m m' := by
  unfold lookup
  apply Query.Same.ensure_bind
  intro _
  split
  · exact .pure _
  · exact Query.Same.within_bind fun first _ => same_search h name first _ 0

lemma same_listFrom (h : ∀ pos < extent dir, (entryAt fs dir pos).Same m m') (limit pos : Nat)
    (found : List Entry) : (listFrom fs dir limit pos found).Same m m' := by
  induction limit generalizing pos found with
  | zero => exact .pure _
  | succ limit ih =>
    rw [listFrom]
    split
    · rename_i hpos
      apply (h pos hpos).attempt.bind
      intro result
      cases result with
      | ok entry => exact ih entry.next (entry :: found)
      | error cause => exact .pure _
    · exact .pure _

lemma same_list (h : ∀ pos < extent dir, (entryAt fs dir pos).Same m m') (cursor limit : Nat) :
    (list fs dir cursor limit).Same m m' := by
  unfold list
  apply Query.Same.ensure_bind
  intro _
  split
  · exact .pure _
  · exact Query.Same.ensure_bind fun _ => same_listFrom h limit cursor []

end Directory

/-- Where a file lies is computed, not read. -/
lemma File.same_physicalRange (inode : Inode) (page len : Nat) :
    (physicalRange fs inode page len).Same m m' := by
  unfold physicalRange
  apply Query.Same.ensure_bind
  intro _
  split
  · exact .refuse _
  · iterate 5
      apply Query.Same.within_bind
      intro _ _
    exact .pure _

/-- What a client may ask of a mounted image: a request, some items of a directory, from which it
may go on later, or where a file lies in physical memory. -/
inductive Demand where
  | request (r : Request)
  | items (dir : Inode) (cursor limit : Nat)
  | range (inode : Inode) (page len : Nat)

/-- What a client is told. -/
inductive Reply where
  | answer (a : Answer)
  | range (r : File.PhysicalRange)

/-- The query that answers a demand. -/
def Demand.query (fs : Filesystem) : Demand → Query Reply
  | request r => .answer <$> r.query fs
  | items dir cursor limit => (fun l => .answer (.listing l)) <$> Directory.list fs dir cursor limit
  | range inode page len => .range <$> File.physicalRange fs inode page len

/-- The replies to demands made one after the other, and the cache afterwards. -/
def Filesystem.replies (fs : Filesystem) (s : Store) :
    List Demand → Cache → List (Except Failure Reply) × Cache
  | [], c => ([], c)
  | demand :: demands, c =>
    let (reply, c) := (demand.query fs).run s c
    let (replies, c) := fs.replies s demands c
    (reply :: replies, c)

lemma Demand.query_reachedBy {mode : AddressingMode} {base? : Option Nat}
    (hbase : fs.isInPlace = true → base? = fs.physBase?) (demand : Demand) :
    demand.query (fs.reachedBy mode base?) = demand.query fs := by
  cases demand with
  | request r =>
    cases r with
    | perform op => simp only [query, Request.query, Operation.query_reachedBy]
    | fill inode index buffer => rfl
    | walk path =>
      simp only [query, Request.query, Path.walk_eq_resolve, Path.resolve, Path.follow_reachedBy]
  | items dir cursor limit => simp only [query, Directory.list_reachedBy]
  | range inode page len =>
    cases hplace : fs.isInPlace with
    | true =>
      obtain rfl := hbase hplace
      rfl
    -- Out of a plain mapping nothing can be mapped, whatever its place.
    | false =>
      have hnot : ¬(inode.isInPlace && fs.isInPlace) = true := by simp [hplace]
      have hrefuse (fs' : Filesystem) (h : ¬(inode.isInPlace && fs'.isInPlace) = true) :
          File.physicalRange fs' inode page len = Query.refuse (.notMappable inode.number) := by
        unfold File.physicalRange
        exact Query.ensure_bind_of_not h _ _
      rw [query, query, hrefuse fs hnot, hrefuse (fs.reachedBy mode base?) hnot]

/-- The superblock of the image of two items. -/
def deviceHeader : Bytes :=
  Bytes.ofList ([0x45, 0x3d, 0xcd, 0x28, 112, 0, 0, 0, 1] ++ List.replicate 55 0 ++
    [0xed, 0x41, 0, 0, 36, 0, 0, 0, 0xc0, 0x04, 0, 0])

lemma accepted_deviceHeader :
    Superblock.accepted deviceHeader (fun sb => sb.size = 112) = true := by decide +kernel

namespace Filesystem

/-- Two mounts that found the same superblock differ at most in how they are reached. -/
lemma eq_reachedBy (hkind : m.SameKind m') {ts : Timestamp} {c c' : Cache} {fs' : Filesystem}
    (hfs : ((mount (.mapped m) ts).run (.mapped m) c).1 = .ok fs)
    (hfs' : ((mount (.mapped m') ts).run (.mapped m') c').1 = .ok fs')
    (hsb : fs.superblock = fs'.superblock) :
    fs' = fs.reachedBy fs.mode fs'.physBase? ∧ fs.isInPlace = m.inPlace ∧
      (fs.isInPlace = true → fs'.physBase? = fs.physBase?) := by
  obtain ⟨sb, rfl⟩ := mount_eq_ofSuperblock hfs
  obtain ⟨sb', rfl⟩ := mount_eq_ofSuperblock hfs'
  obtain rfl : sb = sb' := hsb
  refine ⟨?_, rfl, fun hplace => (hkind.physBase_eq hplace).symm⟩
  simp only [ofSuperblock, reachedBy, Store.mode, Store.isInPlace, hkind.inPlace_eq]

/-- A store that holds an image and answers replies as the image does. -/
lemma replies_of_answered {s : Store} {image : Bytes} (hs : s.Holds image)
    (hanswers : ∀ k, s.Answers k) {demands : List Demand} {replies : List Reply}
    (h : List.Forall₂ (fun demand reply => (demand.query fs).answered? image = some reply) demands
      replies) {c : Cache} (hc : c.Coherent image.byteAt) :
    (fs.replies s demands c).1 = replies.map .ok := by
  induction h generalizing c with
  | nil => rfl
  | cons hreply hreplies ih =>
    obtain ⟨a, hrun, rfl⟩ := (Query.Succeeds.of_answered hreply).run hs hc fun k _ => hanswers k
    simp only [Filesystem.replies, hrun, ih (hs.coherent_run _ hc), List.map_cons]

lemma replies_congr {fs' : Filesystem} (h : ∀ demand : Demand, demand.query fs' = demand.query fs)
    (hsame : ∀ demand : Demand, (demand.query fs).Same m m') (demands : List Demand) (c : Cache) :
    fs.replies (.mapped m) demands c = fs'.replies (.mapped m') demands c := by
  induction demands generalizing c with
  | nil => rfl
  | cons demand demands ih => simp only [replies, h demand, hsame demand c, ih]

end Filesystem

end CompressedRom
