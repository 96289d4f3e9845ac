import CompressedRom.Proofs.CallNumbers
import CompressedRom.Proofs.ImageReads

/-!
# Sessions

In a session a client mounts the image of a store as often as it likes and asks its mounts for
directories, files and links. Sessions over a block device refine sessions over the image in
memory: `Session.answers_block`.
-/

namespace CompressedRom

/-- What a client may ask of a mounted image. A listing is drained. -/
inductive Operation where
  | lookup (dir : Inode) (name : Bytes)
  | list (dir : Inode) (cursor : Nat)
  | resolve (path : Bytes)
  | readPage (inode : Inode) (index : Nat)
  | readAt (inode : Inode) (pos : Nat) (buffer : Bytes)
  | readLink (inode : Inode)

/-- What a client is told. -/
inductive Answer where
  | mounted (superblock : Superblock) (root : Inode)
  | file (found : Option Inode)
  | listing (items : Directory.Listing)
  | bytes (content : Bytes)
  | copied (count : Nat) (buffer : Bytes)
  | unmounted

/-- The answer `part` is a listing that the failure `e` of the device cuts short. -/
def Answer.CutShort (whole : Answer) (e : IoError) (part : Answer) : Prop :=
  ∃ a b, whole = .listing a ∧ part = .listing b ∧ Directory.Listing.CutShort a e b

/-- The query that answers an operation. -/
def Operation.query (fs : Filesystem) : Operation → Query Answer
  | lookup dir name => .file <$> Directory.lookup fs dir name
  | list dir cursor => .listing <$> Directory.listAll fs dir cursor
  | resolve path => .file <$> Path.resolve fs path
  | readPage inode index => .bytes <$> File.readPage fs inode index
  | readAt inode pos buffer => (fun read => .copied read.1 read.2) <$> File.readAt fs inode pos buffer
  | readLink inode => .bytes <$> File.readLink fs inode

/-- A mount of the same image over a store that is reached in another way, and lies elsewhere in
physical memory. -/
def Filesystem.reachedBy (fs : Filesystem) (mode : AddressingMode) (base? : Option Nat) :
    Filesystem := { fs with mode, physBase? := base? }

/-- A mount of the same image over a store that is reached in another way. -/
def Filesystem.withMode (fs : Filesystem) (mode : AddressingMode) : Filesystem := { fs with mode }

section Modes

variable (fs : Filesystem) (mode : AddressingMode) (base? : Option Nat)

lemma Directory.listFrom_reachedBy (dir : Inode) (limit pos : Nat) (found : List Entry) :
    listFrom (fs.reachedBy mode base?) dir limit pos found = listFrom fs dir limit pos found := by
  induction limit generalizing pos found with
  | zero => rfl
  | succ limit ih =>
    simp only [listFrom, ih]
    rfl

lemma Directory.search_reachedBy (dir : Inode) (name : Bytes) (first : UInt8) (limit pos : Nat) :
    search (fs.reachedBy mode base?) dir name first limit pos =
      search fs dir name first limit pos := by
  induction limit generalizing pos with
  | zero => rfl
  | succ limit ih =>
    simp only [search, ih]
    rfl

lemma Directory.lookup_reachedBy (dir : Inode) (name : Bytes) :
    lookup (fs.reachedBy mode base?) dir name = lookup fs dir name := by
  simp only [lookup, search_reachedBy]

lemma Directory.list_reachedBy (dir : Inode) (cursor limit : Nat) :
    list (fs.reachedBy mode base?) dir cursor limit = list fs dir cursor limit := by
  simp only [list, listFrom_reachedBy]

lemma Path.follow_reachedBy (steps : List Step) (trail : List Inode) :
    follow (fs.reachedBy mode base?) steps trail = follow fs steps trail := by
  induction steps generalizing trail with
  | nil => rfl
  | cons step steps ih =>
    cases step with
    | stay => exact ih _
    | back => exact ih _
    | enter name =>
      simp only [follow, Directory.lookup_reachedBy, ih]
      rfl

lemma Operation.query_reachedBy (op : Operation) :
    op.query (fs.reachedBy mode base?) = op.query fs := by
  cases op with
  | lookup dir name => simp only [query, Directory.lookup_reachedBy]
  | list dir cursor => simp only [query, Directory.listAll, Directory.list_reachedBy]
  | resolve path => simp only [query, Path.resolve, Path.follow_reachedBy]
  | readPage inode index => rfl
  | readAt inode pos buffer => rfl
  | readLink inode => rfl

lemma Operation.query_withMode (op : Operation) : op.query (fs.withMode mode) = op.query fs :=
  op.query_reachedBy fs mode fs.physBase?

end Modes

/-- A client: what its mounts came to, and the cache of the store. -/
structure Session where
  mounts : List (Except Failure Filesystem)
  cache : Cache

namespace Session

/-- A client mounts the image, or asks one of its mounts. -/
inductive Step where
  | mount (timestamp : Timestamp)
  | ask (index : Nat) (op : Operation)

/-- The answer to a step, and the session afterwards. A mount that has failed answers with its
failure. -/
def step (s : Store) (x : Session) : Step → Except Failure Answer × Session
  | .mount timestamp =>
    let (result, c) := (Filesystem.mount s timestamp).run s x.cache
    (result.map fun fs => .mounted fs.superblock fs.root, ⟨x.mounts ++ [result], c⟩)
  | .ask index op =>
    match x.mounts[index]? with
    | none => (.ok .unmounted, x)
    | some (.error failure) => (.error failure, x)
    | some (.ok fs) =>
      let (answer, c) := (op.query fs).run s x.cache
      (answer, ⟨x.mounts, c⟩)

/-- The calls to the device that a step takes. -/
def stepCalls (s : Store) (x : Session) : Step → List Device.Call
  | .mount timestamp => (Filesystem.mount s timestamp).calls s x.cache
  | .ask index op =>
    match x.mounts[index]? with
    | some (.ok fs) => (op.query fs).calls s x.cache
    | some (.error _) | none => []

/-- The answers to steps taken one after the other. -/
def answers (s : Store) : List Step → Session → List (Except Failure Answer)
  | [], _ => []
  | st :: steps, x => (x.step s st).1 :: answers s steps (x.step s st).2

/-- The calls to the device that steps take. -/
def calls (s : Store) : List Step → Session → List Device.Call
  | [], _ => []
  | st :: steps, x => x.stepCalls s st ++ calls s steps (x.step s st).2

/-- What a mount over the block device may come to, beside a mount in memory. The failure of the
device shows only if a call has failed, as `failed` says. -/
inductive MountFollows (failed : Prop) :
    Except Failure Filesystem → Except Failure Filesystem → Prop
  | lost (h : failed) (e : IoError) (whole : Except Failure Filesystem) :
    MountFollows failed (.error (.refused (.io e))) whole
  | refused (failure : Failure) : MountFollows failed (.error failure) (.error failure)
  | mounted (fs : Filesystem) (h : fs.superblock.size < 2 ^ 32) :
    MountFollows failed (.ok (fs.withMode .block)) (.ok fs)

/-- A session over the block device beside the same session in memory. -/
structure Follows (image : Bytes) (failed : Prop) (x y : Session) : Prop where
  mounts : List.Forall₂ (MountFollows failed) x.mounts y.mounts
  coherent : x.cache.Coherent image.byteAt
  cache_eq : y.cache = .empty

/-- An answer over the block device beside the answer in memory. -/
def Agrees (failed : Prop) (part whole : Except Failure Answer) : Prop :=
  part = whole ∨ failed ∧ ∃ e, Query.Spoilt Answer.CutShort whole e part

variable {d : Device} {image : Bytes} {n : Nat}

lemma Follows.getElem? {failed : Prop} {x y : Session} (h : Follows image failed x y)
    (index : Nat) :
    x.mounts[index]? = none ∧ y.mounts[index]? = none ∨
      ∃ part whole, x.mounts[index]? = some part ∧ y.mounts[index]? = some whole ∧
        MountFollows failed part whole := by
  have hmounts := h.mounts
  by_cases hx : index < x.mounts.length
  · have hy : index < y.mounts.length := hmounts.length_eq ▸ hx
    exact .inr ⟨_, _, List.getElem?_eq_getElem hx, List.getElem?_eq_getElem hy,
      hmounts.get hx hy⟩
  · have hy : ¬index < y.mounts.length := hmounts.length_eq ▸ hx
    exact .inl ⟨List.getElem?_eq_none (Nat.le_of_not_lt hx),
      List.getElem?_eq_none (Nat.le_of_not_lt hy)⟩

lemma refines_query (hd : d.Holds image n) {fs : Filesystem} (hfs : fs.superblock.size < 2 ^ 32)
    (op : Operation) : (op.query fs).Refines d image n Answer.CutShort := by
  have huncut {α : Type} {stops : Failure → Prop} {post : α → Prop} {q : Query α} (f : α → Answer)
      (hq : q.Meets fs.Allows stops post) : (f <$> q).Refines d image n Answer.CutShort := by
    have hrefines : q.Refines d image n Query.Uncut := (hq.fits hfs).refines hd
    exact hrefines.map fun _ _ _ hcut => hcut.elim
  cases op with
  | lookup dir name => exact huncut _ (Directory.meets_lookup hfs dir name)
  | list dir cursor =>
    exact (Directory.refines_listAll hd hfs dir cursor).map fun a e b hcut => ⟨a, b, rfl, rfl, hcut⟩
  | resolve path => exact huncut _ (Path.meets_resolve hfs path)
  | readPage inode index => exact huncut _ (File.meets_readPage inode index)
  | readAt inode pos buffer => exact huncut _ (File.meets_readAt inode pos buffer)
  | readLink inode => exact huncut _ (File.meets_readLink inode)

lemma run_mount {s : Store} (hs : s.mode ≠ .char) (timestamp : Timestamp) (c : Cache) :
    (Filesystem.mount s timestamp).run s c =
      ((Superblock.parse.run s c).1.map (Filesystem.ofSuperblock s timestamp),
        (Superblock.parse.run s c).2) := by
  rw [Filesystem.mount_eq hs, Query.run_bind]
  rcases Superblock.parse.run s c with ⟨failure | sb, c'⟩ <;> rfl

lemma calls_mount {s : Store} (hs : s.mode ≠ .char) (timestamp : Timestamp) (c : Cache) :
    (Filesystem.mount s timestamp).calls s c = Superblock.parse.calls s c := by
  rw [Filesystem.mount_eq hs, Query.calls_bind]
  rcases Superblock.parse.run s c with ⟨failure | sb, c'⟩ <;> exact List.append_nil _

lemma step_follows (hd : d.Holds image n) {failed : Prop} {x y : Session}
    (h : Follows image failed x y) (st : Step)
    (hcalls : ∀ k ∈ x.stepCalls (.buffered d (some image.size)) st, ∀ e, k.Fails d e → failed) :
    Agrees failed (x.step (.buffered d (some image.size)) st).1 (y.step (.extended image n) st).1 ∧
      Follows image failed (x.step (.buffered d (some image.size)) st).2
        (y.step (.extended image n) st).2 := by
  have hget := h.getElem?
  obtain ⟨hmounts, hcoherent, hcache⟩ := h
  cases st with
  | mount timestamp =>
    have hblock : (Store.buffered d (some image.size)).mode ≠ .char := by simp [Store.mode]
    have hlinear : (Store.extended image n).mode ≠ .char := by simp [Store.mode_extended]
    rw [stepCalls, calls_mount hblock] at hcalls
    simp only [step, run_mount hblock, run_mount hlinear, hcache]
    obtain ⟨c', hafter, ⟨result, hr, hl⟩ | ⟨e, hr, k, hk, hfails⟩⟩ :=
      (Superblock.refines_parse hd).cases hcoherent
    · rw [hr, hl]
      refine ⟨?_, ?_, hafter, rfl⟩
      · cases result <;> exact .inl rfl
      · refine List.rel_append hmounts (.cons ?_ .nil)
        cases result with
        | error failure => exact .refused failure
        | ok sb =>
          have hsize := Superblock.yields_parse _ _ _ (congrArg Prod.fst hl)
          exact .mounted (.ofSuperblock (.extended image n) timestamp sb) hsize
    · have hfailed := hcalls k hk e hfails
      rw [hr]
      exact ⟨.inr ⟨hfailed, e, .inl rfl⟩, List.rel_append hmounts (.cons (.lost hfailed e _) .nil),
        hafter, congrArg Prod.snd (Query.run_mapped _ _ _ .empty)⟩
  | ask index op =>
    rcases hget index with ⟨hx, hy⟩ | ⟨part, whole, hx, hy, hmount⟩
    · simp only [step, hx, hy]
      exact ⟨.inl rfl, hmounts, hcoherent, hcache⟩
    · simp only [stepCalls, hx] at hcalls
      simp only [step, hx, hy]
      cases hmount with
      | refused failure => exact ⟨.inl rfl, hmounts, hcoherent, hcache⟩
      -- A mount lost to the device answers with its failure for good.
      | lost hfailed e =>
        have hagrees (answer : Except Failure Answer) :
            Agrees failed (.error (.refused (.io e))) answer := .inr ⟨hfailed, e, .inl rfl⟩
        rcases whole with failure | fs
        · exact ⟨hagrees _, hmounts, hcoherent, hcache⟩
        · exact ⟨hagrees _, hmounts, hcoherent,
            hcache ▸ congrArg Prod.snd (Query.run_mapped _ _ _ .empty)⟩
      | mounted fs hfs =>
        simp only [Operation.query_withMode, hcache] at hcalls ⊢
        obtain ⟨hafter, hsame⟩ := refines_query hd hfs op x.cache hcoherent
        refine ⟨hsame.imp id ?_, hmounts, hafter,
          congrArg Prod.snd (Query.run_mapped _ _ _ .empty)⟩
        rintro ⟨e, hspoilt, k, hk, hfails⟩
        exact ⟨hcalls k hk e hfails, e, hspoilt⟩

lemma answers_follow (hd : d.Holds image n) {failed : Prop} (steps : List Step) {x y : Session}
    (h : Follows image failed x y)
    (hcalls : ∀ k ∈ calls (.buffered d (some image.size)) steps x, ∀ e, k.Fails d e → failed) :
    List.Forall₂ (Agrees failed) (answers (.buffered d (some image.size)) steps x)
      (answers (.extended image n) steps y) := by
  induction steps generalizing x y with
  | nil => exact .nil
  | cons st steps ih =>
    obtain ⟨hagrees, hafter⟩ := step_follows hd h st fun k hk =>
      hcalls k (List.mem_append_left _ hk)
    exact .cons hagrees (ih hafter fun k hk => hcalls k (List.mem_append_right _ hk))

lemma answers_eq (hd : d.Holds image n) (steps : List Step) {c : Cache}
    (hc : c.Coherent image.byteAt)
    (hnone : ∀ k ∈ calls (.buffered d (some image.size)) steps ⟨[], c⟩, ∀ e, ¬k.Fails d e) :
    answers (.buffered d (some image.size)) steps ⟨[], c⟩ =
      answers (.extended image n) steps ⟨[], .empty⟩ := by
  have hstart : Follows image False ⟨[], c⟩ ⟨[], .empty⟩ := ⟨.nil, hc, rfl⟩
  have hsame := answers_follow hd steps hstart fun k hk e => hnone k hk e
  refine List.forall₂_eq_eq_eq ▸ hsame.imp ?_
  rintro part whole (rfl | ⟨hfalse, -⟩)
  · rfl
  · exact hfalse.elim

lemma calls_le_step (s : Store) (x : Session) (st : Step) :
    x.cache.calls ≤ (x.step s st).2.cache.calls := by
  cases st with
  | mount timestamp => exact Query.calls_le_run s (Filesystem.mount s timestamp) x.cache
  | ask index op =>
    simp only [step]
    rcases x.mounts[index]? with _ | failure | fs
    · exact Nat.le_refl _
    · exact Nat.le_refl _
    · exact Query.calls_le_run s (op.query fs) x.cache

/-- The calls of a session come behind all that have been made before it. -/
lemma le_number {s : Store} {steps : List Step} {x : Session} {k : Device.Call}
    (hk : k ∈ calls s steps x) : x.cache.calls ≤ k.number := by
  induction steps generalizing x with
  | nil => exact absurd hk List.not_mem_nil
  | cons st steps ih =>
    rcases List.mem_append.1 hk with hk | hk
    · cases st with
      | mount timestamp => exact Query.le_number hk
      | ask index op =>
        simp only [stepCalls] at hk
        rcases hx : x.mounts[index]? with _ | failure | fs
        · rw [hx] at hk
          exact absurd hk List.not_mem_nil
        · rw [hx] at hk
          exact absurd hk List.not_mem_nil
        · rw [hx] at hk
          exact Query.le_number hk
    · exact Nat.le_trans (calls_le_step s x st) (ih hk)

/-- The step of a session that has `n` other mounts before its own. -/
def Step.behind (n : Nat) : Step → Step
  | .mount timestamp => .mount timestamp
  | .ask index op => .ask (n + index) op

lemma step_behind (s : Store) (before : List (Except Failure Filesystem)) (x : Session)
    (st : Step) :
    step s ⟨before ++ x.mounts, x.cache⟩ (st.behind before.length) =
      ((x.step s st).1, ⟨before ++ (x.step s st).2.mounts, (x.step s st).2.cache⟩) := by
  cases st with
  | mount timestamp =>
    unfold Step.behind step
    dsimp only
    rw [List.append_assoc]
  | ask index op =>
    have hget : (before ++ x.mounts)[before.length + index]? = x.mounts[index]? := by
      rw [List.getElem?_append_right (Nat.le_add_right _ _), Nat.add_sub_cancel_left]
    unfold Step.behind step
    dsimp only
    rw [hget]
    rcases x.mounts[index]? with _ | failure | fs <;> rfl

/-- What a session answers does not depend on the mounts before its own, be they lost or not. -/
lemma answers_behind (s : Store) (before : List (Except Failure Filesystem)) (steps : List Step)
    (x : Session) :
    answers s (steps.map (.behind before.length)) ⟨before ++ x.mounts, x.cache⟩ =
      answers s steps x := by
  induction steps generalizing x with
  | nil => rfl
  | cons st steps ih => rw [List.map_cons, answers, answers, step_behind, ih]

lemma run_mount_of_refused {s : Store} (hs : s.mode ≠ .char) {cause : Error} {c c' : Cache}
    (h : s.read 0 Superblock.Header.length c = (.error (.refused cause), c'))
    (timestamp : Timestamp) :
    (Filesystem.mount s timestamp).run s c = (.error (.refused cause), c') := by
  have hheader : (Superblock.readHeader 0).run s c = (.error (.refused cause), c') := by
    unfold Superblock.readHeader Query.span
    rw [Query.ask_bind, Query.run, h]
    rfl
  have hparse : Superblock.parse.run s c = (.error (.refused cause), c') := by
    unfold Superblock.parse Superblock.locate
    rw [Query.run_bind, Query.run_bind, hheader]
  rw [run_mount hs, hparse]
  rfl

lemma answers_mount {s : Store} {mounts : List (Except Failure Filesystem)} {c c' : Cache}
    {timestamp : Timestamp} {result : Except Failure Filesystem}
    (h : (Filesystem.mount s timestamp).run s c = (result, c')) (steps : List Step) :
    answers s (.mount timestamp :: steps) ⟨mounts, c⟩ =
      result.map (fun fs => .mounted fs.superblock fs.root) ::
        answers s steps ⟨mounts ++ [result], c'⟩ := by
  simp only [answers, step, h]

lemma answers_ask {s : Store} {mounts : List (Except Failure Filesystem)} {c c' : Cache}
    {index : Nat} {fs : Filesystem} (hget : mounts[index]? = some (.ok fs)) {op : Operation}
    {answer : Except Failure Answer} (h : (op.query fs).run s c = (answer, c'))
    (steps : List Step) :
    answers s (.ask index op :: steps) ⟨mounts, c⟩ = answer :: answers s steps ⟨mounts, c'⟩ := by
  simp only [answers, step, hget, h]

/-- What an image answers is answered in memory, too, with zero bytes behind it. -/
lemma run_extended {α : Type} {q : Query α} {a : α} (h : q.answered? image = some a) (n : Nat) :
    q.run (.extended image n) .empty = (.ok a, .empty) := by
  have hs : (Store.extended image n).Holds (image ++ Bytes.zeros n) := rfl
  obtain ⟨b, hrun, rfl⟩ := ((Query.Succeeds.of_answered h).append (Bytes.zeros n)).run hs
    (hs.coherent_readAll []) (q.unhindered_mapped _ _)
  have hcache : (q.run (.extended image n) .empty).2 = .empty :=
    congrArg Prod.snd (Query.run_mapped ⟨image ++ Bytes.zeros n, none, false⟩ q .empty .empty)
  exact Prod.ext hrun hcache

/-- An image of 112 bytes. Its root holds one file, `a`, of the two bytes `ab` in a compressed
page. -/
def noteImage : Bytes :=
  Bytes.ofList ([0x45, 0x3d, 0xcd, 0x28, 112, 0, 0, 0, 1] ++ List.replicate 55 0 ++
    [0xed, 0x41, 0, 0, 16, 0, 0, 0, 0xc0, 0x04, 0, 0] ++
    [0xa4, 0x81, 0, 0, 2, 0, 0, 0, 0xc1, 0x05, 0, 0, 0x61, 0, 0, 0] ++ [109, 0, 0, 0] ++
    [0x78, 0x01, 0x01, 0x02, 0x00, 0xfd, 0xff, 0x61, 0x62, 0x01, 0x26, 0x00, 0xc4, 0, 0, 0])

/-- The record of a file of the superuser. -/
def plainRecord (mode : Mode) (size offset nameLen : Nat)
    (h : size < 2 ^ 24 ∧ (offset < 2 ^ 28 ∧ offset % 4 = 0) ∧ nameLen < 2 ^ 8 ∧ nameLen % 4 = 0) :
    Record where
  mode := mode
  uid := 0
  gid := 0
  sizeField := size
  offset := offset
  nameLen := nameLen
  sizeField_lt := h.1
  offset_lt := h.2.1.1
  offset_mod := h.2.1.2
  nameLen_lt := h.2.2.1
  nameLen_mod := h.2.2.2

/-- The superblock of that image. -/
def noteSuperblock : Superblock where
  base := 0
  flags := 1
  size := 112
  blocks := 0
  files := 0
  edition := 0
  name := .ofList []
  root := plainRecord ⟨0x41ed⟩ 16 76 0 (by decide)

/-- The image mounted in memory, with zero bytes behind it. -/
def noteMount : Filesystem :=
  .ofSuperblock (.extended noteImage (2 ^ 32)) .epoch noteSuperblock

/-- The file `a` of that image. -/
def noteFile : Inode := .ofRecord (plainRecord ⟨0x81a4⟩ 2 92 4 (by decide)) .epoch

/-- What the root holds. -/
def noteListing : Directory.Listing := ⟨[⟨.ofList [0x61], noteFile, 0, 16⟩], none⟩

/-- The page of `a`. -/
def notePage : Bytes := .ofList [0x61, 0x62] ++ Bytes.zeros 4094

/-- A client that mounts the image, looks `a` up, lists the root, and reads the page of `a`. -/
def noteSteps : List Step :=
  [.mount .epoch, .ask 0 (.lookup noteMount.root (.ofList [0x61])), .ask 0 (.list noteMount.root 0),
    .ask 0 (.readPage noteFile 0)]

/-- What this client is told. -/
def noteAnswers : List (Except Failure Answer) :=
  [.ok (.mounted noteSuperblock noteMount.root), .ok (.file (some noteFile)),
    .ok (.listing noteListing), .ok (.bytes notePage)]

lemma answered_superblock : Superblock.parse.answered? noteImage = some noteSuperblock := by
  decide +kernel

lemma answered_lookup :
    (Directory.lookup noteMount noteMount.root (.ofList [0x61])).answered? noteImage =
      some (some noteFile) := by decide +kernel

lemma answered_list :
    (Directory.listAll noteMount noteMount.root 0).answered? noteImage = some noteListing := by
  decide +kernel

lemma answered_readPage :
    (File.readPage noteMount noteFile 0).answered? noteImage = some notePage := by
  have hbytes : (File.pageBytes noteMount noteFile 0).answered? noteImage =
      some (.ofList [0x61, 0x62]) := by decide +kernel
  have hbuffer : (Bytes.zeros pageSize).size = pageSize := Bytes.size_zeros pageSize
  unfold File.readPage File.readPageInto
  rw [Query.ensure_bind_of hbuffer, Query.ensure_bind_of (by decide), Query.answered_bind, hbytes,
    hbuffer]
  rfl

lemma answers_extended_note :
    answers (.extended noteImage (2 ^ 32)) noteSteps ⟨[], .empty⟩ = noteAnswers := by
  have hmode : (Store.extended noteImage (2 ^ 32)).mode ≠ .char := by simp [Store.mode_extended]
  have hmount : (Filesystem.mount (.extended noteImage (2 ^ 32)) .epoch).answered? noteImage =
      some noteMount := Filesystem.answered_mount hmode .epoch answered_superblock
  have hget : ([] ++ [Except.ok noteMount] : List (Except Failure Filesystem))[0]? =
      some (.ok noteMount) := rfl
  have hask {op : Operation} {α : Type} {q : Query α} {a : α} {f : α → Answer}
      (hop : op.query noteMount = f <$> q) (h : q.answered? noteImage = some a) :
      (op.query noteMount).run (.extended noteImage (2 ^ 32)) .empty = (.ok (f a), .empty) := by
    apply run_extended
    rw [hop, Query.answered_map, h]
    rfl
  have hfile : ((Operation.lookup noteMount.root (.ofList [0x61])).query noteMount).run _ _ = _ :=
    hask rfl answered_lookup
  have hlisting : ((Operation.list noteMount.root 0).query noteMount).run _ _ = _ :=
    hask rfl answered_list
  have hread : ((Operation.readPage noteFile 0).query noteMount).run _ _ = _ :=
    hask rfl answered_readPage
  unfold noteSteps
  rw [answers_mount (run_extended hmount (2 ^ 32)), answers_ask hget hfile,
    answers_ask hget hlisting, answers_ask hget hread]
  rfl

/-- Over a block device that serves the image, whatever was read before, every answer in a session
is the failure of the device, or just what it is over the image in memory with zero bytes behind
it; a listing may also end early with the failure of the device. All answers are just the same if
no call to the device fails. -/
theorem answers_block (hd : d.Holds image n) (earlier : List (Nat × Nat)) (steps : List Step) :
    ∃ block, Store.ofDevice d = .ok block ∧
      List.Forall₂
        (fun part whole => part = whole ∨ ∃ e, part = .error (.refused (.io e)) ∨
          ∃ a b, whole = .ok (.listing a) ∧ part = .ok (.listing b) ∧
            b.entries <+: a.entries ∧ b.failure? = some (.io e))
        (answers block steps ⟨[], (block.readAll earlier .empty).2⟩)
        (answers (.extended image n) steps ⟨[], .empty⟩) ∧
      ((∀ k ∈ calls block steps ⟨[], (block.readAll earlier .empty).2⟩, ∀ e, ¬k.Fails d e) →
        answers block steps ⟨[], (block.readAll earlier .empty).2⟩ =
          answers (.extended image n) steps ⟨[], .empty⟩) := by
  refine ⟨.buffered d (some image.size), by rw [Store.ofDevice, hd.length_eq]; rfl, ?_⟩
  have hcoherent := (Store.coherent_readAll hd.serves earlier (Cache.every_empty _)).2
  rw [Device.zeroPast_byteAt] at hcoherent
  have hstart : Follows image True ⟨[], _⟩ ⟨[], .empty⟩ := ⟨.nil, hcoherent, rfl⟩
  constructor
  · refine (answers_follow hd steps hstart fun _ _ _ _ => trivial).imp ?_
    rintro part whole (rfl | ⟨-, e, rfl | ⟨_, _, rfl, rfl, a, b, rfl, rfl, hcut⟩⟩)
    · exact .inl rfl
    · exact .inr ⟨e, .inl rfl⟩
    · exact .inr ⟨e, .inr ⟨a, b, rfl, rfl, hcut⟩⟩
  · exact answers_eq hd steps hcoherent

/-- The device with that image that answers with one byte at a time and fails its call 50, in the
middle of the first fill. -/
def noteDevice : Device := .faltering noteImage (· == 50)

/-- The device fails once. The session that mounts it then loses this mount for good, and is answered
as in memory when it mounts again; so is any session from then on. -/
theorem answers_noteDevice :
    ∃ block e, noteDevice.Holds noteImage (2 ^ 32) ∧ Store.ofDevice noteDevice = .ok block ∧
      (block.read 0 76 .empty).1 = .error (.refused (.io e)) ∧
      (∀ k ∈ calls block noteSteps ⟨[], (block.readAll [(0, 76)] .empty).2⟩,
        ∀ e, ¬k.Fails noteDevice e) ∧
      answers block noteSteps ⟨[], (block.readAll [(0, 76)] .empty).2⟩ = noteAnswers ∧
      answers (.extended noteImage (2 ^ 32)) noteSteps ⟨[], .empty⟩ = noteAnswers ∧
      answers block (.mount .epoch :: noteSteps.map (.behind 1))
        ⟨[], (block.readAll [] .empty).2⟩ = .error (.refused (.io e)) :: noteAnswers ∧
      List.Forall₂
        (fun part whole => part = whole ∨ ∃ e, part = .error (.refused (.io e)) ∨
          ∃ a b, whole = .ok (.listing a) ∧ part = .ok (.listing b) ∧
            b.entries <+: a.entries ∧ b.failure? = some (.io e))
        (answers block (.mount .epoch :: noteSteps.map (.behind 1))
          ⟨[], (block.readAll [] .empty).2⟩)
        (answers (.extended noteImage (2 ^ 32)) (.mount .epoch :: noteSteps.map (.behind 1))
          ⟨[], .empty⟩) := by
  have hd : noteDevice.Holds noteImage (2 ^ 32) :=
    ⟨rfl, Device.serves_faltering _ _, Nat.le_add_left _ _⟩
  have hcheck : (match (Store.buffered noteDevice (some noteImage.size)).read 0 76 .empty with
      | (.error (.refused (.io _)), c) => decide (c.calls = 51)
      | _ => false) = true := by decide +kernel
  obtain ⟨block, hblock, -, hsame⟩ := answers_block hd [(0, 76)] noteSteps
  obtain ⟨block', hblock', hfollows, -⟩ :=
    answers_block hd [] (.mount .epoch :: noteSteps.map (.behind 1))
  obtain rfl : .buffered noteDevice (some noteImage.size) = block := Except.ok.inj hblock
  obtain rfl := Except.ok.inj hblock'
  split at hcheck
  · rename_i e c hr
    have hafter : ((Store.buffered noteDevice (some noteImage.size)).readAll [(0, 76)] .empty).2 =
        c := congrArg Prod.snd hr
    rw [hafter] at hsame
    -- Only call 50 fails, and that has been made.
    have hnone : ∀ k ∈ calls (.buffered noteDevice (some noteImage.size)) noteSteps ⟨[], c⟩,
        ∀ e, ¬k.Fails noteDevice e := by
      intro k hk e hfails
      have hnumber : c.calls ≤ k.number := le_number hk
      have hcalls := of_decide_eq_true hcheck
      have hother : (k.number == 50) = false := beq_eq_false_iff_ne.2 (by omega)
      have hanswer : noteDevice.read k.number k.pos k.len = .ok _ :=
        Device.read_faltering hother k.pos k.len
      exact absurd (hanswer.symm.trans hfails) nofun
    have hagain := (hsame hnone).trans answers_extended_note
    have hmode : (Store.buffered noteDevice (some noteImage.size)).mode ≠ .char := by
      simp [Store.mode]
    have hlost := run_mount_of_refused hmode hr .epoch
    have hbehind := answers_behind (.buffered noteDevice (some noteImage.size))
      [.error (.refused (.io e))] noteSteps ⟨[], c⟩
    refine ⟨_, e, hd, rfl, congrArg Prod.fst hr, hafter ▸ hnone, hafter ▸ hagain,
      answers_extended_note, ?_, hfollows⟩
    exact (answers_mount hlost _).trans (congrArg _ (hbehind.trans hagain))
  · simp at hcheck

end Session

end CompressedRom
