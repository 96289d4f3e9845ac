import CompressedRom.Proofs.Session

/-!
# Freedom from faults

Every word that an operation reads may have been written by an attacker, and still no sum leaves
its word, no range its buffer and no copy its place: a session never answers with a fault,
`Session.served_ne_fault`. The bounds come from the types of the fields, from the size that a
mounted image declares, and from the order in which an operation reads. A path is followed on an
explicit stack here, `Path.walk`, so that a look at an empty one would be a fault.
-/

namespace CompressedRom

namespace Path

variable {fs : Filesystem}

/-- The file at `index` of a stack, which must be there. -/
def fileAt (stack : List Inode) (index : Nat) : Except Fault Inode :=
  match stack[index]? with
  | some inode => .ok inode
  | none => .error .outOfRange

/-- Follows steps with all files on the way in a stack, from the root at its bottom to the present
one, which is looked at by its index. -/
def walk (fs : Filesystem) : List Step → (stack : List Inode) → Query (Option Inode)
  | [], stack => return stack.getLast?
  | .stay :: steps, stack => walk fs steps stack
  | .back :: steps, stack => walk fs steps (if 1 < stack.length then stack.dropLast else stack)
  | .enter name :: steps, stack => do
    let top ← Word.sub stack.length 1
    let dir ← fileAt stack top
    match ← Directory.lookup fs dir name with
    | some inode => walk fs steps (stack ++ [inode])
    | none => return none

lemma push_reverse (root inode : Inode) (trail : List Inode) :
    root :: (inode :: trail).reverse = root :: trail.reverse ++ [inode] := by
  rw [List.reverse_cons, List.cons_append]

lemma fileAt_top (root : Inode) (trail : List Inode) :
    fileAt (root :: trail.reverse) trail.length = .ok (trail.headD root) := by
  cases trail with
  | nil => rfl
  | cons inode trail =>
    have htop : (root :: trail.reverse ++ [inode])[(inode :: trail).length]? = some inode := by
      simp
    rw [push_reverse, fileAt, htop]
    rfl

/-- The root never leaves the stack, so there always is a present file. -/
lemma walk_eq_follow (steps : List Step) (trail : List Inode) :
    walk fs steps (fs.root :: trail.reverse) = follow fs steps trail := by
  induction steps generalizing trail with
  | nil =>
    rw [walk, follow]
    cases trail with
    | nil => rfl
    | cons inode trail =>
      rw [push_reverse, List.getLast?_concat]
      rfl
  | cons step steps ih =>
    cases step with
    | stay => exact ih trail
    | back =>
      rw [walk, follow, ← ih]
      cases trail with
      | nil => rfl
      | cons inode trail =>
        rw [push_reverse, if_pos (by simp), List.dropLast_concat]
        rfl
    | enter name =>
      have htop : Word.sub (fs.root :: trail.reverse).length 1 = .ok trail.length := by
        simp [Word.sub]
      rw [walk, follow, htop]
      change (liftM (fileAt (fs.root :: trail.reverse) trail.length) : Query Inode) >>= _ = _
      rw [fileAt_top]
      change Directory.lookup fs (trail.headD fs.root) name >>= _ = _
      congr 1
      funext found
      cases found with
      | none => rfl
      | some inode =>
        dsimp only
        rw [← push_reverse, ih]

lemma walk_eq_resolve (fs : Filesystem) (path : Bytes) :
    walk fs (steps path) [fs.root] = resolve fs path :=
  walk_eq_follow (steps path) []

end Path

namespace Query

variable {α β : Type}

/-- Over a store that can be read, the query ends without a fault. -/
def FaultFree (q : Query α) : Prop :=
  ∀ ⦃s : Store⦄, s.mode ≠ .char → ∀ c step, (q.run s c).1 ≠ .error (.fault step)

lemma Meets.faultFree {q : Query α} {stops : Failure → Prop} {post : α → Prop}
    (hq : q.Meets Fits stops post)
    (h : ∀ failure, stops failure → ∃ cause, failure = .refused cause) : q.FaultFree := by
  intro s hs c step hfault
  have hresult := hq.run_fits hs c
  rw [hfault] at hresult
  obtain ⟨cause, hcause⟩ := hresult.elim (h _) id
  simp at hcause

namespace FaultFree

lemma pure (a : α) : (Pure.pure a : Query α).FaultFree :=
  fun _ _ _ _ h => by simp [run] at h

lemma refuse (cause : Error) : (Query.refuse cause : Query α).FaultFree :=
  fun _ _ _ _ h => by simp [Query.refuse, run] at h

lemma ensure (p : Prop) [Decidable p] (cause : Error) : (Query.ensure p cause).FaultFree := by
  unfold Query.ensure
  split
  · exact pure ()
  · exact refuse cause

lemma ofExcept (x : Except Error α) : (liftM x : Query α).FaultFree := by
  cases x with
  | ok a => exact pure a
  | error cause => exact refuse cause

lemma bind {q : Query α} {f : α → Query β} (hq : q.FaultFree) (hf : ∀ a, (f a).FaultFree) :
    (q >>= f).FaultFree := by
  intro s hs c
  have hnone := hq hs c
  rw [run_bind]
  rcases hr : q.run s c with ⟨failure | a, c'⟩
  · rw [hr] at hnone
    intro step hfault
    apply hnone step
    rw [Except.error.inj hfault]
  · exact hf a hs c'

lemma map {q : Query α} (f : α → β) (hq : q.FaultFree) : (f <$> q).FaultFree :=
  hq.bind fun a => pure (f a)

lemma attempt {q : Query α} (hq : q.FaultFree) : q.attempt.FaultFree := by
  intro s hs c
  have hnone := hq hs c
  rw [run_attempt]
  rcases hr : q.run s c with ⟨⟨cause | step⟩ | a, c'⟩
  · simp
  · rw [hr] at hnone
    exact absurd rfl (hnone step)
  · simp

end FaultFree

end Query

namespace Superblock

lemma yields_base : locate.Yields fun found => found.1 = 0 ∨ found.1 = bootSectorSize := by
  refine (Query.Yields.trivial _).bind fun first _ => ?_
  split
  · exact .pure (.inl rfl)
  · refine (Query.Yields.trivial _).bind fun second _ => ?_
    split
    · split
      · exact .pure (.inr rfl)
      · exact .refuse
    · exact .refuse

lemma faultFree_readHeader {offset : Nat} (h : Fits offset Header.length) :
    (readHeader offset).FaultFree :=
  (meets_readHeader h).faultFree fun _ hcorrupt => hcorrupt.refused

lemma faultFree_parse : parse.FaultFree := by
  have hfirst : Fits 0 Header.length := by decide
  have hsecond : Fits bootSectorSize Header.length := by decide
  have hlocate : locate.FaultFree := by
    refine (faultFree_readHeader hfirst).bind fun first => ?_
    split
    · exact .pure _
    · refine (faultFree_readHeader hsecond).attempt.bind fun second => ?_
      split
      · split
        · exact .pure _
        · exact .refuse _
      · exact .refuse _
  exact hlocate.bind fun _ => .ofExcept _

end Superblock

section Operations

variable {fs : Filesystem}

lemma Directory.faultFree_entryAt (hfs : fs.superblock.size < 2 ^ 32) (dir : Inode) (pos : Nat) :
    (entryAt fs dir pos).FaultFree :=
  ((meets_entryAt hfs dir pos).fits hfs).faultFree fun _ hcorrupt => hcorrupt.refused

lemma Directory.faultFree_listFrom (hfs : fs.superblock.size < 2 ^ 32) (dir : Inode)
    (limit pos : Nat) (found : List Entry) : (listFrom fs dir limit pos found).FaultFree := by
  induction limit generalizing pos found with
  | zero => exact .pure _
  | succ limit ih =>
    rw [listFrom]
    split
    · refine (faultFree_entryAt hfs dir pos).attempt.bind fun result => ?_
      cases result with
      | ok e => exact ih e.next (e :: found)
      | error cause => exact .pure _
    · exact .pure _

lemma Directory.faultFree_listAll (hfs : fs.superblock.size < 2 ^ 32) (dir : Inode) (cursor : Nat) :
    (listAll fs dir cursor).FaultFree := by
  refine Query.FaultFree.bind (.ensure _ _) fun _ => ?_
  split
  · exact .pure _
  · exact Query.FaultFree.bind (.ensure _ _) fun _ => faultFree_listFrom hfs dir _ _ _

/-- The buffer that an operation brings lies in memory, of which no part is longer. -/
def Operation.InMemory : Operation → Prop
  | readAt _ _ buffer => buffer.size < 2 ^ 63
  | lookup .. | list .. | resolve .. | readPage .. | readLink .. => True

lemma Operation.faultFree_query (hfs : fs.superblock.size < 2 ^ 32) {op : Operation}
    (h : op.InMemory) : (op.query fs).FaultFree := by
  cases op with
  | lookup dir name =>
    refine .map _ (((Directory.meets_lookup hfs dir name).fits hfs).faultFree ?_)
    rintro failure (hcorrupt | ⟨-, rfl⟩)
    · exact hcorrupt.refused
    · exact ⟨_, rfl⟩
  | list dir cursor => exact .map _ (Directory.faultFree_listAll hfs dir cursor)
  | resolve path =>
    refine .map _ (((Path.meets_resolve hfs path).fits hfs).faultFree ?_)
    rintro failure (hcorrupt | ⟨number, rfl⟩)
    · exact hcorrupt.refused
    · exact ⟨_, rfl⟩
  | readPage inode index =>
    refine .map _ (((File.meets_readPage inode index).fits hfs).faultFree ?_)
    rintro failure (hcorrupt | ⟨-, rfl⟩)
    · exact hcorrupt.refused
    · exact ⟨_, rfl⟩
  | readAt inode pos buffer =>
    refine .map _ (((File.meets_readAt inode pos buffer).fits hfs).faultFree ?_)
    rintro failure (hcorrupt | ⟨-, rfl⟩ | ⟨⟨hpos, hend⟩, -⟩)
    · exact hcorrupt.refused
    · exact ⟨_, rfl⟩
    -- Within the file a position is small, so that the end of the buffer is a word, too.
    · have hsize := inode.size_lt
      have hbuffer : buffer.size < 2 ^ 63 := h
      omega
  | readLink inode =>
    refine .map _ (((File.meets_readLink inode).fits hfs).faultFree ?_)
    rintro failure (hcorrupt | ⟨-, rfl⟩)
    · exact hcorrupt.refused
    · exact ⟨_, rfl⟩

end Operations

/-- What a client may ask of one of its mounts: an operation, a page in place of what a buffer of
any length holds, or a path followed on a stack. -/
inductive Request where
  | perform (op : Operation)
  | fill (inode : Inode) (index : Nat) (buffer : Bytes)
  | walk (path : Bytes)

namespace Request

/-- The query that answers a request. -/
def query (fs : Filesystem) : Request → Query Answer
  | perform op => op.query fs
  | fill inode index buffer => .bytes <$> File.readPageInto fs inode index buffer
  | walk path => .file <$> Path.walk fs (Path.steps path) [fs.root]

/-- The buffer that a request brings lies in memory, if its length matters. -/
def InMemory : Request → Prop
  | perform op => op.InMemory
  | fill .. | walk .. => True

lemma faultFree_query {fs : Filesystem} (hfs : fs.superblock.size < 2 ^ 32) {r : Request}
    (h : r.InMemory) : (r.query fs).FaultFree := by
  cases r with
  | perform op => exact op.faultFree_query hfs h
  | fill inode index buffer =>
    refine .map _ (((File.meets_readPageInto inode index buffer).fits hfs).faultFree ?_)
    rintro failure (hcorrupt | ⟨-, rfl⟩ | ⟨-, rfl⟩)
    · exact hcorrupt.refused
    · exact ⟨_, rfl⟩
    · exact ⟨_, rfl⟩
  | walk path =>
    rw [query, Path.walk_eq_resolve]
    have hresolve : ((Operation.resolve path).query fs).FaultFree :=
      Operation.faultFree_query hfs trivial
    exact hresolve

end Request

namespace Session

/-- A client mounts the image of the store, or asks one of its mounts. -/
inductive Turn where
  | mount (timestamp : Timestamp)
  | ask (index : Nat) (request : Request)

/-- The buffer that a turn brings lies in memory. -/
def Turn.InMemory : Turn → Prop
  | mount _ => True
  | ask _ request => request.InMemory

/-- The answer to a turn, and the session afterwards. -/
def serve (s : Store) (x : Session) : Turn → Except Failure Answer × Session
  | .mount timestamp => x.step s (.mount timestamp)
  | .ask index request =>
    match x.mounts[index]? with
    | none => (.ok .unmounted, x)
    | some (.error failure) => (.error failure, x)
    | some (.ok fs) =>
      let (answer, c) := (request.query fs).run s x.cache
      (answer, ⟨x.mounts, c⟩)

/-- The answers to turns taken one after the other. -/
def served (s : Store) : List Turn → Session → List (Except Failure Answer)
  | [], _ => []
  | turn :: turns, x => (x.serve s turn).1 :: served s turns (x.serve s turn).2

/-- The turn that takes a step. -/
def Turn.ofStep : Step → Turn
  | .mount timestamp => .mount timestamp
  | .ask index op => .ask index (.perform op)

lemma served_append (s : Store) (steps : List Step) (turns : List Turn) (x : Session) :
    ∃ y, served s (steps.map .ofStep ++ turns) x = answers s steps x ++ served s turns y := by
  induction steps generalizing x with
  | nil => exact ⟨x, rfl⟩
  | cons st steps ih =>
    have hserve : x.serve s (.ofStep st) = x.step s st := by cases st <;> rfl
    obtain ⟨y, hy⟩ := ih (x.step s st).2
    refine ⟨y, ?_⟩
    rw [List.map_cons, List.cons_append, served, hserve, hy]
    rfl

/-- A mount was refused, or it is one of a store that can be read. -/
def Usable (s : Store) (result : Except Failure Filesystem) : Prop :=
  match result with
  | .ok fs => s.mode ≠ .char ∧ fs.superblock.size < 2 ^ 32
  | .error failure => ∃ cause, failure = .refused cause

/-- What all turns of a session keep: no mount was lost to a fault. -/
def Intact (s : Store) (x : Session) : Prop := ∀ result ∈ x.mounts, Usable s result

lemma intact_start (s : Store) : Intact s ⟨[], .empty⟩ := fun _ h => absurd h List.not_mem_nil

lemma usable_mount (s : Store) (timestamp : Timestamp) (c : Cache) :
    Usable s ((Filesystem.mount s timestamp).run s c).1 := by
  by_cases hs : s.mode ≠ .char
  · have hmount : (Filesystem.mount s timestamp).FaultFree := by
      rw [Filesystem.mount_eq hs]
      exact Superblock.faultFree_parse.bind fun _ => .pure _
    have hnone := hmount hs c
    rcases hr : ((Filesystem.mount s timestamp).run s c).1 with ⟨cause | step⟩ | fs
    · exact ⟨cause, rfl⟩
    · exact absurd hr (hnone step)
    · exact Filesystem.mount_eq_ok hr
  · have hrefused : Filesystem.mount s timestamp = Query.refuse (.characterDevice s.text) := by
      unfold Filesystem.mount Query.ensure
      rw [if_neg hs]
      rfl
    rw [hrefused]
    exact ⟨_, rfl⟩

lemma serve_intact {s : Store} {x : Session} (h : x.Intact s) {turn : Turn} (hturn : turn.InMemory) :
    (∀ step, (x.serve s turn).1 ≠ .error (.fault step)) ∧ (x.serve s turn).2.Intact s := by
  cases turn with
  | mount timestamp =>
    have husable := usable_mount s timestamp x.cache
    rcases hr : (Filesystem.mount s timestamp).run s x.cache with ⟨result, c⟩
    rw [hr] at husable
    simp only [serve, step, hr]
    refine ⟨fun step hfault => ?_, fun result' hmem => ?_⟩
    · cases result with
      | ok fs => simp [Except.map] at hfault
      | error failure =>
        obtain ⟨cause, rfl⟩ := husable
        simp [Except.map] at hfault
    · rcases List.mem_append.1 hmem with hmem | hmem
      · exact h result' hmem
      · exact List.mem_singleton.1 hmem ▸ husable
  | ask index request =>
    rcases hmount : x.mounts[index]? with _ | failure | fs
    · simp only [serve, hmount]
      exact ⟨by simp, h⟩
    · obtain ⟨cause, rfl⟩ := h _ (List.mem_of_getElem? hmount)
      simp only [serve, hmount]
      exact ⟨by simp, h⟩
    · obtain ⟨hs, hfs⟩ := h _ (List.mem_of_getElem? hmount)
      simp only [serve, hmount]
      exact ⟨Request.faultFree_query hfs hturn hs x.cache, h⟩

/-- What is computed without a check fits all the same: the sum behind a number of pages, the end
of a superblock, and the part of a page that a device has. -/
structure StepsFit (s : Store) : Prop where
  pages (inode : Inode) : inode.size + (pageSize - 1) < 2 ^ 64
  superblock {c : Cache} {base : Nat} {h : Superblock.Header} :
    (Superblock.locate.run s c).1 = .ok (base, h) → base + Superblock.Header.length < 2 ^ 32
  available (length? : Option Nat) (pos : Nat) : Device.available length? pos ≤ pageSize

lemma stepsFit (s : Store) : StepsFit s where
  pages inode := by
    have := inode.size_lt
    rw [pageSize_eq]
    omega
  superblock hrun := by
    rcases Superblock.yields_base _ _ _ hrun with rfl | rfl <;> decide
  available := Device.available_le

/-- No answer in a session is a fault, whatever the bytes of the store and the failures of the
device behind it, and whatever a client asks, also of inodes of other images. -/
theorem served_ne_fault (s : Store) (turns : List Turn) (h : ∀ turn ∈ turns, turn.InMemory) :
    StepsFit s ∧
      ∀ answer ∈ served s turns ⟨[], .empty⟩, ∀ step, answer ≠ .error (.fault step) := by
  refine ⟨stepsFit s, ?_⟩
  have hrun {x : Session} (hx : x.Intact s) :
      ∀ answer ∈ served s turns x, ∀ step, answer ≠ .error (.fault step) := by
    induction turns generalizing x with
    | nil => exact fun _ hanswer => absurd hanswer List.not_mem_nil
    | cons turn turns ih =>
      obtain ⟨hnone, hafter⟩ := serve_intact hx (h turn List.mem_cons_self)
      intro answer hanswer
      rcases List.mem_cons.1 hanswer with rfl | hanswer
      · exact hnone
      · exact ih (fun t ht => h t (List.mem_cons_of_mem _ ht)) hafter answer hanswer
  exact hrun (intact_start s)

/-- A file of no image that has its page table within a superblock. -/
def strayFile : Inode := .ofRecord (plainRecord ⟨0x81a4⟩ 8192 4 4 (by decide)) .epoch

/-- A client goes back from the root, reads a page that would end before it starts, reads into a
buffer that is too short, and reads from the last position there is. -/
def strayTurns : List Turn :=
  [.ask 0 (.walk (.ofList [0x2e, 0x2e])), .ask 0 (.perform (.readPage strayFile 1)),
    .ask 0 (.fill strayFile 0 (Bytes.zeros 7)),
    .ask 0 (.perform (.readAt strayFile (2 ^ 64 - 1) (Bytes.zeros 16)))]

/-- The client goes astray after it has been shown a directory and a page. -/
theorem served_ne_fault_stray :
    (∀ turn ∈ noteSteps.map .ofStep ++ strayTurns, turn.InMemory) ∧
      (∃ strays, served (.ofFile noteImage) (noteSteps.map .ofStep ++ strayTurns) ⟨[], .empty⟩ =
        noteAnswers ++ strays ∧ strays.length = 4) ∧
      ∀ answer ∈ served (.ofFile noteImage) (noteSteps.map .ofStep ++ strayTurns) ⟨[], .empty⟩,
        ∀ step, answer ≠ .error (.fault step) := by
  have hmemory : ∀ turn ∈ noteSteps.map .ofStep ++ strayTurns, turn.InMemory := by
    simp [noteSteps, strayTurns, Turn.ofStep, Turn.InMemory, Request.InMemory, Operation.InMemory]
  have hd : (Device.ofBytes noteImage).Holds noteImage (2 ^ 32) :=
    ⟨rfl, Device.serves_ofBytes _, Nat.le_add_left _ _⟩
  have hanswers : answers (.ofFile noteImage) noteSteps ⟨[], .empty⟩ = _ :=
    answers_eq hd noteSteps (Cache.every_empty _) fun _ _ _ => nofun
  obtain ⟨y, hserved⟩ := served_append (.ofFile noteImage) noteSteps strayTurns ⟨[], .empty⟩
  rw [hanswers, answers_extended_note] at hserved
  exact ⟨hmemory, ⟨_, hserved, rfl⟩, (served_ne_fault (.ofFile noteImage) _ hmemory).2⟩

end Session

end CompressedRom
