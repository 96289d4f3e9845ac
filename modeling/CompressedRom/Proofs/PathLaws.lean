import CompressedRom.Proofs.ListedNames

/-!
# Laws of paths

Out of a store that cannot fail, a path means the same whatever is read before. A name at its end is
a lookup in what stands before it, a name followed by `..` can be left out, and so can parts that
stand for nothing: `Path.resolve_laws`. A name behind a file that is no directory is refused, but
`..` behind it goes back to the directory that it was looked up in: `Path.resolve_behind_file`.
-/

namespace CompressedRom

lemma Superblock.isDirectory_of_ofHeader {base : Nat} {h : Header} {sb : Superblock}
    (hsb : ofHeader base h = .ok sb) : sb.root.mode.isDirectory = true := by
  unfold ofHeader at hsb
  split at hsb
  · simp at hsb
  · split at hsb
    · simp at hsb
    · rename_i hdirectory
      split at hsb
      · simp at hsb
      · rw [← Except.ok.inj hsb]
        simpa using hdirectory

section Answers

variable {α β : Type}

lemma eq_of_pure_eq_pure {a b : α} (h : (pure a : OptionT (Except Failure) α) = pure b) : a = b :=
  Option.some.inj (Except.ok.inj (congrArg OptionT.run h))

lemma exists_of_bind_eq_pure {x : OptionT (Except Failure) α} {f : α → OptionT (Except Failure) β}
    {b : β} (h : x >>= f = pure b) : ∃ a, x = pure a ∧ f a = pure b := by
  rcases hx : x.run with failure | _ | a
  · obtain rfl : x = OptionT.mk (.error failure) := hx
    exact absurd (congrArg OptionT.run h) nofun
  · obtain rfl : x = OptionT.mk (.ok none) := hx
    exact absurd (Except.ok.inj (congrArg OptionT.run h)) nofun
  · obtain rfl : x = pure a := hx
    exact ⟨a, rfl, by rwa [pure_bind] at h⟩

lemma exists_of_map_eq_pure {x : OptionT (Except Failure) α} {f : α → β} {b : β}
    (h : f <$> x = pure b) : ∃ a, x = pure a ∧ f a = b := by
  rw [map_eq_pure_bind] at h
  obtain ⟨a, ha, hb⟩ := exists_of_bind_eq_pure h
  exact ⟨a, ha, eq_of_pure_eq_pure hb⟩

end Answers

namespace Path

/-- A path and another behind it, with a slash between the two. -/
def join (path rest : Bytes) : Bytes := path ++ Bytes.ofList [0x2f] ++ rest

/-- The component that goes back. -/
def dotDot : List UInt8 := [0x2e, 0x2e]

/-- The components of a path that stand for something. -/
def significant (path : Bytes) : List (List UInt8) :=
  (components path.data.toList).filter fun part => part ≠ [] ∧ part ≠ [0x2e]

lemma significant_join (path rest : Bytes) :
    significant (join path rest) = significant path ++ significant rest := by
  have hlist : (join path rest).data.toList = path.data.toList ++ 0x2f :: rest.data.toList := by
    unfold join
    rw [ByteArray.data_append, ByteArray.data_append, Array.toList_append, Array.toList_append,
      List.append_assoc]
    rfl
  unfold significant
  rw [hlist, components_append, List.filter_append]

lemma ofComponent_ne_stay_iff (part : List UInt8) :
    Step.ofComponent part ≠ .stay ↔ part ≠ [] ∧ part ≠ [0x2e] := by
  unfold Step.ofComponent
  rw [← not_or]
  by_cases hnone : part = [] ∨ part = [0x2e]
  · rw [if_pos hnone]
    exact iff_of_false (fun h => h rfl) (not_not.2 hnone)
  · rw [if_neg hnone]
    refine iff_of_true ?_ hnone
    split <;> exact nofun

lemma steps_filter (path : Bytes) :
    (steps path).filter (· ≠ .stay) = (significant path).map .ofComponent := by
  unfold steps significant
  rw [List.filter_map]
  simp only [Function.comp_def, ofComponent_ne_stay_iff]

lemma ofComponent_of_mem_significant {path : Bytes} {part : List UInt8}
    (h : part ∈ significant path) (hback : part ≠ dotDot) :
    Step.ofComponent part = .enter (.ofList part) := by
  have hsome := of_decide_eq_true (List.mem_filter.1 h).2
  unfold Step.ofComponent
  rw [if_neg (not_or.2 hsome)]
  exact if_neg hback

lemma significant_of_isPlain {name : Bytes} (hname : name.size ≠ 0) (hplain : IsPlain name) :
    significant name = [name.data.toList] := by
  have hsome := (ofComponent_ne_stay_iff name.data.toList).1 (by
    rw [ofComponent_of_isPlain hname hplain]
    exact nofun)
  unfold significant
  rw [components_of_not_mem hplain.1, List.filter_singleton, decide_eq_true hsome]
  rfl

section Trails

variable (s : Store) (fs : Filesystem)

/-- The trail after one more step. A lookup that finds nothing or is refused ends it. -/
def advance (trail : List Inode) : Step → OptionT (Except Failure) (List Inode)
  | .stay => pure trail
  | .back => pure trail.tail
  | .enter name =>
    (· :: trail) <$>
      OptionT.mk ((Directory.lookup fs (trail.headD fs.root) name).run s .empty).1

/-- The trail that the steps lead to from `trail`. -/
def descend (steps : List Step) (trail : List Inode) : OptionT (Except Failure) (List Inode) :=
  steps.foldlM (advance s fs) trail

/-- The trail of a path, from below the root on. -/
def trailTo (path : Bytes) : OptionT (Except Failure) (List Inode) :=
  descend s fs ((significant path).map .ofComponent) []

/-- The file that a path leads to. -/
def destination (path : Bytes) : OptionT (Except Failure) Inode :=
  (·.headD fs.root) <$> trailTo s fs path

variable {s fs}

lemma descend_cons (step : Step) (steps : List Step) (trail : List Inode) :
    descend s fs (step :: steps) trail = advance s fs trail step >>= descend s fs steps :=
  List.foldlM_cons

lemma descend_singleton (step : Step) (trail : List Inode) :
    descend s fs [step] trail = advance s fs trail step := by
  rw [descend_cons]
  exact bind_pure _

lemma descend_append (steps steps' : List Step) (trail : List Inode) :
    descend s fs (steps ++ steps') trail = descend s fs steps trail >>= descend s fs steps' :=
  List.foldlM_append

lemma descend_filter (steps : List Step) (trail : List Inode) :
    descend s fs (steps.filter (· ≠ .stay)) trail = descend s fs steps trail := by
  induction steps generalizing trail with
  | nil => rfl
  | cons step steps ih =>
    by_cases hstay : step = .stay
    · subst hstay
      rw [List.filter_cons_of_neg (by simp), ih, descend_cons]
      exact (pure_bind trail _).symm
    · rw [List.filter_cons_of_pos (by simpa using hstay), descend_cons, descend_cons]
      exact congrArg _ (funext ih)

lemma descend_replicate_back (n : Nat) (steps : List Step) :
    descend s fs (List.replicate n .back ++ steps) [] = descend s fs steps [] := by
  induction n with
  | zero => rfl
  | succ n ih =>
    rw [List.replicate_succ, List.cons_append, descend_cons]
    exact (pure_bind _ _).trans ih

lemma trailTo_join (path rest : Bytes) :
    trailTo s fs (join path rest) =
      trailTo s fs path >>= descend s fs ((significant rest).map .ofComponent) := by
  unfold trailTo
  rw [significant_join, List.map_append, descend_append]

lemma descend_name {name : Bytes} (hname : name.size ≠ 0) (hplain : IsPlain name)
    (trail : List Inode) :
    descend s fs ((significant name).map .ofComponent) trail =
      (· :: trail) <$>
        OptionT.mk ((Directory.lookup fs (trail.headD fs.root) name).run s .empty).1 := by
  rw [significant_of_isPlain hname hplain, List.map_singleton,
    ofComponent_of_isPlain hname hplain, descend_singleton]
  rfl

lemma destination_join_name {name : Bytes} (hname : name.size ≠ 0) (hplain : IsPlain name)
    (path : Bytes) :
    destination s fs (join path name) =
      destination s fs path >>= fun dir =>
        OptionT.mk ((Directory.lookup fs dir name).run s .empty).1 := by
  unfold destination
  rw [trailTo_join, map_bind, bind_map_left]
  congr 1
  funext trail
  rw [descend_name hname hplain, ← comp_map]
  exact id_map _

/-- Behind a name `..` goes back to where the name was looked up. -/
lemma trailTo_join_back {name : Bytes} (hname : name.size ≠ 0) (hplain : IsPlain name)
    {path : Bytes} {inode : Inode} (h : destination s fs (join path name) = pure inode) :
    trailTo s fs (join (join path name) (.ofList dotDot)) = trailTo s fs path := by
  obtain ⟨trail', htrail', -⟩ := exists_of_map_eq_pure h
  have hname' := htrail'
  rw [trailTo_join] at hname'
  obtain ⟨trail, htrail, hfound⟩ := exists_of_bind_eq_pure hname'
  rw [descend_name hname hplain] at hfound
  obtain ⟨last, -, rfl⟩ := exists_of_map_eq_pure hfound
  rw [trailTo_join, htrail', htrail]
  rfl

lemma destination_join_congr {path path' : Bytes} (h : trailTo s fs path = trailTo s fs path')
    (rest : Bytes) : destination s fs (join path rest) = destination s fs (join path' rest) := by
  unfold destination
  rw [trailTo_join, trailTo_join, h]

end Trails

section Runs

variable {s : Store} {inv : Cache → Prop} {fs : Filesystem} (hsteady : s.Steady inv)
  (hempty : inv .empty) (hfs : fs.superblock.size < 2 ^ 32)
include hsteady hempty hfs

lemma run_lookup_eq (dir : Inode) (name : Bytes) {c : Cache} (hc : inv c) :
    ((Directory.lookup fs dir name).run s c).1 =
      ((Directory.lookup fs dir name).run s .empty).1 :=
  ((Directory.meets_lookup hfs dir name).fits hfs).run_eq hsteady hc hempty

lemma run_follow_eq (steps : List Step) (trail : List Inode) {c : Cache} (hc : inv c) :
    ((follow fs steps trail).run s c).1 = ((·.headD fs.root) <$> descend s fs steps trail).run := by
  induction steps generalizing trail c with
  | nil => rfl
  | cons step steps ih =>
    rw [descend_cons]
    cases step with
    | stay => exact ih trail hc
    | back => exact ih trail.tail hc
    | enter name =>
      have hlookup := run_lookup_eq hsteady hempty hfs (trail.headD fs.root) name hc
      have hafter := hsteady.inv_run (Directory.lookup fs (trail.headD fs.root) name) hc
      rw [follow, Query.run_bind, advance, ← hlookup]
      rcases hrun : (Directory.lookup fs (trail.headD fs.root) name).run s c with
        ⟨failure | _ | inode, c'⟩
      · rfl
      · rfl
      · rw [hrun] at hafter
        exact ih (inode :: trail) hafter

lemma run_resolve_eq (path : Bytes) {c : Cache} (hc : inv c) :
    ((resolve fs path).run s c).1 = (destination s fs path).run := by
  unfold resolve destination trailTo
  rw [run_follow_eq hsteady hempty hfs _ _ hc, ← descend_filter, steps_filter]

end Runs

/-- Out of a store that cannot fail every path has one answer, whatever is read before. A path that
ends with a name has the answer of a lookup in the file before the name, if there is one, and a name
that is found and then followed by `..` can be left out. Only the components that stand for
something count, and as many `..` as may be at the start of a path do not. -/
theorem resolve_laws {s : Store} (hs : s.Reliable) {ts : Timestamp} {c₀ : Cache} {fs : Filesystem}
    (hfs : ((Filesystem.mount s ts).run s c₀).1 = .ok fs) :
    ∃ answer : Bytes → OptionT (Except Failure) Inode,
      (∀ path before,
        ((resolve fs path).run s (s.readAll before .empty).2).1 = (answer path).run) ∧
      (∀ path name : Bytes, name.size ≠ 0 → IsPlain name → ∀ before,
        answer (join path name) = answer path >>= fun dir =>
          OptionT.mk ((Directory.lookup fs dir name).run s (s.readAll before .empty).2).1) ∧
      (∀ (path name rest : Bytes) (inode : Inode), name.size ≠ 0 → IsPlain name →
        answer (join path name) = pure inode →
        answer (join (join (join path name) (.ofList dotDot)) rest) = answer (join path rest)) ∧
      (∀ path path' : Bytes, significant path = significant path' →
        answer path = answer path') ∧
      ∀ (n : Nat) (path path' : Bytes),
        significant path' = List.replicate n dotDot ++ significant path →
        answer path' = answer path := by
  obtain ⟨-, hsize⟩ := Filesystem.mount_eq_ok hfs
  obtain ⟨inv, hsteady, hempty⟩ := hs.steady
  have hinv (before : List (Nat × Nat)) := hsteady.readAll before hempty
  refine ⟨destination s fs, ?_, ?_, ?_, ?_, ?_⟩
  · intro path before
    exact run_resolve_eq hsteady hempty hsize path (hinv before)
  · intro path name hname hplain before
    rw [destination_join_name hname hplain]
    congr 1
    funext dir
    rw [run_lookup_eq hsteady hempty hsize dir name (hinv before)]
  · intro path name rest inode hname hplain hfound
    exact destination_join_congr (trailTo_join_back hname hplain hfound) rest
  · intro path path' hparts
    unfold destination trailTo
    rw [hparts]
  · intro n path path' hparts
    unfold destination trailTo
    rw [hparts, List.map_append, List.map_replicate]
    exact congrArg _ (descend_replicate_back n _)

/-- An image in memory whose root holds the empty file `a` and the directory `d`, which is the root
again. -/
def fileStore : Store :=
  .mapped ⟨.ofList ([0x45, 0x3d, 0xcd, 0x28, 108, 0, 0, 0, 3] ++ List.replicate 55 0 ++
    [0xed, 0x41, 0, 0, 32, 0, 0, 0, 0xc0, 0x04, 0, 0] ++
    [0xa4, 0x81, 0, 0, 0, 0, 0, 0, 1, 0, 0, 0, 0x61, 0, 0, 0] ++
    [0xed, 0x41, 0, 0, 32, 0, 0, 0, 0xc1, 0x04, 0, 0, 0x64, 0, 0, 0]), none, false⟩

lemma exists_fileStore :
    ∃ fs file dir back, ((Filesystem.mount fileStore .epoch).run fileStore .empty).1 = .ok fs ∧
      ((resolve fs (join .empty (.ofList [0x61]))).run fileStore .empty).1 = .ok (some file) ∧
      ((resolve fs (join .empty (.ofList [0x64]))).run fileStore .empty).1 = .ok (some dir) ∧
      ((resolve fs (join (join .empty (.ofList [0x61])) (.ofList dotDot))).run fileStore .empty).1 =
        .ok back ∧
      file.isDirectory = false ∧ file.number = 1 := by
  have hread : (match ((Filesystem.mount fileStore .epoch).run fileStore .empty).1 with
      | .error _ => false
      | .ok fs =>
        match ((resolve fs (join .empty (.ofList [0x61]))).run fileStore .empty).1 with
        | .error _ | .ok none => false
        | .ok (some file) =>
          match ((resolve fs (join .empty (.ofList [0x64]))).run fileStore .empty).1 with
          | .error _ | .ok none => false
          | .ok (some _) =>
            match ((resolve fs (join (join .empty (.ofList [0x61])) (.ofList dotDot))).run
                fileStore .empty).1 with
            | .error _ => false
            | .ok _ => decide (file.isDirectory = false ∧ file.number = 1)) = true := by
    decide +kernel
  split at hread
  · simp at hread
  · rename_i fs hfs
    split at hread
    · simp at hread
    · simp at hread
    · rename_i file hfile
      split at hread
      · simp at hread
      · simp at hread
      · rename_i dir hdir
        split at hread
        · simp at hread
        · rename_i back hback
          exact ⟨fs, file, dir, back, hfs, hfile, hdir, hback, of_decide_eq_true hread⟩

/-- By way of `d` and `..`, and by `..` from the root, the file `a` is found as it is without, and
in `d` it is found by its name. -/
theorem resolve_laws_fileStore :
    ∃ fs file dir, ((Filesystem.mount fileStore .epoch).run fileStore .empty).1 = .ok fs ∧
      (Bytes.ofList [0x64]).size ≠ 0 ∧ IsPlain (.ofList [0x64]) ∧
      ((resolve fs (join .empty (.ofList [0x64]))).run fileStore
        (fileStore.readAll [] .empty).2).1 = .ok (some dir) ∧
      ((resolve fs (join (join (join .empty (.ofList [0x64])) (.ofList dotDot))
        (.ofList [0x61]))).run fileStore (fileStore.readAll [(0, 76)] .empty).2).1 =
          .ok (some file) ∧
      ((resolve fs (.ofList [0x2e, 0x2e, 0x2f, 0x2f, 0x61])).run fileStore
        (fileStore.readAll [] .empty).2).1 = .ok (some file) ∧
      ((resolve fs (join (join .empty (.ofList [0x64])) (.ofList [0x61]))).run fileStore
        (fileStore.readAll [] .empty).2).1 =
          ((Directory.lookup fs dir (.ofList [0x61])).run fileStore .empty).1 := by
  obtain ⟨fs, file, dir, -, hfs, hfile, hdir, -⟩ := exists_fileStore
  have ha : (Bytes.ofList [0x61]).size ≠ 0 ∧ IsPlain (.ofList [0x61]) := by
    unfold IsPlain
    decide
  have hd : (Bytes.ofList [0x64]).size ≠ 0 ∧ IsPlain (.ofList [0x64]) := by
    unfold IsPlain
    decide
  obtain ⟨answer, hanswer, hname, hback, -, hroot⟩ :=
    resolve_laws (s := fileStore) trivial hfs
  have hfile' : answer (join .empty (.ofList [0x61])) = pure file :=
    (hanswer _ []).symm.trans hfile
  have hdir' : answer (join .empty (.ofList [0x64])) = pure dir :=
    (hanswer _ []).symm.trans hdir
  refine ⟨fs, file, dir, hfs, hd.1, hd.2, hdir, ?_, ?_, ?_⟩
  · rw [hanswer, hback _ _ _ dir hd.1 hd.2 hdir', hfile']
    rfl
  · rw [hanswer, hroot 1 (join .empty (.ofList [0x61])) _ (by decide +kernel), hfile']
    rfl
  · rw [hanswer, hname _ _ ha.1 ha.2 [], hdir', pure_bind]
    rfl

section Files

lemma not_mem_of_mem_components {path part : List UInt8} (h : part ∈ components path) :
    0x2f ∉ part := by
  induction path generalizing part with
  | nil =>
    obtain rfl := List.mem_singleton.1 h
    exact List.not_mem_nil
  | cons c path ih =>
    obtain ⟨front, parts, hparts⟩ := List.exists_cons_of_ne_nil (components_ne_nil path)
    rw [hparts] at ih
    rw [components, List.foldr_cons, ← components, hparts, prepend] at h
    by_cases hc : c = 0x2f
    · rw [if_pos hc] at h
      rcases List.mem_cons.1 h with rfl | h
      · exact List.not_mem_nil
      · exact ih h
    · rw [if_neg hc] at h
      rcases List.mem_cons.1 h with rfl | h
      · exact List.not_mem_cons_of_ne_of_not_mem (Ne.symm hc) (ih List.mem_cons_self)
      · exact ih (List.mem_cons_of_mem _ h)

/-- The front of what stands for something in a path is all of it in another. -/
lemma exists_significant {path : Bytes} {parts : List (List UInt8)}
    (h : ∀ part ∈ parts, part ∈ significant path) : ∃ front, significant front = parts := by
  cases parts with
  | nil => exact ⟨.empty, rfl⟩
  | cons part parts =>
    refine ⟨.ofList (List.intercalate [0x2f] (part :: parts)), ?_⟩
    have hcut : components (List.intercalate [0x2f] (part :: parts)) = part :: parts :=
      components_intercalate fun p hp => not_mem_of_mem_components (List.mem_filter.1 (h p hp)).1
    change (components (List.intercalate [0x2f] (part :: parts))).filter _ = _
    rw [hcut, List.filter_eq_self]
    exact fun p hp => (List.mem_filter.1 (h p hp)).2

variable {s : Store} {fs : Filesystem}

lemma run_lookup_of_not_directory {dir : Inode} (hdir : ¬dir.isDirectory = true) (name : Bytes)
    (c : Cache) :
    ((Directory.lookup fs dir name).run s c).1 = .error (.refused (.notDirectory dir.number)) := by
  unfold Directory.lookup
  rw [Query.ensure_bind_of_not hdir]
  rfl

lemma isDirectory_of_lookup {dir : Inode} {name : Bytes} {c : Cache} {found : Option Inode}
    (h : ((Directory.lookup fs dir name).run s c).1 = .ok found) : dir.isDirectory = true := by
  by_contra hdir
  rw [run_lookup_of_not_directory hdir] at h
  exact absurd h nofun

lemma advance_of_not_directory {last : Inode} (h : ¬last.isDirectory = true) (trail : List Inode)
    (name : Bytes) :
    advance s fs (last :: trail) (.enter name) =
      OptionT.mk (.error (.refused (.notDirectory last.number))) := by
  rw [advance, List.headD_cons, run_lookup_of_not_directory h]
  rfl

lemma exists_of_advance_enter {trail trail' : List Inode} {name : Bytes}
    (h : advance s fs trail (.enter name) = pure trail') :
    ∃ inode, ((Directory.lookup fs (trail.headD fs.root) name).run s .empty).1 = .ok (some inode) ∧
      inode :: trail = trail' := by
  unfold advance at h
  obtain ⟨inode, hlookup, htrail⟩ := exists_of_map_eq_pure h
  exact ⟨inode, congrArg OptionT.run hlookup, htrail⟩

/-- Only a directory has a file in it, so a step leaves nothing else behind the last file. -/
lemma isDirectory_of_advance {trail trail' : List Inode} {step : Step}
    (h : advance s fs trail step = pure trail')
    (htrail : ∀ dir ∈ trail.tail, dir.isDirectory = true) :
    ∀ dir ∈ trail'.tail, dir.isDirectory = true := by
  cases step with
  | stay =>
    obtain rfl := eq_of_pure_eq_pure h
    exact htrail
  | back =>
    obtain rfl := eq_of_pure_eq_pure h
    exact fun dir hdir => htrail dir (List.mem_of_mem_tail hdir)
  | enter name =>
    obtain ⟨inode, hlookup, rfl⟩ := exists_of_advance_enter h
    cases trail with
    | nil => exact fun dir hdir => absurd hdir List.not_mem_nil
    | cons last trail =>
      exact List.forall_mem_cons.2 ⟨isDirectory_of_lookup hlookup, htrail⟩

lemma isDirectory_of_descend {steps : List Step} {trail trail' : List Inode}
    (h : descend s fs steps trail = pure trail')
    (htrail : ∀ dir ∈ trail.tail, dir.isDirectory = true) :
    ∀ dir ∈ trail'.tail, dir.isDirectory = true := by
  induction steps generalizing trail with
  | nil =>
    obtain rfl := eq_of_pure_eq_pure h
    exact htrail
  | cons step steps ih =>
    rw [descend_cons] at h
    obtain ⟨next, hnext, hrest⟩ := exists_of_bind_eq_pure h
    exact ih hrest (isDirectory_of_advance hnext htrail)

lemma isDirectory_of_mount {ts : Timestamp} {c : Cache} {s' : Store}
    (h : ((Filesystem.mount s ts).run s' c).1 = .ok fs) : fs.root.isDirectory = true := by
  have hparse : Superblock.parse.Yields fun sb => sb.root.mode.isDirectory = true :=
    (Query.Yields.trivial _).bind fun found _ => .ofExcept fun sb hsb =>
      Superblock.isDirectory_of_ofHeader hsb
  have hmount : (Superblock.parse >>= fun sb => pure (Filesystem.ofSuperblock s ts sb)).Yields
      fun fs => fs.root.isDirectory = true :=
    hparse.bind fun sb hsb => .pure hsb
  rw [Filesystem.mount_eq (Filesystem.mount_eq_ok h).1] at h
  exact hmount _ _ _ h

lemma isDirectory_headD_tail (hroot : fs.root.isDirectory = true) {trail : List Inode}
    (htrail : ∀ dir ∈ trail.tail, dir.isDirectory = true) :
    (trail.tail.headD fs.root).isDirectory = true := by
  rcases htail : trail.tail with _ | ⟨dir, above⟩
  · exact hroot
  · exact htrail dir (htail ▸ List.mem_cons_self)

/-- A file that is no directory was looked up in a directory by the name that the path ends with. -/
lemma exists_parent (hroot : fs.root.isDirectory = true) {path : Bytes} {inode : Inode}
    (h : destination s fs path = pure inode) (hinode : ¬inode.isDirectory = true) :
    ∃ parent name trail, significant path = significant parent ++ [name] ∧ name ≠ dotDot ∧
      trailTo s fs parent = pure trail ∧ (trail.headD fs.root).isDirectory = true ∧
      trailTo s fs path = pure (inode :: trail) := by
  obtain ⟨trail', hpath, rfl⟩ := exists_of_map_eq_pure h
  have hsteps := hpath
  unfold trailTo at hsteps
  rcases List.eq_nil_or_concat' (significant path) with hnil | ⟨parts, name, hparts⟩
  · rw [hnil] at hsteps
    obtain rfl := eq_of_pure_eq_pure hsteps
    exact absurd hroot hinode
  · have hmem (part : List UInt8) (hpart : part ∈ parts ++ [name]) : part ∈ significant path :=
      hparts.symm ▸ hpart
    obtain ⟨parent, rfl⟩ := exists_significant fun part hpart =>
      hmem part (List.mem_append_left _ hpart)
    rw [hparts, List.map_append, descend_append] at hsteps
    obtain ⟨trail, hparent, hlast⟩ := exists_of_bind_eq_pure hsteps
    rw [List.map_singleton, descend_singleton] at hlast
    by_cases hback : name = dotDot
    · -- Files above the last one are directories, so `..` cannot lead to any other file.
      have habove := isDirectory_of_descend hparent fun dir hdir => absurd hdir List.not_mem_nil
      rw [hback] at hlast
      obtain rfl := eq_of_pure_eq_pure hlast
      exact absurd (isDirectory_headD_tail hroot habove) hinode
    · have hname : name ∈ significant path :=
        hmem name (List.mem_append_right _ List.mem_cons_self)
      rw [ofComponent_of_mem_significant hname hback] at hlast
      obtain ⟨inode, hlookup, rfl⟩ := exists_of_advance_enter hlast
      exact ⟨parent, name, trail, hparts, hback, hparent, isDirectory_of_lookup hlookup, hpath⟩

end Files

/-- Behind a file that is no directory a path cannot go on with a name: it is refused for this file.
With `..` it goes on from the directory in which the file was looked up, as though the file had
never been named. -/
theorem resolve_behind_file {s : Store} (hs : s.Reliable) {ts : Timestamp} {c₀ : Cache}
    {fs : Filesystem} (hfs : ((Filesystem.mount s ts).run s c₀).1 = .ok fs) {path : Bytes}
    {inode : Inode} (reads : List (Nat × Nat))
    (hpath : ((resolve fs path).run s (s.readAll reads .empty).2).1 = .ok (some inode))
    (hinode : inode.isDirectory = false) :
    (∀ (rest : Bytes) (name : List UInt8) (parts : List (List UInt8)) (before : List (Nat × Nat)),
      significant rest = name :: parts → name ≠ dotDot →
        ((resolve fs (join path rest)).run s (s.readAll before .empty).2).1 =
          .error (.refused (.notDirectory inode.number))) ∧
    (Error.notDirectory inode.number).kind = .invalidArgument ∧
    ∃ parent name dir, significant path = significant parent ++ [name] ∧ name ≠ dotDot ∧
      dir.isDirectory = true ∧
      (∀ before,
        ((resolve fs parent).run s (s.readAll before .empty).2).1 = .ok (some dir)) ∧
      ∀ (rest rest' : Bytes) (before : List (Nat × Nat)),
        significant rest = dotDot :: significant rest' →
        ((resolve fs (join path rest)).run s (s.readAll before .empty).2).1 =
          ((resolve fs (join parent rest')).run s (s.readAll before .empty).2).1 := by
  obtain ⟨-, hsize⟩ := Filesystem.mount_eq_ok hfs
  obtain ⟨inv, hsteady, hempty⟩ := hs.steady
  have hanswer (path : Bytes) (before : List (Nat × Nat)) :
      ((resolve fs path).run s (s.readAll before .empty).2).1 = (destination s fs path).run :=
    run_resolve_eq hsteady hempty hsize path (hsteady.readAll before hempty)
  have hfile : ¬inode.isDirectory = true := by
    rw [hinode]
    exact nofun
  have hdestination : destination s fs path = pure inode := (hanswer path reads).symm.trans hpath
  obtain ⟨parent, name, trail, hparts, hname, hparent, hdir, htrail⟩ :=
    exists_parent (isDirectory_of_mount hfs) hdestination hfile
  refine ⟨?_, rfl, parent, name, trail.headD fs.root, hparts, hname, hdir, ?_, ?_⟩
  · intro rest part parts before hrest hpart
    have hmem : part ∈ significant rest := hrest ▸ List.mem_cons_self
    rw [hanswer]
    unfold destination
    rw [trailTo_join, htrail, hrest, pure_bind, List.map_cons,
      ofComponent_of_mem_significant hmem hpart, descend_cons, advance_of_not_directory hfile]
    rfl
  · intro before
    rw [hanswer]
    unfold destination
    rw [hparent]
    rfl
  · intro rest rest' before hrest
    rw [hanswer, hanswer]
    unfold destination
    rw [trailTo_join, trailTo_join, htrail, hparent, hrest]
    rfl

/-- A name behind the file `a` is refused, and `..` behind it is the same as behind no name. -/
theorem resolve_behind_file_back :
    ∃ fs file parent, fileStore.Reliable ∧
      ((Filesystem.mount fileStore .epoch).run fileStore .empty).1 = .ok fs ∧
      ((resolve fs (join .empty (.ofList [0x61]))).run fileStore
        (fileStore.readAll [] .empty).2).1 = .ok (some file) ∧ file.isDirectory = false ∧
      ((resolve fs (join (join .empty (.ofList [0x61])) (.ofList [0x64]))).run fileStore
        (fileStore.readAll [] .empty).2).1 = .error (.refused (.notDirectory 1)) ∧
      significant parent = [] ∧
      ((resolve fs (join (join .empty (.ofList [0x61])) (.ofList dotDot))).run fileStore
        (fileStore.readAll [] .empty).2).1 =
          ((resolve fs (join parent .empty)).run fileStore (fileStore.readAll [] .empty).2).1 := by
  obtain ⟨fs, file, -, -, hfs, hfile, -, -, hplain, hnumber⟩ := exists_fileStore
  obtain ⟨hname, -, parent, name, -, hparts, -, -, -, hback⟩ :=
    resolve_behind_file (s := fileStore) trivial hfs [] hfile hplain
  have hpath : significant (join .empty (.ofList [0x61])) = [[0x61]] := by decide +kernel
  have hends : [] ++ [[0x61]] = significant parent ++ [name] := hpath.symm.trans hparts
  have hparent : significant parent = [] := (List.append_inj_left' hends rfl).symm
  have hrefused := hname (.ofList [0x64]) [0x64] [] [] (by decide +kernel) (by decide)
  rw [hnumber] at hrefused
  exact ⟨fs, file, parent, trivial, hfs, hfile, hplain, hrefused, hparent,
    hback (.ofList dotDot) .empty [] (by decide +kernel)⟩

/-- A path that goes on behind a file that is no directory is not always refused. -/
theorem not_resolve_behind_file_refused :
    ¬∀ (m : Mapping) (ts : Timestamp) (c : Cache) (fs : Filesystem) (path rest : Bytes)
        (inode : Inode),
      ((Filesystem.mount (.mapped m) ts).run (.mapped m) c).1 = .ok fs →
      ((resolve fs path).run (.mapped m) c).1 = .ok (some inode) → inode.isDirectory = false →
      significant rest ≠ [] → ∃ cause : Error,
        ((resolve fs (join path rest)).run (.mapped m) c).1 = .error (.refused cause) ∧
        cause.kind = .invalidArgument := by
  intro hrefused
  obtain ⟨fs, file, -, back, hfs, hfile, -, hback, hplain, -⟩ := exists_fileStore
  obtain ⟨cause, hcause, -⟩ := hrefused _ .epoch .empty fs (join .empty (.ofList [0x61]))
    (.ofList dotDot) file hfs hfile hplain (by decide +kernel)
  exact absurd (hback.symm.trans hcause) nofun

end Path

end CompressedRom
