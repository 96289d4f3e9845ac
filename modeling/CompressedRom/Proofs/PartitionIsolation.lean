import CompressedRom.Proofs.ImageComparison

/-!
# Isolation of partitions

A partition is opened over a window on the flash, and the block cache reads four pages at a time
through this window. All that comes out of the store are bytes of the region, and zero bytes behind
it: `Partition.range_readAll`. Two flashes that agree on the region open to stores that no reads and
no operations of a client can tell apart, whatever lies next to the region and however long the
flashes are: `Partition.isolated`.
-/

namespace CompressedRom

/-- No client can tell the two outcomes of opening a partition apart. Both are the same refusal, or
the stores give the same answers to reads, whatever is in the cache, and leave the same cache with
the same counts of hits and misses; they are mounted alike; and their mounts give the same replies
to demands. -/
inductive Indistinct : Except Error Store → Except Error Store → Prop
  | refused (cause : Error) : Indistinct (.error cause) (.error cause)
  | opened {s s' : Store} (reads : ∀ reads c, s.readAll reads c = s'.readAll reads c)
    (mounts : ∀ ts c, (Filesystem.mount s ts).run s c = (Filesystem.mount s' ts).run s' c)
    (replies : ∀ (fs : Filesystem) demands c, fs.replies s demands c = fs.replies s' demands c) :
    Indistinct (.ok s) (.ok s')

lemma Indistinct.refl (outcome : Except Error Store) : Indistinct outcome outcome := by
  cases outcome with
  | error cause => exact .refused cause
  | ok s => exact .opened (fun _ _ => rfl) (fun _ _ => rfl) fun _ _ _ => rfl

/-- Out of a store that holds an image comes nothing but the image, and zero bytes behind it. -/
lemma Store.Holds.range_readAll {s : Store} {image : Bytes} (hs : s.Holds image)
    (reads : List (Nat × Nat)) :
    List.Forall₂ (fun r answer => ∀ span, answer = .ok span → span.IsRange image.byteAt r.1 r.2)
      reads (s.readAll reads .empty).1 := by
  cases s with
  | mapped m =>
    obtain rfl : m.bytes = image := hs
    induction reads with
    | nil => exact .nil
    | cons r reads ih => exact .cons (fun span h => Mapping.range_read h) ih
  | buffered d length? =>
    obtain ⟨hserves, hlength⟩ := hs
    have hanswers := (Store.coherent_readAll hserves reads (Cache.every_empty _)).1
    rwa [zeroPast_eq hlength] at hanswers
  | characters => exact hs.elim

namespace Window

lemma size_bytes (w : Window) : w.bytes.size = w.length := by
  have := w.stop_le_size
  unfold bytes length
  rw [ByteArray.size_extract]
  omega

lemma device_congr {w w' : Window} (h : w.bytes = w'.bytes) : w.device = w'.device := by
  have hlen : w.length = w'.length := by rw [← size_bytes, ← size_bytes, h]
  simp only [device, read, h, hlen]

/-- A window answers every call, with as many of its bytes as there are. -/
lemma serves_device (w : Window) : w.device.Serves w.bytes.byteAt (some w.length) := by
  rw [← size_bytes]
  apply Device.serves_of_extract
  intro _ _ len chunk h
  exact ⟨len, Nat.le_refl _, id, (Except.ok.inj h).symm⟩

end Window

namespace Partition

/-- The flash, which lies in memory, holds all of the region of the partition. -/
structure LiesIn (p : Partition) (flash : Bytes) : Prop where
  stop_le : p.offset + p.size ≤ flash.size
  size_lt : flash.size < 2 ^ 63

variable {p : Partition} {flash flash' : Bytes}

lemma LiesIn.exists_window (h : p.LiesIn flash) :
    ∃ w, p.window flash = .ok w ∧ w.bytes = flash.extract p.offset (p.offset + p.size) := by
  have hstop := h.stop_le
  have hlen := h.size_lt
  have hwindow : p.offset + p.size ≤ Word.max 64 ∧ p.offset + p.size ≤ flash.size := by
    unfold Word.max
    omega
  unfold window
  rw [dif_pos hwindow]
  exact ⟨_, rfl, rfl⟩

lemma store_congr (h : p.LiesIn flash) (h' : p.LiesIn flash')
    (hsame : flash.SameOn flash' p.offset (p.offset + p.size)) :
    p.store flash = p.store flash' := by
  obtain ⟨w, hw, hbytes⟩ := h.exists_window
  obtain ⟨w', hw', hbytes'⟩ := h'.exists_window
  have hregion : w.bytes = w'.bytes := by
    rw [hbytes, hbytes', hsame.extract_eq h.stop_le h'.stop_le]
  -- A store is built from the bytes of the window alone; the flash around it does not enter.
  unfold store openMapping
  rw [hw, hw']
  cases p.mode with
  | char => rfl
  | linear => simp only [bind, Except.bind, hregion]
  | linearXip => simp only [bind, Except.bind, hregion]
  | block => simp only [bind, Except.bind, Window.device_congr hregion]

lemma holds_of_store (h : p.LiesIn flash) {s : Store} (hs : p.store flash = .ok s) :
    s.Holds (flash.extract p.offset (p.offset + p.size)) := by
  obtain ⟨w, hw, hbytes⟩ := h.exists_window
  rw [← hbytes]
  have hmapped {inPlace : Bool} (hopen : p.openMapping flash inPlace = .ok s) :
      s.Holds w.bytes := by
    unfold openMapping at hopen
    dsimp only at hopen
    split at hopen
    · simp at hopen
    · rw [hw] at hopen
      rw [← Except.ok.inj hopen]
      exact rfl
  unfold store at hs
  split at hs
  · simp at hs
  · exact hmapped hs
  · exact hmapped hs
  · rw [hw] at hs
    rw [← Except.ok.inj hs]
    refine ⟨w.serves_device, ?_⟩
    intro n hn
    rw [w.size_bytes]
    exact (Option.some.inj hn).symm

/-- Every span that is read out of a partition holds bytes of its region, and zero bytes behind it;
never a byte of another region. -/
theorem range_readAll (h : p.LiesIn flash) {s : Store} (hs : p.store flash = .ok s)
    (reads : List (Nat × Nat)) :
    List.Forall₂
      (fun r answer => ∀ span, answer = .ok span →
        span.size = r.2 ∧ ∀ i < r.2, span.byteAt i =
          if r.1 + i < p.size then flash.byteAt (p.offset + (r.1 + i)) else 0)
      reads (s.readAll reads .empty).1 := by
  have hregion : Bytes.IsRange flash.byteAt p.offset p.size
      (flash.extract p.offset (p.offset + p.size)) := .of_extract h.stop_le
  apply ((holds_of_store h hs).range_readAll reads).imp
  intro r answer hanswer span hspan
  have hrange := hanswer span hspan
  refine ⟨hrange.size_eq, fun i hi => ?_⟩
  rw [hrange.byteAt_eq i hi]
  by_cases hin : r.1 + i < p.size
  · rw [if_pos hin, hregion.byteAt_eq _ hin]
  · rw [if_neg hin, Bytes.byteAt_of_le (by rw [hregion.size_eq]; omega)]

/-- Two flashes that hold the region of a partition and agree on its bytes open to the same outcome,
and no read and no operation can tell what else is in them. -/
theorem isolated (h : p.LiesIn flash) (h' : p.LiesIn flash')
    (hsame : flash.SameOn flash' p.offset (p.offset + p.size)) :
    Indistinct (p.store flash) (p.store flash') := by
  rw [store_congr h h' hsame]
  exact .refl _

/-- A region that starts and ends at no page boundary, behind three bytes. -/
def unalignedPartition : Partition where
  name := "rootfs"
  offset := 3
  size := 112
  mode := .block
  physAddress := 0

/-- An image between two neighbours. -/
def flashBetween (before after : Bytes) : Bytes := before ++ (Session.noteImage ++ after)

/-- Demands for the file of that image by its path, for the items of the root, and for the page of
the file. -/
def noteDemands : List Demand :=
  [.request (.walk (.ofList [0x61])), .items Session.noteMount.root 0 16,
    .request (.perform (.readPage Session.noteFile 0))]

lemma size_flashBetween {before after : Bytes} (hbefore : before.size = 3) :
    (flashBetween before after).size = 3 + (112 + after.size) := by
  have himage : Session.noteImage.size = 112 := rfl
  unfold flashBetween
  rw [ByteArray.size_append, ByteArray.size_append, hbefore, himage]

lemma liesIn_flashBetween {before after : Bytes} (hbefore : before.size = 3)
    (hafter : after.size ≤ 1) : unalignedPartition.LiesIn (flashBetween before after) := by
  have hsize : (flashBetween before after).size = _ := size_flashBetween hbefore
  constructor
  · change 3 + 112 ≤ _
    omega
  · omega

lemma extract_flashBetween {before after : Bytes} (hbefore : before.size = 3) :
    (flashBetween before after).extract 3 (3 + 112) = Session.noteImage := by
  have himage : Session.noteImage.size = 112 := rfl
  have hsize : (flashBetween before after).size = _ := size_flashBetween hbefore
  have hrange : Bytes.IsRange (flashBetween before after).byteAt 3 112 Session.noteImage := by
    refine ⟨himage, fun i hi => ?_⟩
    rw [flashBetween, Bytes.byteAt_append_right (by omega), hbefore, Nat.add_sub_cancel_left,
      Bytes.byteAt_append_left (by omega)]
  exact (Bytes.IsRange.of_extract (by omega)).unique hrange

lemma store_unaligned {flash : Bytes} (h : unalignedPartition.LiesIn flash) :
    ∃ w : Window, unalignedPartition.store flash = .ok (.buffered w.device (some w.length)) := by
  obtain ⟨w, hw, -⟩ := h.exists_window
  refine ⟨w, ?_⟩
  change (unalignedPartition.window flash >>= _) = _
  rw [hw]
  rfl

/-- What the image says of the demands, mounted over a block device. -/
lemma answered_noteDemands :
    List.Forall₂
      (fun demand reply => (demand.query (Session.noteMount.withMode .block)).answered?
        Session.noteImage = some reply) noteDemands
      [.answer (.file (some Session.noteFile)), .answer (.listing Session.noteListing),
        .answer (.bytes Session.notePage)] := by
  have hquery (demand : Demand) : demand.query (Session.noteMount.withMode .block) =
      demand.query Session.noteMount := demand.query_reachedBy fun _ => rfl
  have hwalk : (Path.walk Session.noteMount (Path.steps (.ofList [0x61]))
      [Session.noteMount.root]).answered? Session.noteImage = some (some Session.noteFile) := by
    decide +kernel
  refine .cons ?_ (.cons ?_ (.cons ?_ .nil))
  · rw [hquery, Demand.query, Request.query, Query.answered_map, Query.answered_map, hwalk]
    rfl
  · rw [hquery, Demand.query, Query.answered_map]
    exact congrArg (Option.map _) Session.answered_list
  · rw [hquery, Demand.query, Request.query, Operation.query, Query.answered_map,
      Query.answered_map, Session.answered_readPage]
    rfl

/-- The neighbours differ; all reads, the mount and the replies are the same, and the file is found,
listed and read. -/
theorem isolated_unaligned :
    ∃ s s', unalignedPartition.store (flashBetween (Bytes.zeros 3) (Bytes.zeros 0)) = .ok s ∧
      unalignedPartition.store (flashBetween (Bytes.ofList [1, 2, 3]) (Bytes.ofList [4])) = .ok s' ∧
      s.readAll [(0, 112), (110, 8), (0, 4)] .empty =
        s'.readAll [(0, 112), (110, 8), (0, 4)] .empty ∧
      (Filesystem.mount s .epoch).run s .empty = (Filesystem.mount s' .epoch).run s' .empty ∧
      ((Filesystem.mount s .epoch).run s .empty).1 = .ok (Session.noteMount.withMode .block) ∧
      (Session.noteMount.withMode .block).replies s noteDemands .empty =
        (Session.noteMount.withMode .block).replies s' noteDemands .empty ∧
      ((Session.noteMount.withMode .block).replies s noteDemands .empty).1 =
        [.ok (.answer (.file (some Session.noteFile))),
          .ok (.answer (.listing Session.noteListing)), .ok (.answer (.bytes Session.notePage))] := by
  have h : unalignedPartition.LiesIn (flashBetween (Bytes.zeros 3) (Bytes.zeros 0)) :=
    liesIn_flashBetween (Bytes.size_zeros 3) (by decide)
  have h' : unalignedPartition.LiesIn (flashBetween (Bytes.ofList [1, 2, 3]) (Bytes.ofList [4])) :=
    liesIn_flashBetween rfl (by decide)
  have hsame : (flashBetween (Bytes.zeros 3) (Bytes.zeros 0)).SameOn
      (flashBetween (Bytes.ofList [1, 2, 3]) (Bytes.ofList [4])) unalignedPartition.offset
      (unalignedPartition.offset + unalignedPartition.size) :=
    .of_between rfl (Nat.le_refl 3) (Nat.le_refl 115)
  obtain ⟨w, hw⟩ := store_unaligned h
  obtain ⟨w', hw'⟩ := store_unaligned h'
  have hholds : (Store.buffered w.device (some w.length)).Holds Session.noteImage :=
    extract_flashBetween (Bytes.size_zeros 3) ▸ holds_of_store h hw
  have hanswers (k : Device.Call) : (Store.buffered w.device (some w.length)).Answers k :=
    fun _ => nofun
  have hempty : Cache.empty.Coherent Session.noteImage.byteAt := Cache.every_empty _
  have hmounted := Filesystem.answered_mount hholds.mode_ne_char .epoch Session.answered_superblock
  obtain ⟨fs, hmount, rfl⟩ := (Query.Succeeds.of_answered hmounted).run hholds hempty
    fun k _ => hanswers k
  have hreplies := Filesystem.replies_of_answered hholds hanswers answered_noteDemands hempty
  have hindistinct := isolated h h' hsame
  rw [hw, hw'] at hindistinct
  cases hindistinct with
  | opened hreads hmounts hall =>
    exact ⟨_, _, hw, hw', hreads _ _, hmounts _ _, hmount, hall _ _ _, hreplies⟩

end Partition

end CompressedRom
