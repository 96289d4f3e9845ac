import CompressedRom.Proofs.BufferFill
import CompressedRom.Store
import Mathlib.Data.List.Forall2

/-!
# Coherence of the block cache

Every filled buffer of the cache holds what the device has there, zero past its reported length.
Reads keep this, those that fail part of the way and leave half of a fill behind included, so that
whatever a read gives out is what the device has.
-/

namespace CompressedRom

/-- Where a span would start in a filled buffer, and whether it is sought and found there. -/
lemma Buffer.locate_filled {b : Buffer} {first : Nat} (hb : b.first? = some first)
    (page inPage len : Nat) :
    b.locate page inPage len =
      if page < first ∨ 2 ^ 64 ≤ (page - first) * pageSize + inPage then .ok none
      else if 2 ^ 64 ≤ (page - first) * pageSize + inPage + len then .error .overflow
      else if bufferSize < (page - first) * pageSize + inPage + len then .ok none
      else .ok (some ((page - first) * pageSize + inPage)) := by
  unfold locate
  rw [hb]
  dsimp only
  by_cases hfirst : page < first
  · rw [if_pos hfirst, if_pos (.inl hfirst)]
  · rw [if_neg hfirst, Word.sub_eq_ok (Nat.le_of_not_lt hfirst)]
    dsimp only [bind, Except.bind]
    by_cases hstart : (page - first) * pageSize + inPage < 2 ^ 64
    · rw [Word.mul_eq_ok (by omega), if_neg (by omega)]
      dsimp only
      rw [Word.add_eq_ok hstart]
      dsimp only [Except.toOption]
      by_cases hstop : (page - first) * pageSize + inPage + len < 2 ^ 64
      · rw [Word.add_eq_ok hstop, if_neg (Nat.not_le.2 hstop)]
        exact (apply_ite Except.ok _ _ _)
      · rw [Word.add, if_neg hstop, if_pos (Nat.le_of_not_lt hstop)]
    · rw [if_pos (.inr (Nat.le_of_not_lt hstart))]
      unfold Word.mul Word.add
      by_cases hpages : (page - first) * pageSize < 2 ^ 64
      · rw [if_pos hpages]
        dsimp only
        rw [if_neg hstart]
        rfl
      · rw [if_neg hpages]
        rfl

namespace Cache

variable {d : Device} {length? : Option Nat} {content : Nat → UInt8} {good : Nat → Bytes → Prop}
  {c : Cache}

/-- The bytes of every filled buffer are `good` for its first page. -/
def Every (c : Cache) (good : Nat → Bytes → Prop) : Prop :=
  ∀ b ∈ c.slots, ∀ first, b.first? = some first → good first b.data

/-- Every filled buffer holds the bytes of `content` from its first page on. -/
def Coherent (content : Nat → UInt8) (c : Cache) : Prop :=
  c.Every fun first data => data.IsRange content (first * pageSize) bufferSize

lemma every_empty (good : Nat → Bytes → Prop) : empty.Every good := by
  intro b hb first hfirst
  rw [empty, Vector.mem_replicate] at hb
  rw [hb.2] at hfirst
  cases hfirst

/-- The cache after a miss that has taken the calls up to number `calls`, and of which the buffer `b`
is left. -/
def missed (c : Cache) (b : Buffer) (calls : Nat) : Cache :=
  { c.evict.2 with misses := c.misses + 1, calls }.put c.next b

lemma missed_eq (c : Cache) (b : Buffer) (calls : Nat) :
    c.missed b calls = ⟨c.slots.set c.next b, c.next + 1, c.hits, c.misses + 1, calls⟩ := by
  unfold missed evict put
  rw [Vector.set_set]

lemma every_missed (hc : c.Every good) {b : Buffer} {calls : Nat}
    (hb : ∀ first, b.first? = some first → good first b.data) : (c.missed b calls).Every good := by
  intro b' hb'
  rw [missed_eq] at hb'
  rcases @Vector.mem_or_eq_of_mem_set _ _ _ _ _ _ c.next.isLt hb' with hb' | rfl
  · exact hc b' hb'
  · exact hb

/-- A miss reads its pages, and leaves the buffer filled with them, or empty if one fails. -/
lemma readMiss_cases (d : Device) (length? : Option Nat) (page inPage len : Nat) (c : Cache) :
    (∃ failure left next,
        d.readPages length? pagesPerBuffer page c.calls (Bytes.zeros 0) = (.error failure, next) ∧
        left.first? = none ∧
        readMiss d length? page inPage len c = (.error failure, c.missed left next)) ∨
      ∃ filled next,
        d.readPages length? pagesPerBuffer page c.calls (Bytes.zeros 0) =
          (.ok filled.data, next) ∧
        filled.first? = some page ∧
        readMiss d length? page inPage len c = (part filled inPage len, c.missed filled next) := by
  have hvictim : (c.slots.set c.next (c.slots.get c.next).emptied).get c.next =
      (c.slots.get c.next).emptied := Vector.getElem_set_self ..
  unfold readMiss evict
  rcases d.fillPages_cases length? page c.calls (c.slots.get c.next).emptied with
    ⟨failure, left, next, hread, hfill, hfirst⟩ | ⟨filled, next, hread, hfill⟩
  · refine .inl ⟨failure, left, next, hread, hfirst, ?_⟩
    dsimp only [put]
    rw [hvictim, hfill, missed_eq]
    dsimp only
    rw [Vector.set_set]
  · refine .inr ⟨filled.filledFrom page, next, hread, rfl, ?_⟩
    dsimp only [put]
    rw [hvictim, hfill, missed_eq]
    dsimp only
    rw [Vector.set_set]

/-- The calls to the device that a read takes. -/
def readCalls (d : Device) (length? : Option Nat) (offset len : Nat) (c : Cache) :
    List Device.Call :=
  if len = 0 ∨ bufferSize < offset % pageSize + len then []
  else
    match c.find (offset / pageSize) (offset % pageSize) len with
    | .ok none => d.pageCalls length? pagesPerBuffer (offset / pageSize) c.calls
    | .ok (some _) | .error _ => []

lemma pageCalls_of_mem_readCalls {offset len : Nat} {k : Device.Call}
    (hk : k ∈ readCalls d length? offset len c) :
    k ∈ d.pageCalls length? pagesPerBuffer (offset / pageSize) c.calls := by
  unfold readCalls at hk
  split at hk
  · simp at hk
  · split at hk
    · exact hk
    · simp at hk
    · simp at hk

/-- A buffer does not hold all of a span, or holds it at its place; there may be a fault only for a
span whose end is out of reach. -/
lemma locate_cases (b : Buffer) (page inPage len : Nat) :
    (∃ step, b.locate page inPage len = .error step ∧ 2 ^ 64 ≤ page * pageSize + inPage + len) ∨
      b.locate page inPage len = .ok none ∨
      ∃ first start, b.first? = some first ∧ b.locate page inPage len = .ok (some start) ∧
        first * pageSize + start = page * pageSize + inPage ∧ start + len ≤ bufferSize := by
  cases hb : b.first? with
  | none =>
    rw [Buffer.locate, hb]
    exact .inr (.inl rfl)
  | some first =>
    rw [Buffer.locate_filled hb]
    split
    · exact .inr (.inl rfl)
    · rename_i hsought
      have hfirst : first ≤ page := Nat.le_of_not_lt (not_or.1 hsought).1
      have hstart : first * pageSize + ((page - first) * pageSize + inPage) =
          page * pageSize + inPage := by
        rw [← Nat.add_assoc, ← Nat.add_mul, Nat.add_sub_cancel' hfirst]
      split
      · exact .inl ⟨.overflow, rfl, by omega⟩
      · split
        · exact .inr (.inl rfl)
        · rename_i hend
          exact .inr (.inr ⟨first, _, rfl, rfl, hstart, Nat.le_of_not_lt hend⟩)

lemma findIn_cases (page inPage len : Nat) (slots : List Buffer) :
    (∃ step, findIn page inPage len slots = .error step ∧
        2 ^ 64 ≤ page * pageSize + inPage + len) ∨
      findIn page inPage len slots = .ok none ∨
      ∃ b first start, findIn page inPage len slots = .ok (some (b, start)) ∧ b ∈ slots ∧
        b.first? = some first ∧ first * pageSize + start = page * pageSize + inPage ∧
        start + len ≤ bufferSize := by
  induction slots with
  | nil => exact .inr (.inl rfl)
  | cons b slots ih =>
    rw [findIn]
    rcases locate_cases b page inPage len with
      ⟨step, hl, hw⟩ | hl | ⟨first, start, hfirst, hl, hs⟩
    · rw [hl]
      exact .inl ⟨step, rfl, hw⟩
    · rw [hl]
      rcases ih with h | h | ⟨b', first, start, h, hb, hs⟩
      · exact .inl h
      · exact .inr (.inl h)
      · exact .inr (.inr ⟨b', first, start, h, List.mem_cons_of_mem _ hb, hs⟩)
    · rw [hl]
      exact .inr (.inr ⟨b, first, start, rfl, List.mem_cons_self, hfirst, hs⟩)

lemma part_of_le {b : Buffer} {start len : Nat} (h : start + len ≤ bufferSize) :
    part b start len = .ok (b.data.extract start (start + len)) := by
  unfold part Buffer.part
  rw [if_pos h]

lemma read_too_large {offset len : Nat} (hlen : len ≠ 0)
    (hword : offset % pageSize + len < 2 ^ 64) (hlarge : bufferSize < offset % pageSize + len) :
    read d length? offset len c = (.error (.refused (.spanTooLarge offset len)), c) := by
  unfold read
  rw [if_neg hlen]
  dsimp only
  rw [Word.add_eq_ok hword]
  dsimp only
  rw [if_pos hlarge]

lemma read_overflow {offset len : Nat} (hlen : len ≠ 0)
    (hword : 2 ^ 64 ≤ offset % pageSize + len) :
    read d length? offset len c = (.error (.fault .overflow), c) := by
  unfold read
  rw [if_neg hlen]
  dsimp only
  rw [Word.add, if_neg (Nat.not_lt.2 hword)]

/-- A read of some bytes that fit into a buffer takes them out of the buffer that is found, or out
of one that it fills. -/
lemma read_of_fits {offset len : Nat} (hlen : len ≠ 0)
    (hfits : ¬bufferSize < offset % pageSize + len) :
    read d length? offset len c =
      match c.find (offset / pageSize) (offset % pageSize) len with
      | .error step => (.error (.fault step), c)
      | .ok (some (b, start)) => (part b start len, { c with hits := c.hits + 1 })
      | .ok none => readMiss d length? (offset / pageSize) (offset % pageSize) len c := by
  have hword : bufferSize < 2 ^ 64 := by decide
  unfold read
  rw [if_neg hlen]
  dsimp only
  rw [Word.add_eq_ok (by omega)]
  exact if_neg hfits

/-- All that a read can do: nothing, refuse what fits into no buffer, hit, or miss. -/
lemma read_cases (d : Device) (length? : Option Nat) (offset len : Nat) (c : Cache) :
    len = 0 ∧ read d length? offset len c = (.ok (Bytes.zeros 0), c) ∨
      (∃ failure, read d length? offset len c = (.error failure, c) ∧
        (bufferSize < offset % pageSize + len ∨ 2 ^ 64 ≤ offset + len)) ∨
      (∃ b ∈ c.slots, ∃ first start, b.first? = some first ∧ first * pageSize + start = offset ∧
        start + len ≤ bufferSize ∧
        read d length? offset len c =
          (.ok (b.data.extract start (start + len)), { c with hits := c.hits + 1 })) ∨
      len ≠ 0 ∧ offset % pageSize + len ≤ bufferSize ∧
        c.find (offset / pageSize) (offset % pageSize) len = .ok none ∧
        read d length? offset len c =
          readMiss d length? (offset / pageSize) (offset % pageSize) len c := by
  have hoffset : offset / pageSize * pageSize + offset % pageSize = offset := Nat.div_add_mod' ..
  by_cases hl : len = 0
  · exact .inl ⟨hl, by simp [read, hl]⟩
  · refine .inr ?_
    by_cases hs : bufferSize < offset % pageSize + len
    · by_cases hw : offset % pageSize + len < 2 ^ 64
      · exact .inl ⟨_, read_too_large hl hw hs, .inl hs⟩
      · exact .inl ⟨_, read_overflow hl (Nat.le_of_not_lt hw), .inl hs⟩
    · rcases findIn_cases (offset / pageSize) (offset % pageSize) len c.slots.toList with
        ⟨step, hf, hb⟩ | hf | ⟨b, first, start, hf, hb, hfirst, hstart, hle⟩
      · rw [read_of_fits hl hs, find, hf]
        exact .inl ⟨_, rfl, .inr (hoffset ▸ hb)⟩
      · rw [read_of_fits hl hs, find, hf]
        exact .inr (.inr ⟨hl, Nat.le_of_not_lt hs, rfl, rfl⟩)
      · rw [read_of_fits hl hs, find, hf]
        dsimp only
        rw [part_of_le hle]
        exact .inr (.inl ⟨b, Vector.mem_toList_iff.1 hb, first, start, hfirst,
          hstart.trans hoffset, hle, rfl⟩)

lemma every_readMiss {page inPage len : Nat} (hc : c.Every good)
    (hfill : ∀ data calls, d.readPages length? pagesPerBuffer page c.calls (Bytes.zeros 0) =
      (.ok data, calls) → good page data) :
    (readMiss d length? page inPage len c).2.Every good := by
  rcases readMiss_cases d length? page inPage len c with
    ⟨failure, left, next, -, hempty, hmiss⟩ | ⟨filled, next, hread, hpage, hmiss⟩
  -- What a fill that fails has written counts for nothing, as its buffer is empty.
  · rw [hmiss]
    apply every_missed hc
    intro first hfirst
    rw [hempty] at hfirst
    cases hfirst
  · rw [hmiss]
    apply every_missed hc
    intro first hfirst
    rw [hpage] at hfirst
    cases hfirst
    exact hfill _ _ hread

lemma every_read {offset len : Nat} (hc : c.Every good)
    (hfill : ∀ data calls,
      d.readPages length? pagesPerBuffer (offset / pageSize) c.calls (Bytes.zeros 0) =
        (.ok data, calls) → good (offset / pageSize) data) :
    (read d length? offset len c).2.Every good := by
  rcases read_cases d length? offset len c with
    ⟨-, h⟩ | ⟨failure, h, -⟩ | ⟨b, -, first, start, -, -, -, h⟩ | ⟨-, -, -, h⟩
  · rw [h]
    exact hc
  · rw [h]
    exact hc
  · rw [h]
    exact hc
  · rw [h]
    exact every_readMiss hc hfill

lemma range_fill (hd : d.Serves content length?) {page call next : Nat} {data : Bytes}
    (h : d.readPages length? pagesPerBuffer page call (Bytes.zeros 0) = (.ok data, next)) :
    data.IsRange (Device.zeroPast content length?) (page * pageSize) bufferSize := by
  have hnone : (Bytes.zeros 0).IsRange (Device.zeroPast content length?) (page * pageSize)
      (Bytes.zeros 0).size := by
    rw [Bytes.size_zeros]
    exact Bytes.IsRange.empty _ _
  have hdata := Device.range_readPages hd (by rw [Bytes.size_zeros, Nat.add_zero]) hnone h
  rwa [Bytes.size_zeros, Nat.zero_add] at hdata

lemma coherent_read (hd : d.Serves content length?) (offset len : Nat)
    (hc : c.Coherent (Device.zeroPast content length?)) :
    (read d length? offset len c).2.Coherent (Device.zeroPast content length?) :=
  every_read hc fun _ _ h => range_fill hd h

lemma read_eq_ok {offset len : Nat} {span : Bytes}
    (h : (read d length? offset len c).1 = .ok span) :
    len = 0 ∧ span = Bytes.zeros 0 ∨
      ∃ b first start, b.first? = some first ∧ first * pageSize + start = offset ∧
        start + len ≤ bufferSize ∧ span = b.data.extract start (start + len) ∧
        (b ∈ c.slots ∨
          ∃ calls, d.readPages length? pagesPerBuffer first c.calls (Bytes.zeros 0) =
            (.ok b.data, calls)) := by
  rcases read_cases d length? offset len c with
    ⟨hl, hr⟩ | ⟨failure, hr, -⟩ | ⟨b, hb, first, start, hfirst, hstart, hle, hr⟩ | ⟨-, hle, -, hr⟩
  · rw [hr] at h
    exact .inl ⟨hl, (Except.ok.inj h).symm⟩
  · rw [hr] at h
    cases h
  · rw [hr] at h
    exact .inr ⟨b, first, start, hfirst, hstart, hle, (Except.ok.inj h).symm, .inl hb⟩
  · rw [hr] at h
    rcases readMiss_cases d length? (offset / pageSize) (offset % pageSize) len c with
      ⟨failure, left, next, -, -, hmiss⟩ | ⟨filled, next, hread, hpage, hmiss⟩
    · rw [hmiss] at h
      cases h
    · rw [hmiss, part_of_le hle] at h
      exact .inr ⟨filled, offset / pageSize, offset % pageSize, hpage, Nat.div_add_mod' .., hle,
        (Except.ok.inj h).symm, .inr ⟨next, hread⟩⟩

lemma size_read {offset len : Nat} {span : Bytes}
    (h : (read d length? offset len c).1 = .ok span) : span.size = len := by
  rcases read_eq_ok h with ⟨hl, rfl⟩ | ⟨b, first, start, -, -, hle, rfl, -⟩
  · rw [hl, Bytes.size_zeros]
  · rw [ByteArray.size_extract, b.size_data]
    omega

lemma range_read (hd : d.Serves content length?)
    (hc : c.Coherent (Device.zeroPast content length?)) {offset len : Nat} {span : Bytes}
    (h : (read d length? offset len c).1 = .ok span) :
    span.IsRange (Device.zeroPast content length?) offset len := by
  rcases read_eq_ok h with ⟨hl, rfl⟩ | ⟨b, first, start, hfirst, hstart, hle, rfl, hb⟩
  · rw [hl]
    exact Bytes.IsRange.empty _ _
  · have hdata : b.data.IsRange (Device.zeroPast content length?) (first * pageSize)
        bufferSize := by
      rcases hb with hb | ⟨calls, hfill⟩
      · exact hc b hb first hfirst
      · exact range_fill hd hfill
    exact hstart ▸ hdata.extract hle

/-- A read that fits into a buffer fails only if one of its calls comes to nothing. -/
lemma breaks_of_read {offset len : Nat} {failure : Failure} (hoffset : offset + len ≤ 2 ^ 32)
    (hle : offset % pageSize + len ≤ bufferSize)
    (h : (read d length? offset len c).1 = .error failure) :
    ∃ e, failure = .refused (.io e) ∧ ∃ k ∈ readCalls d length? offset len c, k.Breaks d e := by
  rcases read_cases d length? offset len c with
    ⟨-, hr⟩ | ⟨failure', hr, hbad⟩ | ⟨b, -, first, start, -, -, -, hr⟩ | ⟨hl, -, hf, hr⟩
  · rw [hr] at h
    cases h
  · omega
  · rw [hr] at h
    cases h
  · rw [hr] at h
    rcases readMiss_cases d length? (offset / pageSize) (offset % pageSize) len c with
      ⟨failure', left, next, hread, -, hmiss⟩ | ⟨filled, next, -, -, hmiss⟩
    · rw [hmiss] at h
      cases h
      have hpage : (offset / pageSize + pagesPerBuffer) * pageSize ≤ 2 ^ 64 := by
        unfold pagesPerBuffer bufferShift pageSize pageShift
        omega
      rw [readCalls, if_neg (by omega), hf]
      exact Device.breaks_of_readPages hpage hread
    · rw [hmiss, part_of_le hle] at h
      cases h

end Cache

/-- The answers to reads made one after the other, and the cache afterwards. -/
def Store.readAll (s : Store) : List (Nat × Nat) → Cache → List (Except Failure Bytes) × Cache
  | [], c => ([], c)
  | (offset, len) :: reads, c =>
    let (answer, c) := s.read offset len c
    let (answers, c) := s.readAll reads c
    (answer :: answers, c)

lemma Store.coherent_readAll {d : Device} {length? : Option Nat} {content : Nat → UInt8}
    (hd : d.Serves content length?) (reads : List (Nat × Nat)) {c : Cache}
    (hc : c.Coherent (Device.zeroPast content length?)) :
    List.Forall₂
        (fun r answer => ∀ span, answer = .ok span →
          span.IsRange (Device.zeroPast content length?) r.1 r.2)
        reads ((Store.buffered d length?).readAll reads c).1 ∧
      ((Store.buffered d length?).readAll reads c).2.Coherent
        (Device.zeroPast content length?) := by
  induction reads generalizing c with
  | nil => exact ⟨.nil, hc⟩
  | cons r reads ih =>
    obtain ⟨hanswers, hafter⟩ := ih (Cache.coherent_read hd r.1 r.2 hc)
    exact ⟨.cons (fun span h => Cache.range_read hd hc h) hanswers, hafter⟩

/-- Every read of a block device that succeeds, after any others, successful or not, gives as many
bytes as are asked for: those of the device, and zero bytes from its reported length on. After
every one of them each filled buffer holds just these bytes of its four pages, whatever a fill that
has failed may have left in an empty one. -/
theorem Store.readAll_buffered {d : Device} {length? : Option Nat} {content : Nat → UInt8}
    (hd : d.Serves content length?) (reads : List (Nat × Nat)) :
    List.Forall₂
        (fun r answer => ∀ span, answer = .ok span →
          span.size = r.2 ∧
            ∀ i < r.2, span.byteAt i = Device.zeroPast content length? (r.1 + i))
        reads ((Store.buffered d length?).readAll reads .empty).1 ∧
      ∀ b ∈ ((Store.buffered d length?).readAll reads .empty).2.slots, ∀ first,
        b.first? = some first → b.data.size = bufferSize ∧
          ∀ i < bufferSize,
            b.data.byteAt i = Device.zeroPast content length? (first * pageSize + i) := by
  obtain ⟨hanswers, hafter⟩ := coherent_readAll hd reads (Cache.every_empty _)
  refine ⟨hanswers.imp ?_, fun b hb first hfirst => ?_⟩
  · intro r answer h span hspan
    exact ⟨(h span hspan).size_eq, (h span hspan).byteAt_eq⟩
  · exact ⟨(hafter b hb first hfirst).size_eq, (hafter b hb first hfirst).byteAt_eq⟩

/-- The device of two bytes that fails its second call, in the middle of the first fill. -/
theorem Store.readAll_faltering :
    let d := Device.faltering (.ofList [7, 9]) (· == 1)
    let after := (Store.buffered d (some 2)).readAll [(0, 2), (0, 2), (1, 1)] .empty
    d.Serves (Bytes.ofList [7, 9]).byteAt (some 2) ∧
      after.1 = [.error (.refused (.io ⟨.other, "device error"⟩)), .ok (.ofList [7, 9]),
        .ok (.ofList [9])] ∧
      after.2.slots.map Buffer.first? = #v[none, some 0] ∧
      ∀ b ∈ after.2.slots, b.first? = some 0 → ∀ i < bufferSize,
        b.data.byteAt i = Device.zeroPast (Bytes.ofList [7, 9]).byteAt (some 2) i := by
  intro d after
  have hd : d.Serves (Bytes.ofList [7, 9]).byteAt (some 2) := Device.serves_faltering _ _
  have hfailures : after.1.map (fun | .error failure => some failure | .ok _ => none) =
      [some (.refused (.io ⟨.other, "device error"⟩)), none, none] := by decide +kernel
  obtain ⟨hanswers, hslots⟩ := Store.readAll_buffered hd [(0, 2), (0, 2), (1, 1)]
  change List.Forall₂ _ _ after.1 at hanswers
  refine ⟨hd, ?_, by decide +kernel, ?_⟩
  · obtain ⟨first, second, third, hall⟩ : ∃ first second third, after.1 = [first, second, third] :=
      ⟨_, _, _, rfl⟩
    rw [hall] at hfailures hanswers ⊢
    simp only [List.map_cons, List.map_nil, List.cons.injEq] at hfailures
    obtain ⟨hfirst, hsecond, hthird, -⟩ := hfailures
    simp only [List.forall₂_cons] at hanswers
    obtain ⟨-, hspan, hspan', -⟩ := hanswers
    have hboth : Bytes.IsRange (Device.zeroPast (Bytes.ofList [7, 9]).byteAt (some 2)) 0 2
        (.ofList [7, 9]) := ⟨rfl, by decide⟩
    have hlast : Bytes.IsRange (Device.zeroPast (Bytes.ofList [7, 9]).byteAt (some 2)) 1 1
        (.ofList [9]) := ⟨rfl, by decide⟩
    cases first with
    | ok span => cases hfirst
    | error failure =>
      cases second with
      | error failure => cases hsecond
      | ok span =>
        cases third with
        | error failure => cases hthird
        | ok span' =>
          obtain ⟨hsize, hbytes⟩ := hspan span rfl
          obtain ⟨hsize', hbytes'⟩ := hspan' span' rfl
          rw [Option.some.inj hfirst, Bytes.IsRange.unique ⟨hsize, hbytes⟩ hboth,
            Bytes.IsRange.unique ⟨hsize', hbytes'⟩ hlast]
  · intro b hb hfirst i hi
    have hbyte := (hslots b hb 0 hfirst).2 i hi
    rwa [Nat.zero_mul, Nat.zero_add] at hbyte

end CompressedRom
