import CompressedRom.Proofs.ByteLayout
import CompressedRom.Proofs.CacheCoherence

/-!
# The block cache as a queue of two misses

All that the block cache knows is what its last two misses came to. `History` keeps the misses of
a sequence of reads apart from any buffers, and `Cache.Does` says in terms of these misses which
reads are hits, which pages a miss reads from the device, and what becomes of the buffers. The
cache does just that after any sequence of reads: `Cache.read_after`.
-/

namespace CompressedRom

namespace Device

/-- Those of the `n` pages from page `first` on that begin before the reported length. -/
def wantedPages (length? : Option Nat) (n first : Nat) : List Nat :=
  (List.range' first n).filter fun page => length?.all (page * pageSize < ·)

/-- Reads the given pages, as far as the device has them, one after the other until one fails: their
bytes, and the calls that this takes. -/
def fetch (d : Device) (length? : Option Nat) :
    (pages : List Nat) → (call : Nat) → Except IoError Bytes × List Call
  | [], _ => (.ok (Bytes.zeros 0), [])
  | page :: pages, call =>
    let pos := page * pageSize
    let wanted := available length? pos
    let calls := d.callsFor pos wanted call
    match (d.readExactly pos wanted call (Bytes.zeros 0)).1 with
    | .error e => (.error e, calls)
    | .ok bytes =>
      let rest := fetch d length? pages (call + calls.length)
      (rest.1.map (bytes ++ ·), calls ++ rest.2)

variable {d : Device} {length? : Option Nat}

lemma readExactly_next (d : Device) (pos len call : Nat) (got : Bytes) :
    (d.readExactly pos len call got).2 = call + (d.callsFor pos len call).length := by
  fun_induction readExactly d pos len call got with
  | case1 pos call got =>
    rw [callsFor, if_pos rfl]
    rfl
  | case2 pos len call got hl e hr =>
    rw [callsFor, if_neg hl, hr]
    rfl
  | case3 pos len call got hl chunk hr hc =>
    rw [callsFor, if_neg hl, hr]
    simp [hc]
  | case4 pos len call got hl chunk hr hc ih =>
    rw [callsFor, if_neg hl, hr, ih]
    simp only [if_neg hc, List.length_cons]
    omega

lemma next_of_readExactly {pos len call next : Nat} {got : Bytes} {result : Except IoError Bytes}
    (h : d.readExactly pos len call got = (result, next)) :
    next = call + (d.callsFor pos len call).length := by
  rw [← readExactly_next d pos len call got, h]

lemma available_eq_zero_iff {pos : Nat} :
    available length? pos = 0 ↔ ¬length?.all (pos < ·) = true := by
  cases length? with
  | none => simp [available, pageSize, pageShift]
  | some length =>
    have hsome : available (some length) pos = min (length - pos) pageSize := rfl
    have hpage : 0 < pageSize := by decide
    rw [hsome, Option.all_some, decide_eq_true_eq]
    omega

lemma wantedPages_succ (n first : Nat) :
    wantedPages length? (n + 1) first =
      if available length? (first * pageSize) = 0 then wantedPages length? n (first + 1)
      else first :: wantedPages length? n (first + 1) := by
  unfold wantedPages
  rw [List.range'_succ, List.filter_cons]
  by_cases h : available length? (first * pageSize) = 0
  · rw [if_pos h, if_neg (available_eq_zero_iff.1 h)]
  · rw [if_neg h, if_pos (not_not.1 (mt available_eq_zero_iff.2 h))]

lemma wantedPages_eq_nil {first : Nat} (h : available length? (first * pageSize) < pageSize)
    (n : Nat) : wantedPages length? n (first + 1) = [] := by
  cases length? with
  | none => exact absurd h (Nat.lt_irrefl _)
  | some length =>
    have hsome : available (some length) (first * pageSize) =
        min (length - first * pageSize) pageSize := rfl
    unfold wantedPages
    rw [List.filter_eq_nil_iff]
    intro page hpage
    -- The device ends in the page `first`, and this one begins behind that.
    have hpages : (first + 1) * pageSize ≤ page * pageSize :=
      Nat.mul_le_mul_right _ (List.mem_range'_1.1 hpage).1
    rw [Nat.succ_mul] at hpages
    rw [Option.all_some, decide_eq_true_eq]
    omega

lemma append_padded {page bytes : Bytes} (hpage : page.size ≤ pageSize)
    (hlast : page.size < pageSize → bytes = Bytes.zeros 0) (got : Bytes) (n : Nat) :
    got ++ page ++ Bytes.zeros (pageSize - page.size) ++
        (bytes ++ Bytes.zeros (n * pageSize - bytes.size)) =
      got ++ (page ++ bytes ++ Bytes.zeros ((n + 1) * pageSize - (page ++ bytes).size)) := by
  simp only [ByteArray.append_assoc]
  rw [ByteArray.size_append, Nat.succ_mul]
  -- A page that is cut short is the last one, so that all zero bytes come to stand at the end.
  by_cases hfull : page.size < pageSize
  · have hsum : pageSize - page.size + (0 + (n * pageSize - 0)) =
        0 + (n * pageSize + pageSize - (page.size + 0)) := by omega
    rw [hlast hfull, Bytes.size_zeros, Bytes.zeros_append_zeros, Bytes.zeros_append_zeros,
      Bytes.zeros_append_zeros, hsum]
  · have hsum : n * pageSize - bytes.size =
        n * pageSize + pageSize - (page.size + bytes.size) := by omega
    rw [Nat.sub_eq_zero_of_le (Nat.le_of_not_lt hfull), Bytes.zeros_zero_append, hsum]

lemma start_of_le {n first : Nat} (h : (first + (n + 1)) * pageSize ≤ 2 ^ 64) :
    Page.start first = .ok (first * pageSize) := by
  apply Word.mul_eq_ok
  unfold pageSize pageShift at *
  omega

/-- Reading no bytes takes no call, so a page behind the end is as good as left out. -/
lemma fetch_wantedPages_succ (n first call : Nat) :
    d.fetch length? (wantedPages length? (n + 1) first) call =
      let pos := first * pageSize
      let wanted := available length? pos
      let calls := d.callsFor pos wanted call
      let rest := d.fetch length? (wantedPages length? n (first + 1)) (call + calls.length)
      match (d.readExactly pos wanted call (Bytes.zeros 0)).1 with
      | .error e => (.error e, calls)
      | .ok page => (rest.1.map (page ++ ·), calls ++ rest.2) := by
  rw [wantedPages_succ]
  by_cases hz : available length? (first * pageSize) = 0
  · dsimp only
    rw [if_pos hz, hz, readExactly, if_pos rfl, callsFor, if_pos rfl]
    dsimp only [List.length_nil, Nat.add_zero, List.nil_append]
    rcases d.fetch length? (wantedPages length? n (first + 1)) call with ⟨e | bytes, calls⟩
    · rfl
    · rw [Except.map, Bytes.zeros_zero_append]
  · rw [if_neg hz]
    rfl

/-- Pages are read as far as the device has them, and zero bytes fill the rest. -/
lemma readPages_eq {n first : Nat} (hfirst : (first + n) * pageSize ≤ 2 ^ 64) (call : Nat)
    (got : Bytes) :
    d.readPages length? n first call got =
      (match (d.fetch length? (wantedPages length? n first) call).1 with
        | .error e => .error (.refused (.io e))
        | .ok bytes => .ok (got ++ (bytes ++ Bytes.zeros (n * pageSize - bytes.size))),
        call + (d.fetch length? (wantedPages length? n first) call).2.length) := by
  induction n generalizing first call got with
  | zero => simp [readPages, wantedPages, fetch, Bytes.append_zeros_zero]
  | succ n ih =>
    have hnext : (first + 1 + n) * pageSize ≤ 2 ^ 64 := by
      rwa [Nat.add_right_comm]
    rw [readPages, start_of_le hfirst, fetch_wantedPages_succ]
    dsimp only
    rcases hr : d.readExactly (first * pageSize) (available length? (first * pageSize)) call
      (Bytes.zeros 0) with ⟨e | page, next⟩
    · rw [next_of_readExactly hr]
    · dsimp only
      have hsize := size_readExactly hr
      rw [Bytes.size_zeros, Nat.zero_add] at hsize
      have hpage : page.size ≤ pageSize := hsize ▸ available_le length? _
      rw [ih hnext, next_of_readExactly hr, ← hsize]
      rcases hrest : d.fetch length? (wantedPages length? n (first + 1)) (call +
        (d.callsFor (first * pageSize) page.size call).length) with ⟨e | bytes, more⟩
      · simp only [Except.map, List.length_append, Nat.add_assoc]
      · have hlast (hshort : page.size < pageSize) : bytes = Bytes.zeros 0 := by
          rw [wantedPages_eq_nil (hsize ▸ hshort) n] at hrest
          exact (Except.ok.inj (congrArg Prod.fst hrest)).symm
        simp only [Except.map, List.length_append, Nat.add_assoc]
        rw [append_padded hpage hlast]

lemma pageCalls_eq {n first : Nat} (hfirst : (first + n) * pageSize ≤ 2 ^ 64) (call : Nat) :
    d.pageCalls length? n first call = (d.fetch length? (wantedPages length? n first) call).2 := by
  induction n generalizing first call with
  | zero => rfl
  | succ n ih =>
    have hnext : (first + 1 + n) * pageSize ≤ 2 ^ 64 := by
      rwa [Nat.add_right_comm]
    rw [pageCalls, start_of_le hfirst, fetch_wantedPages_succ]
    dsimp only
    rcases hr : d.readExactly (first * pageSize) (available length? (first * pageSize)) call
      (Bytes.zeros 0) with ⟨e | page, next⟩
    · exact List.append_nil _
    · dsimp only
      rw [ih hnext, next_of_readExactly hr]

end Device

/-- What a miss came to: the page from which on it was to fill a buffer, and the bytes that it
filled it with, if none of its pages failed. -/
structure Miss where
  first : Nat
  data? : Option Bytes

/-- What a miss leaves in its buffer: the page it starts with, and its bytes. -/
def Miss.held? (m : Miss) : Option (Nat × Bytes) := m.data?.map fun data => (m.first, data)

/-- What a filled buffer holds: the page it starts with, and its bytes. -/
def Buffer.held? (b : Buffer) : Option (Nat × Bytes) := b.first?.map fun first => (first, b.data)

/-- The buffer is filled, from page `first` on, with pages that hold the `len` bytes at `offset`. -/
def Buffer.Holds (b : Buffer) (first offset len : Nat) : Prop :=
  b.first? = some first ∧ first ≤ offset / pageSize ∧
    offset - pageSize * first + len ≤ bufferSize

lemma Buffer.held?_eq_some {b : Buffer} {first : Nat} {data : Bytes} :
    b.held? = some (first, data) ↔ b.first? = some first ∧ b.data = data := by
  cases hb : b.first? <;> simp [held?, hb]

/-- The miss was filled with pages that hold the `len` bytes at `offset`. -/
def Miss.Holds (m : Miss) (offset len : Nat) : Prop :=
  m.data?.isSome = true ∧ m.first ≤ offset / pageSize ∧
    offset - pageSize * m.first + len ≤ bufferSize

instance (m : Miss) (offset len : Nat) : Decidable (m.Holds offset len) :=
  inferInstanceAs (Decidable (_ ∧ _))

/-- What has come of some reads: the misses, the last one first, the number of hits, and the number
of calls to the device. -/
structure History where
  misses : List Miss
  hits : Nat
  calls : Nat

namespace History

def start : History := ⟨[], 0, 0⟩

def recent (h : History) : List Miss := h.misses.take 2

/-- What a miss from page `first` on reads from the device. -/
def fetched (d : Device) (length? : Option Nat) (h : History) (first : Nat) :
    Except IoError Bytes × List Device.Call :=
  d.fetch length? (Device.wantedPages length? pagesPerBuffer first) h.calls

/-- A buffer that starts with the given bytes. -/
def filled (bytes : Bytes) : Bytes := bytes ++ Bytes.zeros (bufferSize - bytes.size)

/-- The history after one more read. -/
def read (d : Device) (length? : Option Nat) (h : History) (offset len : Nat) : History :=
  if len = 0 ∨ bufferSize < offset % pageSize + len then h
  else if ∃ m ∈ h.recent, m.Holds offset len then { h with hits := h.hits + 1 }
  else
    let first := offset / pageSize
    let fetched := h.fetched d length? first
    { h with
      misses := ⟨first, fetched.1.toOption.map filled⟩ :: h.misses
      calls := h.calls + fetched.2.length }

def readAll (d : Device) (length? : Option Nat) : List (Nat × Nat) → History → History
  | [], h => h
  | (offset, len) :: reads, h => readAll d length? reads (h.read d length? offset len)

def after (d : Device) (length? : Option Nat) (reads : List (Nat × Nat)) : History :=
  start.readAll d length? reads

end History

namespace Cache

/-- The buffers hold what the last two misses have left behind, and the turn is that of the older
one; the counters are those of the history. -/
structure Remembers (c : Cache) (h : History) : Prop where
  newer : (c.slots.get (c.next + 1)).held? = h.misses[0]?.bind Miss.held?
  older : (c.slots.get c.next).held? = h.misses[1]?.bind Miss.held?
  hits : c.hits = h.hits
  misses : c.misses = h.misses.length
  calls : c.calls = h.calls

/-- The outcome and the device calls of a read of the `len` bytes at `offset`, from a cache `c` with
the history `h`. -/
inductive Does (d : Device) (length? : Option Nat) (offset len : Nat) (h : History) (c : Cache) :
    Except Failure Bytes × Cache → List Device.Call → Prop
  | nothing (hspan : len = 0 ∨ bufferSize < offset % pageSize + len)
    (answer : Except Failure Bytes) : Does d length? offset len h c (answer, c) []
  | hit {m : Miss} {data : Bytes} (hspan : ¬(len = 0 ∨ bufferSize < offset % pageSize + len))
    (hm : m ∈ h.recent) (hholds : m.Holds offset len) (hdata : m.data? = some data) :
    Does d length? offset len h c
      (.ok (data.extract (offset - pageSize * m.first) (offset - pageSize * m.first + len)),
        { c with hits := c.hits + 1 })
      []
  | filled {bytes : Bytes} {calls : List Device.Call} {b : Buffer}
    (hspan : ¬(len = 0 ∨ bufferSize < offset % pageSize + len))
    (hmiss : ∀ m ∈ h.recent, ¬m.Holds offset len)
    (hfetch : h.fetched d length? (offset / pageSize) = (.ok bytes, calls))
    (hb : b.held? = some (offset / pageSize, History.filled bytes)) :
    Does d length? offset len h c
      (.ok ((History.filled bytes).extract (offset % pageSize) (offset % pageSize + len)),
        c.missed b (c.calls + calls.length))
      calls
  | failed {e : IoError} {calls : List Device.Call} {b : Buffer}
    (hspan : ¬(len = 0 ∨ bufferSize < offset % pageSize + len))
    (hmiss : ∀ m ∈ h.recent, ¬m.Holds offset len)
    (hfetch : h.fetched d length? (offset / pageSize) = (.error e, calls))
    (hb : b.held? = none) :
    Does d length? offset len h c
      (.error (.refused (.io e)), c.missed b (c.calls + calls.length)) calls

variable {d : Device} {length? : Option Nat} {offset len : Nat} {h : History} {c : Cache}

lemma locate_eq (hoffset : offset < 2 ^ 32) (hlen : len ≤ bufferSize) (b : Buffer) :
    (∃ first, b.Holds first offset len ∧
        b.locate (offset / pageSize) (offset % pageSize) len =
          .ok (some (offset - pageSize * first))) ∨
      (∀ first, ¬b.Holds first offset len) ∧
        b.locate (offset / pageSize) (offset % pageSize) len = .ok none := by
  cases hb : b.first? with
  | none =>
    refine .inr ⟨fun first h => ?_, by rw [Buffer.locate, hb]⟩
    cases hb.symm.trans h.1
  | some first =>
    have hfirst (first' : Nat) (h : b.Holds first' offset len) : first' = first :=
      Option.some.inj (h.1.symm.trans hb)
    rw [Buffer.locate_filled hb]
    by_cases hbefore : offset / pageSize < first
    · rw [if_pos (.inl hbefore)]
      refine .inr ⟨fun first' h => Nat.not_le_of_lt hbefore ?_, rfl⟩
      exact hfirst first' h ▸ h.2.1
    · have hstart : (offset / pageSize - first) * pageSize + offset % pageSize =
          offset - pageSize * first := by
        have hmul := Nat.mul_le_mul_right pageSize (Nat.le_of_not_lt hbefore)
        have hdiv := Nat.div_add_mod' offset pageSize
        rw [Nat.sub_mul, Nat.mul_comm pageSize first]
        omega
      have hbuffer : bufferSize = 16384 := rfl
      rw [hstart, if_neg (by omega), if_neg (by omega)]
      by_cases hend : bufferSize < offset - pageSize * first + len
      · rw [if_pos hend]
        refine .inr ⟨fun first' h => Nat.not_le_of_lt hend ?_, rfl⟩
        exact hfirst first' h ▸ h.2.2
      · rw [if_neg hend]
        exact .inl ⟨first, ⟨hb, Nat.le_of_not_lt hbefore, Nat.le_of_not_lt hend⟩, rfl⟩

lemma findIn_eq (hoffset : offset < 2 ^ 32) (hlen : len ≤ bufferSize) (slots : List Buffer) :
    (∃ b ∈ slots, ∃ first, b.Holds first offset len ∧
        findIn (offset / pageSize) (offset % pageSize) len slots =
          .ok (some (b, offset - pageSize * first))) ∨
      (∀ b ∈ slots, ∀ first, ¬b.Holds first offset len) ∧
        findIn (offset / pageSize) (offset % pageSize) len slots = .ok none := by
  induction slots with
  | nil => exact .inr ⟨fun b hb => absurd hb List.not_mem_nil, rfl⟩
  | cons b slots ih =>
    rw [findIn]
    rcases locate_eq hoffset hlen b with ⟨first, hholds, hlocate⟩ | ⟨hnone, hlocate⟩
    · rw [hlocate]
      exact .inl ⟨b, List.mem_cons_self, first, hholds, rfl⟩
    · rw [hlocate]
      rcases ih with ⟨b', hb', hfound⟩ | ⟨hrest, hfind⟩
      · exact .inl ⟨b', List.mem_cons_of_mem _ hb', hfound⟩
      · exact .inr ⟨List.forall_mem_cons.2 ⟨hnone, hrest⟩, hfind⟩

lemma mem_slots_iff (slots : Vector Buffer 2) (i : Fin 2) {b : Buffer} :
    b ∈ slots ↔ b = slots.get (i + 1) ∨ b = slots.get i := by
  have htwo : ∀ i j : Fin 2, j = i + 1 ∨ j = i := by decide
  rw [Vector.mem_iff_getElem]
  constructor
  · rintro ⟨j, hj, rfl⟩
    rcases htwo i ⟨j, hj⟩ with heq | heq
    · exact .inl (congrArg slots.get heq)
    · exact .inr (congrArg slots.get heq)
  · rintro (rfl | rfl)
    · exact ⟨_, (i + 1).isLt, rfl⟩
    · exact ⟨_, i.isLt, rfl⟩

lemma Remembers.held_iff (hc : c.Remembers h) {held : Nat × Bytes} :
    (∃ b ∈ c.slots, b.held? = some held) ↔ ∃ m ∈ h.recent, m.held? = some held := by
  have hslots : (∃ b ∈ c.slots, b.held? = some held) ↔
      (c.slots.get (c.next + 1)).held? = some held ∨ (c.slots.get c.next).held? = some held := by
    simp only [mem_slots_iff c.slots c.next, or_and_right, exists_or, exists_eq_left]
  rw [hslots, hc.newer, hc.older, History.recent]
  rcases h.misses with _ | ⟨m, _ | ⟨m', misses⟩⟩ <;> simp

lemma does_nothing (hspan : len = 0 ∨ bufferSize < offset % pageSize + len) :
    Does d length? offset len h c (read d length? offset len c)
      (readCalls d length? offset len c) := by
  have hcalls : readCalls d length? offset len c = [] := by
    rw [readCalls, if_pos hspan]
  have hread : read d length? offset len c = ((read d length? offset len c).1, c) := by
    by_cases hlen : len = 0
    · rw [read, if_pos hlen]
    · have hlarge := hspan.resolve_left hlen
      by_cases hword : offset % pageSize + len < 2 ^ 64
      · rw [read_too_large hlen hword hlarge]
      · rw [read_overflow hlen (Nat.le_of_not_lt hword)]
  rw [hread, hcalls]
  exact .nothing hspan _

lemma does_hit (hspan : ¬(len = 0 ∨ bufferSize < offset % pageSize + len))
    {m : Miss} (hm : m ∈ h.recent) (hholds : m.Holds offset len) {b : Buffer}
    (hdata : m.data? = some b.data)
    (hfind : c.find (offset / pageSize) (offset % pageSize) len =
      .ok (some (b, offset - pageSize * m.first))) :
    Does d length? offset len h c (read d length? offset len c)
      (readCalls d length? offset len c) := by
  obtain ⟨hlen, hfits⟩ := not_or.1 hspan
  have hread : read d length? offset len c =
      (.ok (b.data.extract (offset - pageSize * m.first) (offset - pageSize * m.first + len)),
        { c with hits := c.hits + 1 }) := by
    rw [read_of_fits hlen hfits, hfind]
    dsimp only
    rw [part_of_le hholds.2.2]
  have hcalls : readCalls d length? offset len c = [] := by
    rw [readCalls, if_neg hspan, hfind]
  rw [hread, hcalls]
  exact .hit hspan hm hholds hdata

lemma readPages_of_fetched {first : Nat} (hpages : (first + pagesPerBuffer) * pageSize ≤ 2 ^ 64)
    {result : Except IoError Bytes} {calls : List Device.Call}
    (hfetch : h.fetched d length? first = (result, calls)) :
    d.readPages length? pagesPerBuffer first h.calls (Bytes.zeros 0) =
      (match result with
        | .error e => .error (.refused (.io e))
        | .ok bytes => .ok (History.filled bytes),
        h.calls + calls.length) := by
  have hfetch : d.fetch length? (Device.wantedPages length? pagesPerBuffer first) h.calls =
      (result, calls) := hfetch
  rw [Device.readPages_eq hpages, hfetch]
  cases result with
  | error e => rfl
  | ok bytes =>
    dsimp only
    rw [Bytes.zeros_zero_append]
    rfl

lemma does_miss (hspan : ¬(len = 0 ∨ bufferSize < offset % pageSize + len))
    (hoffset : offset < 2 ^ 32) (hmiss : ∀ m ∈ h.recent, ¬m.Holds offset len)
    (hcalls : c.calls = h.calls)
    (hfind : c.find (offset / pageSize) (offset % pageSize) len = .ok none) :
    Does d length? offset len h c (read d length? offset len c)
      (readCalls d length? offset len c) := by
  obtain ⟨hlen, hfits⟩ := not_or.1 hspan
  have hpages : (offset / pageSize + pagesPerBuffer) * pageSize ≤ 2 ^ 64 := by
    unfold pagesPerBuffer bufferShift pageSize pageShift
    omega
  have hread : read d length? offset len c =
      readMiss d length? (offset / pageSize) (offset % pageSize) len c := by
    rw [read_of_fits hlen hfits, hfind]
  have htrace : readCalls d length? offset len c = (h.fetched d length? (offset / pageSize)).2 := by
    rw [readCalls, if_neg hspan, hfind, hcalls]
    exact Device.pageCalls_eq hpages h.calls
  rw [hread, htrace]
  rcases hfetch : h.fetched d length? (offset / pageSize) with ⟨result, calls⟩
  have hpages := readPages_of_fetched hpages hfetch
  rw [← hcalls] at hpages
  rcases readMiss_cases d length? (offset / pageSize) (offset % pageSize) len c with
    ⟨failure, left, next, hfill, hempty, hmissed⟩ | ⟨filled, next, hfill, hfirst, hmissed⟩
  · rw [hpages] at hfill
    cases result with
    | ok bytes => cases hfill
    | error e =>
      cases hfill
      rw [hmissed]
      exact .failed hspan hmiss hfetch (by rw [Buffer.held?, hempty]; rfl)
  · rw [hpages] at hfill
    cases result with
    | error e => cases hfill
    | ok bytes =>
      obtain ⟨hdata, rfl⟩ := Prod.mk.inj hfill
      have hdata : filled.data = History.filled bytes := (Except.ok.inj hdata).symm
      rw [hmissed, part_of_le (Nat.le_of_not_lt hfits), hdata]
      exact .filled hspan hmiss hfetch (Buffer.held?_eq_some.2 ⟨hfirst, hdata⟩)

lemma does_read (d : Device) (length? : Option Nat) (len : Nat) (hoffset : offset < 2 ^ 32)
    (hc : c.Remembers h) :
    Does d length? offset len h c (read d length? offset len c)
      (readCalls d length? offset len c) := by
  by_cases hspan : len = 0 ∨ bufferSize < offset % pageSize + len
  · exact does_nothing hspan
  · have hlen : len ≤ bufferSize := by omega
    rcases findIn_eq hoffset hlen c.slots.toList with
      ⟨b, hb, first, ⟨hfirst, hle, hend⟩, hfind⟩ | ⟨hnone, hfind⟩
    · obtain ⟨m, hm, hheld⟩ := hc.held_iff.1
        ⟨b, Vector.mem_toList_iff.1 hb, Buffer.held?_eq_some.2 ⟨hfirst, rfl⟩⟩
      obtain ⟨data, hdata, heq⟩ := Option.map_eq_some_iff.1 hheld
      obtain ⟨rfl, rfl⟩ := Prod.mk.inj heq
      have hholds : m.Holds offset len := ⟨by rw [hdata]; rfl, hle, hend⟩
      exact does_hit hspan hm hholds hdata hfind
    · refine does_miss hspan hoffset ?_ hc.calls hfind
      intro m hm hholds
      obtain ⟨data, hdata⟩ := Option.isSome_iff_exists.1 hholds.1
      have hheld : m.held? = some (m.first, data) := by
        rw [Miss.held?, hdata]
        rfl
      obtain ⟨b, hb, hb'⟩ := hc.held_iff.2 ⟨m, hm, hheld⟩
      exact hnone b (Vector.mem_toList_iff.2 hb) m.first
        ⟨(Buffer.held?_eq_some.1 hb').1, hholds.2⟩

lemma Does.of_holds {outcome : Except Failure Bytes × Cache} {calls : List Device.Call}
    (hdoes : Does d length? offset len h c outcome calls)
    (hspan : ¬(len = 0 ∨ bufferSize < offset % pageSize + len))
    (hholds : ∃ m ∈ h.recent, m.Holds offset len) :
    outcome.2 = { c with hits := c.hits + 1 } ∧ calls = [] := by
  obtain ⟨m, hm, hholds⟩ := hholds
  cases hdoes with
  | nothing hidle answer => exact absurd hidle hspan
  | hit => exact ⟨rfl, rfl⟩
  | filled _ hmiss => exact absurd hholds (hmiss m hm)
  | failed _ hmiss => exact absurd hholds (hmiss m hm)

lemma Remembers.miss (hc : c.Remembers h) {m : Miss} {b : Buffer} (hb : b.held? = m.held?)
    (calls : Nat) :
    (c.missed b (c.calls + calls)).Remembers
      { misses := m :: h.misses, hits := h.hits, calls := h.calls + calls } := by
  have hturn : ∀ i : Fin 2, i + 1 + 1 = i := by decide
  have hother : ∀ i : Fin 2, i.val ≠ (i + 1).val := by decide
  have hslot : (c.slots.set c.next b).get c.next = b := Vector.getElem_set_self ..
  have hsame : (c.slots.set c.next b).get (c.next + 1) = c.slots.get (c.next + 1) :=
    Vector.getElem_set_ne _ _ (hother c.next)
  rw [missed_eq]
  constructor
  · dsimp only
    rw [hturn, hslot]
    exact hb
  · exact (congrArg Buffer.held? hsame).trans hc.newer
  · exact hc.hits
  · exact congrArg (· + 1) hc.misses
  · exact congrArg (· + calls) hc.calls

/-- The cache goes on to hold what the last two misses leave behind. -/
lemma Remembers.read (hc : c.Remembers h) {outcome : Except Failure Bytes × Cache}
    {calls : List Device.Call} (hdoes : Does d length? offset len h c outcome calls) :
    outcome.2.Remembers (h.read d length? offset len) := by
  unfold History.read
  cases hdoes with
  | nothing hspan answer =>
    rw [if_pos hspan]
    exact hc
  | hit hspan hm hholds hdata =>
    rw [if_neg hspan, if_pos ⟨_, hm, hholds⟩]
    exact ⟨hc.newer, hc.older, congrArg (· + 1) hc.hits, hc.misses, hc.calls⟩
  | filled hspan hmiss hfetch hb =>
    rw [if_neg hspan, if_neg (not_exists.2 fun m hm => hmiss m hm.1 hm.2)]
    dsimp only
    rw [hfetch]
    exact hc.miss hb _
  | failed hspan hmiss hfetch hb =>
    rw [if_neg hspan, if_neg (not_exists.2 fun m hm => hmiss m hm.1 hm.2)]
    dsimp only
    rw [hfetch]
    exact hc.miss hb _

lemma remembers_empty : empty.Remembers .start := ⟨rfl, rfl, rfl, rfl, rfl⟩

lemma remembers_readAll {reads : List (Nat × Nat)} (hreads : ∀ r ∈ reads, r.1 < 2 ^ 32)
    (hc : c.Remembers h) :
    ((Store.buffered d length?).readAll reads c).2.Remembers (h.readAll d length? reads) := by
  induction reads generalizing c h with
  | nil => exact hc
  | cons r reads ih =>
    obtain ⟨hr, hreads⟩ := List.forall_mem_cons.1 hreads
    exact ih hreads (hc.read (does_read d length? r.2 hr hc))

/-- The cache of a device after some reads. -/
def after (d : Device) (length? : Option Nat) (reads : List (Nat × Nat)) : Cache :=
  ((Store.buffered d length?).readAll reads .empty).2

/-- After any reads at 32-bit offsets, of any device, the buffers are those of the last two misses.
A read of nothing, or of more than fits into a buffer, changes nothing. Any other is a hit, which
counts as one and makes no call, if one of the two misses was filled with pages that hold the span.
Or else it is a miss, which reads those of the four pages from the span's first one on that begin
within the device, fails if one of them does, and puts what it has come to in the place of the older
of the two. -/
theorem read_after (d : Device) (length? : Option Nat) {reads : List (Nat × Nat)}
    (hreads : ∀ r ∈ reads, r.1 < 2 ^ 32) {offset : Nat} (hoffset : offset < 2 ^ 32) (len : Nat) :
    (after d length? reads).Remembers (.after d length? reads) ∧
      Does d length? offset len (.after d length? reads) (after d length? reads)
        ((after d length? reads).read d length? offset len)
        ((after d length? reads).readCalls d length? offset len) ∧
      ((after d length? reads).read d length? offset len).2.Remembers
        ((History.after d length? reads).read d length? offset len) := by
  have hremembers : (after d length? reads).Remembers (.after d length? reads) :=
    remembers_readAll hreads remembers_empty
  have hdoes := does_read d length? len hoffset hremembers
  exact ⟨hremembers, hdoes, hremembers.read hdoes⟩

/-- A device of two bytes that fails its third call, and every third one behind it. -/
def falteringPair : Device := .faltering (.ofList [7, 9]) (· % 3 == 2)

/-- Reads of that device, the fourth of which makes its third call: it misses, and the buffer of the
third one is left. -/
def falteringReads : List (Nat × Nat) := [(0, 3), (20000, 8), (40000, 8), (0, 1)]

theorem read_after_faltering :
    ∃ c h, c = after falteringPair (some 2) falteringReads ∧
      h = History.after falteringPair (some 2) falteringReads ∧
      (∀ r ∈ falteringReads, r.1 < 2 ^ 32) ∧ 40001 < 2 ^ 32 ∧ c.Remembers h ∧
      h.recent.map (fun m => (m.first, m.data?.isSome)) = [(0, false), (9, true)] ∧
      (c.read falteringPair (some 2) 40001 1).2 = { c with hits := c.hits + 1 } ∧
      c.readCalls falteringPair (some 2) 40001 1 = [] := by
  have hreads : ∀ r ∈ falteringReads, r.1 < 2 ^ 32 := by decide
  have hspan : ¬(1 = 0 ∨ bufferSize < 40001 % pageSize + 1) := by decide
  have hrecent : (History.after falteringPair (some 2) falteringReads).recent.map
      (fun m => (m.first, m.data?.isSome)) = [(0, false), (9, true)] := by decide +kernel
  have hholds : ∃ m ∈ (History.after falteringPair (some 2) falteringReads).recent,
      m.Holds 40001 1 := by decide +kernel
  obtain ⟨hremembers, hdoes, -⟩ :=
    read_after falteringPair (some 2) hreads (show 40001 < 2 ^ 32 by decide) 1
  exact ⟨_, _, rfl, rfl, hreads, by decide, hremembers, hrecent, hdoes.of_holds hspan hholds⟩

end Cache

end CompressedRom
