import CompressedRom.Proofs.ByteRange
import CompressedRom.Store.Device

/-!
# Reading from a device

`Device.readPages` says what comes out of a device that is read page by page, wherever the bytes are
put. `Device.Serves` says that a device with a fixed content answers each call with a failure or
with a beginning of the bytes asked for. Out of such a device come the bytes of the content, zero
past the reported length, or the failure of one of the calls that were made. These calls are listed
by `Device.callsFor` and `Device.pageCalls`.
-/

namespace CompressedRom.Device

/-- Behind `got`, the `len` bytes at `pos`, in as many calls as it takes, the first of which has
number `call`; and the number of the next call. -/
def readExactly (d : Device) (pos len call : Nat) (got : Bytes) : Except IoError Bytes × Nat :=
  if len = 0 then (.ok got, call)
  else
    match d.read call pos len with
    | .error e => (.error e, call + 1)
    | .ok chunk =>
      if chunk.size = 0 then (.error shortRead, call + 1)
      else readExactly d (pos + chunk.size) (len - chunk.size) (call + 1) (got ++ chunk)
termination_by len

/-- Behind `got`, the contents of `n` pages from page `first` on, zero past the reported length;
and the number of the next call. -/
def readPages (d : Device) (length? : Option Nat) :
    (n first call : Nat) → (got : Bytes) → Except Failure Bytes × Nat
  | 0, _, call, got => (.ok got, call)
  | n + 1, first, call, got =>
    match Page.start first with
    | .error step => (.error (.fault step), call)
    | .ok pos =>
      let wanted := available length? pos
      match d.readExactly pos wanted call (Bytes.zeros 0) with
      | (.error e, call) => (.error (.refused (.io e)), call)
      | (.ok page, call) =>
        readPages d length? n (first + 1) call (got ++ page ++ Bytes.zeros (pageSize - wanted))

/-- What a device of reported length `length?` is taken to hold. -/
def zeroPast (content : Nat → UInt8) (length? : Option Nat) (pos : Nat) : UInt8 :=
  match length? with
  | some length => if pos < length then content pos else 0
  | none => content pos

lemma zeroPast_of_lt {content : Nat → UInt8} {n pos : Nat} (h : pos < n) :
    zeroPast content (some n) pos = content pos := if_pos h

lemma zeroPast_of_le {content : Nat → UInt8} {n pos : Nat} (h : n ≤ pos) :
    zeroPast content (some n) pos = 0 := if_neg (Nat.not_lt.mpr h)

/-- Within the reported length, a call fails or is answered with one or more of the bytes asked
for, from the first one on. Calls may fail and stop short at will. -/
structure Serves (d : Device) (content : Nat → UInt8) (length? : Option Nat) : Prop where
  byteAt_eq : ∀ {call pos len : Nat} {chunk : Bytes}, (∀ n ∈ length?, pos + len ≤ n) →
    d.read call pos len = .ok chunk → ∀ i < chunk.size, chunk.byteAt i = content (pos + i)
  size_ne_zero : ∀ {call pos len : Nat} {chunk : Bytes}, (∀ n ∈ length?, pos + len ≤ n) →
    0 < len → d.read call pos len = .ok chunk → chunk.size ≠ 0

lemma serves_of_extract {d : Device} {content : Bytes}
    (h : ∀ call pos len chunk, d.read call pos len = .ok chunk →
      ∃ m ≤ len, (0 < len → 0 < m) ∧ chunk = content.extract pos (pos + m)) :
    d.Serves content.byteAt (some content.size) := by
  constructor
  · intro call pos len chunk hlen hr i hi
    obtain ⟨m, hm, -, rfl⟩ := h call pos len chunk hr
    rw [ByteArray.size_extract] at hi
    exact Bytes.byteAt_extract (by omega) (by omega)
  · intro call pos len chunk hlen hpos hr
    obtain ⟨m, hm, hm0, rfl⟩ := h call pos len chunk hr
    have := hlen content.size rfl
    have := hm0 hpos
    rw [ByteArray.size_extract]
    omega

lemma serves_ofBytes (content : Bytes) :
    (ofBytes content).Serves content.byteAt (some content.size) :=
  serves_of_extract fun _ _ len _ h => ⟨len, Nat.le_refl _, id, (Except.ok.inj h).symm⟩

/-- The device that holds `content`, fails the calls of which `fails` says so, and answers all others
with one byte. -/
def faltering (content : Bytes) (fails : Nat → Bool) : Device where
  length := .ok (some content.size)
  read call pos len :=
    if fails call then .error ⟨.other, "device error"⟩
    else .ok (content.extract pos (pos + min len 1))
  size_read_le h := by
    split at h
    · simp at h
    · rw [← Except.ok.inj h, ByteArray.size_extract]
      omega

lemma read_faltering {content : Bytes} {fails : Nat → Bool} {call : Nat} (h : fails call = false)
    (pos len : Nat) :
    (faltering content fails).read call pos len = .ok (content.extract pos (pos + min len 1)) := by
  change (if fails call then _ else _) = _
  rw [h, if_neg Bool.false_ne_true]

lemma serves_faltering (content : Bytes) (fails : Nat → Bool) :
    (faltering content fails).Serves content.byteAt (some content.size) := by
  apply serves_of_extract
  intro call pos len chunk h
  change (if fails call then _ else _) = _ at h
  split at h
  · simp at h
  · exact ⟨min len 1, Nat.min_le_left _ _, fun hlen => by omega, (Except.ok.inj h).symm⟩

/-- A call to a device: its number and the bytes asked for. -/
structure Call where
  number : Nat
  pos : Nat
  len : Nat

/-- The call comes to nothing: it fails, or it brings no bytes. -/
def Call.Breaks (d : Device) (k : Call) (e : IoError) : Prop :=
  d.read k.number k.pos k.len = .error e ∨
    e = shortRead ∧ ∃ chunk, d.read k.number k.pos k.len = .ok chunk ∧ chunk.size = 0

/-- The calls of `readExactly`. -/
def callsFor (d : Device) (pos len call : Nat) : List Call :=
  if len = 0 then []
  else
    ⟨call, pos, len⟩ ::
      match d.read call pos len with
      | .error _ => []
      | .ok chunk =>
        if chunk.size = 0 then []
        else callsFor d (pos + chunk.size) (len - chunk.size) (call + 1)
termination_by len

/-- The calls of `readPages`. -/
def pageCalls (d : Device) (length? : Option Nat) : (n first call : Nat) → List Call
  | 0, _, _ => []
  | n + 1, first, call =>
    match Page.start first with
    | .error _ => []
    | .ok pos =>
      let wanted := available length? pos
      d.callsFor pos wanted call ++
        match d.readExactly pos wanted call (Bytes.zeros 0) with
        | (.error _, _) => []
        | (.ok _, call) => pageCalls d length? n (first + 1) call

lemma size_readExactly {d : Device} {pos len call next : Nat} {got out : Bytes}
    (h : d.readExactly pos len call got = (.ok out, next)) : out.size = got.size + len := by
  fun_induction readExactly d pos len call got with
  | case1 => simp_all
  | case2 => simp at h
  | case3 => simp at h
  | case4 pos len call got hl chunk hr hc ih =>
    have := d.size_read_le hr
    rw [ih h, ByteArray.size_append]
    omega

lemma range_readExactly {d : Device} {content : Nat → UInt8} {length? : Option Nat}
    (hd : d.Serves content length?) {start pos len call next : Nat} {got out : Bytes}
    (hlen : ∀ n ∈ length?, pos + len ≤ n) (hpos : pos = start + got.size)
    (hgot : got.IsRange content start got.size)
    (h : d.readExactly pos len call got = (.ok out, next)) :
    out.IsRange content start (got.size + len) := by
  fun_induction readExactly d pos len call got with
  | case1 => simp_all
  | case2 => simp at h
  | case3 => simp at h
  | case4 pos len call got hl chunk hr hc ih =>
    have hle := d.size_read_le hr
    have hchunk : chunk.IsRange content (start + got.size) chunk.size :=
      ⟨rfl, fun i hi => hpos ▸ hd.byteAt_eq hlen hr i hi⟩
    have hout := ih (fun n hn => by have := hlen n hn; omega)
      (by rw [ByteArray.size_append]; omega)
      (by rw [ByteArray.size_append]; exact hgot.append hchunk) h
    rw [ByteArray.size_append] at hout
    have he : got.size + chunk.size + (len - chunk.size) = got.size + len := by omega
    rwa [he] at hout

lemma breaks_of_readExactly {d : Device} {pos len call next : Nat} {got : Bytes} {e : IoError}
    (h : d.readExactly pos len call got = (.error e, next)) :
    ∃ k ∈ d.callsFor pos len call, k.Breaks d e := by
  fun_induction readExactly d pos len call got with
  | case1 => simp at h
  | case2 pos len call got hl e' hr =>
    simp only [Prod.mk.injEq, Except.error.injEq] at h
    refine ⟨⟨call, pos, len⟩, ?_, .inl (h.1 ▸ hr)⟩
    rw [callsFor]
    simp [hl]
  | case3 pos len call got hl chunk hr hc =>
    simp only [Prod.mk.injEq, Except.error.injEq] at h
    refine ⟨⟨call, pos, len⟩, ?_, .inr ⟨h.1.symm, chunk, hr, hc⟩⟩
    rw [callsFor]
    simp [hl]
  | case4 pos len call got hl chunk hr hc ih =>
    obtain ⟨k, hk, hb⟩ := ih h
    refine ⟨k, ?_, hb⟩
    rw [callsFor]
    simp [hl, hr, hc, hk]

lemma callsFor_within {d : Device} {pos len call : Nat} {k : Call}
    (hk : k ∈ d.callsFor pos len call) : 0 < k.len ∧ k.pos + k.len = pos + len := by
  fun_induction callsFor d pos len call with
  | case1 => simp at hk
  | case2 pos len call hl ih =>
    rcases List.mem_cons.1 hk with rfl | hk
    · exact ⟨Nat.pos_of_ne_zero hl, rfl⟩
    · split at hk
      · simp at hk
      · rename_i chunk hr
        split at hk
        · simp at hk
        · rename_i hc
          have := d.size_read_le hr
          have := ih chunk hc hk
          omega

lemma available_le (length? : Option Nat) (pos : Nat) : available length? pos ≤ pageSize := by
  cases length? with
  | none => exact Nat.le_refl _
  | some n => exact Nat.min_le_right _ _

lemma available_within {length? : Option Nat} {pos : Nat} (h : available length? pos ≠ 0) :
    ∀ n ∈ length?, pos + available length? pos ≤ n := by
  rintro n hn
  cases hn
  have : available (some n) pos ≤ n - pos := Nat.min_le_left _ _
  omega

lemma range_page {content : Nat → UInt8} {length? : Option Nat} {pos : Nat} {page : Bytes}
    (h : page.IsRange content pos (available length? pos)) :
    (page ++ Bytes.zeros (pageSize - available length? pos)).IsRange (zeroPast content length?) pos
      pageSize := by
  have hpage : page.IsRange (zeroPast content length?) pos (available length? pos) := by
    apply h.congr
    intro i hi
    cases length? with
    | none => rfl
    | some n =>
      have hn : pos + available (some n) pos ≤ n := available_within (by omega) n rfl
      exact (zeroPast_of_lt (by omega)).symm
  have hzeros : (Bytes.zeros (pageSize - available length? pos)).IsRange (zeroPast content length?)
      (pos + available length? pos) (pageSize - available length? pos) := by
    apply Bytes.IsRange.zeros_of_eq_zero
    intro i hi
    cases length? with
    | none => exact absurd hi (by simp [available])
    | some n =>
      have hn : n ≤ pos + available (some n) pos := by
        change _ - min (n - pos) pageSize > _ at hi
        change n ≤ pos + min (n - pos) pageSize
        omega
      exact zeroPast_of_le (by omega)
  have happ := hpage.append hzeros
  rwa [Nat.add_sub_cancel' (available_le length? pos)] at happ

lemma start_eq_ok {index pos : Nat} (h : Page.start index = .ok pos) : pos = index * pageSize := by
  unfold Page.start Word.mul at h
  split at h
  · exact (Except.ok.inj h).symm
  · simp at h

lemma size_readPages {d : Device} {length? : Option Nat} {n first call next : Nat}
    {got out : Bytes} (h : d.readPages length? n first call got = (.ok out, next)) :
    out.size = got.size + n * pageSize := by
  induction n generalizing first call got with
  | zero =>
    simp only [readPages, Prod.mk.injEq, Except.ok.injEq] at h
    rw [← h.1, Nat.zero_mul, Nat.add_zero]
  | succ n ih =>
    rw [readPages] at h
    split at h
    · simp at h
    · rename_i pos hpos
      dsimp only at h
      split at h
      · simp at h
      · rename_i page call' hr
        have hp := size_readExactly hr
        have ha := available_le length? pos
        rw [ih h, ByteArray.size_append, ByteArray.size_append, hp, Bytes.size_zeros,
          Bytes.size_zeros, Nat.succ_mul]
        omega

lemma range_readPages {d : Device} {content : Nat → UInt8} {length? : Option Nat}
    (hd : d.Serves content length?) {start n first call next : Nat} {got out : Bytes}
    (hfirst : first * pageSize = start + got.size)
    (hgot : got.IsRange (zeroPast content length?) start got.size)
    (h : d.readPages length? n first call got = (.ok out, next)) :
    out.IsRange (zeroPast content length?) start (got.size + n * pageSize) := by
  induction n generalizing first call got with
  | zero =>
    simp only [readPages, Prod.mk.injEq, Except.ok.injEq] at h
    rw [← h.1, Nat.zero_mul, Nat.add_zero]
    exact hgot
  | succ n ih =>
    rw [readPages] at h
    split at h
    · simp at h
    · rename_i pos hpos
      dsimp only at h
      split at h
      · simp at h
      · rename_i page call' hr
        have hpage : page.IsRange content pos (available length? pos) := by
          by_cases hz : available length? pos = 0
          · rw [hz, readExactly, if_pos rfl] at hr
            simp only [Prod.mk.injEq, Except.ok.injEq] at hr
            rw [hz, ← hr.1]
            exact Bytes.IsRange.empty content pos
          · have hnone : (Bytes.zeros 0).IsRange content pos (Bytes.zeros 0).size :=
              Bytes.IsRange.empty content pos
            simpa using range_readExactly hd (available_within hz) rfl hnone hr
        have hfull := range_page hpage
        have hs : pos = start + got.size := (start_eq_ok hpos).trans hfirst
        subst hs
        rw [ByteArray.append_assoc] at h
        have hout := ih (by rw [ByteArray.size_append, hfull.size_eq, Nat.succ_mul]; omega)
          (by rw [ByteArray.size_append, hfull.size_eq]; exact hgot.append hfull) h
        rw [ByteArray.size_append, hfull.size_eq] at hout
        rwa [Nat.succ_mul, Nat.add_comm (n * pageSize), ← Nat.add_assoc]

/-- Pages within the reach of 64-bit positions are missed only because a call breaks. -/
lemma breaks_of_readPages {d : Device} {length? : Option Nat} {n first call next : Nat}
    {got : Bytes} {failure : Failure} (hfirst : (first + n) * pageSize ≤ 2 ^ 64)
    (h : d.readPages length? n first call got = (.error failure, next)) :
    ∃ e, failure = .refused (.io e) ∧ ∃ k ∈ d.pageCalls length? n first call, k.Breaks d e := by
  induction n generalizing first call got with
  | zero => simp [readPages] at h
  | succ n ih =>
    have hlt : first * pageSize < 2 ^ 64 := by
      unfold pageSize pageShift at *
      omega
    have hpos : Page.start first = .ok (first * pageSize) := Word.mul_eq_ok hlt
    rw [readPages, hpos] at h
    rw [pageCalls, hpos]
    dsimp only at h ⊢
    rcases hr : d.readExactly (first * pageSize) (available length? (first * pageSize)) call
      (Bytes.zeros 0) with ⟨e | page, call'⟩
    · rw [hr] at h
      simp only [Prod.mk.injEq, Except.error.injEq] at h
      obtain ⟨k, hk, hb⟩ := breaks_of_readExactly hr
      exact ⟨e, h.1.symm, k, List.mem_append_left _ hk, hb⟩
    · rw [hr] at h
      have hnext : first + 1 + n = first + (n + 1) := by omega
      obtain ⟨e, he, k, hk, hb⟩ := ih (hnext ▸ hfirst) h
      exact ⟨e, he, k, List.mem_append_right _ hk, hb⟩

lemma pageCalls_within {d : Device} {length? : Option Nat} {n first call : Nat} {k : Call}
    (hk : k ∈ d.pageCalls length? n first call) :
    0 < k.len ∧ ∀ m ∈ length?, k.pos + k.len ≤ m := by
  induction n generalizing first call with
  | zero => simp [pageCalls] at hk
  | succ n ih =>
    rw [pageCalls] at hk
    split at hk
    · simp at hk
    · rename_i pos hpos
      rcases List.mem_append.1 hk with hk | hk
      · have hz : available length? pos ≠ 0 := by
          intro hz
          rw [hz, callsFor] at hk
          simp at hk
        have hw := callsFor_within hk
        exact ⟨hw.1, fun m hm => hw.2 ▸ available_within hz m hm⟩
      · split at hk
        · simp at hk
        · exact ih hk

/-- A call that breaks on a device that serves its content has failed. -/
lemma Call.Breaks.failed {d : Device} {content : Nat → UInt8} {length? : Option Nat}
    (hd : d.Serves content length?) {n first call : Nat} {k : Call} {e : IoError}
    (hk : k ∈ d.pageCalls length? n first call) (hb : k.Breaks d e) :
    d.read k.number k.pos k.len = .error e := by
  rcases hb with hb | ⟨-, chunk, hr, hc⟩
  · exact hb
  · have hw := pageCalls_within hk
    exact absurd hc (hd.size_ne_zero hw.2 hw.1 hr)

end CompressedRom.Device
