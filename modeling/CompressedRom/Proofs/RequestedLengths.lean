import CompressedRom.Proofs.DeviceEnd

/-!
# Reads of any length

The length of a read is the caller's, and may be any 64-bit number. A mapping compares it with what
is left behind the offset, so that no sum is formed of the two before it is known to be small. A
buffered read adds it to the offset within a page first, and where this sum leaves its word the read
ends in a fault and not with a refusal.
-/

namespace CompressedRom

/-- A request for `len` bytes comes to just as many, or is refused. -/
def Answers (len : Nat) : Except Failure Bytes → Prop
  | .ok span => span.size = len
  | .error (.refused _) => True
  | .error (.fault _) => False

lemma Mapping.answers_read (m : Mapping) (offset len : Nat) :
    Answers len (m.read offset len) ∧
      ∀ span, m.read offset len = .ok span → len = 0 ∨ offset + len ≤ m.bytes.size := by
  rw [Mapping.read_eq]
  split_ifs with hzero hin
  · exact ⟨hzero ▸ Bytes.size_zeros 0, fun _ _ => .inl hzero⟩
  · refine ⟨?_, fun _ _ => .inr hin⟩
    change (m.bytes.extract offset (offset + len)).size = len
    rw [ByteArray.size_extract]
    omega
  · refine ⟨trivial, ?_⟩
    intro span h
    cases h

namespace Cache

variable {d : Device} {length? : Option Nat} {c : Cache} {offset len : Nat}

lemma answers_of_fits (hoffset : offset < 2 ^ 32) (hlen : 1 ≤ len)
    (hfit : offset % pageSize + len ≤ bufferSize) :
    Answers len (read d length? offset len c).1 := by
  rcases hread : (read d length? offset len c).1 with ⟨cause | step⟩ | span
  · trivial
  · rcases read_contained_cases (c := c) d length? hoffset hlen hfit with
      ⟨-, b, -, first, start, -, -, -, hhit⟩ | ⟨-, hmiss⟩
    · rw [hhit] at hread
      cases hread
    · rw [hmiss] at hread
      rcases readMiss_cases d length? (offset / pageSize) (offset % pageSize) len c with
        ⟨failure, left, next, hpages, -, hmissed⟩ | ⟨filled, next, -, -, hmissed⟩
      · obtain ⟨e, rfl, -⟩ := Device.breaks_of_readPages (pages_le hoffset) hpages
        rw [hmissed] at hread
        cases hread
      · rw [hmissed, part_of_le hfit] at hread
        cases hread
  · exact size_read hread

lemma answers_read (hoffset : offset < 2 ^ 32)
    (hword : len = 0 ∨ offset % pageSize + len < 2 ^ 64) :
    Answers len (read d length? offset len c).1 := by
  by_cases hzero : len = 0
  · rw [read, if_pos hzero, hzero]
    exact Bytes.size_zeros 0
  · by_cases hfit : offset % pageSize + len ≤ bufferSize
    · exact answers_of_fits hoffset (Nat.pos_of_ne_zero hzero) hfit
    · rw [read_too_large hzero (hword.resolve_left hzero) (Nat.lt_of_not_le hfit)]
      trivial

end Cache

/-- At any 32-bit offset and for any length, a read of a mapping comes to just as many bytes or is
refused, and any sum that it forms lies within the mapping. So does a read of any device with any
cache, unless the length and the offset within its page add up to more than a word: then it ends in
a fault, and leaves the cache as it was. -/
theorem read_of_any_length {offset : Nat} (hoffset : offset < 2 ^ 32) (len : Nat) :
    (∀ m : Mapping, Answers len (m.read offset len) ∧
      ∀ span, m.read offset len = .ok span → len = 0 ∨ offset + len ≤ m.bytes.size) ∧
    ∀ (d : Device) (length? : Option Nat) (c : Cache),
      (len = 0 ∨ offset % pageSize + len < 2 ^ 64 →
        Answers len (c.read d length? offset len).1) ∧
      (len ≠ 0 → 2 ^ 64 ≤ offset % pageSize + len →
        c.read d length? offset len = (.error (.fault .overflow), c)) := by
  refine ⟨fun m => m.answers_read offset len, ?_⟩
  intro d length? c
  constructor
  · intro hword
    exact Cache.answers_read hoffset hword
  · intro hzero hword
    exact Cache.read_overflow hzero hword

/-- The longest length, at the offsets 4096 and 1. -/
theorem read_of_any_length_longest :
    let d := Device.ofBytes (.zeros 4096)
    Answers (2 ^ 64 - 1) ((Cache.empty.read d (some 4096) 4096 (2 ^ 64 - 1)).1) ∧
      Cache.empty.read d (some 4096) 1 (2 ^ 64 - 1) = (.error (.fault .overflow), .empty) := by
  intro d
  have haligned := (read_of_any_length (show 4096 < 2 ^ 32 by decide) (2 ^ 64 - 1)).2 d (some 4096)
    .empty
  have hunaligned := (read_of_any_length (show 1 < 2 ^ 32 by decide) (2 ^ 64 - 1)).2 d (some 4096)
    .empty
  exact ⟨haligned.1 (.inr (by decide)), hunaligned.2 (by decide) (by decide)⟩

/-- Not every read of a device comes to the bytes asked for or is refused. -/
theorem not_answers_any_length :
    ¬∀ (d : Device) (length? : Option Nat) (c : Cache) (offset len : Nat),
      offset < 2 ^ 32 → len < 2 ^ 64 → Answers len (c.read d length? offset len).1 := by
  intro h
  have hread := h (.ofBytes (.zeros 4096)) (some 4096) .empty 1 (2 ^ 64 - 1) (by decide)
    (by decide)
  rw [Cache.read_overflow (by decide) (by decide)] at hread
  exact hread

end CompressedRom
