import CompressedRom.Proofs.ByteLayout
import CompressedRom.Proofs.DeviceReads

/-!
# Filling a buffer

Pages are written into a buffer over what it held before. A fill that ends well leaves just the pages
that come out of the device; one that fails leaves some of them over the old bytes, and either way
the buffer does not learn what it is filled with: `Device.fillPages_cases`.
-/

namespace CompressedRom

namespace Buffer

lemma write_eq_ok {b : Buffer} {place : Nat} {chunk : Bytes} (h : place + chunk.size ≤ bufferSize) :
    b.write place chunk = .ok (b.put place chunk h) := dif_pos h

lemma clear_eq_ok {b : Buffer} {place n : Nat} (h : place + n ≤ bufferSize) :
    b.clear place n = .ok (b.put place (Bytes.zeros n) ((Bytes.size_zeros n).symm ▸ h)) := dif_pos h

/-- What is written behind bytes that stand over the old ones stands over these, too. -/
lemma data_put {b : Buffer} {got chunk old : Bytes} (hb : b.data = got.atop old)
    (hold : old.size = bufferSize) (h : got.size + chunk.size ≤ bufferSize) :
    (b.put got.size chunk h).data = (got ++ chunk).atop old := by
  have hroom : got.size + chunk.size ≤ b.data.size := b.size_data.symm ▸ h
  obtain ⟨data, hdata, -, hbytes⟩ := Bytes.overwrite_eq_ok hroom
  rw [Bytes.overwrite, if_pos hroom] at hdata
  have hput : (b.put got.size chunk h).data = data := Except.ok.inj hdata
  have hall : (got ++ chunk).size = got.size + chunk.size := ByteArray.size_append
  apply Bytes.ext_byteAt
  · rw [Bytes.size_atop (by omega), hold, size_data]
  · intro j _
    rw [hput, hbytes, hb, Bytes.byteAt_atop, Bytes.byteAt_atop, hall]
    by_cases hbefore : j < got.size
    · rw [if_neg (by omega), if_pos hbefore, if_pos (by omega), Bytes.byteAt_append_left hbefore]
    · by_cases hin : j < got.size + chunk.size
      · rw [if_pos (by omega), if_pos hin, Bytes.byteAt_append_right (by omega)]
      · rw [if_neg (by omega), if_neg hbefore, if_neg hin]

end Buffer

namespace Device

/-- What reading comes to beside what writing into the buffer `b` comes to. Bytes that are read stand
over the `old` ones then; where reading fails, writing fails in the same way and may leave anything.
Neither fills the buffer, and both take the same calls. -/
inductive Writes (old : Bytes) (b : Buffer) :
    Except Failure Bytes × Nat → Except Failure Unit × Buffer × Nat → Prop
  | failed {failure : Failure} {left : Buffer} {next : Nat} (hfirst : left.first? = b.first?) :
    Writes old b (.error failure, next) (.error failure, left, next)
  | written {bytes : Bytes} {filled : Buffer} {next : Nat} (hfirst : filled.first? = b.first?)
    (hdata : filled.data = bytes.atop old) : Writes old b (.ok bytes, next) (.ok (), filled, next)

lemma Writes.of_first_eq {old : Bytes} {b b' : Buffer} {read : Except Failure Bytes × Nat}
    {fill : Except Failure Unit × Buffer × Nat} (h : Writes old b' read fill)
    (hfirst : b'.first? = b.first?) : Writes old b read fill := by
  cases h with
  | failed hleft => exact .failed (hleft.trans hfirst)
  | written hfilled hdata => exact .written (hfilled.trans hfirst) hdata

/-- The failure of a call as that of an operation. -/
def asFailure (result : Except IoError Bytes × Nat) : Except Failure Bytes × Nat :=
  (result.1.mapError (.refused ∘ .io), result.2)

lemma writes_readInto (d : Device) (pos call : Nat) {len : Nat} {got old : Bytes} {b : Buffer}
    (hold : old.size = bufferSize) (hb : b.data = got.atop old)
    (hfit : got.size + len ≤ bufferSize) :
    Writes old b (asFailure (d.readExactly pos len call got))
      (d.readInto pos len call got.size b) := by
  fun_induction readExactly d pos len call got generalizing b with
  | case1 pos call got =>
    rw [readInto, if_pos rfl]
    exact .written rfl hb
  | case2 pos len call got hl e hr =>
    rw [readInto, if_neg hl, hr]
    exact .failed rfl
  | case3 pos len call got hl chunk hr hc =>
    rw [readInto, if_neg hl, hr]
    dsimp only
    rw [if_pos hc]
    exact .failed rfl
  | case4 pos len call got hl chunk hr hc ih =>
    have hle := d.size_read_le hr
    have hroom : got.size + chunk.size ≤ bufferSize := by omega
    have hsize : (got ++ chunk).size = got.size + chunk.size := ByteArray.size_append
    rw [readInto, if_neg hl, hr]
    dsimp only
    rw [if_neg hc, Buffer.write_eq_ok hroom]
    dsimp only
    rw [← hsize]
    exact (ih (Buffer.data_put hb hold hroom) (by omega)).of_first_eq rfl

lemma readExactly_append (d : Device) (pos len call : Nat) (before got : Bytes) :
    d.readExactly pos len call (before ++ got) =
      ((d.readExactly pos len call got).1.map (before ++ ·), (d.readExactly pos len call got).2) := by
  fun_induction readExactly d pos len call got with
  | case1 pos call got =>
    rw [readExactly, if_pos rfl]
    rfl
  | case2 pos len call got hl e hr =>
    rw [readExactly, if_neg hl, hr]
    rfl
  | case3 pos len call got hl chunk hr hc =>
    rw [readExactly, if_neg hl, hr]
    dsimp only
    rw [if_pos hc]
    rfl
  | case4 pos len call got hl chunk hr hc ih =>
    rw [readExactly, if_neg hl, hr]
    dsimp only
    rw [if_neg hc, ByteArray.append_assoc, ih]

/-- The bytes that a page has come out of the device, and zero bytes stand behind them. -/
lemma writes_fillPage (d : Device) (length? : Option Nat) (call : Nat) {page pos : Nat}
    {got old : Bytes} {b : Buffer}
    (hold : old.size = bufferSize) (hb : b.data = got.atop old)
    (hfit : got.size + pageSize ≤ bufferSize) (hpos : Page.start page = .ok pos) :
    Writes old b
      (match d.readExactly pos (available length? pos) call (Bytes.zeros 0) with
        | (.error e, next) => (.error (.refused (.io e)), next)
        | (.ok bytes, next) =>
          (.ok (got ++ bytes ++ Bytes.zeros (pageSize - available length? pos)), next))
      (d.fillPage length? page call got.size b) := by
  have hwanted := available_le length? pos
  have hread := readExactly_append d pos (available length? pos) call got (Bytes.zeros 0)
  have hwrites := writes_readInto d pos call hold hb
    (show got.size + available length? pos ≤ bufferSize by omega)
  rw [Bytes.append_zeros_zero] at hread
  rw [hread] at hwrites
  rw [fillPage, hpos]
  dsimp only
  rcases hw : d.readInto pos (available length? pos) call got.size b with ⟨outcome, b', next⟩
  rcases hr : d.readExactly pos (available length? pos) call (Bytes.zeros 0) with
    ⟨e | bytes, next'⟩
  · rw [hw, hr] at hwrites
    cases hwrites with
    | failed hfirst => exact .failed hfirst
  · rw [hw, hr] at hwrites
    cases hwrites with
    | written hfirst hdata =>
      have hbytes := size_readExactly hr
      rw [Bytes.size_zeros, Nat.zero_add] at hbytes
      have hplace : (got ++ bytes).size = got.size + available length? pos := by
        rw [ByteArray.size_append, hbytes]
      have hroom : (got ++ bytes).size + (pageSize - available length? pos) ≤ bufferSize := by
        omega
      dsimp only
      rw [Word.sub_eq_ok hwanted, ← hplace]
      dsimp only [bind, Except.bind]
      rw [Buffer.clear_eq_ok hroom]
      exact .written hfirst (Buffer.data_put hdata hold _)

lemma writes_fillPages (d : Device) (length? : Option Nat) (first call : Nat) {n : Nat}
    {got old : Bytes} {b : Buffer}
    (hold : old.size = bufferSize) (hb : b.data = got.atop old)
    (hfit : got.size + n * pageSize ≤ bufferSize) :
    Writes old b (d.readPages length? n first call got)
      (d.fillPages length? n first call got.size b) := by
  induction n generalizing first call got b with
  | zero => exact .written rfl hb
  | succ n ih =>
    rw [Nat.succ_mul] at hfit
    rw [readPages, fillPages]
    cases hpos : Page.start first with
    | error step =>
      rw [fillPage, hpos]
      exact .failed rfl
    | ok pos =>
      have hpage := writes_fillPage d length? call hold hb
        (show got.size + pageSize ≤ bufferSize by omega) hpos
      rcases hf : d.fillPage length? first call got.size b with ⟨outcome, b', next⟩
      rcases hr : d.readExactly pos (available length? pos) call (Bytes.zeros 0) with
        ⟨e | bytes, next'⟩
      · rw [hf, hr] at hpage
        cases hpage with
        | failed hfirst =>
          dsimp only
          rw [hr]
          exact .failed hfirst
      · rw [hf, hr] at hpage
        cases hpage with
        | written hfirst hdata =>
          have hbytes := size_readExactly hr
          have hwanted := available_le length? pos
          have hnext : (got ++ bytes ++ Bytes.zeros (pageSize - available length? pos)).size =
              got.size + pageSize := by
            rw [ByteArray.size_append, ByteArray.size_append, Bytes.size_zeros, hbytes,
              Bytes.size_zeros]
            omega
          have hrest := ih (first + 1) next hdata (by omega)
          rw [hnext] at hrest
          dsimp only
          rw [hr]
          exact hrest.of_first_eq hfirst

/-- A fill of a whole buffer fails with the pages, or leaves just these in it. -/
lemma fillPages_cases (d : Device) (length? : Option Nat) (first call : Nat) (b : Buffer) :
    (∃ failure left next,
        d.readPages length? pagesPerBuffer first call (Bytes.zeros 0) = (.error failure, next) ∧
        d.fillPages length? pagesPerBuffer first call 0 b = (.error failure, left, next) ∧
        left.first? = b.first?) ∨
      ∃ filled next,
        d.readPages length? pagesPerBuffer first call (Bytes.zeros 0) = (.ok filled.data, next) ∧
        d.fillPages length? pagesPerBuffer first call 0 b = (.ok (), filled, next) := by
  have hnone : (Bytes.zeros 0).size = 0 := Bytes.size_zeros 0
  have hwrites := writes_fillPages d length? first call b.size_data
    (Bytes.zeros_zero_atop b.data).symm
    (show (Bytes.zeros 0).size + pagesPerBuffer * pageSize ≤ bufferSize by rw [hnone]; decide)
  rw [hnone] at hwrites
  rcases hf : d.fillPages length? pagesPerBuffer first call 0 b with ⟨outcome, filled, next⟩
  rcases hr : d.readPages length? pagesPerBuffer first call (Bytes.zeros 0) with
    ⟨failure | data, next'⟩
  · rw [hf, hr] at hwrites
    cases hwrites with
    | failed hfirst => exact .inl ⟨failure, filled, next, rfl, rfl, hfirst⟩
  · rw [hf, hr] at hwrites
    cases hwrites with
    | written hfirst hdata =>
      have hall := size_readPages hr
      rw [hnone, Nat.zero_add] at hall
      have hexact : filled.data = data := hdata.trans
        (Bytes.atop_of_size (b.size_data.trans hall.symm))
      exact .inr ⟨filled, next, by rw [hexact], rfl⟩

end Device

end CompressedRom
