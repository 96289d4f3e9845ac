import CompressedRom.Codec
import CompressedRom.Proofs.ByteLayout
import CompressedRom.Proofs.StreamExtent

/-!
# Requests to an engine

What a request comes to rests on what single calls are promised to do. `Engine.Decodes` is the
promise of a decoder, and with it the loop of calls finds the output of the stream that the source
starts with just when there is one and the destination holds all of it, whatever room is left over
and whatever follows the stream.
-/

namespace CompressedRom.Engine

/-- From a reset on, calls that ask for more have brought the engine to `state`, with `taken` bytes
of `src` used up and `output` given out. -/
inductive Reached (e : Engine) (src : Bytes) : e.State → (taken : Nat) → (output : Bytes) → Prop
  | fresh : Reached e src e.fresh 0 (Bytes.zeros 0)
  | call {state : e.State} {taken : Nat} {output : Bytes} (h : Reached e src state taken output)
    {room : Nat} (hmore : (e.call state (inputLeft src taken) room).status = .ok .more) :
    Reached e src (e.call state (inputLeft src taken) room).state
      (taken + (e.call state (inputLeft src taken) room).taken)
      (output ++ (e.call state (inputLeft src taken) room).output)

/-- The engine decodes: at the end of its stream it has used up the whole stream and given out its
output; and with the rest of a stream and room for the rest of its output at hand, a call comes to
the end of the stream, or asks for more while there is room. -/
structure Decodes (e : Engine) : Prop where
  inflates : ∀ {src : Bytes} {state : e.State} {taken : Nat} {output : Bytes} {room : Nat},
    e.Reached src state taken output →
    (e.call state (inputLeft src taken) room).status = .ok .ended →
      Zlib.Inflates (src.extract 0 (taken + (e.call state (inputLeft src taken) room).taken))
        (output ++ (e.call state (inputLeft src taken) room).output)
  completes : ∀ {src : Bytes} {state : e.State} {taken : Nat} {output out : Bytes} {room : Nat},
    e.Reached src state taken output → Zlib.Inflates src out → out.size ≤ output.size + room →
      (e.call state (inputLeft src taken) room).status = .ok .ended ∨
        (e.call state (inputLeft src taken) room).status = .ok .more ∧ room ≠ 0

/-- The loop of a request has come to a call. -/
structure At (e : Engine) (src : Bytes) (capacity : Nat) (state : e.State) (taken : Nat)
    (output : Bytes) : Prop where
  size_le : output.size ≤ capacity
  reached : e.Reached src state taken output

/-- How a request may end: with the end of the stream, with a failure of a call, or with a call that
cannot come to the end. -/
inductive Ends (e : Engine) (causes : Causes) (src : Bytes) (capacity : Nat) :
    Except IoError Bytes → Prop
  | ended {state : e.State} {taken : Nat} {output : Bytes}
    (hat : e.At src capacity state taken output)
    (hstatus : (e.call state (inputLeft src taken) (roomLeft capacity output)).status =
      .ok .ended) :
    Ends e causes src capacity
      (.ok (output ++ (e.call state (inputLeft src taken) (roomLeft capacity output)).output))
  | refused {state : e.State} {taken : Nat} {output : Bytes} {text : String}
    (hat : e.At src capacity state taken output)
    (hstatus : (e.call state (inputLeft src taken) (roomLeft capacity output)).status =
      .error text) :
    Ends e causes src capacity (.error (causes.refused text))
  | full : Ends e causes src capacity (.error causes.full)
  | stuck : Ends e causes src capacity (.error causes.stuck)

/-- The number of calls that a request takes from a call on. -/
def callsFrom (e : Engine) (src : Bytes) (capacity : Nat) (state : e.State) (taken : Nat)
    (output : Bytes) : Nat :=
  let room := roomLeft capacity output
  let reply := e.call state (inputLeft src taken) room
  match _h : reply.status with
  | .ok .more =>
    if room = 0 then 1
    else 1 + callsFrom e src capacity reply.state (taken + reply.taken) (output ++ reply.output)
  | .ok .ended | .ok .stuck | .error _ => 1
termination_by src.size - taken + (capacity - output.size)
decreasing_by exact left_lt e _h

variable {e : Engine} {causes : Causes} {src : Bytes} {capacity : Nat} {state : e.State}
  {taken : Nat} {output : Bytes}

lemma At.start (src : Bytes) (capacity : Nat) :
    e.At src capacity e.fresh 0 (Bytes.zeros 0) := by
  constructor
  · rw [Bytes.size_zeros]
    exact Nat.zero_le _
  · exact .fresh

lemma At.size_append_le (h : e.At src capacity state taken output) :
    (output ++ (e.call state (inputLeft src taken) (roomLeft capacity output)).output).size ≤
      capacity := by
  have hsize := h.size_le
  have houtput := e.size_output_le state (inputLeft src taken) (roomLeft capacity output)
  rw [roomLeft_eq] at *
  rw [ByteArray.size_append]
  omega

lemma At.next (h : e.At src capacity state taken output)
    (hmore : (e.call state (inputLeft src taken) (roomLeft capacity output)).status = .ok .more) :
    e.At src capacity (e.call state (inputLeft src taken) (roomLeft capacity output)).state
      (taken + (e.call state (inputLeft src taken) (roomLeft capacity output)).taken)
      (output ++ (e.call state (inputLeft src taken) (roomLeft capacity output)).output) := by
  constructor
  · exact h.size_append_le
  · exact h.reached.call hmore

lemma ends_drive (causes : Causes) (h : e.At src capacity state taken output) :
    e.Ends causes src capacity (e.drive causes src capacity state taken output).1 := by
  fun_induction drive e causes src capacity state taken output with
  | case1 state taken output room reply text hstatus => exact .refused h hstatus
  | case2 state taken output room reply hstatus => exact .ended h hstatus
  | case3 state taken output room reply hstatus hroom => exact .full
  | case4 state taken output room reply hstatus hroom ih => exact ih (h.next hstatus)
  | case5 state taken output room reply hstatus =>
    by_cases hroom : room = 0
    · rw [if_pos hroom]
      exact .full
    · rw [if_neg hroom]
      exact .stuck

lemma ends_decompress (e : Engine) (state : e.State) (src : Bytes) (capacity : Nat) :
    e.Ends (decoding capacity) src capacity (e.decompress state src capacity).1 := by
  unfold decompress
  rw [e.reset_eq]
  exact ends_drive _ (At.start src capacity)

lemma ends_compress (e : Engine) (state : e.State) (src : Bytes) (capacity : Nat) :
    e.Ends encoding src capacity (e.compress state src capacity).1 := by
  unfold compress
  rw [e.reset_eq]
  exact ends_drive _ (At.start src capacity)

lemma callsFrom_le (e : Engine) (src : Bytes) (capacity : Nat) (state : e.State) (taken : Nat)
    (output : Bytes) :
    e.callsFrom src capacity state taken output ≤
      src.size - taken + (capacity - output.size) + 1 := by
  fun_induction callsFrom e src capacity state taken output with
  | case1 => exact Nat.le_add_left _ _
  | case2 state taken output room reply hmore hroom ih =>
    have hless := left_lt e hmore
    dsimp only [room, reply] at ih ⊢
    omega
  | case3 => exact Nat.le_add_left _ _
  | case4 => exact Nat.le_add_left _ _
  | case5 => exact Nat.le_add_left _ _

/-! A decoder finds streams as a whole. -/

lemma At.completes (he : e.Decodes) (h : e.At src capacity state taken output) {out : Bytes}
    (hsrc : Zlib.Inflates src out) (hfit : out.size ≤ capacity) :
    (e.call state (inputLeft src taken) (roomLeft capacity output)).status = .ok .ended ∨
      (e.call state (inputLeft src taken) (roomLeft capacity output)).status = .ok .more ∧
        roomLeft capacity output ≠ 0 := by
  apply he.completes h.reached hsrc
  have hsize := h.size_le
  rw [roomLeft_eq]
  omega

lemma exists_drive_of_inflates (he : e.Decodes) (causes : Causes)
    (h : e.At src capacity state taken output) {out : Bytes} (hsrc : Zlib.Inflates src out)
    (hfit : out.size ≤ capacity) :
    ∃ all, (e.drive causes src capacity state taken output).1 = .ok all := by
  -- With all of the stream in reach, a call can neither fail nor find the room used up.
  fun_induction drive e causes src capacity state taken output with
  | case1 state taken output room reply text hstatus =>
    have hcall := h.completes he hsrc hfit
    change reply.status = _ ∨ reply.status = _ ∧ _ at hcall
    simp [hstatus] at hcall
  | case2 state taken output room reply hstatus => exact ⟨_, rfl⟩
  | case3 state taken output room reply hstatus hroom =>
    have hcall := h.completes he hsrc hfit
    change reply.status = _ ∨ reply.status = _ ∧ room ≠ 0 at hcall
    simp [hstatus, hroom] at hcall
  | case4 state taken output room reply hstatus hroom ih => exact ih (h.next hstatus)
  | case5 state taken output room reply hstatus =>
    have hcall := h.completes he hsrc hfit
    change reply.status = _ ∨ reply.status = _ ∧ _ at hcall
    simp [hstatus] at hcall

lemma inflates_of_ends (he : e.Decodes) {out : Bytes} (h : e.Ends causes src capacity (.ok out)) :
    Zlib.Inflates src out ∧ out.size ≤ capacity := by
  cases h with
  | ended hat hstatus =>
    have hstream := he.inflates hat.reached hstatus
    exact ⟨hstream.of_extract, hat.size_append_le⟩

/-- A decoder gives out the output of the stream that the source starts with, if there is one and
the destination holds its output. -/
theorem decompress_eq_ok_iff (he : e.Decodes) {out : Bytes} :
    (e.decompress state src capacity).1 = .ok out ↔
      Zlib.Inflates src out ∧ out.size ≤ capacity := by
  have hends := e.ends_decompress state src capacity
  constructor
  · intro h
    rw [h] at hends
    exact inflates_of_ends he hends
  · intro h
    have hsome : ∃ all, (e.decompress state src capacity).1 = .ok all := by
      unfold decompress
      rw [e.reset_eq]
      exact exists_drive_of_inflates he _ (At.start src capacity) h.1 h.2
    obtain ⟨all, hall⟩ := hsome
    rw [hall] at hends ⊢
    rw [(inflates_of_ends he hends).1.unique h.1]

lemma kind_of_decompress_eq_error {cause : IoError}
    (h : (e.decompress state src capacity).1 = .error cause) : cause.kind = .invalidData := by
  have hends := e.ends_decompress state src capacity
  rw [h] at hends
  cases hends with
  | refused => rfl
  | full => rfl
  | stuck => rfl

/-- The reply of a call that goes through a source at once: the stream in it has `size` bytes. -/
def replyOf (size : Nat) : Except Deflate.Stop Bytes → Reply Unit
  | .ok out => ⟨.ok .ended, (), size, out⟩
  | .error .malformed => ⟨.error "deflate decompression error", (), 0, Bytes.zeros 0⟩
  | .error .inputEnded | .error .outputFull => ⟨.ok .stuck, (), 0, Bytes.zeros 0⟩

lemma replyOf_status_ne (size : Nat) (result : Except Deflate.Stop Bytes) :
    (replyOf size result).status ≠ .ok .more := by
  unfold replyOf
  split
  · simp
  · simp
  · simp
  · simp

lemma exists_of_replyOf_ended {size : Nat} {result : Except Deflate.Stop Bytes}
    (h : (replyOf size result).status = .ok .ended) : ∃ out, result = .ok out := by
  unfold replyOf at h
  split at h
  · exact ⟨_, rfl⟩
  · simp at h
  · simp at h
  · simp at h

/-- The decoder that needs a single call, in which it finds the stream as a whole or fails. -/
def inflater : Engine where
  State := Unit
  fresh := ()
  reset _ := ()
  call _ input room := replyOf (Zlib.streamSize input room) (Zlib.inflate input room)
  reset_eq _ := rfl
  taken_le _ input room := by
    unfold replyOf
    split
    · rename_i out hout
      exact Zlib.streamSize_le input room hout
    · exact Nat.zero_le _
    · exact Nat.zero_le _
    · exact Nat.zero_le _
  size_output_le _ input room := by
    unfold replyOf
    split
    · rename_i out hout
      exact Zlib.size_inflate_le hout
    · exact Nat.zero_le _
    · exact Nat.zero_le _
    · exact Nat.zero_le _
  progress h := absurd h (replyOf_status_ne _ _)

lemma inflater_call (state : inflater.State) (input : Bytes) (room : Nat) :
    inflater.call state input room =
      replyOf (Zlib.streamSize input room) (Zlib.inflate input room) := rfl

lemma inflater_reached {src : Bytes} {state : inflater.State} {taken : Nat} {output : Bytes}
    (h : inflater.Reached src state taken output) : taken = 0 ∧ output = Bytes.zeros 0 := by
  cases h with
  | fresh => exact ⟨rfl, rfl⟩
  | call h hmore => exact absurd hmore (replyOf_status_ne _ _)

lemma inputLeft_zero (src : Bytes) : inputLeft src 0 = src := by
  rw [inputLeft, Nat.zero_min, ByteArray.extract_zero_size]

lemma decodes_inflater : inflater.Decodes := by
  constructor
  · intro src state taken output room h hended
    obtain ⟨rfl, rfl⟩ := inflater_reached h
    rw [inflater_call, inputLeft_zero] at hended ⊢
    obtain ⟨out, hout⟩ := exists_of_replyOf_ended hended
    rw [hout, Nat.zero_add, Bytes.zeros_zero_append]
    exact Zlib.inflate_extract hout
  · intro src state taken output out room h hstream hfit
    obtain ⟨rfl, rfl⟩ := inflater_reached h
    rw [Bytes.size_zeros, Nat.zero_add] at hfit
    rw [inflater_call, inputLeft_zero, Zlib.inflate_eq_ok_iff.2 ⟨hstream, hfit⟩]
    exact .inl rfl

lemma roomLeft_zeros (capacity : Nat) : roomLeft capacity (Bytes.zeros 0) = capacity := by
  rw [roomLeft_eq, Bytes.size_zeros, Nat.sub_zero]

/-- With the decoder that needs a single call, a request comes to what `Zlib.decompress` gives, down
to the wording of failures. -/
theorem decompress_inflater (state : inflater.State) (src : Bytes) (capacity : Nat) :
    (inflater.decompress state src capacity).1 = Zlib.decompress src capacity := by
  unfold decompress Zlib.decompress
  rw [drive, inputLeft_zero, roomLeft_zeros, inflater_call]
  rcases hsrc : Zlib.inflate src capacity with stop | out
  · cases stop with
    | malformed => rfl
    | inputEnded =>
      by_cases hroom : capacity = 0
      · subst hroom
        rfl
      · simp [replyOf, decoding, Zlib.stopMessage, hroom]
    | outputFull =>
      by_cases hroom : capacity = 0
      · subst hroom
        rfl
      · simp [replyOf, decoding, Zlib.stopMessage, hroom]
  · exact congrArg Except.ok (Bytes.zeros_zero_append out)

/-- A decompression comes to an end, and gives out what `Zlib.decompress` does or fails. Its outputs
are whole, and whether it gives one out is a matter of the stream and of room for its output: more
room than that, and bytes behind the stream, change nothing, and with less room it fails like it
does on a source that is no stream. -/
theorem decompress_whole (he : e.Decodes) (state : e.State) (src : Bytes) (capacity : Nat) :
    e.callsFrom src capacity (e.reset state) 0 (Bytes.zeros 0) ≤ src.size + capacity + 1 ∧
    (∀ cause, (e.decompress state src capacity).1 = .error cause → cause.kind = .invalidData) ∧
    (∀ out, (e.decompress state src capacity).1 = .ok out ↔
      Zlib.decompress src capacity = .ok out) ∧
    ∀ out, (e.decompress state src capacity).1 = .ok out → out.size ≤ capacity ∧
      ∀ (state' : e.State) (more : Bytes) (capacity' : Nat),
        (out.size ≤ capacity' → (e.decompress state' (src ++ more) capacity').1 = .ok out) ∧
        (capacity' < out.size → ∃ cause,
          (e.decompress state' (src ++ more) capacity').1 = .error cause ∧
            cause.kind = .invalidData) := by
  refine ⟨?_, fun cause => kind_of_decompress_eq_error, ?_, ?_⟩
  · have hcalls := e.callsFrom_le src capacity (e.reset state) 0 (Bytes.zeros 0)
    rw [Bytes.size_zeros] at hcalls
    omega
  · intro out
    rw [decompress_eq_ok_iff he, Zlib.decompress_eq_ok_iff]
  · intro out hout
    have hsrc := (decompress_eq_ok_iff he).1 hout
    refine ⟨hsrc.2, ?_⟩
    intro state' more capacity'
    constructor
    · intro hfit
      apply (decompress_eq_ok_iff he).2
      exact ⟨hsrc.1.append more, hfit⟩
    · intro hshort
      cases hanswer : (e.decompress state' (src ++ more) capacity').1 with
      | error cause => exact ⟨cause, rfl, kind_of_decompress_eq_error hanswer⟩
      | ok all =>
        have hall := (decompress_eq_ok_iff he).1 hanswer
        rw [(hsrc.1.append more).unique hall.1] at hshort
        exact absurd hall.2 (Nat.not_le_of_lt hshort)

/-- The stored stream of two bytes goes into three bytes and into two, with further bytes behind it
as well, and not into one. -/
theorem decompress_whole_two_bytes :
    let src := Bytes.ofList
      [0x78, 0x01, 0x01, 0x02, 0x00, 0xfd, 0xff, 0x61, 0x62, 0x01, 0x26, 0x00, 0xc4]
    let out := Bytes.ofList [0x61, 0x62]
    inflater.Decodes ∧ (inflater.decompress inflater.fresh src 3).1 = .ok out ∧
    (inflater.decompress inflater.fresh (src ++ Bytes.ofList [0x00]) 2).1 = .ok out ∧
    ∃ cause, (inflater.decompress inflater.fresh (src ++ Bytes.ofList [0x00]) 1).1 = .error cause ∧
      cause.kind = .invalidData := by
  intro src out
  have hstream : Zlib.Inflates src out := Zlib.restores_iff.1 (by decide +kernel)
  have hout : (inflater.decompress inflater.fresh src 3).1 = .ok out := by
    rw [decompress_inflater]
    exact Zlib.decompress_eq_ok_iff.2 ⟨hstream, by decide⟩
  obtain ⟨-, -, -, hwhole⟩ := decompress_whole decodes_inflater inflater.fresh src 3
  obtain ⟨-, hother⟩ := hwhole out hout
  exact ⟨decodes_inflater, hout, (hother inflater.fresh _ 2).1 (by decide),
    (hother inflater.fresh _ 1).2 (by decide)⟩

end CompressedRom.Engine
