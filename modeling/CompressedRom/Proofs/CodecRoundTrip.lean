import CompressedRom.Proofs.CodecLoop
import CompressedRom.Proofs.StoredStreams

/-!
# Codecs that give back what they are given

`Engine.Encodes` is the promise of an encoder: it never fails by itself, and the stream that it
brings to an end inflates to the source. What it writes is read back by any decoder that keeps its
own promise, and since both halves are reset before a request, whatever a codec has served before
makes no difference. Without the end of its stream a compression is refused.
-/

namespace CompressedRom

namespace Engine

/-- The engine encodes: no call fails, and at the end of its stream the output inflates to the whole
source. -/
structure Encodes (e : Engine) : Prop where
  inflates : ∀ {src : Bytes} {state : e.State} {taken : Nat} {output : Bytes} {room : Nat},
    e.Reached src state taken output →
    (e.call state (inputLeft src taken) room).status = .ok .ended →
      Zlib.Inflates (output ++ (e.call state (inputLeft src taken) room).output) src
  accepts : ∀ {src : Bytes} {state : e.State} {taken : Nat} {output : Bytes} {room : Nat}
    {text : String},
    e.Reached src state taken output →
      (e.call state (inputLeft src taken) room).status ≠ .error text

variable {e : Engine} {src : Bytes} {capacity : Nat}

lemma inflates_of_compress (he : e.Encodes) {state : e.State} {packed : Bytes}
    (h : (e.compress state src capacity).1 = .ok packed) :
    Zlib.Inflates packed src ∧ packed.size ≤ capacity := by
  have hends := e.ends_compress state src capacity
  rw [h] at hends
  cases hends with
  | ended hat hstatus => exact ⟨he.inflates hat.reached hstatus, hat.size_append_le⟩

lemma eq_of_compress_eq_error (he : e.Encodes) {state : e.State} {cause : IoError}
    (h : (e.compress state src capacity).1 = .error cause) :
    cause = ⟨.unexpectedEnd, "unexpected end of file"⟩ := by
  have hends := e.ends_compress state src capacity
  rw [h] at hends
  cases hends with
  | refused hat hstatus => exact absurd hstatus (he.accepts hat.reached)
  | full => rfl
  | stuck => rfl

/-! An encoder that has its stream ready after the first call, and gives it out as room allows. -/

/-- What is still to be given out: before the first call, all of the stream. -/
def pendingOf (level : Nat) (input : Bytes) (state : Option Bytes) : Bytes :=
  state.getD (Zlib.packed level input)

/-- How much of the input a call uses up: all of it at first. -/
def takenOf (input : Bytes) : Option Bytes → Nat
  | none => input.size
  | some _ => 0

def pendingReply (pending : Bytes) (taken room : Nat) : Reply (Option Bytes) :=
  if pending.size ≤ room then ⟨.ok .ended, some (Bytes.zeros 0), taken, pending⟩
  else if room = 0 then ⟨.ok .stuck, some pending, taken, Bytes.zeros 0⟩
  else ⟨.ok .more, some (pending.extract room pending.size), taken, pending.extract 0 room⟩

lemma pendingReply_taken (pending : Bytes) (taken room : Nat) :
    (pendingReply pending taken room).taken = taken := by
  unfold pendingReply
  split
  · rfl
  · split
    · rfl
    · rfl

lemma size_pendingReply_output_le (pending : Bytes) (taken room : Nat) :
    (pendingReply pending taken room).output.size ≤ room := by
  unfold pendingReply
  split
  · assumption
  · split
    · rw [Bytes.size_zeros]
      exact Nat.zero_le _
    · rw [ByteArray.size_extract]
      omega

/-- A call asks for more if the room holds some of what is pending, but not all. -/
lemma pendingReply_eq_more {pending : Bytes} {taken room : Nat}
    (h : (pendingReply pending taken room).status = .ok .more) :
    0 < room ∧ room < pending.size ∧ pendingReply pending taken room =
      ⟨.ok .more, some (pending.extract room pending.size), taken, pending.extract 0 room⟩ := by
  unfold pendingReply at h ⊢
  split at h
  · simp at h
  · rename_i hlarge
    split at h
    · simp at h
    · rename_i hroom
      rw [if_neg hlarge, if_neg hroom]
      exact ⟨Nat.pos_of_ne_zero hroom, Nat.lt_of_not_le hlarge, rfl⟩

lemma pendingReply_eq_ended {pending : Bytes} {taken room : Nat}
    (h : (pendingReply pending taken room).status = .ok .ended) :
    (pendingReply pending taken room).output = pending := by
  unfold pendingReply at h ⊢
  split at h
  · rename_i hsmall
    rw [if_pos hsmall]
  · split at h
    · simp at h
    · simp at h

lemma pendingReply_status_ne (pending : Bytes) (taken room : Nat) (text : String) :
    (pendingReply pending taken room).status ≠ .error text := by
  unfold pendingReply
  split
  · simp
  · split
    · simp
    · simp

/-- The encoder that writes the streams of `Zlib.compress`. -/
def deflater (level : Nat) : Engine where
  State := Option Bytes
  fresh := none
  reset _ := none
  call state input room := pendingReply (pendingOf level input state) (takenOf input state) room
  reset_eq _ := rfl
  taken_le state input room := by
    rw [pendingReply_taken]
    cases state with
    | none => exact Nat.le_refl _
    | some rest => exact Nat.zero_le _
  size_output_le _ _ _ := size_pendingReply_output_le _ _ _
  progress h := by
    obtain ⟨hroom, hsize, hreply⟩ := pendingReply_eq_more h
    rw [hreply, ByteArray.size_extract]
    omega

variable {level : Nat}

lemma deflater_call (state : (deflater level).State) (input : Bytes) (room : Nat) :
    (deflater level).call state input room =
      pendingReply (pendingOf level input state) (takenOf input state) room := rfl

/-- What has been given out and what is pending make up the stream. -/
lemma deflater_reached {state : (deflater level).State} {taken : Nat} {output : Bytes}
    (h : (deflater level).Reached src state taken output) :
    output ++ pendingOf level (inputLeft src taken) state = Zlib.packed level src := by
  induction h with
  | fresh =>
    rw [inputLeft_zero, Bytes.zeros_zero_append]
    rfl
  | @call state taken output h room hmore ih =>
    rw [deflater_call] at hmore ⊢
    obtain ⟨hroom, hsize, hreply⟩ := pendingReply_eq_more hmore
    generalize pendingOf level (inputLeft src taken) state = pending at hreply hsize ih ⊢
    rw [hreply, ← ih, ByteArray.append_assoc]
    congr 1
    change pending.extract 0 room ++ pending.extract room pending.size = pending
    rw [ByteArray.extract_append_extract, Nat.zero_min, Nat.max_eq_right (Nat.le_of_lt hsize),
      ByteArray.extract_zero_size]

lemma encodes_deflater (level : Nat) : (deflater level).Encodes := by
  constructor
  · intro src state taken output room h hended
    rw [deflater_call] at hended ⊢
    rw [pendingReply_eq_ended hended, deflater_reached h]
    exact Zlib.inflates_packed level src
  · intro src state taken output room text h
    exact pendingReply_status_ne _ _ _ _

lemma eq_packed_of_compress {state : (deflater level).State} {out : Bytes}
    (h : ((deflater level).compress state src capacity).1 = .ok out) :
    out = Zlib.packed level src ∧ out.size ≤ capacity := by
  have hends := (deflater level).ends_compress state src capacity
  rw [h] at hends
  cases hends with
  | ended hat hstatus =>
    refine ⟨?_, hat.size_append_le⟩
    rw [deflater_call] at hstatus ⊢
    rw [pendingReply_eq_ended hstatus, deflater_reached hat.reached]

/-- With this encoder, a request comes to what `Zlib.compress` gives. -/
theorem compress_deflater (state : (deflater level).State) (src : Bytes) (capacity : Nat) :
    ((deflater level).compress state src capacity).1 = Zlib.compress level src capacity := by
  rw [Zlib.compress_eq]
  by_cases hfit : (Zlib.packed level src).size ≤ capacity
  · have hcall : (deflater level).call (deflater level).fresh src capacity =
        ⟨.ok .ended, some (Bytes.zeros 0), src.size, Zlib.packed level src⟩ := if_pos hfit
    rw [if_pos hfit, compress, (deflater level).reset_eq, drive, inputLeft_zero, roomLeft_zeros,
      hcall]
    exact congrArg Except.ok (Bytes.zeros_zero_append _)
  · rw [if_neg hfit]
    cases hanswer : ((deflater level).compress state src capacity).1 with
    | ok out =>
      have hout := eq_packed_of_compress hanswer
      rw [hout.1] at hout
      exact absurd hout.2 hfit
    | error cause => rw [eq_of_compress_eq_error (encodes_deflater level) hanswer]

end Engine

namespace Codec

/-- Both halves keep their promises. -/
structure Sound (k : Codec) : Prop where
  decodes : k.decoder.Decodes
  encodes : k.encoder.Encodes

/-- The codec with the two engines that are written out here. -/
def zlib (level : Nat) : Codec := ⟨Engine.inflater, Engine.deflater level⟩

lemma sound_zlib (level : Nat) : (zlib level).Sound :=
  ⟨Engine.decodes_inflater, Engine.encodes_deflater level⟩

/-- Its answers are those of `Zlib.compress` and `Zlib.decompress`, whatever it has served. -/
theorem serve_zlib (level : Nat) (i : (zlib level).Instance) (request : Request) :
    ((zlib level).serve request i).1 =
      match request with
      | .compress src capacity => Zlib.compress level src capacity
      | .decompress src capacity => Zlib.decompress src capacity := by
  cases request with
  | compress src capacity => exact Engine.compress_deflater i.encoder src capacity
  | decompress src capacity => exact Engine.decompress_inflater i.decoder src capacity

variable {k : Codec}

lemma serve_decompress (i : k.Instance) (src : Bytes) (capacity : Nat) :
    (k.serve (.decompress src capacity) i).1 = (k.decoder.decompress i.decoder src capacity).1 :=
  rfl

/-- A codec gives back what it has compressed, whatever it served before and whatever it serves in
between, in any room that holds it; and if it compresses nothing, that is for want of room. -/
theorem restores_what_it_compressed (hk : k.Sound) (before : List Request) (src : Bytes)
    (capacity : Nat) :
    let served := k.serve (.compress src capacity) (k.serveAll before k.fresh)
    (∀ packed, served.1 = .ok packed → packed.size ≤ capacity ∧
      ∀ (between : List Request) (room : Nat), src.size ≤ room →
        (k.serve (.decompress packed room) (k.serveAll between served.2)).1 = .ok src) ∧
    ∀ cause, served.1 = .error cause → cause.kind = .unexpectedEnd := by
  intro served
  constructor
  · intro packed hpacked
    have hstream := Engine.inflates_of_compress hk.encodes hpacked
    refine ⟨hstream.2, ?_⟩
    intro between room hroom
    rw [serve_decompress]
    exact (Engine.decompress_eq_ok_iff hk.decodes).2 ⟨hstream.1, hroom⟩
  · intro cause hcause
    rw [Engine.eq_of_compress_eq_error hk.encodes hcause]

/-- After a failed decompression and a failed compression, two bytes are compressed into thirteen
and, after another failure, come back from these. -/
theorem restores_what_it_compressed_two_bytes :
    let k := zlib 0
    let src := Bytes.ofList [0x61, 0x62]
    let packed := Bytes.ofList
      [0x78, 0x01, 0x01, 0x02, 0x00, 0xfd, 0xff, 0x61, 0x62, 0x01, 0x26, 0x00, 0xc4]
    let served := k.serve (.compress src 13)
      (k.serveAll [.decompress src 4, .compress src 12] k.fresh)
    k.Sound ∧ served.1 = .ok packed ∧
      (k.serve (.decompress packed 2) (k.serveAll [.decompress packed 1] served.2)).1 =
        .ok src := by
  intro k src packed served
  have hserved : served.1 = .ok packed := by
    have hpacked : Zlib.packed 0 src = packed := by decide +kernel
    change (k.serve (.compress src 13) _).1 = _
    rw [serve_zlib]
    dsimp only
    rw [Zlib.compress_eq, hpacked]
    exact if_pos (by decide)
  have hrestored := (restores_what_it_compressed (sound_zlib 0)
    [.decompress src 4, .compress src 12] src 13).1 packed hserved
  exact ⟨sound_zlib 0, hserved, hrestored.2 [.decompress packed 1] 2 (by decide)⟩

end Codec

end CompressedRom
