import CompressedRom.File
import CompressedRom.Proofs.CodecLoop
import CompressedRom.Proofs.QueryContract

/-!
# Pages through a decoder

A mount has one decoder for all pages, and a page finds it in the state that the pages before have
left. `File.compressedPage` asks for no decoder, but for the output of the stream. Any decoder, in
whatever state, gives this very page, or finds it corrupt as well: `File.unpackedPage_of_decodes`.
-/

namespace CompressedRom.File

/-- Over any store the queries leave the same cache and come to the same, but for the words in which
page `index` is found corrupt. -/
def SameButWords (index : Nat) (q q' : Query Bytes) : Prop :=
  ∀ s c, (q.run s c).2 = (q'.run s c).2 ∧
    ((q.run s c).1 = (q'.run s c).1 ∨
      ∃ cause cause', (q.run s c).1 = .error (.refused (.corruptPage index cause)) ∧
        (q'.run s c).1 = .error (.refused (.corruptPage index cause')) ∧ cause.kind = cause'.kind)

namespace SameButWords

variable {index : Nat}

lemma refl (q : Query Bytes) : SameButWords index q q := fun _ _ => ⟨rfl, .inl rfl⟩

lemma corruptPage {cause cause' : IoError} (h : cause.kind = cause'.kind) :
    SameButWords index (Query.refuse (.corruptPage index cause))
      (Query.refuse (.corruptPage index cause')) :=
  fun _ _ => ⟨rfl, .inr ⟨cause, cause', rfl, rfl, h⟩⟩

lemma bind {α : Type} (q : Query α) {f f' : α → Query Bytes}
    (h : ∀ a, SameButWords index (f a) (f' a)) : SameButWords index (q >>= f) (q >>= f') := by
  intro s c
  rw [Query.run_bind, Query.run_bind]
  rcases q.run s c with ⟨failure | a, c'⟩
  · exact ⟨rfl, .inl rfl⟩
  · exact h a s c'

end SameButWords

variable {unpack unpack' : Bytes → Nat → Except IoError Bytes}

/-- Pages are unpacked alike if the same streams are, to the same output, and all others fail in the
same way. -/
lemma unpackedPage_congr
    (hok : ∀ src room out, unpack src room = .ok out ↔ unpack' src room = .ok out)
    (herror : ∀ src room cause cause', unpack src room = .error cause →
      unpack' src room = .error cause' → cause.kind = cause'.kind)
    (fs : Filesystem) (inode : Inode) (index : Nat) :
    SameButWords index (unpackedPage unpack fs inode index)
      (unpackedPage unpack' fs inode index) := by
  unfold unpackedPage
  refine .bind _ fun bounds => .bind _ fun _ => .bind _ fun len => .bind _ fun _ => ?_
  split
  · exact .refl _
  · refine .bind _ fun packed => ?_
    have hsame := hok packed pageSize
    rcases hunpack : unpack packed pageSize with cause | out
    · rcases hunpack' : unpack' packed pageSize with cause' | out'
      · exact .corruptPage (herror _ _ _ _ hunpack hunpack')
      · have hother := (hsame out').2 hunpack'
        rw [hunpack] at hother
        simp at hother
    · rw [(hsame out).1 hunpack]
      exact .refl _

/-- Any decoder unpacks a page to the bytes that the streams of the format stand for, or both find
the page corrupt; what the decoder has done before does not matter. -/
theorem unpackedPage_of_decodes {e : Engine} (he : e.Decodes) (state : e.State) (fs : Filesystem)
    (inode : Inode) (index : Nat) :
    SameButWords index
      (unpackedPage (fun src room => (e.decompress state src room).1) fs inode index)
      (compressedPage fs inode index) := by
  refine unpackedPage_congr (fun src room out => ?_) (fun src room cause cause' h h' => ?_) _ _ _
  · rw [Engine.decompress_eq_ok_iff he, Zlib.decompress_eq_ok_iff]
  · rw [Engine.kind_of_decompress_eq_error h]
    rw [← Engine.decompress_inflater ()] at h'
    exact (Engine.kind_of_decompress_eq_error h').symm

/-- The decoder that needs a single call unpacks pages just so, down to the words. -/
theorem unpackedPage_inflater (state : Engine.inflater.State) (fs : Filesystem) (inode : Inode)
    (index : Nat) :
    unpackedPage (fun src room => (Engine.inflater.decompress state src room).1) fs inode index =
      compressedPage fs inode index := by
  simp only [Engine.decompress_inflater]
  rfl

end CompressedRom.File
