import CompressedRom.Proofs.DirectoryFormat
import CompressedRom.Proofs.ImageComparison

/-!
# The declared size

A mounted image declares its size, and bytes behind it are not looked at: two images that agree up
to there cannot be told apart by any demand, as `Filesystem.replies_declared` states. All
operations that pass refusals on as they are have contracts that say which spans they ask for; a
listing, which does not, is compared entry by entry.
-/

namespace CompressedRom

variable {m m' : Mapping} {fs : Filesystem}

section Declared

/-! Two mappings from which every span within the declared size is read alike. -/

variable (hread : ∀ offset len, fs.Allows offset len → m.read offset len = m'.read offset len)

include hread

lemma Directory.same_entryAt (hfs : fs.superblock.size < 2 ^ 32) (dir : Inode) (pos : Nat) :
    (entryAt fs dir pos).Same m m' :=
  (meets_entryAt hfs dir pos).same hread

lemma Operation.same_query (hfs : fs.superblock.size < 2 ^ 32) (op : Operation) :
    (op.query fs).Same m m' := by
  cases op with
  | lookup dir name => exact ((Directory.meets_lookup hfs dir name).same hread).map _
  | list dir cursor =>
    exact (Directory.same_list (fun pos _ => Directory.same_entryAt hread hfs dir pos) _ _).map _
  | resolve path => exact ((Path.meets_resolve hfs path).same hread).map _
  | readPage inode index => exact ((File.meets_readPage inode index).same hread).map _
  | readAt inode pos buffer => exact ((File.meets_readAt inode pos buffer).same hread).map _
  | readLink inode => exact ((File.meets_readLink inode).same hread).map _

lemma Request.same_query (hfs : fs.superblock.size < 2 ^ 32) (r : Request) :
    (r.query fs).Same m m' := by
  cases r with
  | perform op => exact op.same_query hread hfs
  | fill inode index buffer =>
    exact ((File.meets_readPageInto inode index buffer).same hread).map _
  | walk path =>
    rw [query, Path.walk_eq_resolve]
    exact (Operation.resolve path).same_query hread hfs

lemma Demand.same_query (hfs : fs.superblock.size < 2 ^ 32) (demand : Demand) :
    (demand.query fs).Same m m' := by
  cases demand with
  | request r => exact (r.same_query hread hfs).map _
  | items dir cursor limit =>
    apply Query.Same.map
    exact Directory.same_list (fun pos _ => Directory.same_entryAt hread hfs dir pos) cursor limit
  | range inode page len => exact (File.same_physicalRange inode page len).map _

end Declared

/-- Two images that both hold as many bytes as they declare and agree on these give the same replies
to all demands, whatever lies behind. -/
theorem Filesystem.replies_declared (hkind : m.SameKind m') {ts : Timestamp} {c₀ c₀' : Cache}
    {fs' : Filesystem} (hfs : ((mount (.mapped m) ts).run (.mapped m) c₀).1 = .ok fs)
    (hfs' : ((mount (.mapped m') ts).run (.mapped m') c₀').1 = .ok fs')
    (hsb : fs.superblock = fs'.superblock) (hsize : fs.superblock.size ≤ m.bytes.size)
    (hsize' : fs.superblock.size ≤ m'.bytes.size)
    (hsame : Bytes.SameOn m.bytes m'.bytes 0 fs.superblock.size) (demands : List Demand)
    (c : Cache) :
    fs.replies (.mapped m) demands c = fs'.replies (.mapped m') demands c := by
  have hdeclared := (mount_eq_ok hfs).2
  obtain ⟨hreached, -, hbase⟩ := eq_reachedBy hkind hfs hfs' hsb
  have hread : ∀ offset len, fs.Allows offset len → m.read offset len = m'.read offset len := by
    intro offset len hallows
    have hend := hallows.1
    apply Mapping.read_congr_of_le (by omega) (by omega)
    exact hsame.mono (Nat.zero_le _) hend
  apply replies_congr
  · intro demand
    rw [hreached]
    exact demand.query_reachedBy hbase
  · intro demand
    exact demand.same_query hread hdeclared

/-- A small image in memory. -/
def plainMapping : Mapping := ⟨Directory.deviceImage, none, false⟩

/-- The same image somewhere in physical memory, with bytes behind it. -/
def tailedMapping : Mapping := ⟨Directory.deviceImage ++ Bytes.zeros 100, some 4096, false⟩

/-- Demands for a file by its path, and for the first page and the place of a file whose table lies
behind the declared size. -/
def behindDemands : List Demand :=
  [.request (.walk (Bytes.ofList [0x2f, 0x63])),
    .request (.fill (.ofRecord Directory.gapItem.record .epoch) 0 (Bytes.zeros pageSize)),
    .range (.ofRecord Directory.gapItem.record .epoch) 0 5]

theorem Filesystem.replies_declared_tail :
    ∃ fs fs', plainMapping.SameKind tailedMapping ∧
      ((mount (.mapped plainMapping) .epoch).run (.mapped plainMapping) .empty).1 = .ok fs ∧
      ((mount (.mapped tailedMapping) .epoch).run (.mapped tailedMapping) .empty).1 = .ok fs' ∧
      fs.replies (.mapped plainMapping) behindDemands .empty =
        fs'.replies (.mapped tailedMapping) behindDemands .empty := by
  obtain ⟨sb, hsb, hmount⟩ := exists_mount_of_accepted (by decide) accepted_deviceHeader
  have hsize : sb.size = 112 := of_decide_eq_true hsb
  have hfs := hmount (.mapped plainMapping) _ .epoch rfl fun _ => trivial
  have hfs' := hmount (.mapped tailedMapping) _ .epoch ByteArray.append_assoc fun _ => trivial
  have hkind : plainMapping.SameKind tailedMapping := ⟨rfl, fun h => by simp [plainMapping] at h⟩
  have hplain : plainMapping.bytes.size = 112 := rfl
  have htailed : tailedMapping.bytes.size = 112 + 100 := by
    unfold tailedMapping
    rw [ByteArray.size_append, Bytes.size_zeros]
    rfl
  have hsame : Bytes.SameOn plainMapping.bytes tailedMapping.bytes 0 sb.size := by
    intro i _ hi
    exact (Bytes.byteAt_append_left (hplain ▸ hsize ▸ hi)).symm
  have hle : sb.size ≤ plainMapping.bytes.size := by omega
  have hle' : sb.size ≤ tailedMapping.bytes.size := by omega
  refine ⟨_, _, hkind, hfs, hfs', ?_⟩
  exact replies_declared hkind hfs hfs' rfl hle hle' hsame behindDemands .empty

end CompressedRom
