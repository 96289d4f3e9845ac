import CompressedRom.Main
import CompressedRom.Partition
import CompressedRom.Proofs.CacheHistory
import CompressedRom.Proofs.CodecRoundTrip
import CompressedRom.Proofs.DamageLocality
import CompressedRom.Proofs.DeclaredSize
import CompressedRom.Proofs.DirectoryFormat
import CompressedRom.Proofs.ErrorClasses
import CompressedRom.Proofs.FaultFreedom
import CompressedRom.Proofs.FileFormat
import CompressedRom.Proofs.InPlace
import CompressedRom.Proofs.ListingShape
import CompressedRom.Proofs.PageAcceptance
import CompressedRom.Proofs.PageDecoding
import CompressedRom.Proofs.PageTail
import CompressedRom.Proofs.PartitionIsolation
import CompressedRom.Proofs.PathLaws
import CompressedRom.Proofs.PhysicalExtent
import CompressedRom.Proofs.ReaderAgreement
import CompressedRom.Proofs.RequestedLengths
import CompressedRom.Proofs.Session
import CompressedRom.Proofs.SortedLookup
import CompressedRom.Proofs.SuperblockFormat
