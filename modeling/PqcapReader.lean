import PqcapReader.Library.Bytes
import PqcapReader.Library.Numeral
import PqcapReader.Library.Walk
import PqcapReader.Library.Words
import PqcapReader.Library.Effects
import PqcapReader.Library.SqlText
import PqcapReader.Library.Interleaving
import PqcapReader.BlockScan
import PqcapReader.Pcapng
import PqcapReader.Host
import PqcapReader.Footer
import PqcapReader.SubFile
import PqcapReader.Storage
import PqcapReader.Bundle
import PqcapReader.RoundTrip
import PqcapReader.PacketPlane
import PqcapReader.L4Fields
import PqcapReader.ClassicPcap
import PqcapReader.Database
import PqcapReader.PacketTable
import PqcapReader.CaptureFile
import PqcapReader.Metadata
import PqcapReader.CopySink
import PqcapReader.CopyIndex
import PqcapReader.CopyValues
import PqcapReader.EmbedIndex
import PqcapReader.ClassicEmbed
import PqcapReader.IndexAgreement
import PqcapReader.Timestamps
import PqcapReader.Repack
import PqcapReader.Library.Simulation
import PqcapReader.Library.Calls
import PqcapReader.Library.Checked
import PqcapReader.MetadataSql
import PqcapReader.LocationBounds
import PqcapReader.ScanBounds
import PqcapReader.BlockStream
import PqcapReader.SubFileRefinement
import PqcapReader.SubFileWindow
import PqcapReader.ClassicEncoding
import PqcapReader.PacketScan
import PqcapReader.FrameLayers
import PqcapReader.FrameEncoding
import PqcapReader.VlanTags
import PqcapReader.TransportPorts
import PqcapReader.Addresses
import PqcapReader.ProtocolLabel
import PqcapReader.FrameBounds
import PqcapReader.EmbedFaults
import PqcapReader.EmbedOnce
import PqcapReader.Library.Clients
import PqcapReader.RegisteredFiles
import PqcapReader.ReadPqcap
import PqcapReader.Library.Threads
import PqcapReader.IndexSteps
import PqcapReader.ConcurrentStatements
import PqcapReader.SharedCapture
import PqcapReader.CrossPlane
import PqcapReader.Conversion
import PqcapReader.StreamEnd
import PqcapReader.CopyFaults
import PqcapReader.StoreHistory
import PqcapReader.CopyBind
import PqcapReader.SnapLength
import PqcapReader.Retry
import PqcapReader.Catalog
import PqcapReader.GrowingCapture
import PqcapReader.ConcurrentReaders
import PqcapReader.ReadWhileWriting
