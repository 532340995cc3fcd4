import SidCatalog.Attempt
import SidCatalog.ByteStream
import SidCatalog.Digest
import SidCatalog.Failure
import SidCatalog.Field
import SidCatalog.FileSystem
import SidCatalog.Hex
import SidCatalog.Info.Arguments
import SidCatalog.Info.Report
import SidCatalog.Info.Run
import SidCatalog.LastError
import SidCatalog.Log
import SidCatalog.Main
import SidCatalog.Md5
import SidCatalog.OsFault
import SidCatalog.OsFault.Description
import SidCatalog.Path
import SidCatalog.RootPaths
import SidCatalog.Session
import SidCatalog.Session.Request
import SidCatalog.SongLengths.Entry
import SidCatalog.SongLengths.Lookup
import SidCatalog.Text.Blank
import SidCatalog.Text.Decimal
import SidCatalog.Text.Utf8
import SidCatalog.TextFile
import SidCatalog.TextFile.Handle
import SidCatalog.TextFile.Reading
import SidCatalog.Timestamp
import SidCatalog.Tune.Header
import SidCatalog.Tune.Word
import SidCatalog.Proofs.ByteStream.Delivery
import SidCatalog.Proofs.ByteStream.Content
import SidCatalog.Proofs.Text.Encoding
import SidCatalog.Proofs.TextFile.Lines
import SidCatalog.Proofs.TextFile.Course
import SidCatalog.Proofs.Digest.Spelling
import SidCatalog.Proofs.Path.Root
import SidCatalog.Proofs.Path.Separators
import SidCatalog.Proofs.FileSystem.Hashing
import SidCatalog.Proofs.Session.History
import SidCatalog.Proofs.Session.Routes
import SidCatalog.Proofs.Timestamp.Acceptance
import SidCatalog.Proofs.Timestamp.Rendering
import SidCatalog.Proofs.SongLengths.Layout
import SidCatalog.Proofs.SongLengths.Search
import SidCatalog.Proofs.SongLengths.Warnings
import SidCatalog.Proofs.TextFile.Writing
import SidCatalog.Proofs.SongLengths.Recognition
import SidCatalog.Proofs.SongLengths.FirstMatch
import SidCatalog.Proofs.SongLengths.Listing
import SidCatalog.Proofs.SongLengths.Retrieval
import SidCatalog.Proofs.SongLengths.Obstacle
import SidCatalog.Proofs.Session.Relocation
import SidCatalog.Proofs.Info.Independence
import SidCatalog.Proofs.SongLengths.Tokens
import SidCatalog.Proofs.SongLengths.Grammar
import SidCatalog.Proofs.SongLengths.Offsets
import SidCatalog.Proofs.SongLengths.LineNumbers
import SidCatalog.Proofs.Timestamp.Offender
import SidCatalog.Proofs.TextFile.Capacity
import SidCatalog.Proofs.TextFile.Lookback
import SidCatalog.Proofs.SongLengths.LineEndings
import SidCatalog.Proofs.FileSystem.Loading
import SidCatalog.Proofs.FileSystem.Agreement
import SidCatalog.Proofs.Field.Classification
import SidCatalog.Proofs.Tune.Layout
import SidCatalog.Proofs.Field.Value
import SidCatalog.Proofs.Path.Joining
import SidCatalog.Proofs.Digest.Decoding
import SidCatalog.Proofs.Text.Boundaries
import SidCatalog.Proofs.SongLengths.Boundaries
import SidCatalog.Proofs.LastError.Standing
