import BleBeacon.Advertisement
import BleBeacon.BeaconFormat
import BleBeacon.Bytes
import BleBeacon.Catalog.Basic
import BleBeacon.Catalog.BuiltIn
import BleBeacon.Catalog.Filters
import BleBeacon.Catalog.Settings
import BleBeacon.Filter.Basic
import BleBeacon.Filter.Pattern
import BleBeacon.Filter.Synthesis
import BleBeacon.Identifier
import BleBeacon.Json
import BleBeacon.Layout.Basic
import BleBeacon.Layout.ByteRange
import BleBeacon.Layout.Compile
import BleBeacon.Layout.Error
import BleBeacon.Layout.Field
import BleBeacon.Layout.ServiceUuid
import BleBeacon.Layout.Token
import BleBeacon.Layout.WellFormed
import BleBeacon.MacAddress
import BleBeacon.Reading
import BleBeacon.Reading.Json
import BleBeacon.Report.Basic
import BleBeacon.Report.LineBuffer
import BleBeacon.Text.Blank
import BleBeacon.Text.Cut
import BleBeacon.Text.Decimal
import BleBeacon.Text.Hex
import BleBeacon.Text.Utf8
import BleBeacon.Uuid
import BleBeacon.Proofs.Except
import BleBeacon.Proofs.Bytes
import BleBeacon.Proofs.Numerals
import BleBeacon.Proofs.Layout.Grammar
import BleBeacon.Proofs.Layout.Tokens
import BleBeacon.Proofs.Layout.Pieces
import BleBeacon.Proofs.Layout.Bounds
import BleBeacon.Proofs.Layout.CanonicalText
import BleBeacon.Proofs.Layout.Refusal
import BleBeacon.Proofs.Layout.Slices
import BleBeacon.Proofs.Decoding
import BleBeacon.Proofs.Footprint
import BleBeacon.Proofs.Filter.Pattern
import BleBeacon.Proofs.Filter.Synthesis
import BleBeacon.Proofs.Filter.Capacity
import BleBeacon.Proofs.Catalog
import BleBeacon.Proofs.Catalog.Session
import BleBeacon.Proofs.Filter.Coverage
import BleBeacon.Proofs.Filter.Selection
import BleBeacon.Proofs.Filter.Unnarrowed
import BleBeacon.Proofs.Filter.Narrowing
import BleBeacon.Proofs.Filter.Writes
import BleBeacon.Proofs.Filter.Learning
import BleBeacon.Proofs.Exclusion
import BleBeacon.Proofs.Catalog.BuiltIn
import BleBeacon.Proofs.Catalog.Settings
import BleBeacon.Proofs.Advertisement.Encoding
import BleBeacon.Proofs.Checked.Operations
import BleBeacon.Proofs.Advertisement.Cursor
import BleBeacon.Proofs.Checked.Arrays
import BleBeacon.Proofs.Checked.Reading
import BleBeacon.Proofs.Checked.Filters
import BleBeacon.Proofs.Checked.Safety
import BleBeacon.Proofs.Integers
import BleBeacon.Proofs.Advertisement.Truncation
import BleBeacon.Proofs.Json
import BleBeacon.Proofs.Identifier
import BleBeacon.Proofs.Report.Writing
import BleBeacon.Proofs.Report.Readability
import BleBeacon.Proofs.Report.Length
import BleBeacon.Proofs.Identifier.Buffer
