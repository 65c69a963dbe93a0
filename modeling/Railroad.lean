import Railroad.Command
import Railroad.Command.Options
import Railroad.Compaction
import Railroad.Diagram.Codec
import Railroad.Diagram.Schema
import Railroad.Drawing
import Railroad.Grammar
import Railroad.Grammar.Lookup
import Railroad.Grammar.Node
import Railroad.Grammar.Parser
import Railroad.Json
import Railroad.Json.Reader
import Railroad.Json.Strict
import Railroad.Layout
import Railroad.Log
import Railroad.PathKey
import Railroad.Session
import Railroad.Text.Alphabetic
import Railroad.Text.ExtendingMark
import Railroad.Text.Quoted
import Railroad.Text.Ranges
import Railroad.Text.Similarity
import Railroad.Text.Unprintable
import Railroad.Text.Uppercase
import Railroad.Text.WhiteSpace
import Railroad.Token
import Railroad.Token.Scanner
import Railroad.Traced
import Railroad.Track
import Railroad.Track.Text
import Railroad.Main
import Railroad.Proofs.Parts
import Railroad.Proofs.Yield
import Railroad.Proofs.Numbering
import Railroad.Proofs.Parser.Completeness
import Railroad.Proofs.Parser.Soundness
import Railroad.Proofs.Parser.Correctness
import Railroad.Proofs.CanonicalText
import Railroad.Proofs.Tiles
import Railroad.Proofs.Tracks
import Railroad.Proofs.Compaction
import Railroad.Proofs.Renaming
import Railroad.Proofs.RenamedDrawing
import Railroad.Proofs.Language
import Railroad.Proofs.PartTracks
import Railroad.Proofs.Marks
import Railroad.Proofs.DistinctKeys
import Railroad.Proofs.Occurrences
import Railroad.Proofs.Parser.Errors
import Railroad.Proofs.References
import Railroad.Proofs.Chains
import Railroad.Proofs.Opening
import Railroad.Proofs.Collapsing
import Railroad.Proofs.KeyOrder
import Railroad.Proofs.Expandable
import Railroad.Proofs.Sessions
import Railroad.Proofs.Depth
import Railroad.Proofs.Structure
import Railroad.Proofs.Appending
import Railroad.Proofs.Keys
import Railroad.Proofs.Json.Spelling
import Railroad.Proofs.Json.Reading
import Railroad.Proofs.ListReading
import Railroad.Proofs.Codec
import Railroad.Proofs.KeyIds
import Railroad.Proofs.NestedBrackets
import Railroad.Proofs.RoundTrip
import Railroad.Proofs.Decoding
import Railroad.Proofs.Streams
import Railroad.Proofs.Options
import Railroad.Proofs.CommandLine
import Railroad.Proofs.ExpandAll
import Railroad.Proofs.KeyPattern
import Railroad.Proofs.SameSymbol
import Railroad.Proofs.DrawingOrder
import Railroad.Proofs.Undeclared
import Railroad.Proofs.ExitCodes
import Railroad.Proofs.Preorder
import Railroad.Proofs.DrawnPlaces
import Railroad.Proofs.SuffixMatching
import Railroad.Proofs.TrackRules
import Railroad.Proofs.WellFormed
import Railroad.Proofs.WaysBack
import Railroad.Proofs.Blanks
import Railroad.Proofs.Records
import Railroad.Proofs.Suggestions
import Railroad.Proofs.Quoting
import Railroad.Proofs.Display
import Railroad.Proofs.Outline
import Railroad.Proofs.Usage
import Railroad.Proofs.BuiltParts
