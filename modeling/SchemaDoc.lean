import SchemaDoc.Main
import SchemaDoc.Proofs.Definitions
import SchemaDoc.Proofs.Discipline
import SchemaDoc.Proofs.References
import SchemaDoc.Proofs.Rendering
import SchemaDoc.Proofs.Failures
import SchemaDoc.Proofs.ByteOrderMark
import SchemaDoc.Proofs.Transparency
import SchemaDoc.Proofs.Reattachment
import SchemaDoc.Proofs.Verbosity
import SchemaDoc.Proofs.ObjectMarkers
import SchemaDoc.Proofs.Attachment
import SchemaDoc.Proofs.Splicing
import SchemaDoc.Proofs.Labels
import SchemaDoc.Proofs.OpeningComments
import SchemaDoc.Proofs.SelfReference
import SchemaDoc.Proofs.Binders
import SchemaDoc.Proofs.ObjectLiterals
import SchemaDoc.Proofs.KeyOrder
import SchemaDoc.Proofs.Unhindered
import SchemaDoc.Proofs.ExportedNames
import SchemaDoc.Proofs.ArrayDepth
import SchemaDoc.Proofs.ArraySpreads
import SchemaDoc.Proofs.Printing
import SchemaDoc.Proofs.QuotedText
import SchemaDoc.Proofs.ReadingBack
import SchemaDoc.Proofs.Placement
import SchemaDoc.Proofs.Members
import SchemaDoc.Proofs.Rounding
import SchemaDoc.Proofs.Shortest
import SchemaDoc.Proofs.Numerals
import SchemaDoc.Proofs.UnitOrder
import SchemaDoc.Proofs.Conversions
import SchemaDoc.Proofs.NumberLine
import SchemaDoc.Proofs.ComparisonMeaning
import SchemaDoc.Proofs.Comparisons
import SchemaDoc.Proofs.Pieces
import SchemaDoc.Proofs.Discovery
import SchemaDoc.Proofs.Descriptions
import SchemaDoc.Proofs.Scopes
