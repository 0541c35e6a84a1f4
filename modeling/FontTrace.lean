import FontTrace.Engine.Recording
import FontTrace.Font.Metadata
import FontTrace.Main
import FontTrace.Proofs.Extents.Prediction
import FontTrace.Proofs.Extents.Resolution
import FontTrace.Proofs.Font.Designation
import FontTrace.Proofs.Font.Distinct
import FontTrace.Proofs.Font.GivenValues
import FontTrace.Proofs.Font.LookupOrder
import FontTrace.Proofs.Font.NameGrammar
import FontTrace.Proofs.Font.Numbering
import FontTrace.Proofs.Font.ProductionName
import FontTrace.Proofs.Geometry.Backwards
import FontTrace.Proofs.Geometry.CanonicalOrder
import FontTrace.Proofs.Geometry.Corners
import FontTrace.Proofs.Geometry.Drawing
import FontTrace.Proofs.Geometry.FittedLine
import FontTrace.Proofs.Geometry.Merging
import FontTrace.Proofs.Geometry.Remainder
import FontTrace.Proofs.Geometry.Shortening
import FontTrace.Proofs.Geometry.Subdivision
import FontTrace.Proofs.Kerning.Compaction
import FontTrace.Proofs.Kerning.Modes
import FontTrace.Proofs.Kerning.Skew
import FontTrace.Proofs.Ligature.Finish
import FontTrace.Proofs.Ligature.Sharing
import FontTrace.Proofs.Ligtable.Faults
import FontTrace.Proofs.Ligtable.Replay
import FontTrace.Proofs.Picture.Algebra
import FontTrace.Proofs.Picture.Direction
import FontTrace.Proofs.Picture.Equations
import FontTrace.Proofs.Picture.KeepingZero
import FontTrace.Proofs.Picture.NamedPoint
import FontTrace.Proofs.Picture.Nesting
import FontTrace.Proofs.Picture.Overlaps
import FontTrace.Proofs.Picture.Razor
import FontTrace.Proofs.Picture.Strokes
import FontTrace.Proofs.Replay.Exchange
import FontTrace.Proofs.Shipment.Alternates
import FontTrace.Proofs.Shipment.Anonymous
import FontTrace.Proofs.Shipment.References
import FontTrace.Proofs.Trace.Cleaning
import FontTrace.Proofs.Trace.PathNotation
import FontTrace.Proofs.Trace.Reports
import FontTrace.Proofs.Trace.Written
import FontTrace.Proofs.Ufo.Component
import FontTrace.Proofs.Ufo.Outline
import FontTrace.Proofs.Variants.Handover
import FontTrace.Storage.Tree
