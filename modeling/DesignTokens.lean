import DesignTokens.Pipeline.OfText
import DesignTokens.Sink.Collecting
import DesignTokens.Sink.Document
import DesignTokens.Json.Reading
import DesignTokens.Proofs.Except
import DesignTokens.Proofs.Graph.Construction
import DesignTokens.Proofs.Graph.Walk
import DesignTokens.Proofs.Graph.Classification
import DesignTokens.Proofs.Configuration
import DesignTokens.Proofs.Pipeline.Cells
import DesignTokens.Proofs.Ratio.Attachment
import DesignTokens.Proofs.Graph.Chain
import DesignTokens.Proofs.Pipeline.Layout
import DesignTokens.Proofs.Pipeline.Typography
import DesignTokens.Proofs.Ratio.Identity
import DesignTokens.Proofs.Ratio.Report
import DesignTokens.Proofs.Pipeline.Isolation
import DesignTokens.Proofs.Pipeline.Policy
import DesignTokens.Proofs.Ratio.Accounting
import DesignTokens.Proofs.Graph.Grounded
import DesignTokens.Proofs.Pipeline.Grounded
import DesignTokens.Proofs.Number.Rounding
import DesignTokens.Proofs.Number.Bounds
import DesignTokens.Proofs.Json.ReadBack
import DesignTokens.Proofs.Format.Output
import DesignTokens.Proofs.Ratio.Origin
import DesignTokens.Proofs.Pipeline.Finiteness
import DesignTokens.Proofs.Format.Input
import DesignTokens.Proofs.Pipeline.DeclaredCells
import DesignTokens.Proofs.Pipeline.Findings
import DesignTokens.Proofs.Graph.DensityReach
import DesignTokens.Proofs.Pipeline.DensityMatrix
import DesignTokens.Proofs.Graph.Axes
import DesignTokens.Proofs.Pipeline.StyleOrder
import DesignTokens.Proofs.Pipeline.TokenFiles
import DesignTokens.Proofs.Graph.Acceptance
import DesignTokens.Proofs.Graph.DeclarationOrder
import DesignTokens.Proofs.Pipeline.Composites
import DesignTokens.Proofs.Sink.Delivery
import DesignTokens.Proofs.Replay
import DesignTokens.Proofs.Pipeline.Subjects
import DesignTokens.Proofs.Pipeline.LookUp
import DesignTokens.Proofs.Pipeline.Fallback
import DesignTokens.Proofs.Graph.Circles
import DesignTokens.Proofs.Ratio.Reasoning
import DesignTokens.Proofs.Ratio.Unanimity
import DesignTokens.Proofs.Graph.References
import DesignTokens.Proofs.Graph.Layers
import DesignTokens.Proofs.Ratio.Siblings
import DesignTokens.Proofs.Graph.OpenAxes
import DesignTokens.Proofs.Pipeline.DefaultDensity
import DesignTokens.Proofs.Text.Words
import DesignTokens.Proofs.Text.Path
import DesignTokens.Proofs.FontStyle.Qualifiers
import DesignTokens.Proofs.FontStyle.Letters
import DesignTokens.Proofs.FontStyle.Fused
import DesignTokens.Proofs.Pipeline.WeightSlot
import DesignTokens.Proofs.Configuration.Unambiguous
import DesignTokens.Proofs.Sink.OrderedMap
import DesignTokens.Proofs.Pipeline.Scopes
import DesignTokens.Proofs.Pipeline.Slant
import DesignTokens.Proofs.Number.Numeral
import DesignTokens.Proofs.Number.Nearest
import DesignTokens.Proofs.Number.Shortest
import DesignTokens.Proofs.Number.PlainText
import DesignTokens.Proofs.FontStyle.Combined
import DesignTokens.Proofs.Pipeline.EitherSlot
import DesignTokens.Proofs.Collection.Naming
import DesignTokens.Proofs.Graph.Selection
