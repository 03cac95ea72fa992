import Stencil.Main
import Stencil.Proofs.Markup.StartTags
import Stencil.Proofs.Render.RoundTrip
import Stencil.Proofs.Render.TagBranch
import Stencil.Proofs.Template.Diagnostics
import Stencil.Proofs.Template.OpenMarkers
import Stencil.Proofs.Template.WellNested
import Stencil.Proofs.Markup.Document
import Stencil.Proofs.Render.History
import Stencil.Proofs.Render.Strategies
import Stencil.Proofs.Render.Watch
import Stencil.Proofs.Render.Slots
import Stencil.Proofs.Render.Definitions
import Stencil.Proofs.Template.Library
import Stencil.Proofs.Markup.ByteSource
import Stencil.Proofs.Markup.EventSpots
import Stencil.Proofs.Markup.RunningText
import Stencil.Proofs.Template.StandaloneLines
import Stencil.Proofs.Template.Namespaces
import Stencil.Proofs.Render.ContentTag
import Stencil.Proofs.Render.Extraction
import Stencil.Proofs.Render.TextCall
import Stencil.Proofs.Template.Remarks
import Stencil.Proofs.Template.TagMarkers
import Stencil.Proofs.Render.GuardedTag
import Stencil.Proofs.Render.HeldText
import Stencil.Proofs.Markup.Closings
import Stencil.Proofs.Expression.OutwardPath
import Stencil.Proofs.Render.DefinedTemplates
import Stencil.Proofs.Expression.CallNames
import Stencil.Proofs.Expression.Printing
import Stencil.Proofs.Expression.Conditionals
import Stencil.Proofs.Render.Outline
import Stencil.Proofs.Template.ControlDashes
import Stencil.Proofs.Render.WrittenElements
import Stencil.Proofs.Template.ClosingNames
import Stencil.Proofs.Render.MarkerLines
import Stencil.Proofs.Markup.EscapedBytes
