import TraceViews.Main
import TraceViews.Proofs.Filter.Language
import TraceViews.Proofs.Filter.Binding
import TraceViews.Proofs.Filter.Faults
import TraceViews.Proofs.Workspace.Records
import TraceViews.Proofs.Workspace.Hearing
import TraceViews.Proofs.Console.Following
import TraceViews.Proofs.Console.Selection
import TraceViews.Proofs.Feed.Conservation
import TraceViews.Proofs.View.Nearest
import TraceViews.Proofs.View.Installation
import TraceViews.Proofs.Workspace.Observers
import TraceViews.Proofs.Store.Probes
import TraceViews.Proofs.Filter.Completions
import TraceViews.Proofs.Filter.Juxtaposition
import TraceViews.Proofs.Filter.Parentheses
import TraceViews.Proofs.Template.Faults
import TraceViews.Proofs.Template.Rendering
import TraceViews.Proofs.Filter.Excerpts
import TraceViews.Proofs.Feed.Timing
import TraceViews.Proofs.Filter.Membership
import TraceViews.Proofs.Console.Events
import TraceViews.Proofs.Console.Spelling
import TraceViews.Proofs.Feed.Counting
import TraceViews.Proofs.Filter.Tiling
import TraceViews.Proofs.Feed.Generation
