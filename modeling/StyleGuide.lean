import StyleGuide.Main
import StyleGuide.Proofs.Comment.LineRanges
import StyleGuide.Proofs.Catalog.Groups
import StyleGuide.Proofs.Catalog.Reference
import StyleGuide.Proofs.Catalog.Entering
import StyleGuide.Proofs.Catalog.Build
import StyleGuide.Proofs.Catalog.Growth
import StyleGuide.Proofs.Catalog.Tidy
import StyleGuide.Proofs.Catalog.WellFormed
import StyleGuide.Proofs.Comment.PropertyBlock
import StyleGuide.Proofs.Tag.Standard
import StyleGuide.Proofs.Tag.PropertyRoundTrip
import StyleGuide.Proofs.Comment.Provenance
import StyleGuide.Proofs.Tag.SeparatorLeak
import StyleGuide.Proofs.Json.Fields
import StyleGuide.Proofs.Navigation.Merging
import StyleGuide.Proofs.Navigation.Filtering
import StyleGuide.Proofs.Navigation.Accepted
import StyleGuide.Proofs.Navigation.Compiled
import StyleGuide.Proofs.Navigation.Fitting
import StyleGuide.Proofs.Comment.ClosingLine
import StyleGuide.Proofs.Navigation.Precedence
import StyleGuide.Proofs.Comment.Segments
import StyleGuide.Proofs.Comment.Declarations
import StyleGuide.Proofs.Catalog.Batches
import StyleGuide.Proofs.Catalog.Independence
import StyleGuide.Proofs.Catalog.Replay
import StyleGuide.Proofs.Navigation.Pages
import StyleGuide.Proofs.Navigation.Blanking
import StyleGuide.Proofs.Comment.VisibleLines
import StyleGuide.Proofs.Tag.TagTexts
import StyleGuide.Proofs.Tag.CommentStyles
import StyleGuide.Proofs.Files.Writing
import StyleGuide.Proofs.Text.Utf8
import StyleGuide.Proofs.Output.Calls
import StyleGuide.Proofs.Output.Accounting
import StyleGuide.Proofs.CommandLine.FilesTouched
import StyleGuide.Proofs.Files.Walking
import StyleGuide.Proofs.Json.Printed
import StyleGuide.Proofs.Files.Sound
import StyleGuide.Proofs.Files.Matches
import StyleGuide.Proofs.Build.Sources
import StyleGuide.Proofs.Build.NewFile
import StyleGuide.Proofs.Build.Repeatable
import StyleGuide.Proofs.Comment.FreshStart
import StyleGuide.Proofs.Output.Sessions
import StyleGuide.Proofs.Files.Growing
import StyleGuide.Proofs.Output.DryRun
import StyleGuide.Proofs.Json.ReadBack
import StyleGuide.Proofs.Navigation.WrittenTemplates
import StyleGuide.Proofs.Navigation.Selection
import StyleGuide.Proofs.Navigation.DocumentedExamples
import StyleGuide.Proofs.Tag.AuthorText
import StyleGuide.Proofs.Tag.NamedMarker
import StyleGuide.Proofs.Output.Containment
import StyleGuide.Proofs.Output.Delivery
import StyleGuide.Proofs.Tag.Records
import StyleGuide.Proofs.Tag.Spans
import StyleGuide.Proofs.Tag.Accumulation
import StyleGuide.Proofs.Comment.NormalBlocks
import StyleGuide.Proofs.Catalog.CanonicalKeys
import StyleGuide.Proofs.Build.Expansion
