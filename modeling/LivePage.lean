import LivePage.Session.Perform
import LivePage.Version
import LivePage.Proofs.Markup.Row
import LivePage.Proofs.Markup.Frame
import LivePage.Proofs.Forest.Framed
import LivePage.Proofs.Forest.WellFormed
import LivePage.Proofs.Template.Transform
import LivePage.Proofs.Template.Pass
import LivePage.Proofs.Template.Walk
import LivePage.Proofs.Template.Census
import LivePage.Proofs.Page.Rerender
import LivePage.Proofs.Store.Journal
import LivePage.Proofs.Store.Notification
import LivePage.Proofs.Page.Projection
import LivePage.Proofs.Linked.Coherent
import LivePage.Proofs.Linked.Shows
import LivePage.Proofs.Linked.Represents
import LivePage.Proofs.Linked.Climb
import LivePage.Proofs.Linked.Moves
import LivePage.Proofs.Linked.Walks
import LivePage.Proofs.Linked.Programs
import LivePage.Proofs.Linked.Reach
import LivePage.Proofs.Store.Course
import LivePage.Proofs.Store.Overtaken
import LivePage.Proofs.Markup.Swap
import LivePage.Proofs.Forest.Confined
import LivePage.Proofs.Page.Enclosure
import LivePage.Proofs.Linked.Lower
import LivePage.Proofs.Markup.Escaping
import LivePage.Proofs.Markup.Normal
import LivePage.Proofs.Markup.RoundTrip
import LivePage.Proofs.Forest.RoundTrip
import LivePage.Proofs.Template.Texts
import LivePage.Proofs.Page.FirstRender
import LivePage.Proofs.Store.Answered
import LivePage.Proofs.Template.Tokens
import LivePage.Proofs.Template.Leaves
import LivePage.Proofs.Template.Fate
import LivePage.Proofs.Page.Attempts
import LivePage.Proofs.Page.Accounting
import LivePage.Proofs.Page.Binding
import LivePage.Proofs.Page.Generated
import LivePage.Proofs.Template.Outline
import LivePage.Proofs.Template.Mentioned
import LivePage.Proofs.Page.Place
import LivePage.Proofs.Markup.Order
import LivePage.Proofs.Page.Finding
import LivePage.Proofs.Page.Neighbours
import LivePage.Proofs.Page.Isolation
import LivePage.Proofs.Template.Scanning
import LivePage.Proofs.Template.Replacing
import LivePage.Proofs.Template.Escaped
import LivePage.Proofs.Template.Expanding
import LivePage.Proofs.Linked.Moved
import LivePage.Proofs.Linked.Acceptance
import LivePage.Proofs.Template.Calls
import LivePage.Proofs.Template.PlainItems
import LivePage.Proofs.Text.Letters
import LivePage.Proofs.Text.Words
import LivePage.Proofs.Template.Statements
import LivePage.Proofs.Markup.Selectors
import LivePage.Proofs.Markup.Unambiguous
import LivePage.Proofs.Linked.Queries
import LivePage.Proofs.Number.Exact
import LivePage.Proofs.Number.Digits
import LivePage.Proofs.Number.Whole
import LivePage.Proofs.Data.Writes
import LivePage.Proofs.Json.Tokens
import LivePage.Proofs.Json.RoundTrip
import LivePage.Proofs.Markup.Labelled
import LivePage.Proofs.Markup.Keyed
import LivePage.Proofs.Markup.Built
import LivePage.Proofs.Markup.Handled
import LivePage.Proofs.Linked.Labelled
import LivePage.Proofs.Linked.Attributes
