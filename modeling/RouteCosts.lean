import RouteCosts.Main
import RouteCosts.Proofs.Wire.RoundTrip
import RouteCosts.Proofs.Wire.Feeding
import RouteCosts.Proofs.Wire.Layout
import RouteCosts.Source.Memory
import RouteCosts.Toml.Unquoting
import RouteCosts.Proofs.Session.Receiving
import RouteCosts.Proofs.Session.Waiting
import RouteCosts.Proofs.Dialogue.Course
import RouteCosts.Proofs.Session.Conversing
import RouteCosts.Proofs.Session.Serving
import RouteCosts.Proofs.Network.Transparency
import RouteCosts.Proofs.Bytes.Utf8
import RouteCosts.Proofs.Wire.Packing
import RouteCosts.Proofs.Listing.Names
import RouteCosts.Proofs.Graph.Search
import RouteCosts.Proofs.Graph.Upkeep
import RouteCosts.Proofs.Planner
import RouteCosts.Proofs.Source.Reloading
import RouteCosts.Proofs.Dialogue.Survey
import RouteCosts.Proofs.Wire.Acceptance
import RouteCosts.Proofs.Dialogue.Sharing
import RouteCosts.Proofs.Dialogue.Discipline
import RouteCosts.Proofs.Dialogue.Pricing
import RouteCosts.Proofs.Graph.Cost
import RouteCosts.Proofs.Graph.Shortcuts
import RouteCosts.Proofs.Dialogue.History
import RouteCosts.Proofs.Wire.Offering
import RouteCosts.Proofs.Dialogue.Paging
import RouteCosts.Proofs.Session.Interrupting
import RouteCosts.Proofs.Session.Accounting
import RouteCosts.Proofs.Session.Delaying
import RouteCosts.Proofs.Session.Buffering
import RouteCosts.Proofs.Listing.Grammar
import RouteCosts.Proofs.Listing.Merging
import RouteCosts.Proofs.Wire.Retrying
import RouteCosts.Proofs.Dialogue.Totals
import RouteCosts.Proofs.Settings.Saving
