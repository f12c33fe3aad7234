import Parley.Batch.Job
import Parley.Engine.Loopback
import Parley.Json.Printer
import Parley.Negotiation.Form
import Parley.Query.Form
import Parley.Settings.Load
import Parley.Venue.Loop
import Parley.Proofs.Engine.Direct
import Parley.Proofs.Engine.Handling
import Parley.Proofs.Engine.Reception
import Parley.Proofs.Ledger.Batch
import Parley.Proofs.World.Ids
import Parley.Proofs.Negotiation.Progress
import Parley.Proofs.World.Change
import Parley.Proofs.Engine.Effects
import Parley.Proofs.Engine.Session
import Parley.Proofs.Engine.Coherence
import Parley.Proofs.Engine.Graph
import Parley.Proofs.Engine.Rounds
import Parley.Proofs.Parties.Network
import Parley.Proofs.Parties.Agreement
import Parley.Proofs.Engine.Passage
import Parley.Proofs.Parties.Meeting
import Parley.Proofs.Parties.Exchange
import Parley.Proofs.Parties.Ticks
import Parley.Proofs.Parties.Correspondence
import Parley.Proofs.Parties.Outcome
import Parley.Proofs.Parties.Stage
import Parley.Proofs.Parties.Order
import Parley.Proofs.Parties.Smooth
import Parley.Proofs.Parties.Completion
import Parley.Proofs.Engine.Reply
import Parley.Proofs.Ledger.Shield
import Parley.Proofs.World.Sharing
import Parley.Proofs.Engine.Reach
import Parley.Proofs.Crew.Exclusion
import Parley.Proofs.Crew.Spacing
import Parley.Proofs.Engine.Acceptance
import Parley.Proofs.Engine.Writing
import Parley.Proofs.Engine.Office
import Parley.Proofs.Engine.WellFormed
import Parley.Proofs.Engine.OwnSteps
import Parley.Proofs.Engine.Endurance
import Parley.Proofs.Engine.Calls
import Parley.Proofs.Engine.Errand
import Parley.Proofs.Engine.Attempts
import Parley.Proofs.Engine.Budget
import Parley.Proofs.Engine.Requests
import Parley.Proofs.Engine.Redelivery
import Parley.Proofs.Ledger.Names
import Parley.Proofs.Engine.Farewell
import Parley.Proofs.Engine.Announcements
import Parley.Proofs.Engine.Exhaustion
import Parley.Proofs.Engine.Releases
import Parley.Proofs.Engine.Parking
import Parley.Proofs.Engine.Archive
import Parley.Proofs.Negotiation.Texts
import Parley.Proofs.Batch.Process
import Parley.Proofs.Query.Like
import Parley.Proofs.Query.Checks
import Parley.Proofs.World.Work
import Parley.Proofs.Query.Sorted
import Parley.Proofs.Retry.Delay
import Parley.Proofs.Settings.Layers
import Parley.Proofs.World.Listing
import Parley.Proofs.Negotiation.History
import Parley.Proofs.Batch.Order
import Parley.Proofs.Listener.Delivery
import Parley.Proofs.Listener.Turns
import Parley.Proofs.Settings.Delays
import Parley.Proofs.Polling.Script
import Parley.Proofs.Polling.Timetable
import Parley.Proofs.Polling.Station
import Parley.Proofs.Polling.Standing
import Parley.Proofs.Polling.Punctual
