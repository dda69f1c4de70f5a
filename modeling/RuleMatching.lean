import RuleMatching.Main
import RuleMatching.Arena.Thread
import RuleMatching.Json.Number
import RuleMatching.Json.Parse
import RuleMatching.Proofs.SlotMap
import RuleMatching.Proofs.Binary64
import RuleMatching.Proofs.Value
import RuleMatching.Proofs.Fact
import RuleMatching.Proofs.JoinCondition
import RuleMatching.Proofs.Arena
import RuleMatching.Proofs.Network.Shape
import RuleMatching.Proofs.Network.Build
import RuleMatching.Proofs.Arena.Stored
import RuleMatching.Proofs.Session.Coherent
import RuleMatching.Proofs.Session.Sides
import RuleMatching.Proofs.Session.Change
import RuleMatching.Proofs.Session.Growth
import RuleMatching.Proofs.Session.Insertion
import RuleMatching.Proofs.Session.Waiting
import RuleMatching.Proofs.Session.Entering
import RuleMatching.Proofs.Session.Deleting
import RuleMatching.Proofs.Session.Leaving
import RuleMatching.Proofs.Network.Routing
import RuleMatching.Proofs.Session.Several
import RuleMatching.Proofs.Session.Versions
import RuleMatching.Proofs.Session.Plan
import RuleMatching.Proofs.Session.Calls
import RuleMatching.Proofs.Session.Runs
import RuleMatching.Proofs.Session.Contents
import RuleMatching.Proofs.Session.Matches
import RuleMatching.Proofs.Session.Memories
import RuleMatching.Proofs.Network.Values
import RuleMatching.Proofs.Session.Renaming
import RuleMatching.Proofs.Session.Log
import RuleMatching.Proofs.Session.Skipping
import RuleMatching.Proofs.Network.Depth
import RuleMatching.Proofs.Arena.Alike
import RuleMatching.Proofs.Session.Alike
import RuleMatching.Proofs.Session.Lockstep
import RuleMatching.Proofs.Session.KeyDepth
import RuleMatching.Session.Delivery
import RuleMatching.Proofs.Session.Traffic
import RuleMatching.Proofs.Session.Delivery
import RuleMatching.Proofs.Session.Story
import RuleMatching.Proofs.Session.Refusals
import RuleMatching.Proofs.Session.Searches
import RuleMatching.Proofs.Session.Results
import RuleMatching.Proofs.Session.Frames
import RuleMatching.Proofs.Network.Verdict
import RuleMatching.Proofs.Network.Forest
import RuleMatching.Proofs.Network.Reached
import RuleMatching.Proofs.Network.Twins
import RuleMatching.Proofs.Session.Mirror
import RuleMatching.Proofs.Session.Course
import RuleMatching.Proofs.Session.Sharing
import RuleMatching.Arena.Linked
import RuleMatching.Session.Linked
import RuleMatching.Session.Slots
import RuleMatching.Proofs.Arena.Thread
import RuleMatching.Proofs.Arena.Kin
import RuleMatching.Proofs.Arena.Siblings
import RuleMatching.Proofs.Session.Links
import RuleMatching.Proofs.Session.Unlinking
import RuleMatching.Proofs.Session.Simulation
import RuleMatching.Proofs.Session.SimulatedRuns
import RuleMatching.Proofs.Session.Linking
import RuleMatching.Proofs.Session.LinkedRuns
import RuleMatching.Proofs.Session.Counters
import RuleMatching.Proofs.Scenario.Replay
import RuleMatching.Proofs.Network.Resolution
import RuleMatching.Proofs.Network.Acceptance
import RuleMatching.Proofs.Session.Reading
import RuleMatching.Proofs.Network.Trees
import RuleMatching.Proofs.Network.Layout
import RuleMatching.Proofs.JoinIndex
import RuleMatching.Proofs.Memory.Linked
import RuleMatching.Proofs.Value.Order
import RuleMatching.Proofs.Session.Untouched
import RuleMatching.Proofs.Memory.Stale
import RuleMatching.Proofs.Network.Interchange
import RuleMatching.Proofs.Fact.Changes
import RuleMatching.Proofs.Scenario.Report
import RuleMatching.Proofs.Calendar
import RuleMatching.Proofs.Value.Json
import RuleMatching.Proofs.Document
import RuleMatching.Proofs.Session.Handles
import RuleMatching.Proofs.Network.Shares
import RuleMatching.Proofs.SlotMap.Issued
import RuleMatching.Proofs.SlotMap.Sequence
import RuleMatching.Arena.Slots
import RuleMatching.Proofs.Arena.Linked
import RuleMatching.Proofs.Arena.Slots
import RuleMatching.Proofs.Arena.Callers
import RuleMatching.Proofs.Arena.Book
import RuleMatching.Proofs.Session.SlotMemories
import RuleMatching.Proofs.Session.Slots
import RuleMatching.Proofs.Session.SlotRuns
