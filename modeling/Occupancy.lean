import Occupancy.Json.RoundTrip
import Occupancy.Main
import Occupancy.Proofs.Address
import Occupancy.Proofs.Canonical
import Occupancy.Proofs.Check
import Occupancy.Proofs.Command
import Occupancy.Proofs.Command.Options
import Occupancy.Proofs.Command.Saved
import Occupancy.Proofs.Difference
import Occupancy.Proofs.Document
import Occupancy.Proofs.EventRing
import Occupancy.Proofs.Growth
import Occupancy.Proofs.Heads
import Occupancy.Proofs.History
import Occupancy.Proofs.Image.Checked
import Occupancy.Proofs.Image.Framed
import Occupancy.Proofs.Image.Reload
import Occupancy.Proofs.Image.Stray
import Occupancy.Proofs.Json
import Occupancy.Proofs.Layout
import Occupancy.Proofs.Mismatch
import Occupancy.Proofs.Store
import Occupancy.Proofs.Store.Check
import Occupancy.Proofs.Store.Session
import Occupancy.Proofs.Trace
import Occupancy.Proofs.TupleFlags
import Occupancy.Workspace
import Occupancy.Proofs.Limits
import Occupancy.Proofs.Dump
