import EventScript.Main
import EventScript.Proofs.Cancellation
import EventScript.Proofs.CopierHeaders
import EventScript.Proofs.CursorRuns
import EventScript.Proofs.EntryPointSets
import EventScript.Proofs.EventTexts
import EventScript.Proofs.EventTrails
import EventScript.Proofs.FailingSinks
import EventScript.Proofs.FailurePlaces
import EventScript.Proofs.PartialExports
import EventScript.Proofs.PointerRanges
import EventScript.Proofs.PropertyBits
import EventScript.Proofs.ReadsInBounds
import EventScript.Proofs.RecordLists
import EventScript.Proofs.RegionListing
import EventScript.Proofs.ResolvedConfig
import EventScript.Proofs.ScanIndex
import EventScript.Proofs.ScanRoundTrip
import EventScript.Proofs.ScriptDocuments
import EventScript.Proofs.WellFormedConfigs
