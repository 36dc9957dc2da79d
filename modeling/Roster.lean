import Roster.Main
import Roster.Proofs.Convergence
import Roster.Proofs.History
import Roster.Proofs.Attempts
import Roster.Proofs.Reload
import Roster.Proofs.Tracking
import Roster.Proofs.Effects
import Roster.Proofs.Vanished
import Roster.Proofs.Renumbering
import Roster.Proofs.Resending
import Roster.Proofs.Retry
import Roster.Proofs.DeclaredOrder
import Roster.Proofs.Requests
import Roster.Proofs.Steady
import Roster.Proofs.Separation
import Roster.Proofs.SentTwice
import Roster.Proofs.Foresight
import Roster.Proofs.NormalForm
import Roster.Proofs.LongLived
import Roster.Proofs.Listing
import Roster.Proofs.LinkedPages
import Roster.Proofs.Transcript
import Roster.Proofs.ViewParts
import Roster.Proofs.OrderCheck
import Roster.Proofs.RelationAddress
import Roster.Proofs.DeclarationLines
import Roster.Proofs.StateFileNames
import Roster.Proofs.DeclarationVerdict
import Roster.Proofs.SetReadings
import Roster.Proofs.PriorityForms
