import Wakeup.Builder
import Wakeup.Json.Decode
import Wakeup.Proofs.Agreement
import Wakeup.Proofs.Bursts
import Wakeup.Proofs.Conservation
import Wakeup.Proofs.Contract
import Wakeup.Proofs.Decimal
import Wakeup.Proofs.Decoding
import Wakeup.Proofs.Delivery
import Wakeup.Proofs.Draining
import Wakeup.Proofs.Forwarding
import Wakeup.Proofs.Levels
import Wakeup.Proofs.Remains
import Wakeup.Proofs.Removal
import Wakeup.Proofs.Reporting
import Wakeup.Proofs.Separation
import Wakeup.Proofs.Strands
import Wakeup.Session.Run
