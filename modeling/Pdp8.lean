import Pdp8.Main
import Pdp8.Program
import Pdp8.Runner.Interleaving
import Pdp8.Proofs.InterruptReturn
import Pdp8.Proofs.PanelLoading
import Pdp8.Proofs.FieldChange
import Pdp8.Proofs.PanelNeutral
import Pdp8.Proofs.Stopping
import Pdp8.Proofs.SingleWorker
import Pdp8.Proofs.ImageRoundTrip
import Pdp8.Proofs.PanelPins
import Pdp8.Proofs.Disassembly
import Pdp8.Proofs.PrinterTransport
import Pdp8.Proofs.KeyboardTransport
import Pdp8.Proofs.PanelAgreement
import Pdp8.Proofs.RunModes
import Pdp8.Proofs.ImageLines
import Pdp8.Proofs.BusyPrinter
import Pdp8.Proofs.MajorStates
import Pdp8.Proofs.Examining
import Pdp8.Proofs.WiringFaults
import Pdp8.Proofs.CoreHistory
import Pdp8.Proofs.Tracing
import Pdp8.Proofs.WordIntegers
import Pdp8.Proofs.CyclicTurns
