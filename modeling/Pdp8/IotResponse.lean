/-!
# Pdp8.IotResponse — how a device answers the processor
-/

namespace Pdp8

/-- The answer of a device to an input-output transfer. -/
inductive IotResponse
  /-- Carried out; the next instruction is to be skipped. -/
  | skip
  /-- Carried out. -/
  | done
  /-- Not one of the device's transfers. -/
  | notRecognised
  deriving DecidableEq, Repr

/-- Skip on a condition. -/
def IotResponse.skipIf (condition : Bool) : IotResponse := if condition then .skip else .done

end Pdp8
