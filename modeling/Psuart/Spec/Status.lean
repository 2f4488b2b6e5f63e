import Psuart.Spec.Gateway

namespace Psuart

/-- The event writes the packet with the answer to the command `S`. -/
def SendsStatus (transition : ServiceTransition) : Prop :=
  ∃ payload, transition.event.sent.2 = some (erupFrame dataFlagS payload)

/-- The same descriptor then gets the command `F`, and its response is collected. -/
def StartsScan (status next : ServiceTransition) : Prop :=
  ∃ uartFd fd data packet accepted,
    status.event = .raderRecv uartFd fd data packet accepted ∧
      next.event = .raderCmdFromStdin uartFd (stringBytes "F") (some (stringBytes "F")) ∧
      next.after.rader.rdaerCmdFlag = dataFlagF ∧ next.after.rader.raderDlen = raderDlenOf dataFlagF

/-- The collector waits for a whole scan. -/
def WaitsForScan (s : Service) : Prop :=
  s.rader.rdaerCmdFlag = dataFlagF ∧ s.rader.raderDlen = raderDlenOf dataFlagF

/-- A started scan is still awaited. -/
def ScanPending : List ServiceTransition → Prop :=
  Trace.Since (fun _ transition => WaitsForScan transition.after) fun transition => ¬transition.event.Releases

/-- The next packet behind a status, without a new connection and a `cls` between them, is a whole scan. -/
def ScanFollows (trace : List ServiceTransition) : Prop :=
  ∀ past status between answer future packet, trace = past ++ status :: between ++ answer :: future →
    SendsStatus status → (∀ transition ∈ between, ¬transition.event.Releases) →
      answer.event.sent.2 = some packet →
        ∃ payload, packet = erupFrame dataFlagF payload ∧ payload.length = 3178

end Psuart
