import Psuart.Proof.Service.Serving

namespace Psuart

section Serves

variable {w after : ServiceWorld} {collector : Collector} {writes : List (Int × List Byte)}
  (serves : Serves w after collector writes)

include serves

theorem Serves.represents : after.state.rader.Represents collector := by
  obtain ⟨rader, same, represents⟩ := serves.state
  rw [same]
  exact represents

theorem Serves.psudata : after.state.psudata = w.state.psudata := by
  obtain ⟨rader, same, _⟩ := serves.state
  rw [same]

theorem Serves.live (live : w.state.Live) : after.state.Live := by
  obtain ⟨rader, same, _⟩ := serves.state
  rw [same]
  exact ⟨live.uart, live.tcp, live.udp, live.connected⟩

theorem Serves.distinct (distinct : w.state.Distinct) : after.state.Distinct := by
  obtain ⟨rader, same, _⟩ := serves.state
  rw [same]
  exact distinct.rader rader

end Serves

theorem Rader.Sound.collector {s : Rader} (sound : s.Sound) : ∃ collector, s.Represents collector := by
  rcases sound with rests | ⟨acc, collects⟩
  · exact ⟨.idle, rests⟩
  · exact ⟨.collecting s.rdaerCmdFlag s.raderDlen.toNat acc, collects, rfl, rfl⟩

end Psuart
