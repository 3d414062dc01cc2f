import Multidrop.Flash.Survey
import Multidrop.Node.Attached
import Multidrop.Node.Device

/-!
What a device on the line did since somebody last looked.
-/

namespace Multidrop

/-- What a device did. -/
structure Report where
  sent : List UInt8
  /-- What was noticed on the line by somebody who listens. -/
  events : List Line.Event
  /-- What the transceiver did to its parts. -/
  journal : List Transceiver.Entry
  bursts : List Flash.Burst
  commits : List (List UInt16)
  log : List Scripted.Entry
  deriving DecidableEq

namespace Attached

/-- What the device did since this was last asked. -/
def report (attached : Attached Device) : Report × Attached Device :=
  match attached with
  | ⟨node, adapter, timer, sent⟩ =>
    let device := node.link.value.commands
    let report : Report :=
      { sent
        events :=
          match adapter with
          | .recorder trace => trace.events
          | .transceiver _ => []
        journal :=
          match adapter with
          | .recorder _ => []
          | .transceiver parts => parts.journal.toList
        bursts := device.flash.bursts
        commits := device.commits
        log := device.log }
    let adapter : Adapter :=
      match adapter with
      | .recorder _ => .recorder #[]
      | .transceiver parts => .transceiver { parts with journal := #[] }
    let attached : Attached Device := ⟨node, adapter, timer, []⟩
    (report, attached.mapCommands fun device => (device.mapFlash Flash.forget).forget)

end Attached

end Multidrop
