import Multidrop.Node
import Multidrop.Node.Bootloader

/-!
The main loop of the bootloader: it serves the bus and starts the firmware once its time is up,
unless the host showed interest in the bootloader before. The world around the loop, which is the
clock and the traffic on the line, is given turn by turn.
-/

namespace Multidrop

/-- What the interrupts of a node can hear. -/
inductive Traffic where
  | byte (byte : UInt8)
  | silence
  deriving DecidableEq

def Node.hear {C : Type} [CommandSet C] (node : Node C) (traffic : List Traffic) : Node C :=
  traffic.foldl (fun node heard =>
    match heard with
    | .byte byte => node.receive byte
    | .silence => node.timeout) node

/-- The world around one turn of the main loop. -/
structure Turn where
  /-- What is heard while the clock is read. -/
  sampling : List Traffic := []
  /-- The clock in milliseconds. -/
  now : Nat
  /-- What is heard while the loop idles at the end of the turn. -/
  idling : List Traffic := []
  deriving DecidableEq

/-- How the main loop ended. -/
inductive Ending where
  | booted
  /-- A reset to the firmware was asked for. -/
  | reset
  /-- The loop still runs after the last turn. -/
  | serving
  deriving DecidableEq

/-- A main loop that ended, or that ran out of turns. -/
structure Service where
  ending : Ending
  /-- How many turns went by completely. -/
  turns : Nat
  node : Node Bootloader
  /-- What the node went through while the firmware was started, from the end of the loop on. -/
  trail : List (Node Bootloader)

/-- A main loop that still runs. -/
structure Loop where
  /-- The time of the clock at which the firmware is started. Without one the clock is not read. -/
  deadline : Option Nat
  /-- How many turns went by completely. -/
  turns : Nat := 0
  node : Node Bootloader

namespace Loop

/-- The main loop that begins as decided at the time `now` of the clock. -/
def start (decision : Decision) (now : Nat) (node : Node Bootloader) : Loop where
  deadline := decision.timeout?.map (now + ·)
  node

/-- Whether the command tells that the host wants the bootloader to stay. -/
def cancels : Option Command → Bool
  | some .resetToBootloader | some .flashFirmware => true
  | _ => false

/-- The calls by which the firmware is started, in their order: the node is taken away from the
interrupts, the line is left alone, and the chip is told the version and what to go on with. -/
def farewell : List (Node Bootloader → Node Bootloader) :=
  [Node.lock,
    (·.mapLink Link.release),
    (·.mapLink (Link.mapCommands Bootloader.storeVersion)),
    (·.mapLink (Link.mapCommands Bootloader.boot)),
    Node.unlock]

/-- What a node goes through while calls are made on it: as it is at first and after each call. -/
def passed (node : Node Bootloader) :
    List (Node Bootloader → Node Bootloader) → List (Node Bootloader)
  | [] => [node]
  | call :: rest => node :: passed (call node) rest

/-- Leaves the line alone and starts the firmware. -/
def boot (node : Node Bootloader) : Node Bootloader :=
  farewell.foldl (fun node call => call node) node

/-- On a node that was taken away and whose line was left alone, that is to start the firmware. -/
theorem boot_eq (node : Node Bootloader) :
    boot node = ((node.lock.mapLink Link.release).mapLink
      (Link.mapCommands Bootloader.startFirmware)).unlock :=
  rfl

/-- The end of a turn after which the loop goes on. -/
def idle (loop : Loop) (deadline : Option Nat) (node : Node Bootloader) (turn : Turn) : Loop :=
  { deadline, turns := loop.turns + 1, node := node.hear turn.idling }

def turn (loop : Loop) (turn : Turn) : Service ⊕ Loop :=
  match loop.node.poll with
  | (some .resetToFirmware, node) => .inl ⟨.reset, loop.turns, node, []⟩
  | (command, node) =>
    match if cancels command then none else loop.deadline with
    | none => .inr (loop.idle none node turn)
    | some deadline =>
      let node := node.hear turn.sampling
      if deadline ≤ turn.now then .inl ⟨.booted, loop.turns, boot node, passed node farewell⟩
      else .inr (loop.idle (some deadline) node turn)

/-- Looks at a loop that ran out of turns. -/
def leave (loop : Loop) : Service :=
  ⟨.serving, loop.turns, loop.node, []⟩

/-- Serves the bus for the given turns. -/
def serve (loop : Loop) : List Turn → Service
  | [] => loop.leave
  | turn :: rest =>
    match loop.turn turn with
    | .inl service => service
    | .inr loop => loop.serve rest

end Loop

/-- A clock that advances by `tick` while the loop idles and stops where it would go above `limit`,
with what is still to be heard and the times from which on it is. -/
structure Clock where
  now : Nat
  tick : Nat
  limit : Nat
  timetable : List (Nat × List Traffic)
  deriving DecidableEq

namespace Clock

/-- What is heard of a timetable up to a time, and what is left of it. An entry waits for those
before it. -/
def due (now : Nat) : List (Nat × List Traffic) → List Traffic × List (Nat × List Traffic)
  | [] => ([], [])
  | (time, traffic) :: rest =>
    if time ≤ now then
      let (more, rest) := due now rest
      (traffic ++ more, rest)
    else ([], (time, traffic) :: rest)

/-- The world around the next turn, and the clock after it unless it stops. -/
def turn (clock : Clock) : Turn × Option Clock :=
  let now := clock.now + clock.tick
  if clock.limit < now then ({ now := clock.now }, none)
  else
    let (idling, timetable) := due now clock.timetable
    ({ now := clock.now, idling }, some { clock with now, timetable })

/-- The turns until the clock stops, at most `count` of them. -/
def turns : (count : Nat) → (clock : Clock) → List Turn
  | 0, _ => []
  | count + 1, clock =>
    match clock.turn with
    | (turn, none) => [turn]
    | (turn, some clock) => turn :: turns count clock

/-- After so many turns the clock has stopped or, where it does not advance, everything that can be
heard has been heard and executed. -/
def span (clock : Clock) : Nat :=
  (clock.limit - clock.now) / clock.tick + 2

/-- The time after a number of turns. -/
def after (clock : Clock) (turns : Nat) : Nat :=
  clock.now + clock.tick * turns

end Clock

/-- Serves the bus by the clock for at most `count` turns, each of which is looked at only when the
loop comes to it. -/
def Loop.attend (loop : Loop) (clock : Clock) : (count : Nat) → Service
  | 0 => loop.leave
  | count + 1 =>
    match clock.turn with
    | (turn, next) =>
      match loop.turn turn, next with
      | .inl service, _ => service
      | .inr loop, none => loop.leave
      | .inr loop, some clock => loop.attend clock count

theorem Loop.attend_eq_serve (loop : Loop) (clock : Clock) (count : Nat) :
    loop.attend clock count = loop.serve (clock.turns count) := by
  induction count generalizing loop clock with
  | zero => rfl
  | succ count ih =>
    unfold attend Clock.turns
    rcases clock.turn with ⟨turn, _ | next⟩
    · simp only [serve]
      cases loop.turn turn <;> rfl
    · simp only [serve]
      cases loop.turn turn with
      | inl service => rfl
      | inr loop => exact ih loop next

namespace Service

/-- Serves the bus as decided, from the time `now` of the clock on. -/
def run (decision : Decision) (now : Nat) (node : Node Bootloader) (turns : List Turn) : Service :=
  (Loop.start decision now node).serve turns

/-- Serves the bus as decided until the clock stops. -/
def timed (decision : Decision) (clock : Clock) (node : Node Bootloader) : Service :=
  (Loop.start decision clock.now node).attend clock clock.span

theorem timed_eq_run (decision : Decision) (clock : Clock) (node : Node Bootloader) :
    timed decision clock node = run decision clock.now node (clock.turns clock.span) :=
  Loop.attend_eq_serve ..

/-- The time of the clock at which the loop ended. -/
def exitTime? (service : Service) (clock : Clock) : Option Nat :=
  match service.ending with
  | .booted | .reset => some (clock.after service.turns)
  | .serving => none

end Service

end Multidrop
