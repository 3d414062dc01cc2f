import Multidrop.Cli.Arguments

/-!
The program: the command line, the files and the serial line around `Multidrop.Cli`. Everything it
decides is decided there.

A serial line is a file that was set up beforehand, raw, with its rate, and with reads that come
back empty while nothing has arrived. There is no driver for a bridge here, so none is ever found.
-/

namespace Multidrop.Console

/-- An open serial line. Its two directions are opened apart, so that neither loses what the other
has in its buffer. -/
structure SerialLine where
  input : IO.FS.Handle
  output : IO.FS.Handle
  /-- How many milliseconds of silence end what is received. -/
  timeout : Nat

/-- The next byte from the line, unless it stays silent for so many milliseconds. -/
def SerialLine.next (line : SerialLine) (patience : Nat) : IO (Option UInt8) := do
  let bytes ← line.input.read 1
  match bytes.toList, patience with
  | byte :: _, _ => pure (some byte)
  | [], 0 => pure none
  | [], patience + 1 => do
    IO.sleep 1
    line.next patience

/-- Up to so many bytes from the line, of which some were received already. -/
def SerialLine.receive (line : SerialLine) (received : List UInt8) : Nat → IO (List UInt8)
  | 0 => pure received.reverse
  | size + 1 => do
    match ← line.next line.timeout with
    | some byte => line.receive (byte :: received) size
    | none => pure received.reverse

def SerialLine.transmit (line : SerialLine) (bytes : List UInt8) : IO Unit := do
  line.output.write (ByteArray.mk bytes.toArray)
  line.output.flush

/-- Opens the line with a path, which has to be there. -/
def SerialLine.open (path : String) (timeout : Nat) : IO SerialLine := do
  let input ← IO.FS.Handle.mk path .readWrite
  let output ← IO.FS.Handle.mk path .readWrite
  pure { input, output, timeout }

/-- What runs on the machine, with the serial line once it is open. -/
abbrev Session :=
  StateT (Option SerialLine) BaseIO

namespace Session

/-- Whatever goes wrong outside of the program is a problem with the bus to the host. -/
def guarded {α : Type} (act : IO α) : Session (Except Host.Error α) := do
  match ← act.toBaseIO with
  | .ok value => pure (.ok value)
  | .error _ => pure (.error .bus)

/-- Does something with the line. Without one there is no bus. -/
def withLine {α : Type} (act : SerialLine → IO α) : Session (Except Host.Error α) := do
  match ← get with
  | some line => guarded (act line)
  | none => pure (.error .bus)

end Session

instance : Host.Transport Session where
  transmit bytes := Session.withLine fun line => line.transmit bytes
  receive size := Session.withLine fun line => line.receive [] size
  pause milliseconds := (IO.sleep (UInt32.ofNat milliseconds) : BaseIO Unit)

instance : Cli.Surroundings Session where
  openSerial path settings := do
    match ← Session.guarded (SerialLine.open path settings.timeout) with
    | .ok line =>
      set (some line)
      pure (.ok ())
    | .error error => pure (.error error)
  openBridge _ := pure (.error .deviceNotFound)
  fileContents path := Session.guarded (ByteArray.toList <$> IO.FS.readBinFile path)

def carryOut (invocation : Cli.Invocation) : IO UInt32 := do
  let (outcome, _) ← (invocation.run : Host.Call Session (List UInt8)) none
  match outcome with
  | .ok output =>
    let stdout ← IO.getStdout
    stdout.write (ByteArray.mk output.toArray)
    stdout.flush
    pure 0
  | .error error =>
    IO.eprintln error.message
    pure 1

/-- Says why a command line was not carried out, and gives the exit status. -/
def refuse (stop : Cli.Stop) : IO UInt32 := do
  if stop.isSuccess then
    IO.println stop.message
    pure 0
  else
    IO.eprintln stop.message
    pure 2

end Multidrop.Console

def main (arguments : List String) : IO UInt32 :=
  match Multidrop.Cli.parse arguments with
  | .ok invocation => Multidrop.Console.carryOut invocation
  | .error stop => Multidrop.Console.refuse stop
