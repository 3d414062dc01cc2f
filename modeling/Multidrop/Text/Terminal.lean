/-!
Text that may hold escape sequences for a terminal, read for a place that is none. The sequences and
the control characters are left out, and so the text cannot do anything where it is shown. Blanks
stay, also those that a terminal would obey in the middle of a sequence.
-/

namespace Multidrop.Terminal

/-- The character that begins an escape sequence wherever it stands. -/
def escape : Char := '\x1b'

/-- The characters that end any sequence without being part of the text. -/
def isCancel (char : Char) : Bool :=
  char = '\x18' || char = '\x1a'

/-- The blanks among the control characters. -/
def isControlBlank (char : Char) : Bool :=
  char = '\t' || char = '\n' || char = '\x0c' || char = '\r'

def isAscii (char : Char) : Bool :=
  char < '\x80'

/-- What is shown where no sequence is open. -/
def isText (char : Char) : Bool :=
  isControlBlank char || !isAscii char || (' ' ≤ char && char ≤ '~')

/-- What may stand between the beginning of a sequence and its last character. -/
def isIntermediate (char : Char) : Bool :=
  ' ' ≤ char && char ≤ '/'

/-- What the parameters of a sequence are written with. -/
def isParameter (char : Char) : Bool :=
  '0' ≤ char && char ≤ '?'

/-- The parameter characters that stand for nothing but a number or a separator. -/
def isNumeric (char : Char) : Bool :=
  '0' ≤ char && char ≤ ';'

/-- What ends the header of a sequence. -/
def isFinal (char : Char) : Bool :=
  '@' ≤ char && char ≤ '~'

/-- Whether the byte that ends a string is among those the character is written with. -/
def holdsTerminator (char : Char) : Bool :=
  (String.utf8EncodeChar char).contains 0x9C

/-- The sequences that have parameters. -/
inductive Sequence where
  /-- A control sequence, which is over with its header. -/
  | control
  /-- A device control string, whose header is followed by data. -/
  | device
  deriving DecidableEq

/-- How far the header of a sequence was read. -/
inductive Phase where
  | start
  | parameters
  | intermediates
  deriving DecidableEq

/-- What is open where a reader stands. -/
inductive Part where
  /-- Nothing: what comes is text. -/
  | text
  /-- The escape character went by. -/
  | escape
  /-- An escape sequence of intermediate characters, over with the next other one. -/
  | designation
  | header (sequence : Sequence) (phase : Phase)
  /-- A control sequence that makes no sense, over where its header would be. -/
  | malformed
  /-- A command to the system around the terminal, over with a bell. -/
  | systemCommand
  /-- A string that is not for the terminal itself, over with its terminator. -/
  | data
  deriving DecidableEq

namespace Sequence

/-- What is open after a header. -/
def body : Sequence → Part
  | control => .text
  | device => .data

/-- What is open after a header that makes no sense. -/
def refused : Sequence → Part
  | control => .malformed
  | device => .data

end Sequence

namespace Part

/-- What is open after a header was continued by a character. Anything but intermediate, parameter
and final characters changes nothing. -/
def headerNext (sequence : Sequence) (phase : Phase) (char : Char) : Part :=
  if isIntermediate char then .header sequence .intermediates
  else if isFinal char then sequence.body
  else if isParameter char then
    match phase with
    | .start => .header sequence .parameters
    | .parameters => if isNumeric char then .header sequence .parameters else sequence.refused
    | .intermediates => sequence.refused
  else .header sequence phase

/-- What is open after an escape character and the one that follows it. -/
def escapeNext (char : Char) : Part :=
  match char with
  | '[' => .header .control .start
  | ']' => .systemCommand
  | 'P' => .header .device .start
  | 'X' | '^' | '_' => .data
  | char =>
    if isIntermediate char then .designation
    else if isParameter char || isFinal char then .text
    else .escape

/-- What is open after a character. -/
def next (part : Part) (char : Char) : Part :=
  if char = Terminal.escape then .escape
  else if isCancel char then .text
  else
    match part with
    | .text => .text
    | .escape => escapeNext char
    | .designation => if isParameter char || isFinal char then .text else .designation
    | .header sequence phase => headerNext sequence phase char
    | .malformed => if isFinal char then .text else .malformed
    | .systemCommand => if char = '\x07' then .text else .systemCommand
    | .data => if holdsTerminator char then .text else .data

/-- Whether a character is shown although a sequence may be open. Strings, and commands to the
system, hide their blanks. -/
def shows (part : Part) (char : Char) : Bool :=
  match part with
  | .text => isText char
  | .escape | .designation | .header .control _ | .malformed => isControlBlank char
  | .header .device _ | .systemCommand | .data => false

end Part

structure Reader where
  /-- What is open, which is not looked at within text. -/
  part : Part := .text
  /-- Whether the last character was shown. Then all that can be shown as text is text, also where
  a blank broke into a sequence; the sequence goes on after the next character that is hidden. -/
  inText : Bool := false
  deriving DecidableEq

namespace Reader

/-- Reads one character, which is shown if the reader is in text after it. -/
def step (reader : Reader) (char : Char) : Reader :=
  if reader.inText then
    { part :=
        if char = escape then .escape
        else if isCancel char || !isAscii char then .text
        else reader.part
      inText := isText char }
  else { part := reader.part.next char, inText := reader.part.shows char }

/-- The characters that are shown of those to come. -/
def shown (reader : Reader) : List Char → List Char
  | [] => []
  | char :: rest =>
    let reader := reader.step char
    if reader.inText then char :: reader.shown rest else reader.shown rest

end Reader

/-- The text without escape sequences and control characters. -/
def strip (text : String) : String :=
  String.ofList (({} : Reader).shown text.toList)

end Multidrop.Terminal
