import Multidrop.Layout

/-!
A flash memory of the kind found in microcontrollers. Erasing a page sets all its bits, programming
a word can only clear some. A device may have defects: ranges in which an access is refused, and
pages or words on which erasing or programming is accepted without effect.
-/

namespace Multidrop

/-- Why a flash refuses an access. -/
inductive FlashError where
  /-- The range does not consist of whole words, or of whole pages when erasing. -/
  | notAligned
  | outOfBounds
  | other
  deriving DecidableEq

def FlashError.name : FlashError → String
  | notAligned => "NotAligned"
  | outOfBounds => "OutOfBounds"
  | other => "Other"

def FlashError.all : List FlashError :=
  [notAligned, outOfBounds, other]

namespace Flash

inductive Access where
  | read
  | program
  | erase
  deriving DecidableEq

/-- A range in which one kind of access is refused. -/
structure Fault where
  access : Access
  start : Nat
  stop : Nat
  error : FlashError
  deriving DecidableEq

/-- Whether a fault refuses this access to the `length` bytes at `offset`. -/
def Fault.refuses (fault : Fault) (access : Access) (offset length : Nat) : Bool :=
  fault.access == access && fault.start < offset + length && offset < fault.stop

/-- An access that changed a flash, or would have but for a defect it does not report. -/
inductive Change where
  | erase (start stop : Nat)
  | program (offset : Nat) (data : List UInt8)
  deriving DecidableEq

/-- How many bytes are programmed at a time. -/
def wordSize : Nat := 4

end Flash

/-- A flash memory with its defects. -/
structure Flash where
  bytes : Array UInt8
  faults : List Flash.Fault := []
  /-- The offsets of the pages that keep their contents when erased. -/
  stuckPages : List Nat := []
  /-- The offsets of the words that keep their contents when programmed. -/
  stuckWords : List Nat := []
  /-- The changes accepted so far, oldest first. -/
  history : Array Flash.Change := #[]

namespace Flash

/-- Why this access to the `length` bytes at `offset` is refused, if it is. Defects are looked at
before the bounds. -/
def refusal? (flash : Flash) (access : Access) (offset length : Nat) : Option FlashError :=
  match flash.faults.find? (·.refuses access offset length) with
  | some fault => some fault.error
  | none => if flash.bytes.size < offset + length then some .outOfBounds else none

def read (flash : Flash) (offset length : Nat) : Except FlashError (List UInt8) :=
  match flash.refusal? .read offset length with
  | some error => .error error
  | none => .ok (flash.bytes.extract offset (offset + length)).toList

/-- The memory after programming `data` at `offset`: a bit stays set if it was set and is set in the
data. Stuck words keep their bits. -/
def programmed (stuckWords : List Nat) : Nat → List UInt8 → Array UInt8 → Array UInt8
  | _, [], bytes => bytes
  | offset, byte :: rest, bytes =>
    programmed stuckWords (offset + 1) rest <|
      if stuckWords.contains (offset / wordSize * wordSize) then bytes
      else bytes.modify offset (· &&& byte)

/-- The memory after setting all bits of the `length` bytes at `offset`, but for stuck pages. -/
def erased (stuckPages : List Nat) : Nat → Nat → Array UInt8 → Array UInt8
  | _, 0, bytes => bytes
  | offset, length + 1, bytes =>
    erased stuckPages (offset + 1) length <|
      if stuckPages.contains (offset / Layout.pageSize * Layout.pageSize) then bytes
      else bytes.modify offset fun _ => 0xFF

/-- Why programming `length` bytes at `offset` is refused, if it is. -/
def programRefusal? (flash : Flash) (offset length : Nat) : Option FlashError :=
  if offset % wordSize ≠ 0 ∨ length % wordSize ≠ 0 then some .notAligned
  else flash.refusal? .program offset length

/-- Programs whole words. A refused call changes nothing. -/
def program (flash : Flash) (offset : Nat) (data : List UInt8) : Except FlashError Unit × Flash :=
  match flash.programRefusal? offset data.length with
  | some error => (.error error, flash)
  | none =>
    (.ok (),
      { flash with
        bytes := programmed flash.stuckWords offset data flash.bytes
        history := flash.history.push (.program offset data) })

/-- Programs pieces one after the other from `offset` on, stopping at the first refusal. -/
def programAll (flash : Flash) (offset : Nat) : List (List UInt8) → Except FlashError Unit × Flash
  | [] => (.ok (), flash)
  | piece :: rest =>
    match flash.program offset piece with
    | (.ok (), flash) => programAll flash (offset + piece.length) rest
    | (.error error, flash) => (.error error, flash)

/-- Why erasing from `start` up to `stop` is refused, if it is. -/
def eraseRefusal? (flash : Flash) (start stop : Nat) : Option FlashError :=
  if start % Layout.pageSize ≠ 0 ∨ stop % Layout.pageSize ≠ 0 then some .notAligned
  else flash.refusal? .erase start (stop - start)

/-- Erases whole pages from `start` up to `stop`. A refused call changes nothing. -/
def erase (flash : Flash) (start stop : Nat) : Except FlashError Unit × Flash :=
  match flash.eraseRefusal? start stop with
  | some error => (.error error, flash)
  | none =>
    (.ok (),
      { flash with
        bytes := erased flash.stuckPages start (stop - start) flash.bytes
        history := flash.history.push (.erase start stop) })

end Flash

end Multidrop
