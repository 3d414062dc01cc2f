import Multidrop.Flash

/-!
What can be told of a flash from outside: how it was changed, and where it is not blank.
-/

namespace Multidrop.Flash

/-- Changes that belong together. -/
inductive Burst where
  | erase (start stop : Nat)
  /-- Programming in so many calls, each one going on where the last one stopped. -/
  | program (offset calls : Nat) (data : List UInt8)
  deriving DecidableEq

def Burst.precede : Change → List Burst → List Burst
  | .program offset data, .program next calls after :: bursts =>
    if offset + data.length = next then .program offset (calls + 1) (data ++ after) :: bursts
    else .program offset 1 data :: .program next calls after :: bursts
  | .program offset data, bursts => .program offset 1 data :: bursts
  | .erase start stop, bursts => .erase start stop :: bursts

/-- The history of a flash in bursts, oldest first. -/
def bursts (flash : Flash) : List Burst :=
  flash.history.foldr Burst.precede []

/-- The flash without its history. -/
def forget (flash : Flash) : Flash :=
  match flash with
  | ⟨bytes, faults, stuckPages, stuckWords, _⟩ => ⟨bytes, faults, stuckPages, stuckWords, #[]⟩

/-- Stretches of words that are not blank, given the words from `offset` on and the stretch that
ends there, if one does. -/
def stretches (offset : Nat) (before : Option (Nat × List (List UInt8))) :
    List (List UInt8) → List (Nat × List UInt8)
  | [] => close before
  | word :: rest =>
    if word = [0xFF, 0xFF, 0xFF, 0xFF] then close before ++ stretches (offset + wordSize) none rest
    else
      let grown :=
        match before with
        | some (start, words) => (start, word :: words)
        | none => (offset, [word])
      stretches (offset + wordSize) (some grown) rest
where
  /-- The stretch that ended, its words being listed from the last one. -/
  close : Option (Nat × List (List UInt8)) → List (Nat × List UInt8)
    | some (start, words) => [(start, words.reverse.flatten)]
    | none => []

/-- The longest stretches of words that are not blank, each with its offset. -/
def written (flash : Flash) : List (Nat × List UInt8) :=
  stretches 0 none <|
    (List.range (flash.bytes.size / wordSize)).map fun i =>
      (flash.bytes.extract (i * wordSize) (i * wordSize + wordSize)).toList

/-- The flash with bytes put in place, as if it had been made so. -/
def patched (flash : Flash) (offset : Nat) (data : List UInt8) : Flash :=
  match flash with
  | ⟨bytes, faults, stuckPages, stuckWords, history⟩ =>
    ⟨place offset data bytes, faults, stuckPages, stuckWords, history⟩
where
  place : Nat → List UInt8 → Array UInt8 → Array UInt8
    | _, [], bytes => bytes
    | offset, byte :: rest, bytes => place (offset + 1) rest (bytes.setIfInBounds offset byte)

end Multidrop.Flash
