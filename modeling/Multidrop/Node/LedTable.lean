/-!
The output channels of a firmware: values waiting to be applied, and for each channel the curve that
turns a narrow value into a wide one.
-/

namespace Multidrop

/-- The wide value of each narrow one. -/
abbrev Curve := UInt8 → UInt16

/-- The curve that spreads narrow values evenly over the wide range. -/
def Curve.linear : Curve := fun value =>
  value.toUInt16 <<< 8 ||| value.toUInt16

/-- An output channel. -/
structure Channel where
  curve : Curve
  value : UInt16

/-- The output channels, from the first one on. -/
structure LedTable where
  channels : List Channel

namespace LedTable

/-- Channels that are all off, one for each curve. -/
def off (curves : List Curve) : LedTable :=
  ⟨curves.map fun curve => ⟨curve, 0⟩⟩

/-- The values waiting to be applied. -/
def values (table : LedTable) : List UInt16 :=
  table.channels.map Channel.value

/-- Gives the channels from number `first` on one value each. Values beyond the last channel are
dropped. -/
def assign {α : Type} (change : Channel → α → Channel) :
    (first : Nat) → List α → List Channel → List Channel
  | _, _, [] => []
  | 0, [], channels => channels
  | 0, value :: values, channel :: rest => change channel value :: assign change 0 values rest
  | first + 1, values, channel :: rest => channel :: assign change first values rest

/-- Sets channels to wide values. -/
def setWide (table : LedTable) (first : UInt16) (values : List UInt16) : LedTable :=
  ⟨assign (fun channel value => { channel with value }) first.toNat values table.channels⟩

/-- Sets channels to narrow values, each through the curve of its channel. -/
def setNarrow (table : LedTable) (first : UInt16) (values : List UInt8) : LedTable :=
  ⟨assign (fun channel value => { channel with value := channel.curve value }) first.toNat values
    table.channels⟩

end LedTable

end Multidrop
