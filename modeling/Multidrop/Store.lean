import Multidrop.Flash

/-!
The configuration store: a log of records in a region of flash. A record is a kind and a length,
four bytes each, then so many bytes of data padded to whole words. Erased flash reads as ones, so
the first record of the kind `unset` marks where the free space starts. A value is never overwritten
in place: setting it again appends a record, and looking it up finds the last one.
-/

namespace Multidrop

/-- Why the store cannot do what it was asked to. -/
inductive StoreError where
  | noSpace
  /-- The kind is the one that marks free space. -/
  | reservedKind
  | flash (error : FlashError)
  deriving DecidableEq

namespace StoreError

/-- The status a node reports for the error; zero is left to success. -/
def status : StoreError → UInt8
  | reservedKind => 0xFF
  | noSpace => 0xFE
  | flash _ => 0xFD

def message : StoreError → String
  | noSpace => "no room left in config region"
  | reservedKind => "record type is reserved for free space"
  | flash error => "flash operation failed: " ++ error.name

end StoreError

namespace Store

/-- The kind that erased flash shows. -/
def unset : UInt32 := 0xFFFFFFFF

/-- The kind of the record that holds the address of a node. -/
def addressKind : UInt32 := 1

/-- How many bytes the kind and the length of a record take. -/
def recordHeader : Nat := 8

/-- How many bytes a record with so much data takes, unless a word cannot count them. -/
def span? (length : Nat) : Option Nat :=
  if length + (recordHeader + 3) < UInt32.size then some ((length + (recordHeader + 3)) / 4 * 4)
  else none

/-- Where a record stands and what its first words say. -/
structure Record where
  kind : UInt32
  /-- How many bytes of data the record says it has. -/
  length : UInt32
  offset : Nat
  deriving DecidableEq

namespace Record

/-- The offset in flash of the data. -/
def data (record : Record) : Nat :=
  record.offset + recordHeader

/-- The offset right after the record, unless a word cannot hold it. -/
def next? (record : Record) : Option Nat :=
  (span? record.length.toNat).bind fun span =>
    if record.offset + span < UInt32.size then some (record.offset + span) else none

end Record

end Store

/-- The part of a flash that holds a store, given by offsets. -/
structure Store where
  start : Nat
  size : Nat
  deriving DecidableEq

namespace Store

/-- The store of a node. -/
def standard : Store := ⟨Layout.configStart - Layout.flashBase, Layout.configSize⟩

/-- The offset right after the region. -/
def stop (store : Store) : Nat :=
  store.start + store.size

/-- The record that starts at `offset`, whatever is there. -/
def recordAt (flash : Flash) (offset : Nat) : Except StoreError Record :=
  match flash.read offset recordHeader with
  | .error error => .error (.flash error)
  | .ok bytes => .ok ⟨ofWire (bytes.take 4), ofWire (bytes.drop 4), offset⟩

theorem offset_recordAt {flash : Flash} {offset : Nat} {record : Record}
    (h : recordAt flash offset = .ok record) : record.offset = offset := by
  unfold recordAt at h
  split at h
  · cases h
  · cases h
    rfl

theorem Record.offset_lt_next {record : Record} {next : Nat} (h : record.next? = some next) :
    record.offset + recordHeader ≤ next := by
  obtain ⟨span, hSpan, hNext⟩ := Option.bind_eq_some_iff.1 h
  unfold span? recordHeader at hSpan
  split at hSpan <;> cases hSpan
  split at hNext <;> cases hNext
  simp only [recordHeader]
  omega

/-- The records from `offset` on. The last of them is the first `unset` one, or one whose end a word
cannot hold, or one after which less than a record header is left. -/
def recordsFrom (store : Store) (flash : Flash) (offset : Nat) : Except StoreError (List Record) :=
  if offset + recordHeader ≤ store.stop then
    match _read : recordAt flash offset with
    | .error error => .error error
    | .ok record =>
      if record.kind = unset then .ok [record]
      else
        match _next : record.next? with
        | none => .ok [record]
        | some following => (record :: ·) <$> recordsFrom store flash following
  else .ok []
termination_by store.stop - offset
decreasing_by
  have := Record.offset_lt_next _next
  rw [offset_recordAt _read] at this
  simp only [recordHeader] at *
  omega

/-- The records a look-up goes through, in order. -/
def records (store : Store) (flash : Flash) : Except StoreError (List Record) :=
  store.recordsFrom flash store.start

/-- The last record of a kind. For the kind `unset` this is where the free space starts, and none
says that the region is full. -/
def find (store : Store) (flash : Flash) (kind : UInt32) : Except StoreError (Option Record) :=
  (fun records => (records.filter (·.kind == kind)).getLast?) <$> store.records flash

/-- The data of a record, at most `size` bytes of it. -/
def read (flash : Flash) (record : Record) (size : Nat) : Except StoreError (List UInt8) :=
  match flash.read record.data (min size record.length.toNat) with
  | .error error => .error (.flash error)
  | .ok bytes => .ok bytes

/-- Appends a record. Its header goes first, then its data word by word. -/
def write (store : Store) (flash : Flash) (kind : UInt32) (data : List UInt8) :
    Except StoreError Unit × Flash :=
  if kind = unset then (.error .reservedKind, flash)
  else
    match store.find flash unset with
    | .error error => (.error error, flash)
    | .ok none => (.error .noSpace, flash)
    | .ok (some slot) =>
      match span? data.length with
      | none => (.error .noSpace, flash)
      | some span =>
        if store.stop < slot.offset + span then (.error .noSpace, flash)
        else
          let header := toWire kind ++ toWire (UInt32.ofNat data.length)
          match flash.programAll slot.offset (header :: (words data).map toWire) with
          | (.ok (), flash) => (.ok (), flash)
          | (.error error, flash) => (.error (.flash error), flash)

def erase (store : Store) (flash : Flash) : Except StoreError Unit × Flash :=
  match flash.erase store.start store.stop with
  | (.ok (), flash) => (.ok (), flash)
  | (.error error, flash) => (.error (.flash error), flash)

/-- The word held by the last record of a kind, or none if there is no record or it holds less than
a word. -/
def getWord (store : Store) (flash : Flash) (kind : UInt32) :
    Except StoreError (Option UInt32) := do
  match ← store.find flash kind with
  | none => pure none
  | some record => pure (Packed.read? UInt32 (← read flash record 4))

/-- Appends a record that holds one word. -/
def setWord (store : Store) (flash : Flash) (kind value : UInt32) :
    Except StoreError Unit × Flash :=
  store.write flash kind (toWire value)

/-- The address kept in the store of a node. A store that cannot be read counts as one without an
address. -/
def storedAddress (flash : Flash) : UInt8 :=
  match standard.getWord flash addressKind with
  | .ok (some address) => address.toUInt8
  | .ok none => 0
  | .error _ => 0

end Store

end Multidrop
