import Multidrop.Proofs.Firmware.Execution
import Multidrop.Proofs.Strict.Store

/-!
Commands in strict operations. A command set that answers every request without a trap, and does to
the line and to itself what its actions say, is strict; firmwares are.
-/

namespace Multidrop

/-- Answers requests in strict operations, to the same effect. -/
class StrictCommandSet (C : Type) [CommandSet C] where
  execute : C → Request → Session → Strict (Session × C)
  execute_eq : ∀ (commands : C) (request : Request) (session : Session),
    execute commands request session =
      .ok (session.run (CommandSet.execute commands request session).1,
        (CommandSet.execute commands request session).2)

/-- Sends a byte until the declared length is reached, some at a time and so often at most. -/
def Session.strictFill (session : Session) (byte : UInt8) : (rounds : Nat) → Strict Session
  | 0 => .error .endless
  | rounds + 1 => do
    let size := min session.remaining fillChunk
    if size = 0 then return session
    else
      let bytes ← Strict.slice (List.replicate fillChunk byte) 0 size
      strictFill (session.send bytes) byte rounds

/-- Filling ends without a trap within the rounds that the length allows. -/
theorem Session.strictFill_eq {session : Session} (byte : UInt8) {rounds : Nat}
    (h : session.remaining ≤ fillChunk * rounds) :
    session.strictFill byte (rounds + 1) = .ok (session.fill byte) := by
  induction rounds generalizing session with
  | zero =>
      have hNone : min session.remaining fillChunk = 0 := by omega
      rw [strictFill, fill, if_pos hNone, if_pos hNone]
      rfl
  | succ rounds ih =>
      rw [strictFill, fill]
      by_cases hNone : min session.remaining fillChunk = 0
      · rw [if_pos hNone, if_pos hNone]
        rfl
      · have hRest : session.remaining - min session.remaining fillChunk ≤ fillChunk * rounds := by
          rw [Nat.mul_succ] at h
          omega
        have hSize : min session.remaining fillChunk ≤ (List.replicate fillChunk byte).length := by
          rw [List.length_replicate]
          exact Nat.min_le_right ..
        rw [if_neg hNone, if_neg hNone, Strict.slice_eq (Nat.zero_le _) hSize, Strict.ok_bind,
          List.take_replicate, List.drop_zero, Nat.min_eq_left (Nat.min_le_right ..), ih]
        rwa [remaining_send, List.length_replicate]

namespace Identity

def strictNamed (status : NodeStatus) (firmwareVersion bootloaderVersion : UInt32)
    (name : List UInt8) : Strict Identity := do
  let name ← Strict.slice name 0 (min name.length Layout.nameMax)
  return ⟨status, firmwareVersion, bootloaderVersion, name⟩

theorem strictNamed_eq (status : NodeStatus) (firmwareVersion bootloaderVersion : UInt32)
    (name : List UInt8) :
    strictNamed status firmwareVersion bootloaderVersion name =
      .ok (named status firmwareVersion bootloaderVersion name) := by
  have hTake : name.take (min name.length Layout.nameMax) = name.take Layout.nameMax := by
    rw [Nat.min_comm]
    exact List.take_eq_take_min.symm
  rw [strictNamed, Strict.slice_eq (Nat.zero_le _) (Nat.min_le_left ..), List.drop_zero, hTake]
  rfl

def strictAnswer (identity : Identity) (session : Session) : Query → Strict Session
  | .status => return session.send (toWire identity.status)
  | .address => return session.send (toWire session.address)
  | .firmwareVersion => return session.send (toWire identity.firmwareVersion)
  | .bootloaderVersion => return session.send (toWire identity.bootloaderVersion)
  | .firmwareNameLength => return session.send [UInt8.ofNat identity.name.length]
  | .firmwareName => do
    let size := min session.remaining identity.name.length
    let session := session.send (← Strict.slice identity.name 0 size)
    session.strictFill 0 (session.remaining / Session.fillChunk + 2)
  | .unknown => session.strictFill 0 (session.remaining / Session.fillChunk + 2)

/-- To answer a query does not trap. -/
theorem strictAnswer_eq (identity : Identity) (session : Session) (item : Query) :
    identity.strictAnswer session item = .ok (session.run (identity.answer session item)) := by
  have hFill : ∀ session : Session,
      session.strictFill 0 (session.remaining / Session.fillChunk + 2) = .ok (session.fill 0) :=
    fun session => Session.strictFill_eq 0 (by simp only [Session.fillChunk]; omega)
  cases item with
  | firmwareName =>
      have hTake : identity.name.take (min session.remaining identity.name.length) =
          identity.name.take session.remaining := List.take_eq_take_min.symm
      rw [strictAnswer]
      dsimp only
      rw [Strict.slice_eq (Nat.zero_le _) (Nat.min_le_right ..), Strict.ok_bind, List.drop_zero,
        hTake, hFill]
      rfl
  | unknown => exact hFill session
  | _ => rfl

end Identity

namespace Shared

def strictSetAddress (flash : Flash) (address : UInt8) (session : Session) :
    Strict (Session × Flash) := do
  match ← Store.standard.strictSetWord flash Store.addressKind address.toUInt32 with
  | (.ok (), flash) => return ({ session with address }.send [0], flash)
  | (.error error, flash) => return (session.send [error.status], flash)

def strictExecute (request : Request) (session : Session) (identity : Identity) (flash : Flash) :
    Strict (Session × Flash) := do
  match request.header.command, request.payload with
  | .ping, _ => return (session.send [1], flash)
  | .getData, .query item => return (← identity.strictAnswer session item, flash)
  | .setAddress, .address address => strictSetAddress flash address session
  | .eraseConfig, _ => return (session, (← Store.standard.strictErase flash).2)
  | _, _ => return (session, flash)

/-- Nor does to assign an address. -/
theorem strictSetAddress_eq (flash : Flash) (address : UInt8) (session : Session) :
    strictSetAddress flash address session =
      .ok (session.run (setAddress flash address).1, (setAddress flash address).2) := by
  rw [strictSetAddress, Store.strictSetWord_eq, Strict.ok_bind, setAddress]
  rcases Store.standard.setWord flash Store.addressKind address.toUInt32 with ⟨error | done, after⟩
  · rfl
  · rfl

theorem strictExecute_eq (request : Request) (session : Session) (identity : Identity)
    (flash : Flash) :
    strictExecute request session identity flash =
      .ok (session.run (execute request session identity flash).1,
        (execute request session identity flash).2) := by
  obtain ⟨⟨length, target, command⟩, payload⟩ := request
  cases command with
  | getData =>
      cases payload with
      | query item =>
          rw [strictExecute]
          dsimp only
          rw [Identity.strictAnswer_eq]
          rfl
      | _ => rfl
  | setAddress =>
      cases payload with
      | address address => exact strictSetAddress_eq flash address session
      | _ => rfl
  | eraseConfig =>
      rw [strictExecute]
      dsimp only
      rw [Store.strictErase_eq Store.stop_standard]
      rfl
  | _ => rfl

end Shared

namespace LedTable

/-- Gives the channels from number `first` on one value each, where a change may end in a trap. -/
def strictAssign {α : Type} (change : Channel → α → Strict Channel) :
    (first : Nat) → List α → List Channel → Strict (List Channel)
  | _, _, [] => return []
  | 0, [], channels => return channels
  | 0, value :: values, channel :: rest => do
    return (← change channel value) :: (← strictAssign change 0 values rest)
  | first + 1, values, channel :: rest => do
    return channel :: (← strictAssign change first values rest)

/-- Channels are set without a trap if each of them is. -/
theorem strictAssign_eq {α : Type} {strict : Channel → α → Strict Channel}
    {change : Channel → α → Channel}
    (h : ∀ channel value, strict channel value = .ok (change channel value)) (first : Nat)
    (values : List α) (channels : List Channel) :
    strictAssign strict first values channels = .ok (assign change first values channels) := by
  induction first, values, channels using assign.induct with
  | case1 first values => cases first <;> cases values <;> rfl
  | case2 channels hSome => cases channels <;> rfl
  | case3 value values channel rest ih =>
      rw [strictAssign, h, Strict.ok_bind, ih]
      rfl
  | case4 first values channel rest ih =>
      rw [strictAssign, ih]
      rfl

/-- The wide value that the entries of a curve give a narrow one. -/
def strictCurve (curve : Curve) (value : UInt8) : Strict UInt16 :=
  Strict.get ((List.range 256).map fun i => curve (UInt8.ofNat i)) value.toNat

theorem strictCurve_eq (curve : Curve) (value : UInt8) :
    strictCurve curve value = .ok (curve value) := by
  have hValue : value.toNat < 256 := value.toNat_lt
  apply Strict.get_eq
  simp [hValue]

def strictSetNarrow (table : LedTable) (first : UInt16) (values : List UInt8) :
    Strict LedTable := do
  let change := fun (channel : Channel) value => do
    return { channel with value := ← strictCurve channel.curve value }
  return ⟨← strictAssign change first.toNat values table.channels⟩

theorem strictSetNarrow_eq (table : LedTable) (first : UInt16) (values : List UInt8) :
    table.strictSetNarrow first values = .ok (table.setNarrow first values) := by
  rw [strictSetNarrow, strictAssign_eq fun channel value => by rw [strictCurve_eq]; rfl]
  rfl

end LedTable

namespace Firmware

def strictStart (flash : Flash) (chip : Chip) (curves : List Curve) (version : UInt32)
    (name : List UInt8) : Strict Firmware := do
  let identity ← Identity.strictNamed .inFirmware version chip.bootloaderVersion name
  return { flash, chip, identity, leds := .off curves, commits := #[] }

theorem strictStart_eq (flash : Flash) (chip : Chip) (curves : List Curve) (version : UInt32)
    (name : List UInt8) :
    strictStart flash chip curves version name = .ok (start flash chip curves version name) := by
  rw [strictStart, Identity.strictNamed_eq]
  rfl

/-- Bytes taken two at a time. An odd last byte is dropped. -/
def pairs : List UInt8 → List (List UInt8)
  | low :: high :: rest => [low, high] :: pairs rest
  | _ => []

def strictWideValues (bytes : List UInt8) : Strict (List UInt16) :=
  (pairs bytes).mapM fun pair => do
    return ofWire [← Strict.get pair 0, ← Strict.get pair 1]

theorem strictWideValues_eq (bytes : List UInt8) :
    strictWideValues bytes = .ok (wideValues bytes) := by
  induction bytes using pairs.induct with
  | case1 low high rest ih =>
      rw [strictWideValues] at ih
      rw [strictWideValues, pairs, List.mapM_cons, ih, wideValues]
      rfl
  | case2 rest hShort =>
      rw [strictWideValues, pairs, wideValues]
      · rfl
      · exact hShort
      · exact hShort

def strictSetLeds (table : LedTable) (leds : Leds) : Strict LedTable := do
  if leds.wide then return table.setWide leds.first (← strictWideValues leds.values)
  else table.strictSetNarrow leds.first leds.values

/-- So is the whole table. -/
theorem strictSetLeds_eq (table : LedTable) (leds : Leds) :
    strictSetLeds table leds = .ok (setLeds table leds) := by
  rw [strictSetLeds, setLeds, strictWideValues_eq, LedTable.strictSetNarrow_eq]
  split <;> rfl

def strictShare (firmware : Firmware) (request : Request) (session : Session) :
    Strict (Session × Firmware) := do
  let (session, flash) ← Shared.strictExecute request session firmware.identity firmware.flash
  return (session, { firmware with flash })

theorem strictShare_eq (firmware : Firmware) (request : Request) (session : Session) :
    firmware.strictShare request session =
      .ok (session.run (firmware.share request session).1, (firmware.share request session).2) := by
  rw [strictShare, Shared.strictExecute_eq, share_eq]
  rfl

def strictExecute (firmware : Firmware) (request : Request) (session : Session) :
    Strict (Session × Firmware) := do
  match request.header.command, request.payload with
  | .resetToBootloader, _ =>
    let chip := (firmware.chip.setBootFlag .gotoBootloader).reset
    return (session, { firmware with chip })
  | .ledCommit, _ =>
    return (session, { firmware with commits := firmware.commits.push firmware.leds.values })
  | .ledSet16, .leds leds | .ledSet8, .leds leds =>
    return (session, { firmware with leds := ← strictSetLeds firmware.leds leds })
  | .ledSet16, _ | .ledSet8, _ => return (session, firmware)
  | _, _ => firmware.strictShare request session

theorem strictExecute_eq (firmware : Firmware) (request : Request) (session : Session) :
    firmware.strictExecute request session =
      .ok (session.run (execute firmware request session).1,
        (execute firmware request session).2) := by
  obtain ⟨⟨length, target, command⟩, payload⟩ := request
  cases command with
  | resetToBootloader => rfl
  | ledCommit => rfl
  | ledSet16 | ledSet8 =>
      cases payload with
      | leds leds =>
          rw [strictExecute]
          dsimp only
          rw [strictSetLeds_eq]
          rfl
      | _ => rfl
  | _ => exact firmware.strictShare_eq _ session

instance : StrictCommandSet Firmware where
  execute := strictExecute
  execute_eq := strictExecute_eq

end Firmware

end Multidrop
