import Multidrop.Node.Firmware
import Multidrop.Proofs.Node.Event
import Multidrop.Proofs.Store.Region

/-!
What one request does to a firmware. In flash it changes the configuration store at most, and only
when it is asked to.
-/

namespace Multidrop.Firmware

instance : SteadyCommandSet Firmware where
  accept_commands _ _ := rfl

/-- What both command sets share changes nothing of a firmware but its flash. -/
theorem share_eq (firmware : Firmware) (request : Request) (session : Session) :
    firmware.share request session =
      ((Shared.execute request session firmware.identity firmware.flash).1,
        { firmware with
          flash := (Shared.execute request session firmware.identity firmware.flash).2 }) := by
  obtain ⟨flash, chip, identity, leds, commits⟩ := firmware
  unfold share
  dsimp only

/-- Outputs are set by packets that have at least one byte of values. -/
theorem accept_outputs {header : Header} {wide : Bool}
    (hCommand : header.command = if wide = true then .ledSet16 else .ledSet8) :
    accept header = if 7 ≤ header.length.toNat then .collect (.leds wide) else .ignore := by
  have hMinimum : ledMinimum ≤ header.length ↔ 7 ≤ header.length.toNat :=
    UInt16.le_iff_toNat_le
  cases wide with
  | true => simp only [accept, hCommand, hMinimum, if_true]
  | false => simp only [accept, hCommand, hMinimum, Bool.false_eq_true, if_false]

/-- A question is answered from the identity and changes nothing. -/
theorem execute_query (firmware : Firmware) {header : Header}
    (h : header.command = .getData) (item : Query) (session : Session) :
    execute firmware ⟨header, .query item⟩ session =
      (firmware.identity.answer session item, firmware) := by
  simp only [execute, h, share_eq, Shared.execute]

/-- A request is shared with bootloaders, or it leaves the flash alone and is not answered. -/
theorem execute_cases (firmware : Firmware) (request : Request) (session : Session) :
    execute firmware request session = firmware.share request session ∨
      (execute firmware request session).1 = [] ∧
        (execute firmware request session).2.flash = firmware.flash := by
  unfold execute
  split
  all_goals first
    | exact .inr ⟨rfl, rfl⟩
    | exact .inl rfl

/-- Whatever a firmware executes, only its store can change in flash. -/
theorem execute_confined (firmware : Firmware) (request : Request) (session : Session) :
    Flash.Confined Store.standard.start Store.standard.stop firmware.flash
      (execute firmware request session).2.flash := by
  rcases firmware.execute_cases request session with hShared | ⟨_, hFlash⟩
  · rw [hShared, share_eq]
    exact Shared.execute_confined request session firmware.identity firmware.flash
  · rw [hFlash]
    exact .refl ..

/-- A firmware is the same one as long as it runs. -/
theorem execute_identity (firmware : Firmware) (request : Request) (session : Session) :
    (execute firmware request session).2.identity = firmware.identity := by
  unfold execute
  split <;> rfl

end Multidrop.Firmware
