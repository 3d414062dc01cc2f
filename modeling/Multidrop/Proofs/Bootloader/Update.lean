import Multidrop.Proofs.Bootloader.Request
import Multidrop.Proofs.Image
import Multidrop.Proofs.Network.Inquiry

/-!
A whole update, from the image that the host prepared to the answers of the node that was flashed.
The pages are flashed in order. After each of them the flash holds the image up to there, and
nothing else has changed.
-/

namespace Multidrop

namespace Network

variable {network : Network (Node Bootloader)} {bootloader : Bootloader} {address target : UInt8}
  {packet : Packet}

theorem toWire_status (status : FlashStatus) : toWire status = [Coded.code status] :=
  toWire_byte (Coded.code status)

/-- An answer that came is taken as the status it stands for, however often the host would look. -/
theorem Hosts.gives_status {status : FlashStatus}
    (hosts : Hosts network bootloader address packet (toWire status).toArray) (delay : Nat)
    {attempts : Nat} (hAttempts : 0 < attempts) :
    ∃ next, Gives network (Host.awaitStatus delay attempts) (some status) next ∧
      Hosts next bootloader address packet #[] := by
  obtain ⟨attempts, rfl⟩ := Nat.exists_eq_succ_of_ne_zero (Nat.ne_of_gt hAttempts)
  have hSize : (toWire status).toArray.size = 1 := by simp [toWire_status]
  obtain ⟨next, hReceive, hNext⟩ := hosts.gives_receive hSize
  have hCode : (Coded.ofCode (Coded.code status) : FlashStatus) = status :=
    LawfulCoded.ofCode_code status
  refine ⟨next, hReceive.bind ?_, hNext⟩
  rw [toWire_status]
  dsimp only
  rw [hCode]
  exact .pure (some status)

/-- A page that the host sends is flashed, and the host gets the status of that. -/
theorem Hosts.gives_page (hosts : Hosts network bootloader address .idle #[])
    (hTarget : target = broadcast ∨ target = address) (page : Page)
    (hSum : checksum page.data.toList = page.checksum) (delay : Nat) {attempts : Nat}
    (hAttempts : 0 < attempts) :
    ∃ between next,
      Gives network (Host.request target .flashFirmware
        (Host.pageRequest page.index page.data.toList) 1) () between ∧
      Gives between (Host.awaitStatus delay attempts)
        (some (Bootloader.flashPage bootloader.flash page).1) next ∧
      Hosts next (bootloader.replacePage page).2 address .idle #[] := by
  obtain ⟨between, hRequest, executed⟩ := hosts.gives_request (Incoming.wellFormed_page hSum)
    (page.exchangeLength_le) hTarget rfl
  have hAnswered : Hosts between (bootloader.replacePage page).2 address .idle
      (toWire (Bootloader.flashPage bootloader.flash page).1).toArray := by
    have hPage := bootloader.replacePage_eq page
    refine executed.hosts fun session _ _ _ hFirst =>
      ⟨[.send (toWire (Bootloader.flashPage bootloader.flash page).1)], ?_,
        session.written_run_send hFirst _, session.address_send _⟩
    exact (bootloader.execute_page rfl page session).trans (by rw [hPage])
  obtain ⟨next, hStatus, hNext⟩ := hAnswered.gives_status delay hAttempts
  exact ⟨between, next, hRequest, hStatus, hNext⟩

end Network

namespace Bootloader

/-- Over what was in flash at first, a bootloader wrote so many pages of an image. -/
structure Written (origin : Flash) (image : Host.Image) (count : Nat) (bootloader : Bootloader) :
    Prop where
  confined : Flash.Confined SelfCheck.base (SelfCheck.base + count * Layout.pageSize) origin
    bootloader.flash
  stored : bootloader.flash.slice SelfCheck.base (count * Layout.pageSize) =
    image.bytes.take (count * Layout.pageSize)
  stale : 0 < count → bootloader.stale = true

/-- Before the first page nothing was written. -/
theorem written_none (image : Host.Image) (bootloader : Bootloader) :
    Written bootloader.flash image 0 bootloader :=
  ⟨.refl .., by rw [Nat.zero_mul, Flash.slice_zero, List.take_zero], by simp⟩

/-- The pages of an image follow each other from the beginning of the firmware region. -/
theorem pageOffset_image {count : Nat} (h : count < 44) :
    Layout.pageOffset (UInt16.ofNat (Layout.firmwareStartPage + count)) =
      SelfCheck.base + count * Layout.pageSize := by
  have hPage : Layout.firmwareStartPage = 4 := by decide
  rw [Layout.pageOffset, hPage, SelfCheck.base_eq, UInt16.toNat_ofNat', Nat.mod_eq_of_lt (by omega),
    Nat.add_mul]

/-- The next page is flashed successfully and is written after those before it. -/
theorem Written.page {origin : Flash} {image : Host.Image} {count : Nat} {bootloader : Bootloader}
    (written : Written origin image count bootloader) (sound : origin.Sound)
    (hInside : SelfCheck.limit ≤ origin.bytes.size) (formed : image.WellFormed)
    (hMore : count * Layout.pageSize + Layout.pageSize ≤ image.bytes.length) {page : Page}
    (hIndex : page.index = UInt16.ofNat (Layout.firmwareStartPage + count))
    (hData : page.data.toList =
      (image.bytes.drop (count * Layout.pageSize)).take Layout.pageSize)
    (hSum : checksum page.data.toList = page.checksum) :
    (flashPage bootloader.flash page).1 = .success ∧
      Written origin image (count + 1) (bootloader.replacePage page).2 := by
  have hFits := formed.fits
  have hMax : Layout.firmwareMaxSize = 44 * Layout.pageSize := by decide
  have hLimit : SelfCheck.limit = SelfCheck.base + 44 * Layout.pageSize := by
    rw [SelfCheck.limit_eq, SelfCheck.base_eq, ← Nat.add_mul]
  have hOffset : Layout.pageOffset page.index = SelfCheck.base + count * Layout.pageSize := by
    rw [hIndex, pageOffset_image]
    simp only [Layout.pageSize] at *
    omega
  have hFirmware : Layout.isFirmwarePage page.index = true := by
    rw [Layout.isFirmwarePage_iff, hOffset, hLimit]
    omega
  have hBounds : SelfCheck.limit ≤ bootloader.flash.bytes.size := by
    rw [written.confined.size]
    exact hInside
  obtain ⟨hSuccess, hStored⟩ :=
    flashPage_sound (written.confined.sound sound) hBounds hFirmware hSum
  have hConfined := flashPage_confined_page bootloader.flash page
  rw [hOffset] at hConfined hStored
  rw [replacePage_eq]
  refine ⟨hSuccess, ?_, ?_, ?_⟩
  · rw [Nat.add_mul, Nat.one_mul, ← Nat.add_assoc]
    exact (written.confined.mono (Nat.le_refl _) (Nat.le_add_right ..)).trans
      (hConfined.mono (Nat.le_add_right ..) (Nat.le_refl _))
  · rw [Nat.add_mul, Nat.one_mul, Flash.slice_add _ (by rw [hConfined.size]; omega), hStored,
      hConfined.slice (.inl (Nat.le_refl _)), written.stored, hData, ← List.take_add]
  · intro _
    rw [hSuccess]
    exact Bool.or_true _

/-- After the last page the flash holds the image and nothing else has changed. -/
theorem Written.held {origin : Flash} {image : Host.Image} {bootloader : Bootloader}
    (written : Written origin image (image.bytes.length / Layout.pageSize) bootloader)
    (formed : image.WellFormed) :
    bootloader.flash.slice SelfCheck.base image.bytes.length = image.bytes ∧
      Flash.Confined SelfCheck.base (SelfCheck.base + image.bytes.length) origin bootloader.flash ∧
      bootloader.stale = true := by
  have hWhole : image.bytes.length / Layout.pageSize * Layout.pageSize = image.bytes.length :=
    Nat.div_mul_cancel (Nat.dvd_of_mod_eq_zero formed.whole)
  obtain ⟨hConfined, hStored, hStale⟩ := written
  rw [hWhole] at hConfined hStored
  rw [List.take_length] at hStored
  exact ⟨hStored, hConfined, hStale (Nat.div_pos formed.nonempty (by decide))⟩

/-- A bootloader that has to check the firmware again and finds an image tells about that image. -/
theorem told_of_held {bootloader : Bootloader} {image : Host.Image} (formed : image.WellFormed)
    (readable : bootloader.flash.Readable) (hInside : SelfCheck.limit ≤ bootloader.flash.bytes.size)
    (hStale : bootloader.stale = true)
    (h : bootloader.flash.slice SelfCheck.base image.bytes.length = image.bytes) :
    bootloader.refresh.identity =
      .named .inBootloader image.info.version bootloader.version image.name := by
  have hCheck := checkFirmware_of_held readable hInside formed h
  have hName := firmwareName_of_held readable hInside formed h
  rw [refresh, if_pos hStale, start, hCheck]
  exact congrArg (Identity.named _ _ _) hName

end Bootloader

namespace Host.Image

/-- A name is cut to what can be reported. -/
theorem length_name (image : Image) : image.name.length ≤ Layout.nameMax :=
  Nat.le_trans (List.takeWhile_prefix _).length_le (List.length_take_le ..)

def told (image : Image) : Inquiry → Told
  | .version => .version image.info.version
  | .nameLength => .nameLength (UInt8.ofNat image.name.length)
  | .name => .name image.name

/-- What is told about an image is the image's own name, which is not cut. -/
theorem told_named (image : Image) (status : NodeStatus) (version : UInt32) :
    (Identity.named status image.info.version version image.name).told = image.told := by
  funext inquiry
  have hName : image.name.take Layout.nameMax = image.name :=
    List.take_of_length_le image.length_name
  cases inquiry with
  | version => rfl
  | nameLength => simp only [Identity.told, Identity.named, told, hName]
  | name => simp only [Identity.told, Identity.named, told, hName]

theorem length_pages (image : Image) :
    image.pages.length = image.bytes.length / Layout.pageSize := by
  rw [pages, List.length_map, List.length_range]

/-- Each page is a slice of the image, with the index of its place in flash. -/
theorem getElem_pages (image : Image) (count : Nat) (h : count < image.pages.length) :
    image.pages[count] = (UInt16.ofNat (Layout.firmwareStartPage + count),
      (image.bytes.drop (count * Layout.pageSize)).take Layout.pageSize) := by
  simp only [pages, List.getElem_map, List.getElem_range]

end Host.Image

namespace Network

variable {network : Network (Node Bootloader)} {bootloader : Bootloader} {address target : UInt8}

/-- From any page on, the rest of the image is flashed. -/
theorem Hosts.gives_pages {origin : Flash} {image : Host.Image} (sound : origin.Sound)
    (hInside : SelfCheck.limit ≤ origin.bytes.size) (formed : image.WellFormed)
    (settings : Host.Settings) (hAttempts : 0 < settings.flashAttempts)
    (hTarget : target = broadcast ∨ target = address) {count : Nat}
    {rest : List (UInt16 × List UInt8)} (hRest : image.pages.drop count = rest)
    (hCount : count ≤ image.pages.length)
    (written : Bootloader.Written origin image count bootloader)
    (hosts : Hosts network bootloader address .idle #[]) :
    ∃ next last, Gives network (Host.flashPages settings target rest) () next ∧
      Hosts next last address .idle #[] ∧
      Bootloader.Written origin image image.pages.length last := by
  induction rest generalizing count network bootloader with
  | nil =>
      have hEnd : count = image.pages.length :=
        Nat.le_antisymm hCount (List.drop_eq_nil_iff.mp hRest)
      rw [hEnd] at written
      exact ⟨network, bootloader, .pure (), hosts, written⟩
  | cons entry rest ih =>
      have hMore : count < image.pages.length := by
        refine Nat.lt_of_not_le fun hEnd => ?_
        rw [List.drop_eq_nil_of_le hEnd] at hRest
        cases hRest
      rw [List.drop_eq_getElem_cons hMore] at hRest
      obtain ⟨hEntry, hTail⟩ := List.cons.inj hRest
      rw [← hEntry, image.getElem_pages count hMore]
      have hPages := image.length_pages
      have hFull : count * Layout.pageSize + Layout.pageSize ≤ image.bytes.length := by
        simp only [Layout.pageSize] at *
        omega
      have hLength : ((image.bytes.drop (count * Layout.pageSize)).take Layout.pageSize).length =
          Layout.pageSize := by
        rw [List.length_take, List.length_drop]
        omega
      generalize hData : (image.bytes.drop (count * Layout.pageSize)).take Layout.pageSize = data
        at hLength
      let page : Page := ⟨UInt16.ofNat (Layout.firmwareStartPage + count), ⟨data.toArray, hLength⟩,
        checksum data⟩
      have hPage : page.data.toList = data := rfl
      obtain ⟨hSuccess, hWritten⟩ := written.page sound hInside formed hFull (rfl : page.index = _)
        (hPage.trans hData.symm) (congrArg checksum hPage)
      obtain ⟨between, next, hRequest, hStatus, hNext⟩ := hosts.gives_page hTarget page
        (congrArg checksum hPage) settings.flashRetryDelay hAttempts
      rw [hSuccess] at hStatus
      obtain ⟨last, done, hPages, hLast, hDone⟩ := ih hTail hMore hWritten hNext
      exact ⟨last, done, hRequest.bind (hStatus.bind hPages), hLast, hDone⟩

end Network

namespace Network

/-- The bus of a master with a single node on it, whatever the node said to others before. -/
def plug {C : Type} (master : Master) (node : Node C) : Network (Node C) :=
  { stations := #[node.takeTrace.2], replies := #[], executed := #[], heard := #[], master }

/-- A node that is idle when it is plugged in can be spoken to. -/
theorem hosts_plug {C : Type} {node : Node C} (idle : node.Idle) (master : Master) :
    Hosts (plug master node) node.commands node.address .idle #[] :=
  ⟨rfl, node.takeTrace.2, rfl, idle.shows.takeTrace.2⟩

end Network

/-- An update of the firmware goes through, whatever was in flash before. Afterwards the image is
where the firmware has to be, every other byte is as it was, the image passes the check of the node,
and whatever the node is asked about its firmware it answers with what the image says. -/
theorem firmware_updated {data : List UInt8} {image : Host.Image}
    (hImage : Host.Image.prepare data = .ok image) (settings : Host.Settings)
    (hAttempts : 1 ≤ settings.flashAttempts) (master : Master) {node : Node Bootloader}
    (idle : node.Idle) (sound : node.commands.flash.Sound)
    (hSize : node.commands.flash.bytes.size = Layout.flashSize) {target : UInt8}
    (hTarget : target = broadcast ∨ target = node.address) :
    ∃ (network : Network (Node Bootloader)) (after : Node Bootloader),
      (Network.plug master node).Gives (Host.flashFirmware settings target image) () network ∧
      network.stations = #[after] ∧
      after.commands.flash.slice SelfCheck.base image.bytes.length = image.bytes ∧
      (∀ i, i < SelfCheck.base ∨ SelfCheck.base + image.bytes.length ≤ i →
        after.commands.flash.bytes[i]? = node.commands.flash.bytes[i]?) ∧
      checkFirmware after.commands.flash = .ok image.info ∧
      ∀ inquiries : List Inquiry, ∃ last,
        network.Gives (inquiries.mapM (·.ask target)) (inquiries.map image.told) last := by
  have formed := Host.Image.wellFormed_of_prepare hImage
  have hInside : SelfCheck.limit ≤ node.commands.flash.bytes.size := by
    rw [hSize]
    exact SelfCheck.limit_le_flashSize
  obtain ⟨network, done, hGives, hosts, written⟩ := (Network.hosts_plug idle master).gives_pages
    sound hInside formed settings hAttempts hTarget (List.drop_zero) (Nat.zero_le _)
    (Bootloader.written_none image node.commands)
  rw [image.length_pages] at written
  obtain ⟨hHeld, hConfined, hStale⟩ := written.held formed
  have hBounds : SelfCheck.limit ≤ done.flash.bytes.size := by
    rw [hConfined.size]
    exact hInside
  have readable := (hConfined.sound sound).readable
  have hTold : Identified.identity (Identified.settled done) =
      .named .inBootloader image.info.version done.version image.name :=
    Bootloader.told_of_held formed readable hBounds hStale hHeld
  obtain ⟨hReplies, after, hNode, shows⟩ := id hosts
  have hCommands : after.commands = done := shows.commands
  refine ⟨network, after, hGives, hNode, ?_, ?_, ?_, ?_⟩
  · rw [hCommands]
    exact hHeld
  · intro i hOutside
    rw [hCommands]
    exact hConfined.outside hOutside
  · rw [hCommands]
    exact checkFirmware_of_held readable hBounds formed hHeld
  · intro inquiries
    have hAnswers := hosts.gives_answers hTarget (by
      rw [hTold]
      exact List.length_take_le ..) inquiries
    rw [hTold, image.told_named] at hAnswers
    exact hAnswers

/-- A bootloader with the address 3 that came up over a flash full of something else. -/
def usedNode : Node Bootloader :=
  .start (.start { bytes := Array.replicate Layout.flashSize 0x5A } {} 512) 3

/-- Three pages are flashed over something else by a host that tries each of them up to ten times.
-/
theorem firmware_updated_used :
    ∃ (image : Host.Image) (network : Network (Node Bootloader)) (after : Node Bootloader),
      Host.Image.prepare ((List.range 2500).map UInt8.ofNat) = .ok image ∧
      image.pages.length = 3 ∧
      (Network.plug .bytewise usedNode).Gives (Host.flashFirmware {} 3 image) () network ∧
      network.stations = #[after] ∧
      after.commands.flash.slice SelfCheck.base image.bytes.length = image.bytes ∧
      (∀ i, i < SelfCheck.base ∨ SelfCheck.base + image.bytes.length ≤ i →
        after.commands.flash.bytes[i]? = usedNode.commands.flash.bytes[i]?) ∧
      checkFirmware after.commands.flash = .ok image.info ∧
      ∀ inquiries : List Inquiry, ∃ last,
        network.Gives (inquiries.mapM (·.ask 3)) (inquiries.map image.told) last := by
  have hData : ((List.range 2500).map UInt8.ofNat).length = 2500 := by
    rw [List.length_map, List.length_range]
  obtain ⟨image, hImage⟩ := Host.Image.prepare_total
    (by rw [hData]; decide) (by rw [hData]; decide)
  have hPages : image.pages.length = 3 := by
    rw [image.length_pages, Host.Image.length_of_prepare hImage, hData]
    decide
  have sound : usedNode.commands.flash.Sound := ⟨rfl, rfl, rfl⟩
  have hSize : usedNode.commands.flash.bytes.size = Layout.flashSize := Array.size_replicate
  obtain ⟨network, after, hUpdated⟩ := firmware_updated hImage {} (by decide) .bytewise
    (Node.idle_start _ _ : usedNode.Idle) sound hSize (.inr rfl)
  exact ⟨image, network, after, hImage, hPages, hUpdated⟩

end Multidrop
