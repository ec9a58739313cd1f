import Nes.Proofs.Bus.Driven

/-! The transfer of a page to sprite memory. Its reads and writes change the last byte on the bus,
which open addresses give again, but not what looking shows on the page: the page is memory all
over, or it is open all over and gives one byte. -/

namespace Nes

namespace Ppu.Oam

/-- Stores bytes at consecutive addresses. The first address follows the last one. -/
def setBytes (oam : Oam) (address : UInt8) : List UInt8 → Oam
  | [] => oam
  | value :: values => (oam.setByte address value).setBytes (address + 1) values

theorem add_ofNat_succ (address : UInt8) (offset : Nat) :
    address + .ofNat (offset + 1) = address + 1 + .ofNat offset := by
  rw [Nat.add_comm, UInt8.ofNat_add, ← UInt8.add_assoc]
  rfl

/-- Bytes that are stored elsewhere leave an address alone. -/
theorem byte_setBytes_of_ne (oam : Oam) (address : UInt8) (values : List UInt8) {place : UInt8}
    (hElsewhere : ∀ offset < values.length, address + .ofNat offset ≠ place) :
    (oam.setBytes address values).byte place = oam.byte place := by
  induction values generalizing oam address with
  | nil => rfl
  | cons value values ih =>
      have hHere : address ≠ place := by
        simpa using hElsewhere 0 (Nat.succ_pos _)
      rw [setBytes, ih, byte_setByte, if_neg hHere]
      intro offset hOffset
      rw [← add_ofNat_succ]
      exact hElsewhere (offset + 1) (Nat.succ_lt_succ hOffset)

/-- No more bytes than there are addresses are found where they were stored. -/
theorem byte_setBytes (oam : Oam) (address : UInt8) {values : List UInt8}
    (hFits : values.length ≤ 256) {offset : Nat} (hOffset : offset < values.length) :
    (oam.setBytes address values).byte (address + .ofNat offset) = values[offset] := by
  induction values generalizing oam address offset with
  | nil => exact absurd hOffset (Nat.not_lt_zero _)
  | cons value values ih =>
      rw [List.length_cons] at hFits hOffset
      cases offset with
      | zero =>
          have hPlace : address + .ofNat 0 = address := UInt8.add_zero address
          rw [hPlace, setBytes, byte_setBytes_of_ne, byte_setByte, if_pos rfl]
          · rfl
          · intro other hOther hSame
            rw [← add_ofNat_succ, ← UInt8.toNat_inj, UInt8.toNat_add, UInt8.toNat_ofNat'] at hSame
            have hAddress := address.toNat_lt
            omega
      | succ offset =>
          rw [add_ofNat_succ, setBytes]
          exact ih _ _ (Nat.le_of_succ_le hFits) (Nat.lt_of_succ_lt_succ hOffset)

end Ppu.Oam

namespace Bus

section Copy

variable {β : Type} [Board β]

/-- Memory answers at all addresses from a place on, or nothing answers at any of them. -/
def Uniform (bus : Bus β) (place count : Nat) : Prop :=
  (∀ found, place ≤ found → found < place + count → bus.Driven (.ofNat found)) ∨
    ∀ found, place ≤ found → found < place + count → bus.Open (.ofNat found)

/-- The bytes that looking shows from a place on. -/
def bytesFrom (bus : Bus β) (place count : Nat) : List UInt8 :=
  (List.range' place count).map fun found => bus.peek (.ofNat found)

/-- Writes bytes to sprite memory, where the sprite address stands. -/
def putBytes (bus : Bus β) (bytes : List UInt8) : Bus β :=
  bytes.foldl (fun bus value => bus.write oamDataAddress value) bus

/-- Putting a byte in sprite memory writes to no memory of the processor. -/
theorem sameMemory_put (bus : Bus β) (value : UInt8) :
    (bus.write oamDataAddress value).SameMemory bus :=
  ⟨rfl, rfl⟩

/-- A transfer writes to no memory of the processor. -/
theorem sameMemory_copyToOam (bus : Bus β) (source : UInt16) (count : Nat) :
    (bus.copyToOam source count).SameMemory bus := by
  induction count generalizing bus source with
  | zero => exact ⟨rfl, rfl⟩
  | succ count ih =>
      let put := (bus.read source).2.write oamDataAddress (bus.read source).1
      have hRead : (bus.read source).2.SameMemory bus := SameMemory.read ⟨rfl, rfl⟩ source
      have hPut : put.SameMemory bus := ⟨hRead.ram, hRead.video⟩
      have hRest := ih put (source + 1)
      exact ⟨hRest.ram.trans hPut.ram, hRest.video.trans hPut.video⟩

/-- No device is behind a uniform page. -/
theorem not_asks_of_uniform {bus : Bus β} {place count found : Nat}
    (hUniform : bus.Uniform place count) (hLow : place ≤ found) (hHigh : found < place + count) :
    ¬Asks (.ofNat found) := by
  obtain hDriven | hOpen := hUniform
  · exact (hDriven found hLow hHigh).not_asks
  · exact not_asks_of_board (hOpen found hLow hHigh).1

/-- What looking shows on uniform addresses stays while a byte of them is transferred. -/
theorem peek_put {bus : Bus β} {place count first found : Nat}
    (hUniform : bus.Uniform place count) (hFirstLow : place ≤ first)
    (hFirstHigh : first < place + count) (hLow : place ≤ found) (hHigh : found < place + count) :
    (bus.write oamDataAddress (bus.peek (.ofNat first))).peek (.ofNat found) =
      bus.peek (.ofNat found) := by
  have hSame := bus.sameMemory_put (bus.peek (.ofNat first))
  obtain hDriven | hOpen := hUniform
  · exact (hDriven found hLow hHigh).peek_same hSame
  · rw [((hOpen found hLow hHigh).of_same hSame).peek_eq, (hOpen found hLow hHigh).peek_eq,
      latch_write, (hOpen first hFirstLow hFirstHigh).peek_eq]

/-- The rest of a uniform page is uniform, also behind a byte of it. -/
theorem Uniform.tail {bus : Bus β} {place count : Nat} (hUniform : bus.Uniform place (count + 1))
    (value : UInt8) : (bus.write oamDataAddress value).Uniform (place + 1) count := by
  have hSame := bus.sameMemory_put value
  refine hUniform.imp (fun hDriven found hLow hHigh => ?_) fun hOpen found hLow hHigh => ?_
  · exact (hDriven found (Nat.le_of_succ_le hLow) (by omega)).of_same hSame
  · exact (hOpen found (Nat.le_of_succ_le hLow) (by omega)).of_same hSame

/-- One byte is read and written. The read leaves nothing behind that the write does not replace. -/
theorem copyToOam_succ (bus : Bus β) {source : UInt16} (hSource : ¬Asks source) (count : Nat) :
    bus.copyToOam source (count + 1) =
      (bus.write oamDataAddress (bus.peek source)).copyToOam (source + 1) count := by
  simp only [copyToOam, Bus.read, bus.drive_eq hSource]
  rfl

/-- Copying from uniform addresses puts the bytes that looking shows before. -/
theorem copyToOam_eq {bus : Bus β} {place count : Nat} (hUniform : bus.Uniform place count) :
    bus.copyToOam (.ofNat place) count = bus.putBytes (bus.bytesFrom place count) := by
  induction count generalizing bus place with
  | zero => rfl
  | succ count ih =>
      have hFirst : place < place + (count + 1) := Nat.lt_add_of_pos_right (Nat.succ_pos count)
      let value := bus.peek (.ofNat place)
      let next := bus.write oamDataAddress value
      have hBytes : next.bytesFrom (place + 1) count = bus.bytesFrom (place + 1) count := by
        refine List.map_congr_left fun found hFound => ?_
        rw [List.mem_range'_1] at hFound
        exact peek_put hUniform (Nat.le_refl _) hFirst (Nat.le_of_succ_le hFound.1) (by omega)
      calc bus.copyToOam (.ofNat place) (count + 1)
        _ = next.copyToOam (.ofNat place + 1) count :=
          bus.copyToOam_succ (not_asks_of_uniform hUniform (Nat.le_refl _) hFirst) count
        _ = next.copyToOam (.ofNat (place + 1)) count := by rw [UInt16.ofNat_add]; rfl
        _ = next.putBytes (bus.bytesFrom (place + 1) count) := by
          rw [ih (hUniform.tail value), hBytes]
        _ = bus.putBytes (bus.bytesFrom place (count + 1)) := by
          rw [bytesFrom, bytesFrom, List.range'_succ]
          rfl

/-- Bytes that are put go to sprite memory, and the last of them stays on both buses. -/
theorem putBytes_eq (bus : Bus β) (bytes : List UInt8) :
    bus.putBytes bytes =
      { bus with
        latch := bytes.getLastD bus.latch
        ppu := { bus.ppu with
          latch := bytes.getLastD bus.ppu.latch
          oam := bus.ppu.oam.setBytes bus.ppu.oamAddress bytes
          oamAddress := bus.ppu.oamAddress + .ofNat bytes.length } } := by
  induction bytes generalizing bus with
  | nil => simp [putBytes, Ppu.Oam.setBytes]
  | cons value bytes ih =>
      have hNext : bus.putBytes (value :: bytes) =
          (bus.write oamDataAddress value).putBytes bytes := rfl
      rw [hNext, ih, List.length_cons, Ppu.Oam.add_ofNat_succ]
      simp only [List.getLastD_cons]
      rfl

/-- The bytes of a page are those that are found there. -/
theorem getElem_bytesFrom (bus : Bus β) (place count offset : Nat)
    (hOffset : offset < (bus.bytesFrom place count).length) :
    (bus.bytesFrom place count)[offset] = bus.peek (.ofNat (place + offset)) := by
  simp only [bytesFrom, List.getElem_map, List.getElem_range', Nat.one_mul]

theorem getLastD_bytesFrom (bus : Bus β) (place count : Nat) (byte : UInt8) :
    (bus.bytesFrom place (count + 1)).getLastD byte = bus.peek (.ofNat (place + count)) := by
  rw [bytesFrom, List.range'_concat, List.map_append, List.map_singleton, List.getLastD_concat,
    Nat.one_mul]

/-- A bus comes from another by the transfer of a page. From where the sprite address stands on, and
around the end of sprite memory, there are the bytes that looking showed on the page before. The
sprite address is back where it was, and apart from sprite memory only the last byte on the two
buses has changed. -/
structure CopiesPage (bus after : Bus β) (page : UInt8) : Prop where
  bytes : ∀ offset : UInt8, after.ppu.oam.byte (bus.ppu.oamAddress + offset) =
    bus.peek (.ofNat (256 * page.toNat + offset.toNat))
  address : after.ppu.oamAddress = bus.ppu.oamAddress
  rest : ∃ last, after =
    { bus with latch := last, ppu := { bus.ppu with latch := last, oam := after.ppu.oam } }

theorem copiesPage_of_eq {bus after : Bus β} {page last : UInt8} {oam : Ppu.Oam}
    (hAfter : after = { bus with latch := last, ppu := { bus.ppu with latch := last, oam } })
    (hBytes : ∀ offset : UInt8, oam.byte (bus.ppu.oamAddress + offset) =
      bus.peek (.ofNat (256 * page.toNat + offset.toNat))) : bus.CopiesPage after page := by
  subst hAfter
  exact ⟨hBytes, rfl, last, rfl⟩

/-- A transfer copies a page that reads the same throughout. -/
theorem copiesPage_runDma {bus : Bus β} {page : UInt8}
    (hUniform : bus.Uniform (256 * page.toNat) 256) (evenCycle : Bool) :
    bus.CopiesPage (bus.runDma page evenCycle).2 page := by
  have hStart : page.toUInt16 <<< 8 = .ofNat (256 * page.toNat) := by
    rw [← UInt16.toNat_inj, UInt16.toNat_shiftLeft, UInt8.toNat_toUInt16, UInt16.toNat_ofNat',
      Nat.shiftLeft_eq, Nat.mul_comm]
    rfl
  let place := 256 * page.toNat
  have hLength : (bus.bytesFrom place 256).length = 256 := by
    rw [bytesFrom, List.length_map, List.length_range']
  have hRound : bus.ppu.oamAddress + .ofNat 256 = bus.ppu.oamAddress := UInt8.add_zero _
  have hAfter : (bus.runDma page evenCycle).2 =
      { bus with
        latch := bus.peek (.ofNat (place + 255))
        ppu := { bus.ppu with
          latch := bus.peek (.ofNat (place + 255))
          oam := bus.ppu.oam.setBytes bus.ppu.oamAddress (bus.bytesFrom place 256) } } := by
    simp only [runDma, hStart, copyToOam_eq hUniform, putBytes_eq, place, hLength, hRound,
      getLastD_bytesFrom bus place 255]
  refine copiesPage_of_eq hAfter fun offset => ?_
  have hOffset : offset.toNat < (bus.bytesFrom place 256).length :=
    Nat.lt_of_lt_of_eq offset.toNat_lt hLength.symm
  have hStored := bus.ppu.oam.byte_setBytes bus.ppu.oamAddress (Nat.le_of_eq hLength) hOffset
  rw [UInt8.ofNat_toNat, getElem_bytesFrom] at hStored
  exact hStored

end Copy

/-- A board answers from `$8000` on, and from `$6000` on if it has work memory. -/
theorem isSome_readPrg_iff (board : Nrom) (address : UInt16) :
    (Board.readPrg board address).isSome = true ↔
      0x8000 ≤ address ∨ (0x6000 ≤ address ∧ board.memory.prgRam.size ≠ 0) := by
  simp only [Board.readPrg, Nrom.readPrg]
  split
  · rename_i hProgram
    exact iff_of_true rfl (.inl hProgram)
  · rename_i hProgram
    split
    · rename_i hWork
      exact iff_of_true rfl (.inr hWork)
    · rename_i hWork
      exact iff_of_false Bool.false_ne_true (not_or.mpr ⟨hProgram, hWork⟩)

/-- All addresses of a page belong to memory, or to no chip of the cartridge. Pages with registers
are left out. -/
theorem uniform_page (bus : Bus Nrom) {page : UInt8} (hPage : page < 0x20 ∨ 0x40 < page) :
    bus.Uniform (256 * page.toNat) 256 := by
  have hNat (found : Nat) (hHigh : found < 256 * page.toNat + 256) :
      (UInt16.ofNat found).toNat = found := by
    have hLt := page.toNat_lt
    rw [UInt16.toNat_ofNat']
    exact Nat.mod_eq_of_lt (show found < 0x10000 by omega)
  obtain hRam | hAbove := hPage
  · have hPage : page.toNat < 0x20 := hRam
    refine .inl fun found hLow hHigh => .inl ?_
    rw [UInt16.lt_iff_toNat_lt, hNat found hHigh]
    exact show found < 0x2000 by omega
  have hPage : 0x40 < page.toNat := hAbove
  have hBoard (found : Nat) (hLow : 256 * page.toNat ≤ found)
      (hHigh : found < 256 * page.toNat + 256) : (0x4020 : UInt16) ≤ .ofNat found := by
    rw [UInt16.le_iff_toNat_le, hNat found hHigh]
    exact show 0x4020 ≤ found by omega
  let hasWork := bus.video.cartridge.board.memory.prgRam.size ≠ 0
  have hAnswers (found : Nat) (hLow : 256 * page.toNat ≤ found)
      (hHigh : found < 256 * page.toNat + 256) :
      (Board.readPrg bus.video.cartridge.board (.ofNat found)).isSome = true ↔
        0x80 ≤ page.toNat ∨ (0x60 ≤ page.toNat ∧ hasWork) := by
    rw [isSome_readPrg_iff, UInt16.le_iff_toNat_le, UInt16.le_iff_toNat_le, hNat found hHigh]
    exact show 0x8000 ≤ found ∨ (0x6000 ≤ found ∧ hasWork) ↔ _ by omega
  by_cases hPageAnswers : 0x80 ≤ page.toNat ∨ (0x60 ≤ page.toNat ∧ hasWork)
  · exact .inl fun found hLow hHigh =>
      .inr ⟨hBoard found hLow hHigh, (hAnswers found hLow hHigh).mpr hPageAnswers⟩
  · refine .inr fun found hLow hHigh => ⟨hBoard found hLow hHigh, ?_⟩
    rw [← Option.not_isSome_iff_eq_none, hAnswers found hLow hHigh]
    exact hPageAnswers

/-- After a transfer of an open page, sprite memory holds the last byte on the bus all over. -/
theorem byte_of_copiesPage_open {bus after : Bus Nrom} {page : UInt8}
    (hCopies : bus.CopiesPage after page) (hPage : 0x40 < page ∧ page < 0x60) (address : UInt8) :
    after.ppu.oam.byte address = bus.latch := by
  have hLow : 0x40 < page.toNat := hPage.1
  have hHigh : page.toNat < 0x60 := hPage.2
  have hOffset : bus.ppu.oamAddress + (address - bus.ppu.oamAddress) = address := by
    rw [UInt8.add_comm, UInt8.sub_add_cancel]
  have hInside := (address - bus.ppu.oamAddress).toNat_lt
  have hByte := hCopies.bytes (address - bus.ppu.oamAddress)
  rw [hOffset, peek_of_unstored] at hByte
  · exact hByte
  · rw [Unstored, UInt16.le_iff_toNat_le, UInt16.lt_iff_toNat_lt, UInt16.toNat_ofNat',
      Nat.mod_eq_of_lt (by omega)]
    exact show 0x2000 ≤ _ ∧ _ < 0x6000 by omega

end Bus

end Nes
