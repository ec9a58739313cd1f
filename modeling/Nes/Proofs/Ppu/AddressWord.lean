import Nes.Ppu.ScrollAddress

/-! Scroll positions as words. An operation that works bit by bit works on a position field by
field, so that masks pick fields and overlaps put them together. -/

namespace Nes.Ppu.ScrollAddress

theorem coarse_lt (n : Nat) : n % 32 < 32 := Nat.mod_lt _ (by decide)

theorem fine_lt (n : Nat) : n % 8 < 8 := Nat.mod_lt _ (by decide)

/-- The position with the given fields, each of them cut to its width. -/
def ofFields (coarseX coarseY : Nat) (tableX tableY : Bool) (fineY : Nat) : ScrollAddress where
  coarseX := ⟨coarseX % 32, coarse_lt coarseX⟩
  coarseY := ⟨coarseY % 32, coarse_lt coarseY⟩
  tableX := tableX
  tableY := tableY
  fineY := ⟨fineY % 8, fine_lt fineY⟩

section

variable (coarseX coarseY : Nat) (tableX tableY : Bool) (fineY : Nat)

@[simp]
theorem val_coarseX_ofFields :
    (ofFields coarseX coarseY tableX tableY fineY).coarseX.val = coarseX % 32 :=
  rfl

@[simp]
theorem val_coarseY_ofFields :
    (ofFields coarseX coarseY tableX tableY fineY).coarseY.val = coarseY % 32 :=
  rfl

@[simp]
theorem tableX_ofFields : (ofFields coarseX coarseY tableX tableY fineY).tableX = tableX :=
  rfl

@[simp]
theorem tableY_ofFields : (ofFields coarseX coarseY tableX tableY fineY).tableY = tableY :=
  rfl

@[simp]
theorem val_fineY_ofFields :
    (ofFields coarseX coarseY tableX tableY fineY).fineY.val = fineY % 8 :=
  rfl

end

section

variable (coarse : Fin 32) (fine : Fin 8)

@[simp]
theorem coarse_mod : coarse.val % 32 = coarse.val := Nat.mod_eq_of_lt coarse.isLt

@[simp]
theorem fine_mod : fine.val % 8 = fine.val := Nat.mod_eq_of_lt fine.isLt

@[simp]
theorem coarse_and : coarse.val &&& 31 = coarse.val :=
  Nat.and_two_pow_sub_one_of_lt_two_pow (n := 5) coarse.isLt

@[simp]
theorem fine_and : fine.val &&& 7 = fine.val :=
  Nat.and_two_pow_sub_one_of_lt_two_pow (n := 3) fine.isLt

end

section

variable (first second : ScrollAddress)

end

end Nes.Ppu.ScrollAddress
