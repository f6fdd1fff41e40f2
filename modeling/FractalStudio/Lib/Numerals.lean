import Mathlib.Data.Nat.Cast.Defs

/-!
# Numerals

The numerals of rings and fields that several modules write. Each has an instance of its own, so
that a numeral is the same term everywhere.
-/
namespace FractalStudio.Numerals

instance two : Nat.AtLeastTwo 2 := ⟨by decide⟩
instance three : Nat.AtLeastTwo 3 := ⟨by decide⟩
instance four : Nat.AtLeastTwo 4 := ⟨by decide⟩
instance five : Nat.AtLeastTwo 5 := ⟨by decide⟩
instance six : Nat.AtLeastTwo 6 := ⟨by decide⟩
instance eight : Nat.AtLeastTwo 8 := ⟨by decide⟩
instance ten : Nat.AtLeastTwo 10 := ⟨by decide⟩
instance twelve : Nat.AtLeastTwo 12 := ⟨by decide⟩
instance fourteen : Nat.AtLeastTwo 14 := ⟨by decide⟩
instance fifteen : Nat.AtLeastTwo 15 := ⟨by decide⟩
instance eighteen : Nat.AtLeastTwo 18 := ⟨by decide⟩
instance twentyTwo : Nat.AtLeastTwo 22 := ⟨by decide⟩
instance twentyFour : Nat.AtLeastTwo 24 := ⟨by decide⟩
instance twentyFive : Nat.AtLeastTwo 25 := ⟨by decide⟩
instance thirtyFour : Nat.AtLeastTwo 34 := ⟨by decide⟩
instance thirtyFive : Nat.AtLeastTwo 35 := ⟨by decide⟩
instance fortyEight : Nat.AtLeastTwo 48 := ⟨by decide⟩
instance fifty : Nat.AtLeastTwo 50 := ⟨by decide⟩
instance sixty : Nat.AtLeastTwo 60 := ⟨by decide⟩
instance seventy : Nat.AtLeastTwo 70 := ⟨by decide⟩
instance seventyTwo : Nat.AtLeastTwo 72 := ⟨by decide⟩
instance seventyFive : Nat.AtLeastTwo 75 := ⟨by decide⟩
instance seventySix : Nat.AtLeastTwo 76 := ⟨by decide⟩
instance eightyTwo : Nat.AtLeastTwo 82 := ⟨by decide⟩
instance eightySix : Nat.AtLeastTwo 86 := ⟨by decide⟩
instance ninety : Nat.AtLeastTwo 90 := ⟨by decide⟩
instance hundred : Nat.AtLeastTwo 100 := ⟨by decide⟩
instance oneTwentyEight : Nat.AtLeastTwo 128 := ⟨by decide⟩
instance oneEighty : Nat.AtLeastTwo 180 := ⟨by decide⟩
instance twoFiftyFive : Nat.AtLeastTwo 255 := ⟨by decide⟩
instance tenTwentyFour : Nat.AtLeastTwo 1024 := ⟨by decide⟩

end FractalStudio.Numerals
