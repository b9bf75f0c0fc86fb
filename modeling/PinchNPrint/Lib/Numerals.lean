/-
Numerals of a field.

A numeral carries a proof that it is at least two. For the numerals of this list the proof
is a constant, so equal numbers are equal terms wherever they are written.
-/

import Mathlib.Data.Nat.Cast.Defs

namespace Nat.AtLeastTwo

instance two : Nat.AtLeastTwo 2 := ⟨by decide⟩
instance three : Nat.AtLeastTwo 3 := ⟨by decide⟩
instance four : Nat.AtLeastTwo 4 := ⟨by decide⟩
instance five : Nat.AtLeastTwo 5 := ⟨by decide⟩
instance six : Nat.AtLeastTwo 6 := ⟨by decide⟩
instance seven : Nat.AtLeastTwo 7 := ⟨by decide⟩
instance eight : Nat.AtLeastTwo 8 := ⟨by decide⟩
instance nine : Nat.AtLeastTwo 9 := ⟨by decide⟩
instance ten : Nat.AtLeastTwo 10 := ⟨by decide⟩
instance twelve : Nat.AtLeastTwo 12 := ⟨by decide⟩
instance twenty : Nat.AtLeastTwo 20 := ⟨by decide⟩
instance twentyFive : Nat.AtLeastTwo 25 := ⟨by decide⟩
instance sixty : Nat.AtLeastTwo 60 := ⟨by decide⟩
instance eighty : Nat.AtLeastTwo 80 := ⟨by decide⟩
instance ninetyEight : Nat.AtLeastTwo 98 := ⟨by decide⟩
instance ninetyNine : Nat.AtLeastTwo 99 := ⟨by decide⟩
instance hundred : Nat.AtLeastTwo 100 := ⟨by decide⟩
instance twoHundred : Nat.AtLeastTwo 200 := ⟨by decide⟩
instance thousand : Nat.AtLeastTwo 1000 := ⟨by decide⟩
instance fifteenHundred : Nat.AtLeastTwo 1500 := ⟨by decide⟩
instance twoThousand : Nat.AtLeastTwo 2000 := ⟨by decide⟩
instance fourThousand : Nat.AtLeastTwo 4000 := ⟨by decide⟩
instance tenThousand : Nat.AtLeastTwo 10000 := ⟨by decide⟩
instance million : Nat.AtLeastTwo 1000000 := ⟨by decide⟩

end Nat.AtLeastTwo
