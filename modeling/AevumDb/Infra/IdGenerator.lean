import Mathlib.Data.Nat.Digits

/-!
# Version-4 identifiers

`IdGenerator::generate` draws two 64-bit samples and prints five groups of
lower-case hexadecimal digits, each padded with `0` to its width, with the
version nibble forced to `4` and the variant bits to `10`.  The samples are
the generator's only input, so the model takes them as arguments.
-/

namespace AevumDb

namespace IdGenerator

def hexField (width n : Nat) : String :=
  let digits := Nat.toDigits 16 n
  String.mk (List.replicate (width - digits.length) '0' ++ digits)

def generate (p1 p2 : UInt64) : String :=
  hexField 8 (p1 >>> 32).toNat ++ "-" ++
  hexField 4 ((p1 >>> 16) &&& 0xFFFF).toNat ++ "-" ++
  hexField 4 ((p1 &&& 0x0FFF) ||| 0x4000).toNat ++ "-" ++
  hexField 4 (((p2 >>> 48) &&& 0x3FFF) ||| 0x8000).toNat ++ "-" ++
  hexField 12 (p2 &&& 0xFFFFFFFFFFFF).toNat

end IdGenerator

end AevumDb
