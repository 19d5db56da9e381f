/-!
# Byte strings as integers

Fields travel as fixed-width byte strings and are computed with as machine words. `Bytes.value` is
the number that big-endian bytes denote; `word`, `signed` and `ofWord` are the word operations that
agree with it as long as nothing is shifted out, that is up to eight bytes (four for `signed`).
-/

namespace BleBeacon.Bytes

/-- The natural number denoted by big-endian bytes. -/
def value (bytes : List UInt8) : Nat :=
  bytes.foldl (fun total byte => 256 * total + byte.toNat) 0

/-- Big-endian bytes shifted one by one into a word. Only the last eight bytes remain in it. -/
def word (bytes : List UInt8) : UInt64 :=
  bytes.foldl (fun total byte => (total <<< 8) ||| byte.toUInt64) 0

/-- The low `width` bytes of a word, most significant first. -/
def ofWord : (width : Nat) → UInt64 → List UInt8
  | 0, _ => []
  | width + 1, total => ofWord width (total >>> 8) ++ [total.toUInt8]

/-- Big-endian bytes as a two's complement number of their own width: the sign bit is moved to the
top of the word and spread back down by an arithmetic shift. -/
def signed (bytes : List UInt8) : Int32 :=
  let unused := UInt64.ofNat (64 - 8 * bytes.length)
  ((word bytes <<< unused).toInt64 >>> unused.toInt64).toInt32

@[simp] theorem length_ofWord (width : Nat) (total : UInt64) :
    (ofWord width total).length = width := by
  induction width generalizing total with
  | zero => rfl
  | succ width ih => simp [ofWord, ih]

end BleBeacon.Bytes
