/-!
# Powers

The powers of two and of ten.
-/

namespace MessageCodec

def twoPow (n : Nat) : Nat := Nat.pow 2 n

def tenPow (n : Nat) : Nat := Nat.pow 10 n

end MessageCodec
