/-!
# Machine words

Which integers fit in words of 64 and 128 bits. The bounds are `2 ^ 63`, `2 ^ 64`, `2 ^ 127` and
`2 ^ 128`.
-/

namespace TypedCall

/-- Does the integer fit in a signed word of 64 bits? -/
def fitsSigned64 (i : Int) : Bool :=
  -9223372036854775808 ≤ i && i < 9223372036854775808

/-- Does the integer fit in a signed or an unsigned word of 64 bits? -/
def fits64 (i : Int) : Bool :=
  -9223372036854775808 ≤ i && i < 18446744073709551616

/-- Does the integer fit in a signed or an unsigned word of 128 bits? -/
def fits128 (i : Int) : Bool :=
  -170141183460469231731687303715884105728 ≤ i &&
    i < 340282366920938463463374607431768211456

end TypedCall
