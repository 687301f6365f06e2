import AgentTransport.Lib.Exact

/-! IEEE doubles: the operations of `F64` on the bit patterns of Lean's own model of binary64,
    where rounding, infinities, signed zeros and NaN are what they are on a machine. Everything
    is evaluated by the kernel, so that a run of the code on doubles can be checked.

        literal q    -> the double nearest to q
        + - * / neg  -> the operations of the model
        <= <         -> its comparisons: false on a NaN -/

namespace F64

/-- A double, as a bit pattern with one NaN. -/
abbrev Double := Float.Model

namespace Double

def infinity : Double := .pack (.infinity .positive)

def nan : Double := .pack .notANumber

/-- The double nearest to a rational number: the rounded quotient of its two integers. -/
def nearest (q : ℚ) : Double :=
  if h : 0 < q.num.natAbs then
    .pack <| .div .binary64
      (.finite (if q < 0 then .negative else .positive) q.num.natAbs 0 h)
      (.finite .positive q.den 0 q.den_pos)
  else .ofNat 0

/-- The number a double stands for; an infinity and a NaN stand for none. -/
def value (x : Double) : Option ℚ :=
  match x.unpack with
  | .finite s m e _ => some (s.apply (m : ℤ) * if 0 ≤ e then 2 ^ e.toNat else 1 / 2 ^ (-e).toNat)
  | .zero _ => some 0
  | .infinity _ | .notANumber => none

end Double

instance : F64 Double where
  zero := .ofNat 0
  one := .ofNat 1
  decLe := inferInstance
  decLt := inferInstance
  ltInfinity x := decide (x < Double.infinity)
  lit := Double.nearest
  -- only a finite number of seconds is a duration
  fromSecs x := x.value.bind exactFromSecs
  toU64 x := x.toUInt64

/-- Near 230 days a nanosecond is less than the distance of two doubles. -/
example : (asSecs (20000000 * 10 ^ 9 + 1) : Double) = asSecs (20000000 * 10 ^ 9) := by
  decide +kernel

end F64
