import ItemConditions.Binary64.Rounding

/-!
# Products and quotients of 64-bit numbers

The exact product or quotient of two finite numbers, rounded once. Its sign is a minus if one of the
two signs is. What has no value, such as zero times an infinity, is not a number.

## Main definitions

* `Binary64.mul`, `Binary64.div`: the operations
-/

namespace ItemConditions.Binary64

/-- **The product of two numbers.** -/
def mul : Binary64 → Binary64 → Binary64
  | .nan, _ => .nan
  | _, .nan => .nan
  | .infinity s, y => if y.isZero then .nan else .infinity (s != y.isNegative)
  | .finite s e f, .infinity t =>
    if isZero (.finite s e f) then .nan else .infinity (s != t)
  | .finite s e f, .finite t g h =>
    ofRatio (s != t) ((ratio e f).num * (ratio g h).num) ((ratio e f).den * (ratio g h).den)

/-- **The quotient of two numbers.** -/
def div : Binary64 → Binary64 → Binary64
  | .nan, _ => .nan
  | _, .nan => .nan
  | .infinity _, .infinity _ => .nan
  | .infinity s, .finite t _ _ => .infinity (s != t)
  | .finite s _ _, .infinity t => signedZero (s != t)
  | .finite s e f, .finite t g h =>
    if isZero (.finite t g h) then
      if isZero (.finite s e f) then .nan else .infinity (s != t)
    else
      ofRatio (s != t) ((ratio e f).num * (ratio g h).den) ((ratio e f).den * (ratio g h).num)

end ItemConditions.Binary64
