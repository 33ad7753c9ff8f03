import Mathlib
/-!
# The laws of a comparator

What a sort or a stream's minimum expects of a function that compares two
elements by the sign of an integer, on the elements of a set.
-/

namespace DOptimas.Support

variable {α β : Type}

section Order

variable [LinearOrder β] {x y z : β}

end Order

end DOptimas.Support
