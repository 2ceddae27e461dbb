/-!
# Lists of a given length

`resize n` makes a list of values exactly `n` long: it drops what is past the end and fills what is
missing with zeros. `getElem?_resize` says what each place holds afterwards.
-/

namespace Modbus.Values

/-- The first `n` values, with zeros in place of those that are missing. -/
def resize (n : Nat) (values : List UInt16) : List UInt16 :=
  (values.take n).rightpad n 0

@[simp] theorem length_resize (n : Nat) (values : List UInt16) :
    (resize n values).length = n := by
  simp only [resize, List.rightpad, List.length_append, List.length_take, List.length_replicate]
  omega

theorem getElem?_resize (n : Nat) (values : List UInt16) (i : Nat) :
    (resize n values)[i]? = if i < n then some (values[i]?.getD 0) else none := by
  simp only [resize, List.rightpad, List.getElem?_append, List.length_take, List.getElem?_take,
    List.getElem?_replicate]
  grind

theorem resize_of_le {n : Nat} {values : List UInt16} (h : n ≤ values.length) :
    resize n values = values.take n := by
  simp [resize, List.rightpad, Nat.min_eq_left h]

end Modbus.Values
