/-!
# Durations as text

A duration of whole milliseconds is written in the largest unit that leaves a whole part: seconds
from one second on, milliseconds below, and nanoseconds for no time at all. Seconds carry a
fraction of up to three digits, without trailing zeros.
-/

namespace Modbus.Milliseconds

/-- The three digits of `n < 1000`, without trailing zeros; no digit is left of zero. -/
def fractionDigits (n : Nat) : List Char :=
  ([n / 100, n / 10 % 10, n % 10].map Nat.digitChar).reverse.dropWhile (· == '0') |>.reverse

/-- The fraction of a second that `n < 1000` milliseconds make, with its point. -/
def fraction (n : Nat) : String :=
  match fractionDigits n with
  | [] => ""
  | digits => "." ++ String.ofList digits

/-- The text of a duration of `ms` milliseconds, such as `0ns`, `5ms`, `1s` or `1.001s`. -/
def text (ms : Nat) : String :=
  if ms = 0 then "0ns"
  else if ms < 1000 then s!"{ms}ms"
  else s!"{ms / 1000}{fraction (ms % 1000)}s"

end Modbus.Milliseconds
