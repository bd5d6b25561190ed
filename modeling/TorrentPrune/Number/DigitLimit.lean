/-!
# The digit limit of integer text

Converting decimal text of more than `digitLimit` digits (a sign not counted) to an integer is
refused, whatever reads it: bencode integers and lengths, JSON numbers, configuration values.

Source: `src/src/dircomp/core/bencode/decoder.py:154–192`.
-/

namespace TorrentPrune.Number

/-- Integer text with more digits than this is refused when converted to a number. -/
def digitLimit : Nat := 4300

/-- The message that refuses integer text of `count` digits. -/
def digitLimitMessage (count : Nat) : String :=
  s!"Exceeds the limit ({digitLimit} digits) for integer string conversion: value has {count} digits; use sys.set_int_max_str_digits() to increase the limit"

end TorrentPrune.Number
