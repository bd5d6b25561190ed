/-!
# Why a template cannot be filled

The faults met while filling a template, each with the text that describes it. Some concern the
template itself (malformed markup or specification, a name or position with no value, a
subscript out of range): a message catalog then shows the template unformatted. The others
concern a value that cannot take the requested access or specification, and stop the filling.

Source: `src/src/dircomp/utils/i18n.py:75–111`.
-/

namespace TorrentPrune.Template

/-- A fault met while filling a template. -/
inductive FormatError where
  /-- The markup or a specification is malformed. -/
  | malformed (what : String)
  /-- No value has this name. -/
  | missingName (name : String)
  /-- A field asks for a positional value; there are none. -/
  | positional (index : Nat)
  /-- A list or string subscript beyond its end. -/
  | indexOutOfRange (typeName : String)
  /-- An object has no member under this subscript. -/
  | missingKey (key : String)
  /-- The value takes no subscript. -/
  | notSubscriptable (typeName : String)
  /-- The value takes subscripts, but not of this kind. -/
  | badSubscript (what : String)
  /-- The value has no attribute of this name. -/
  | noAttribute (typeName attr : String)
  /-- The value takes no format specification. -/
  | specNotSupported (typeName : String)
  /-- A character code outside the code space. -/
  | charOutOfRange
  /-- An integer beyond the machine word, where one is needed. -/
  | wordOverflow
  /-- An integer beyond the float range, where a float is needed. -/
  | tooLargeForFloat
  /-- An integer with more decimal digits than may be written. -/
  | tooManyDigits
  deriving Inhabited

/-- Whether the fault lies in the template rather than in a value: then a catalog shows the
template unformatted. -/
def FormatError.inTemplate : FormatError → Bool
  | .malformed _ | .missingName _ | .positional _ | .indexOutOfRange _ | .missingKey _
  | .tooManyDigits => true
  | _ => false

/-- The text of a fault. -/
def FormatError.message : FormatError → String
  | .malformed what => what
  | .missingName name => name
  | .positional i => s!"Replacement index {i} out of range for positional args tuple"
  | .indexOutOfRange t => (if t == "str" then "string" else t) ++ " index out of range"
  | .missingKey key => key
  | .notSubscriptable t => s!"'{t}' object is not subscriptable"
  | .badSubscript what => what
  | .noAttribute t attr => s!"'{t}' object has no attribute '{attr}'"
  | .specNotSupported t => s!"unsupported format string passed to {t}.__format__"
  | .charOutOfRange => "%c arg not in range(0x110000)"
  | .wordOverflow => "Python int too large to convert to C long"
  | .tooLargeForFloat => "int too large to convert to float"
  | .tooManyDigits =>
    "Exceeds the limit (4300 digits) for integer string conversion; " ++
      "use sys.set_int_max_str_digits() to increase the limit"

/-- The kind of fault, by the name its class carries. -/
def FormatError.kind : FormatError → String
  | .malformed _ | .tooManyDigits => "ValueError"
  | .missingName _ | .missingKey _ => "KeyError"
  | .positional _ | .indexOutOfRange _ => "IndexError"
  | .notSubscriptable _ | .badSubscript _ | .specNotSupported _ => "TypeError"
  | .noAttribute .. => "AttributeError"
  | .charOutOfRange | .wordOverflow | .tooLargeForFloat => "OverflowError"

end TorrentPrune.Template
