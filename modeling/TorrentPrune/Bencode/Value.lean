/-!
# Bencode values

The four kinds of term that bencode writes: integers, byte strings, lists, and dictionaries keyed
by byte strings. A dictionary keeps one entry per key, in ascending raw-byte order of the keys, so
that every value has exactly one canonical encoding: integers in shortest decimal form, byte
strings behind their shortest length prefix, and dictionary entries in key order.

Source: `src/src/dircomp/core/bencode/decoder.py:43–117`.
-/

namespace TorrentPrune.Bencode

/-- Raw bytes, as they stand in metadata. -/
abbrev Bytes := List UInt8

/-- A decoded bencode term. -/
inductive Value where
  /-- An integer, `i<decimal>e` on the wire. -/
  | int (n : Int)
  /-- A byte string, `<length>:<bytes>` on the wire. -/
  | bytes (b : Bytes)
  /-- A list, `l<values>e` on the wire. -/
  | list (items : List Value)
  /-- A dictionary, `d<key><value>...e` on the wire, entries ascending by key. -/
  | dict (entries : List (Bytes × Value))
  deriving Inhabited

/-- Byte `i`, which opens an integer. -/
def leadInt : UInt8 := 105
/-- Byte `l`, which opens a list. -/
def leadList : UInt8 := 108
/-- Byte `d`, which opens a dictionary. -/
def leadDict : UInt8 := 100
/-- Byte `e`, which closes an integer, a list or a dictionary. -/
def leadEnd : UInt8 := 101
/-- Byte `:`, which ends a length prefix. -/
def colon : UInt8 := 58
/-- Byte `-`, the sign of a negative integer. -/
def minus : UInt8 := 45

/-- Whether a byte is an ASCII decimal digit. -/
def isDigit (b : UInt8) : Bool := 48 ≤ b && b ≤ 57

/-- Raw-byte order of keys: the first differing byte decides, and a proper prefix comes first. -/
def keyBefore : Bytes → Bytes → Bool
  | [], [] => false
  | [], _ :: _ => true
  | _ :: _, [] => false
  | a :: as, b :: bs => a < b || (a == b && keyBefore as bs)

/-- Enter `k ↦ v` into entries ascending by key: an entry already under `k` is replaced in place. -/
def insertEntry (k : Bytes) (v : Value) : List (Bytes × Value) → List (Bytes × Value)
  | [] => [(k, v)]
  | (k₀, v₀) :: rest =>
    if k == k₀ then (k, v) :: rest
    else if keyBefore k k₀ then (k, v) :: (k₀, v₀) :: rest
    else (k₀, v₀) :: insertEntry k v rest

mutual
/-- Container nesting depth: 0 for an integer or a byte string, one more than the deepest member
for a list or a dictionary, so an empty list has depth 1. -/
def Value.depth : Value → Nat
  | .int _ => 0
  | .bytes _ => 0
  | .list items => listDepth items + 1
  | .dict entries => entriesDepth entries + 1

/-- The greatest depth among list items, 0 for none. -/
def listDepth : List Value → Nat
  | [] => 0
  | v :: vs => max v.depth (listDepth vs)

/-- The greatest depth among dictionary values, 0 for none. -/
def entriesDepth : List (Bytes × Value) → Nat
  | [] => 0
  | (_, v) :: es => max v.depth (entriesDepth es)
end

/-- ASCII bytes of the decimal digits of `n`. -/
def decimalBytes (n : Nat) : Bytes :=
  (Nat.toDigits 10 n).map fun c ↦ c.toNat.toUInt8

/-- The shortest decimal text of an integer, with a minus sign when negative. -/
def intBytes (n : Int) : Bytes :=
  if n < 0 then minus :: decimalBytes n.natAbs else decimalBytes n.natAbs

/-- A byte string behind its shortest length prefix. -/
def stringBytes (b : Bytes) : Bytes :=
  decimalBytes b.length ++ colon :: b

mutual
/-- The canonical encoding of a value. -/
def Value.encode : Value → Bytes
  | .int n => leadInt :: intBytes n ++ [leadEnd]
  | .bytes b => stringBytes b
  | .list items => leadList :: encodeItems items ++ [leadEnd]
  | .dict entries => leadDict :: encodeEntries entries ++ [leadEnd]

/-- The encodings of list items, one after another. -/
def encodeItems : List Value → Bytes
  | [] => []
  | v :: vs => v.encode ++ encodeItems vs

/-- The encodings of dictionary entries, each key before its value. -/
def encodeEntries : List (Bytes × Value) → Bytes
  | [] => []
  | (k, v) :: es => stringBytes k ++ v.encode ++ encodeEntries es
end

/-- The name of a value's kind, as error messages spell it. -/
def Value.kindName : Value → String
  | .int _ => "integer"
  | .bytes _ => "byte string"
  | .list _ => "list"
  | .dict _ => "dictionary"

end TorrentPrune.Bencode
