import TorrentPrune.Bencode.Value

/-!
# Metadata trees

Decoded torrent metadata as the manifest reader sees it: the four bencode kinds, and two leaves
that no bencode input produces but that a caller may hand over, a text that is not bytes and an
absent value. A dictionary is a list of entries; a key given more than once has the value of its
last entry. Reading a field of anything but a dictionary, or a missing field, gives nothing.

Source: `src/src/dircomp/domain/bencode_models.py:17–52`.
-/

namespace TorrentPrune

open TorrentPrune.Bencode

/-- A node of decoded metadata. -/
inductive Metadata where
  | int (n : Int)
  | bytes (b : Bytes)
  | text (s : String)
  | absent
  | list (items : List Metadata)
  | dict (entries : List (Bytes × Metadata))
  deriving Inhabited

namespace Metadata

mutual
/-- The metadata tree of a bencode value. -/
def ofValue : Value → Metadata
  | .int n => .int n
  | .bytes b => .bytes b
  | .list items => .list (ofItems items)
  | .dict entries => .dict (ofEntries entries)

/-- The metadata trees of list items. -/
def ofItems : List Value → List Metadata
  | [] => []
  | v :: vs => ofValue v :: ofItems vs

/-- The metadata trees of dictionary entries. -/
def ofEntries : List (Bytes × Value) → List (Bytes × Metadata)
  | [] => []
  | (k, v) :: es => (k, ofValue v) :: ofEntries es
end

/-- The value under `key` in a dictionary (its last entry with that key), and nothing for a
missing key or for any other node. -/
def field (node : Metadata) (key : Bytes) : Option Metadata :=
  match node with
  | .dict entries => (entries.reverse.find? fun e ↦ e.1 == key).map Prod.snd
  | _ => none

/-- The items of a list. -/
def asList : Option Metadata → Option (List Metadata)
  | some (.list items) => some items
  | _ => none

/-- The node itself when it is a dictionary. -/
def asDict : Option Metadata → Option Metadata
  | some (.dict entries) => some (.dict entries)
  | _ => none

/-- The bytes of a byte string. -/
def asBytes : Option Metadata → Option Bytes
  | some (.bytes b) => some b
  | _ => none

/-- Whether an optional node is present and not the absent leaf. -/
def isPresent : Option Metadata → Bool
  | none => false
  | some .absent => false
  | some _ => true

end Metadata

end TorrentPrune
