/-!
# Volumes

An in-memory file system. A volume is a root directory whose entries are named nodes: regular
files (an identity and their bytes), symbolic links (their target text) and directories (their
own entries). The names of a directory are distinct and kept in ascending order. A location is the
list of names leading from the root to a node; the empty location is the root itself.

Files carry an identity so that an open handle can tell the file it holds from a later file of
the same name; `nextId` is the identity the next new file receives.

Source: `src/src/dircomp/core/services/reconciler.py:39–214`.
-/

namespace TorrentPrune.Fs

/-- A node of the tree. -/
inductive Node where
  /-- A regular file: its identity and its bytes. -/
  | file (id : Nat) (content : List UInt8)
  /-- A symbolic link and the path it points to. -/
  | link (target : String)
  /-- A directory and its entries, ascending by name. -/
  | dir (entries : List (String × Node))
  deriving Inhabited

/-- A location: the names from the root down to a node. -/
abbrev Loc := List String

/-- A file system: the entries of its root directory, and the identity of the next new file. -/
structure Volume where
  root : List (String × Node)
  nextId : Nat
  deriving Inhabited

/-- The empty volume: a root directory and nothing in it. -/
def Volume.empty : Volume := ⟨[], 0⟩

/-- Whether a node is a directory. -/
def Node.isDir : Node → Bool
  | .dir _ => true
  | _ => false

/-- Whether a node is a symbolic link. -/
def Node.isLink : Node → Bool
  | .link _ => true
  | _ => false

/-- The node under `name` among directory entries. -/
def findEntry (es : List (String × Node)) (name : String) : Option Node :=
  (es.find? fun e ↦ e.1 == name).map Prod.snd

/-- Put `node` under `name`: an entry of that name is replaced, else the new entry goes to its
place in name order. -/
def putEntry (name : String) (node : Node) : List (String × Node) → List (String × Node)
  | [] => [(name, node)]
  | (n, m) :: rest =>
    if name == n then (name, node) :: rest
    else if name < n then (name, node) :: (n, m) :: rest
    else (n, m) :: putEntry name node rest

/-- Remove the entry under `name`, if any. -/
def dropEntry (name : String) (es : List (String × Node)) : List (String × Node) :=
  es.filter fun e ↦ e.1 != name

/-- The node at a nonempty location below the given entries. -/
def lookupIn : List (String × Node) → Loc → Option Node
  | _, [] => none
  | es, [n] => findEntry es n
  | es, n :: rest =>
    match findEntry es n with
    | some (.dir sub) => lookupIn sub rest
    | _ => none

/-- Change the entries of the directory at `loc` below the given entries (the given entries
themselves for the empty location); `none` when no directory stands there. -/
def updateDirIn (f : List (String × Node) → List (String × Node)) :
    List (String × Node) → Loc → Option (List (String × Node))
  | es, [] => some (f es)
  | es, n :: rest =>
    match findEntry es n with
    | some (.dir sub) => (updateDirIn f sub rest).map fun sub₂ ↦ putEntry n (.dir sub₂) es
    | _ => none

namespace Volume

/-- The node at a location; the root is a directory. -/
def node? (v : Volume) (loc : Loc) : Option Node :=
  match loc with
  | [] => some (.dir v.root)
  | _ => lookupIn v.root loc

/-- Whether a directory stands at the location. -/
def isDirAt (v : Volume) (loc : Loc) : Bool :=
  match v.node? loc with
  | some (.dir _) => true
  | _ => false

/-- Change the entries of the directory at `loc`. -/
def updateDir (v : Volume) (loc : Loc) (f : List (String × Node) → List (String × Node)) :
    Option Volume :=
  (updateDirIn f v.root loc).map fun r ↦ { v with root := r }

/-- Place `node` at a nonempty location whose parent is a directory. -/
def put (v : Volume) (loc : Loc) (node : Node) : Option Volume :=
  match loc.getLast? with
  | none => none
  | some name => v.updateDir loc.dropLast (putEntry name node)

/-- Remove the node at a nonempty location. -/
def erase (v : Volume) (loc : Loc) : Option Volume :=
  match loc.getLast? with
  | none => none
  | some name => v.updateDir loc.dropLast (dropEntry name)

/-- A new file with the given bytes at a location, under a fresh identity. -/
def putNewFile (v : Volume) (loc : Loc) (content : List UInt8) : Option Volume :=
  (v.put loc (.file v.nextId content)).map fun w ↦ { w with nextId := v.nextId + 1 }

end Volume

mutual
/-- The height of a node: a directory stands one above its highest entry, anything else has
height zero. -/
def Node.height : Node → Nat
  | .dir es => entriesHeight es + 1
  | _ => 0

/-- The height of the highest of the given entries, zero for none. -/
def entriesHeight : List (String × Node) → Nat
  | [] => 0
  | (_, node) :: rest => max node.height (entriesHeight rest)
end

mutual
/-- Every node below the given entries, with its path from there (names joined by `/`), each
directory before its own entries. -/
def entriesBelow (pathPrefix : String) : List (String × Node) → List (String × Node)
  | [] => []
  | (name, node) :: rest =>
    let path := pathPrefix ++ name
    (path, node) :: nodeBelow path node ++ entriesBelow pathPrefix rest

/-- The nodes below one node: a directory's entries, nothing for the others. -/
def nodeBelow (path : String) : Node → List (String × Node)
  | .dir es => entriesBelow (path ++ "/") es
  | _ => []
end

end TorrentPrune.Fs
