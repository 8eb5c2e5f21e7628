import Ambient.Json.Scalar
import Ambient.Workspace.Basic

/-!
# Snapshots

A snapshot is a workspace written as data: the list of its files. Each is a record with its `path`, or with the
bytes of the path as `path_hex`, and with one of

* `text`: the text of a file,
* `hex`: the bytes of a file,
* `link`: the target of a symbolic link,
* `dir`: for a directory.
-/

namespace Ambient.Snapshot

/-- The bytes that pairs of hexadecimal digits write. -/
def bytesOfHex? : Text → Option Bytes
  | [] => some []
  | [_] => none
  | c :: d :: t => do
    let high ← Json.hexValue? c
    let low ← Json.hexValue? d
    let rest ← bytesOfHex? t
    return UInt8.ofNat (16 * high + low) :: rest

/-- The text of a field. -/
def textField? (name : String) (entry : Json) : Option Text := (entry.field? name.toList).bind Json.text?

/-- The path of an entry. -/
def path? (entry : Json) : Option Bytes :=
  match textField? "path" entry with
  | some path => some path.toBytes
  | none => (textField? "path_hex" entry).bind bytesOfHex?

/-- What an entry puts there. -/
def node? (entry : Json) : Option Node :=
  match textField? "text" entry, textField? "hex" entry, textField? "link" entry with
  | some t, _, _ => some (.file t.toBytes)
  | none, some digits, _ => (bytesOfHex? digits).map .file
  | none, none, some target => some (.link target.toBytes)
  | none, none, none => if (entry.field? "dir".toList).isSome then some (.directory []) else none

/-- The workspace that a snapshot describes. -/
def read? (snapshot : Json) : Option Workspace := do
  let entries ← snapshot.items?
  let files ← entries.mapM fun entry => do return (← path? entry, ← node? entry)
  return Workspace.ofFiles files

end Ambient.Snapshot
