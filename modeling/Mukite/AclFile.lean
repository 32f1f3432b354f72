import Mukite.Acl
import Mukite.Properties.JidText
import Mukite.Stdio

/-!
# The file of the access control list

`acl_serialize`, `acl_deserialize` in `src/acl.c`. Each line has a level and a JID. The parts of an
entry's JID point into the text that has been read, so that the JID is written as it was read.
-/

namespace Mukite

/-- What `acl_serialize` writes for an entry. -/
def aclEntryLine (entry : ACLEntry) : Bytes :=
  lit (toString entry.role) ++ ch ' ' :: (jidText entry.jid ++ [newline])

/-- `acl_serialize`. Writing is assumed to succeed. -/
def aclSerialize (acl : ACLConfig) : Bytes := acl.entries.flatMap aclEntryLine

/-- `fscanf(input, "%d %3071[^\n]\n", &role, jid_buffer.data) == 2`, with the values. -/
def scanAclEntry (file : InputFile) : Option (Int × Bytes) × InputFile :=
  match scanInt file with
  | (none, file) => (none, file)
  | (some role, file) =>
    match scanLine maxJidSize (scanSpace file) with
    | (none, file) => (none, file)
    | (some line, file) => (some (role, line), scanSpace file)

/-- The loop of `acl_deserialize`: the entries that are added, and the result. -/
def aclLoop : Nat → InputFile → List ACLEntry × Bool
  | 0, file => ([], file.ended)
  | limit + 1, file =>
    if file.ended then ([], true)
    else
      match scanAclEntry file with
      | (none, _) => ([], false)
      | (some (role, line), file) =>
        match jidStruct (cString line) with
        | none => ([], false)
        | some jid =>
          let added := aclLoop limit file
          ({ jid := jid, role := role } :: added.1, added.2)

/-- `acl_deserialize`. What has been added when it fails stays. -/
def aclDeserialize (acl : ACLConfig) (input : InputFile) (limit : Int) : ACLConfig × Bool :=
  let added := aclLoop limit.toNat input
  ({ acl with entries := added.1 }, added.2)

end Mukite
