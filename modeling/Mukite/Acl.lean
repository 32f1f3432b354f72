import Mukite.Jid

/-!
# Access control

`src/acl.h`, `src/acl.c`. The list is read from a file; the first entry that matches a JID gives
its level. A missing node or resource of an entry matches anything.
-/

namespace Mukite

def aclMucCreate : Int := 1
def aclMucPersist : Int := 2
def aclMucAdmin : Int := 3

structure ACLEntry where
  jid : Jid
  role : Int
deriving DecidableEq, Repr

structure ACLConfig where
  defaultRole : Int
  entries : List ACLEntry
deriving DecidableEq, Repr

/-- The configuration in which everybody may create rooms and nobody may do more. -/
def openAcl : ACLConfig := { defaultRole := aclMucCreate, entries := [] }

/-- `acl_role`. -/
def aclRole (acl : ACLConfig) (jid : Jid) : Int :=
  match acl.entries.find? (fun entry => jidCmp entry.jid jid (jidFull ||| jidCmpNullwc) == 0) with
  | some entry => entry.role
  | none => acl.defaultRole

end Mukite
