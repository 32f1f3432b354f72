import Mukite.Builder

/-!
# The component

`src/component.c`: stanzas for the component itself, those without a room in their address.
-/

namespace Mukite

def errorComponentNotImplemented : XMPPError where
  code := "501"
  name := "feature-not-implemented"
  type := "cancel"
  text := "This service does not provide the requested feature"

/-- The search for the first child with a namespace. -/
def componentChild (mem : Bytes) (nodes : XmlNodeTraverser) :
    Option (Unit ⊕ (XmlNodeTraverser × XmlAttr)) := do
  let (xmlnsAttr, data) ← xmlfsmSkiptoAttr mem nodes.node.data "xmlns"
  match xmlnsAttr with
  | none => return .inl ()
  | some xmlnsAttr =>
    let _ ← xmlfsmSkipAttrs mem data
    return .inr (nodes, xmlnsAttr)

/-- The first child of a query that has a namespace. -/
def namespacedChild (ingress : IncomingPacket) : Option (Option (XmlNodeTraverser × XmlAttr)) := do
  match ← siblingLoop ingress.mem (fun (_ : Unit) nodes => componentChild ingress.mem nodes)
      (spanOf ingress.inner) () with
  | .inl _ => return none
  | .inr child => return some child

def xmlnsStats : String := "http://jabber.org/protocol/stats"

/-- `egress.iq_type` for a child, 0 for one that is not known. -/
def componentIqType (mem : Bytes) (nodeName xmlns : Span) : Nat :=
  if nodeName.eqLit mem "query" then
    if xmlns.eqLit mem "jabber:iq:version" then buildIqVersion
    else if xmlns.eqLit mem "jabber:iq:last" then buildIqLast
    else if xmlns.eqLit mem xmlnsStats then buildIqStats
    else if xmlns.eqLit mem "http://jabber.org/protocol/disco#info" then buildIqDiscoInfo
    else if xmlns.eqLit mem "http://jabber.org/protocol/disco#items" then buildIqDiscoItems
    else 0
  else if nodeName.eqLit mem "time" && xmlns.eqLit mem "urn:xmpp:time" then buildIqTime
  else if nodeName.eqLit mem "vCard" then buildIqVcard
  else 0

/-- The packet that `component_process` sends. -/
def componentPacket (ingress : IncomingPacket) (iqType : Nat) : BuilderPacket where
  name := .iq
  type := if iqType = 0 then stanzaError else stanzaIqResult
  header := some ingress.headerBytes
  iqType := iqType
  sysData := if iqType = 0 then .error errorComponentNotImplemented else .zero

/--
`component_process`. For statistics `builder_build` reads `sys_data.stats`, which nobody has set:
its pointers are null.
-/
def componentProcess (ingress : IncomingPacket) : Option (List BuilderPacket) :=
  if ingress.name ≠ .iq then some []
  else
    let ingress := packetCleanup ingress (packetCleanupTo ||| packetCleanupSwitchFromTo)
    if ingress.type ≠ stanzaIqGet then some []
    else do
      match ← namespacedChild ingress with
      | none => return []
      | some (nodes, xmlnsAttr) =>
        let iqType := componentIqType ingress.mem nodes.nodeName xmlnsAttr.value
        if iqType = buildIqStats then none
        else return [componentPacket ingress iqType]

end Mukite
