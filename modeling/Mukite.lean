import Mukite.Acl
import Mukite.AclFile
import Mukite.Affiliation
import Mukite.Buffer
import Mukite.Builder
import Mukite.Component
import Mukite.Config
import Mukite.HistoryEntry
import Mukite.Jid
import Mukite.Lib.Blocks
import Mukite.Lib.Chain
import Mukite.Lib.Circle
import Mukite.Lib.Codec
import Mukite.Lib.Cut
import Mukite.Lib.Flags
import Mukite.Lib.Keyed
import Mukite.Lib.Machine
import Mukite.Lib.NodeList
import Mukite.Lib.Output
import Mukite.Lib.Scan
import Mukite.Lib.Shelves
import Mukite.Lib.Simulation
import Mukite.Lib.View
import Mukite.Lib.WhileLoop
import Mukite.Lib.XmlReader
import Mukite.Packet
import Mukite.Participant
import Mukite.Properties.AclFile
import Mukite.Properties.Affected
import Mukite.Properties.AffiliationMap
import Mukite.Properties.Announcements
import Mukite.Properties.Answers
import Mukite.Properties.Atomicity
import Mukite.Properties.Bounces
import Mukite.Properties.BuiltStanzas
import Mukite.Properties.Changes
import Mukite.Properties.CleanedHeader
import Mukite.Properties.Coherence
import Mukite.Properties.ConfigFile
import Mukite.Properties.ConfigForm
import Mukite.Properties.Containers
import Mukite.Properties.DataFile
import Mukite.Properties.Disguise
import Mukite.Properties.Exclusive
import Mukite.Properties.Extracted
import Mukite.Properties.Fifo
import Mukite.Properties.Forged
import Mukite.Properties.FormFields
import Mukite.Properties.FormRoundTrip
import Mukite.Properties.Framing
import Mukite.Properties.Groupchat
import Mukite.Properties.Handshake
import Mukite.Properties.Header
import Mukite.Properties.HeaderText
import Mukite.Properties.Hidden
import Mukite.Properties.StaleReasons
import Mukite.Properties.History
import Mukite.Properties.Identity
import Mukite.Properties.IqCases
import Mukite.Properties.IqReplies
import Mukite.Properties.Isolation
import Mukite.Properties.JidCopies
import Mukite.Properties.JidGrammar
import Mukite.Properties.JidText
import Mukite.Properties.LeftOver
import Mukite.Properties.Lifecycle
import Mukite.Properties.Loading
import Mukite.Properties.Lookup
import Mukite.Properties.Mirrored
import Mukite.Properties.Moderators
import Mukite.Properties.Moves
import Mukite.Properties.NodeTexts
import Mukite.Properties.Occupancy
import Mukite.Properties.OneRoom
import Mukite.Properties.Outsiders
import Mukite.Properties.Ownership
import Mukite.Properties.Pacing
import Mukite.Properties.ParsedStanza
import Mukite.Properties.PresenceCases
import Mukite.Properties.Presences
import Mukite.Properties.Privilege
import Mukite.Properties.Queue
import Mukite.Properties.Ranks
import Mukite.Properties.Readdressed
import Mukite.Properties.Reasserted
import Mukite.Properties.Received
import Mukite.Properties.Recipients
import Mukite.Properties.Relays
import Mukite.Properties.Resizing
import Mukite.Properties.RoleChanges
import Mukite.Properties.RoomData
import Mukite.Properties.RoomFile
import Mukite.Properties.RoomStates
import Mukite.Properties.Roster
import Mukite.Properties.SameContent
import Mukite.Properties.Saved
import Mukite.Properties.Scanned
import Mukite.Properties.SendFailure
import Mukite.Properties.Settings
import Mukite.Properties.Sha1
import Mukite.Properties.SharedTail
import Mukite.Properties.Siblings
import Mukite.Properties.SmallSteps
import Mukite.Properties.StartTag
import Mukite.Properties.StatusCodes
import Mukite.Properties.Traversal
import Mukite.Properties.Truncation
import Mukite.Properties.TwoRuns
import Mukite.Properties.WholeStanzas
import Mukite.Properties.WrappedScan
import Mukite.Properties.XmlText
import Mukite.Pushes
import Mukite.Rendering
import Mukite.Room.Admin
import Mukite.Room.AffectedList
import Mukite.Room.Broadcast
import Mukite.Room.Config
import Mukite.Room.Iq
import Mukite.Room.Message
import Mukite.Room.Presence
import Mukite.Room.Route
import Mukite.Room.State
import Mukite.Rooms
import Mukite.RoomsLocks
import Mukite.Serializer
import Mukite.Service
import Mukite.Stdio
import Mukite.Utss
import Mukite.Worker
import Mukite.Xmcomp.Network
import Mukite.Xmcomp.Queue
import Mukite.Xmcomp.Reader
import Mukite.Xmcomp.RingBuffer
import Mukite.Xmcomp.Sha1
import Mukite.Xmcomp.Writer
import Mukite.Xmlfsm
