import Mukite.Lib.Chain
import Mukite.Lib.Machine

/-!
# The stanza queue

`xmcomp/src/queue.h`, `xmcomp/src/queue.c`. The entries are known by their addresses, numbers in
the order in which `queue_init` allocates them. Both lists are threaded through the one field
`next`. An operation that finds its list empty waits, so it has no result (`none`).
-/

namespace Mukite

/-- `StanzaQueue` with the `next` fields of the entries, less locks and statistics. -/
structure StanzaQueue where
  next : Nat → Option Nat
  dataStartQueue : Option Nat
  dataEndQueue : Option Nat
  freeQueue : Option Nat

/-- `entry->next = value`. -/
def StanzaQueue.setNext (queue : StanzaQueue) (entry : Nat) (value : Option Nat) : StanzaQueue :=
  { queue with next := Function.update queue.next entry value }

/-- `queue_push_free`. -/
def queuePushFree (queue : StanzaQueue) (stanza : Nat) : StanzaQueue :=
  let queue := queue.setNext stanza queue.freeQueue
  { queue with freeQueue := some stanza }

/-- `queue_init`: every allocated entry is put in front of the free ones. -/
def queueInit : Nat → StanzaQueue
  | 0 => { next := fun _ => none, dataStartQueue := none, dataEndQueue := none, freeQueue := none }
  | size + 1 => queuePushFree (queueInit size) size

/-- `queue_pop_free`. -/
def queuePopFree (queue : StanzaQueue) : Option (Nat × StanzaQueue) :=
  match queue.freeQueue with
  | none => none
  | some block => some (block, { queue with freeQueue := queue.next block })

/-- `queue_pop_data`. -/
def queuePopData (queue : StanzaQueue) : Option (Nat × StanzaQueue) :=
  match queue.dataStartQueue with
  | none => none
  | some block =>
    some (block, { queue with
      dataStartQueue := queue.next block
      dataEndQueue := if queue.dataEndQueue = some block then none else queue.dataEndQueue })

/-- `queue_push_data`. -/
def queuePushData (queue : StanzaQueue) (stanza : Nat) : StanzaQueue :=
  let queue := queue.setNext stanza none
  let queue :=
    match queue.dataEndQueue with
    | some last => queue.setNext last (some stanza)
    | none => { queue with dataStartQueue := some stanza }
  { queue with dataEndQueue := some stanza }

/-! ## The threads -/

/--
The queue among threads. `held` are the entries that a thread has popped and not pushed yet;
`pushed` and `popped` record what has gone through the data list.
-/
structure QueueState (τ : Type) where
  queue : StanzaQueue
  held : List (τ × Nat)
  pushed : List Nat
  popped : List Nat

/-- The steps under the mutexes of the queue. A thread pushes an entry that it holds. -/
inductive QueueEvent (τ : Type)
  | popFree (thread : τ)
  | pushData (thread : τ) (stanza : Nat)
  | popData (thread : τ)
  | pushFree (thread : τ) (stanza : Nat)

def queueStep {τ : Type} [DecidableEq τ] : Machine.Step (QueueState τ) (QueueEvent τ) Unit :=
  fun s e =>
    match e with
    | .popFree thread =>
      (queuePopFree s.queue).map (fun r =>
        ({ s with queue := r.2, held := (thread, r.1) :: s.held }, ()))
    | .pushData thread stanza =>
      if (thread, stanza) ∈ s.held then
        some ({ s with queue := queuePushData s.queue stanza
                       held := s.held.erase (thread, stanza)
                       pushed := s.pushed ++ [stanza] }, ())
      else none
    | .popData thread =>
      (queuePopData s.queue).map (fun r =>
        ({ s with queue := r.2, held := (thread, r.1) :: s.held
                  popped := s.popped ++ [r.1] }, ()))
    | .pushFree thread stanza =>
      if (thread, stanza) ∈ s.held then
        some ({ s with queue := queuePushFree s.queue stanza
                       held := s.held.erase (thread, stanza) }, ())
      else none

/-- The queue that `queue_init` leaves, before the threads start. -/
def queueStart (τ : Type) (size : Nat) : QueueState τ :=
  { queue := queueInit size, held := [], pushed := [], popped := [] }

end Mukite
