import Mukite.Utss

/-!
# History

`src/history_entry/history_entry.c`, `src/history_entry/history_entries.c`. Unlinking an entry
that is not there is undefined (`none`): `DL_DELETE` reads the links of the entry it is given.
-/

namespace Mukite

def maxHistoryHeaderSize : Nat := 65000
def maxHistoryInnerSize : Nat := 65000

structure HistoryEntry where
  nick : Buffer
  header : Buffer
  inner : Buffer
  delay : Int
deriving DecidableEq, Repr

abbrev HistoryEntriesList := Dls HistoryEntry

/-- `history_entry_init`. -/
def historyEntryInit : HistoryEntry := { nick := none, header := none, inner := none, delay := 0 }

/-- `history_entry_set_inner`; the caller ignores the result. -/
def historyEntrySetInner (entry : HistoryEntry) (inner : Buffer) : HistoryEntry :=
  { entry with inner := (bptSetter entry.inner inner maxHistoryInnerSize).1 }

/--
The loop at the start of `history_entries_push`, over the entries left. It unlinks the head while
`max_size > size`.
-/
def removeExtra (maxSize : Int) : List HistoryEntry → Int → Option (List HistoryEntry × Int)
  | [], size => if maxSize > size then none else some ([], size)
  | e :: rest, size =>
    if maxSize > size then removeExtra maxSize rest (size - 1) else some (e :: rest, size)

/--
`history_entries_push`: the list after it, and whether it returns an entry. That entry is then
the last one of the list.
-/
def historyEntriesPush (h : HistoryEntriesList) : Option (HistoryEntriesList × Bool) := do
  let (items, size) ← removeExtra h.maxSize h.items h.size
  let h := { h with items := items, size := size }
  if h.maxSize = 0 then return (h, false)
  if h.size < h.maxSize then
    let h := h.append historyEntryInit
    return ({ h with size := h.size + 1 }, true)
  match h.items with
  | [] => none
  | e :: _ => return ((h.delete 0).append e, true)

/--
What `route_message` does to the history: a push, then `history_entry_set_inner` on the entry it
returned. Writing to the null entry is undefined.
-/
def historyStore (h : HistoryEntriesList) (inner : Buffer) : Option HistoryEntriesList := do
  let (h, returned) ← historyEntriesPush h
  if returned then
    return { h with items := h.items.modifyLast (fun e => historyEntrySetInner e inner) }
  else none

end Mukite
