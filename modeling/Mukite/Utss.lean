import Mukite.Buffer

/-!
# Lists with a size counter

`src/utss.h`. `DLS_DECLARE` adds a size and a limit to a linked list, and the `DLS_` macros move
the counter with the list. The counter is a field of its own, so it can drift from the number of
entries; `Dls.Counted` says that it has not.

The lists themselves are those of `utlist.h`: an entry is prepended at the head, appended at the
tail, and iterated from the head.
-/

namespace Mukite

/-- `DLS_DECLARE(entry_type)`. `items` are the entries from `head` on. -/
structure Dls (α : Type) where
  items : List α
  size : Int
  maxSize : Int
deriving Repr

namespace Dls

variable {α : Type}

/-- A list structure after `memset(0)`, with a limit. -/
def init (limit : Int) : Dls α := { items := [], size := 0, maxSize := limit }

/-- `DLS_APPEND`. -/
def append (l : Dls α) (x : α) : Dls α := { l with items := l.items ++ [x], size := l.size + 1 }

/-- `DLS_DELETE` of the entry at position `i`. -/
def delete (l : Dls α) (i : Nat) : Dls α := { l with items := l.items.eraseIdx i, size := l.size - 1 }

/-- The size counter is the number of entries. -/
def Counted (l : Dls α) : Prop := l.size = l.items.length

@[simp] theorem items_append (l : Dls α) (x : α) : (l.append x).items = l.items ++ [x] := rfl
@[simp] theorem maxSize_append (l : Dls α) (x : α) : (l.append x).maxSize = l.maxSize := rfl
@[simp] theorem items_delete (l : Dls α) (i : Nat) : (l.delete i).items = l.items.eraseIdx i := rfl
@[simp] theorem maxSize_delete (l : Dls α) (i : Nat) : (l.delete i).maxSize = l.maxSize := rfl

theorem counted_init (limit : Int) : (init limit : Dls α).Counted := rfl

theorem Counted.append {l : Dls α} (h : l.Counted) (x : α) : (l.append x).Counted := by
  unfold Counted at *
  simp [Dls.append, h]

theorem Counted.delete {l : Dls α} (h : l.Counted) {i : Nat} (hi : i < l.items.length) :
    (l.delete i).Counted := by
  unfold Counted at *
  simp only [Dls.delete, h, List.length_eraseIdx, hi, if_true]
  omega

end Dls

end Mukite
