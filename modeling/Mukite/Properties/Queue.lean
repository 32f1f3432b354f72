import Mukite.Xmcomp.Queue
import Mathlib.Data.List.Range
import Mathlib.Data.List.Perm.Basic

/-!
# Conservation and order in the stanza queue

Any number of threads pop and push entries, in any order. Both lists stay chains through the one
field `next`, every entry is in one place (`Kept`), and the data list is what has been pushed and
not popped yet (`queue_conserved`).
-/

namespace Mukite

open Machine

variable {τ : Type} {size : Nat} {free data : List Nat} {s s' : QueueState τ}

/--
The entries are the `free` ones, those of the `data` list and those held by threads, each of them
once. The end pointer is at the last entry of the data list.
-/
structure Kept (size : Nat) (free data : List Nat) (s : QueueState τ) : Prop where
  freeChain : Chain s.queue.next s.queue.freeQueue free
  dataChain : Chain s.queue.next s.queue.dataStartQueue data
  dataEnd : s.queue.dataEndQueue = data.getLast?
  once : (free ++ data ++ s.held.map Prod.snd).Perm (List.range size)
  order : s.pushed = s.popped ++ data

namespace Kept

theorem nodup (h : Kept size free data s) : (free ++ data ++ s.held.map Prod.snd).Nodup :=
  h.once.nodup_iff.mpr List.nodup_range

theorem data_nodup (h : Kept size free data s) : data.Nodup :=
  (List.nodup_append.mp (List.nodup_append.mp h.nodup).1).2.1

/-- An entry of one list is not in the other. -/
theorem disjoint (h : Kept size free data s) {stanza : Nat} (hf : stanza ∈ free) :
    stanza ∉ data := fun hd =>
  (List.nodup_append.mp (List.nodup_append.mp h.nodup).1).2.2 stanza hf stanza hd rfl

/-- An entry that a thread holds is in none of the lists. -/
theorem held_notMem (h : Kept size free data s) {thread : τ} {stanza : Nat}
    (hm : (thread, stanza) ∈ s.held) : stanza ∉ free ∧ stanza ∉ data := by
  have hheld : stanza ∈ s.held.map Prod.snd := List.mem_map_of_mem hm
  have hne := (List.nodup_append.mp h.nodup).2.2
  refine ⟨fun hf => ?_, fun hd => ?_⟩
  · exact hne stanza (List.mem_append_left _ hf) stanza hheld rfl
  · exact hne stanza (List.mem_append_right _ hd) stanza hheld rfl

/-! ## One step -/

theorem popFree (h : Kept size free data s) (thread : τ) {block : Nat} {queue : StanzaQueue}
    (hp : queuePopFree s.queue = some (block, queue)) :
    ∃ free', Kept size free' data
      { s with queue := queue, held := (thread, block) :: s.held } := by
  unfold queuePopFree at hp
  split at hp
  · cases hp
  · next hfree =>
    cases hp
    have hchain := h.freeChain
    rw [hfree] at hchain
    obtain ⟨free', rfl, hrest⟩ := hchain.uncons
    refine ⟨free', hrest, h.dataChain, h.dataEnd, ?_, h.order⟩
    refine List.Perm.trans ?_ h.once
    rw [List.map_cons]
    exact List.perm_middle

theorem popData (h : Kept size free data s) (thread : τ) {block : Nat} {queue : StanzaQueue}
    (hp : queuePopData s.queue = some (block, queue)) :
    ∃ data', Kept size free data'
      { s with queue := queue, held := (thread, block) :: s.held
               popped := s.popped ++ [block] } := by
  unfold queuePopData at hp
  split at hp
  · cases hp
  · next first hfirst =>
    cases hp
    have hchain := h.dataChain
    rw [hfirst] at hchain
    obtain ⟨data', rfl, hrest⟩ := hchain.uncons
    refine ⟨data', h.freeChain, hrest, ?_, ?_, ?_⟩
    · -- the popped entry is the last one only if it is the only one
      show (if s.queue.dataEndQueue = some block then none else s.queue.dataEndQueue) = _
      rw [h.dataEnd]
      cases data' with
      | nil =>
        rw [List.getLast?_singleton, if_pos rfl]
        rfl
      | cons d ds =>
        have hlast : (block :: d :: ds).getLast? ≠ some block := by
          intro he
          rw [List.getLast?_cons_cons] at he
          exact (List.nodup_cons.mp h.data_nodup).1 (List.mem_of_getLast? he)
        rw [if_neg hlast, List.getLast?_cons_cons]
    · refine List.Perm.trans ?_ h.once
      rw [List.map_cons]
      refine List.perm_middle.trans ?_
      rw [← List.cons_append]
      exact (List.perm_middle.symm).append_right _
    · rw [h.order, List.append_assoc, List.singleton_append]

variable [DecidableEq τ]

/-- The entries held before a thread gives one of them away. -/
theorem perm_erase {thread : τ} {stanza : Nat} (hm : (thread, stanza) ∈ s.held) :
    (s.held.map Prod.snd).Perm (stanza :: (s.held.erase (thread, stanza)).map Prod.snd) :=
  (List.perm_cons_erase hm).map Prod.snd

theorem pushFree (h : Kept size free data s) {thread : τ} {stanza : Nat}
    (hm : (thread, stanza) ∈ s.held) :
    Kept size (stanza :: free) data
      { s with queue := queuePushFree s.queue stanza
               held := s.held.erase (thread, stanza) } where
  freeChain := h.freeChain.push_front (h.held_notMem hm).1
  dataChain := h.dataChain.store (h.held_notMem hm).2 _
  dataEnd := h.dataEnd
  once := by
    refine List.Perm.trans ?_ h.once
    rw [List.cons_append, List.cons_append]
    exact List.perm_middle.symm.trans ((perm_erase hm).symm.append_left _)
  order := h.order

theorem pushData (h : Kept size free data s) {thread : τ} {stanza : Nat}
    (hm : (thread, stanza) ∈ s.held) :
    Kept size free (data ++ [stanza])
      { s with queue := queuePushData s.queue stanza
               held := s.held.erase (thread, stanza)
               pushed := s.pushed ++ [stanza] } := by
  obtain ⟨hfree, hdata⟩ := h.held_notMem hm
  have hend := h.dataEnd
  have honce : (free ++ (data ++ [stanza]) ++ (s.held.erase (thread, stanza)).map Prod.snd).Perm
      (List.range size) := by
    refine List.Perm.trans ?_ h.once
    rw [← List.append_assoc, List.append_assoc _ [stanza], List.singleton_append]
    exact (perm_erase hm).symm.append_left _
  have horder : s.pushed ++ [stanza] = s.popped ++ (data ++ [stanza]) := by
    rw [h.order, List.append_assoc]
  cases hlast : s.queue.dataEndQueue with
  | none =>
    rw [hlast] at hend
    have hnil : data = [] := List.getLast?_eq_none_iff.mp hend.symm
    subst hnil
    have hqueue : queuePushData s.queue stanza =
        { s.queue.setNext stanza none with
          dataStartQueue := some stanza, dataEndQueue := some stanza } := by
      unfold queuePushData
      simp only [StanzaQueue.setNext, hlast]
    rw [hqueue]
    refine ⟨h.freeChain.store hfree none, ?_, rfl, honce, horder⟩
    refine .cons ?_
    show Chain _ (Function.update s.queue.next stanza none stanza) []
    rw [Function.update_self]
    exact .nil
  | some last =>
    rw [hlast] at hend
    have hqueue : queuePushData s.queue stanza =
        { (s.queue.setNext stanza none).setNext last (some stanza) with
          dataEndQueue := some stanza } := by
      unfold queuePushData
      simp only [StanzaQueue.setNext, hlast]
    have hin : last ∈ data := List.mem_of_getLast? hend.symm
    have hout : last ∉ free := fun hf => h.disjoint hf hin
    rw [hqueue]
    refine ⟨(h.freeChain.store hfree none).store hout _, ?_, ?_, honce, horder⟩
    · exact h.dataChain.push_back h.data_nodup hdata hend.symm
    · rw [List.getLast?_append_of_ne_nil _ (List.cons_ne_nil _ _)]
      rfl

/-- **Every step keeps the entries**, whichever thread takes it. -/
theorem step (h : Kept size free data s) {e : QueueEvent τ} {o : Unit}
    (hs : queueStep s e = some (s', o)) : ∃ free' data', Kept size free' data' s' := by
  cases e with
  | popFree thread =>
    obtain ⟨⟨block, queue⟩, hp, hs⟩ := Option.map_eq_some_iff.mp hs
    cases hs
    obtain ⟨free', h'⟩ := h.popFree thread hp
    exact ⟨free', data, h'⟩
  | popData thread =>
    obtain ⟨⟨block, queue⟩, hp, hs⟩ := Option.map_eq_some_iff.mp hs
    cases hs
    obtain ⟨data', h'⟩ := h.popData thread hp
    exact ⟨free, data', h'⟩
  | pushData thread stanza =>
    unfold queueStep at hs
    dsimp only at hs
    split at hs
    · next hm =>
      cases hs
      exact ⟨free, data ++ [stanza], h.pushData hm⟩
    · cases hs
  | pushFree thread stanza =>
    unfold queueStep at hs
    dsimp only at hs
    split at hs
    · next hm =>
      cases hs
      exact ⟨stanza :: free, data, h.pushFree hm⟩
    · cases hs

end Kept

/-! ## Every run -/

theorem queueInit_free : ∀ size : Nat, ∃ free, Chain (queueInit size).next
    (queueInit size).freeQueue free ∧ free.Perm (List.range size) ∧
      (queueInit size).dataStartQueue = none ∧ (queueInit size).dataEndQueue = none
  | 0 => ⟨[], .nil, List.Perm.refl _, rfl, rfl⟩
  | size + 1 => by
    obtain ⟨free, hchain, hperm, hstart, hend⟩ := queueInit_free size
    have hnew : size ∉ free := by
      intro hm
      exact absurd (List.mem_range.mp (hperm.subset hm)) (Nat.lt_irrefl _)
    refine ⟨size :: free, hchain.push_front hnew, ?_, hstart, hend⟩
    rw [List.range_succ]
    exact (hperm.cons size).trans (List.perm_append_singleton size _).symm

theorem kept_start (τ : Type) (size : Nat) : ∃ free, Kept size free [] (queueStart τ size) := by
  obtain ⟨free, hchain, hperm, hstart, hend⟩ := queueInit_free size
  refine ⟨free, hchain, ?_, hend, ?_, rfl⟩
  · show Chain _ (queueInit size).dataStartQueue []
    rw [hstart]
    exact .nil
  · show (free ++ [] ++ []).Perm _
    rw [List.append_nil, List.append_nil]
    exact hperm

/-- The number of places in which an entry is. -/
def places (free data : List Nat) (s : QueueState τ) (stanza : Nat) : Nat :=
  free.count stanza + data.count stanza + (s.held.map Prod.snd).count stanza

/--
**The queue keeps its entries and their order.** In every reachable state, for any number of
threads: the two lists are chains, every entry that `queue_init` has created is in one place and
nothing else is anywhere, the end pointer is null exactly when the start pointer is and else at
the last entry of the data list, and what has been popped from the data list is what was pushed to
it, in that order, less what is still in the list.
-/
theorem queue_conserved [DecidableEq τ]
    (h : Reach queueStep (fun _ _ => True) (queueStart τ size) s) :
    ∃ free data, Chain s.queue.next s.queue.freeQueue free ∧
      Chain s.queue.next s.queue.dataStartQueue data ∧
      (∀ stanza, places free data s stanza = if stanza < size then 1 else 0) ∧
      (s.queue.dataEndQueue = none ↔ s.queue.dataStartQueue = none) ∧
      s.queue.dataEndQueue = data.getLast? ∧ s.pushed = s.popped ++ data := by
  obtain ⟨free, data, hk⟩ : ∃ free data, Kept size free data s := by
    refine h.invariant (I := fun s => ∃ free data, Kept size free data s) ?_ ?_
    · obtain ⟨free, h₀⟩ := kept_start τ size
      exact ⟨free, [], h₀⟩
    · rintro s e s' o ⟨free, data, hk⟩ - hs
      exact hk.step hs
  refine ⟨free, data, hk.freeChain, hk.dataChain, ?_, ?_, hk.dataEnd, hk.order⟩
  · intro stanza
    have hcount := hk.once.count_eq stanza
    rw [List.count_append, List.count_append] at hcount
    unfold places
    rw [hcount, List.nodup_range.count]
    simp only [List.mem_range]
  · rw [hk.dataEnd, List.getLast?_eq_none_iff]
    constructor
    · intro hnil
      have hchain := hk.dataChain
      rw [hnil] at hchain
      exact hchain.eq_none
    · intro hnone
      have hchain := hk.dataChain
      rw [hnone] at hchain
      exact hchain.eq_nil

/-- A reader (thread 0) and two workers with two entries. -/
def twoEntries : List (QueueEvent Nat) :=
  [.popFree 0, .pushData 0 1, .popFree 0, .popData 1, .pushData 0 0, .pushFree 1 1, .popData 2]

theorem queue_conserved_twoEntries : ∃ s : QueueState Nat,
    Machine.run queueStep (queueStart Nat 2) twoEntries = some s ∧ s.popped = [1, 0] ∧
      ∃ free data, (∀ stanza, places free data s stanza = if stanza < 2 then 1 else 0) ∧
        s.pushed = s.popped ++ data := by
  obtain ⟨s, hs⟩ : ∃ s : QueueState Nat,
      Machine.run queueStep (queueStart Nat 2) twoEntries = some s := ⟨_, rfl⟩
  obtain ⟨free, data, -, -, hplaces, -, -, horder⟩ :=
    queue_conserved (Reach.run .start (fun _ _ _ => trivial) hs)
  refine ⟨s, hs, ?_, free, data, hplaces, horder⟩
  cases hs
  rfl

end Mukite
