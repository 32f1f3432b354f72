import Mukite.Properties.RoomFile

/-!
# The size of a container that is read back

`_CONTAINER_DESERIALIZE` advances the size in its loop, and the macro that links the item into the
container advances it once more. The items come back as they were, but the container counts each
of them twice, and the limit of its loop is doubled so that this does not show.

* **`keepsCount_iff`**: the size of a container is right after it has been read back if and only
  if the container is empty.
* `loaded_owner_counted_twice`: a list with one owner.
-/

namespace Mukite

open Codec

section Counts

variable {α : Type} {f : α → Bytes} {g : Input α} {maxSize : Int} {items : List α}

/--
What is read back, whatever follows in the file: the items as they were, exactly the bytes that
were written, and the number of items as the size.
-/
def KeepsCount (f : α → Bytes) (g : Input α) (maxSize : Int) (items : List α) : Prop :=
  ∀ rest, ∃ container : Dls α,
    (containerDeserialize g (.init maxSize)).run (containerSerialize f maxSize items ++ rest)
      = some (container, rest) ∧ container.items = items ∧ container.Counted

/-- A container within its limit writes all its items. -/
theorem containerSerialize_all (hlen : (items.length : Int) ≤ maxSize) :
    containerSerialize f maxSize items = markedItems f items := by
  rw [containerSerialize_eq, List.take_of_length_le (by omega)]

/-- **Whenever a container is read back, its size is twice the number of its items.** -/
theorem containerDeserialize_doubles (hread : ∀ x ∈ items, Reads (f x) g x)
    (hlen : (items.length : Int) ≤ maxSize) (hint : IsInt maxSize) {rest : Bytes}
    {container : Dls α}
    (h : (containerDeserialize g (.init maxSize)).run (containerSerialize f maxSize items ++ rest)
      = some (container, rest)) :
    container = { items := items, size := 2 * items.length, maxSize := maxSize } := by
  rw [containerSerialize_all hlen] at h
  by_cases hlt : maxSize < 2 ^ 30
  · have hreads := @containerDeserialize_reads α α f g id maxSize items hread
      (limitFits_of_lt hlen hlt)
    rw [hreads rest, List.map_id] at h
    cases h
    rfl
  · -- twice the limit has overflowed
    cases items with
    | nil =>
      have hreads := @containerDeserialize_reads α α f g id maxSize [] hread (.inl rfl)
      rw [hreads rest] at h
      cases h
      rfl
    | cons x xs =>
      have hover := cInt_double_nonpos hint (not_lt.mp hlt)
      have hrej := @containerDeserialize_overflow α α f g maxSize (x :: xs) (List.cons_ne_nil x xs) hover
      rw [hrej rest] at h
      cases h

/-- **The size is right after a round trip if and only if there is nothing to count.** -/
theorem keepsCount_iff (hread : ∀ x ∈ items, Reads (f x) g x)
    (hlen : (items.length : Int) ≤ maxSize) (hint : IsInt maxSize) :
    KeepsCount f g maxSize items ↔ items = [] := by
  constructor
  · intro h
    obtain ⟨container, hrun, -, hcount⟩ := h []
    rw [containerDeserialize_doubles hread hlen hint hrun] at hcount
    have hsize : 2 * (items.length : Int) = items.length := hcount
    exact List.eq_nil_of_length_eq_zero (by omega)
  · rintro rfl rest
    have hreads := @containerDeserialize_reads α α f g id maxSize [] hread (.inl rfl)
    rw [containerSerialize_all hlen]
    exact ⟨_, hreads rest, rfl, rfl⟩

end Counts

/-! ## One owner -/

/-- The entry of an owner. -/
def ownerEntry : Affiliation where
  jid := jidSet guestJid (jidNode ||| jidHost)
  reasonNode := none

theorem ownerEntry_reads :
    Reads (affiliationSerialize ownerEntry) affiliationDeserialize ownerEntry := by
  have hjid : PlainJid ownerEntry.jid := ⟨.parsed guestJid_parsed _, by decide⟩
  have hsaved : savedAffiliation ownerEntry = ownerEntry := by decide
  have hreads := affiliationDeserialize_reads ⟨hjid.1, hjid.loads, Nat.zero_le _⟩
  rwa [hsaved] at hreads

/-- A list with one owner has the size two when it is read back. -/
theorem loaded_owner_counted_twice : ¬ ∀ (items : List Affiliation) (maxSize : Int),
    (∀ x ∈ items, Reads (affiliationSerialize x) affiliationDeserialize x) →
      (items.length : Int) ≤ maxSize → IsInt maxSize →
      KeepsCount affiliationSerialize affiliationDeserialize maxSize items := by
  intro hall
  have hread : ∀ x ∈ [ownerEntry],
      Reads (affiliationSerialize x) affiliationDeserialize x := by
    intro x hx
    rw [List.mem_singleton.mp hx]
    exact ownerEntry_reads
  have hlen : (([ownerEntry] : List Affiliation).length : Int) ≤ loadedAffiliationsLimit := by decide
  have hint : IsInt loadedAffiliationsLimit := by decide
  obtain ⟨container, hrun, -, hcount⟩ := hall [ownerEntry] loadedAffiliationsLimit hread hlen hint []
  rw [containerDeserialize_doubles hread hlen hint hrun] at hcount
  exact absurd hcount (by unfold Dls.Counted; decide)

/-- The result for the empty list. -/
theorem keepsCount_iff_empty :
    KeepsCount affiliationSerialize affiliationDeserialize loadedAffiliationsLimit [] :=
  (keepsCount_iff (fun x hx => absurd hx List.not_mem_nil) (by decide) (by decide)).mpr rfl

end Mukite
