import Mukite.AclFile
import Mukite.Properties.Scanned

/-!
# The access control list, saved and loaded again

Whatever file the list has been loaded from, and whether or not that went well, each of its entries
is written on a line that is read as the same entry (`LoadedEntry.scan`). A second load therefore
finds the entries that were saved, as many as it has room for, and it reports success unless there
were none or too many (`acl_saved_loaded`).
-/

namespace Mukite

open Scan

/-- What `acl_deserialize` knows of an entry that it adds. -/
structure LoadedEntry (entry : ACLEntry) : Prop where
  role : IsInt entry.role
  jid : jidStruct (jidText entry.jid) = some entry.jid
  length_le : (jidText entry.jid).length ≤ maxJidSize
  oneLine : newline ∉ jidText entry.jid
  terminator : (0 : UInt8) ∉ jidText entry.jid
  stops : Stops isspace (jidText entry.jid)

/-! ## What is loaded -/

theorem scanAclEntry_some {file file' : InputFile} {role : Int} {line : Bytes}
    (h : scanAclEntry file = (some (role, line), file')) :
    IsInt role ∧ newline ∉ line ∧ line.length ≤ maxJidSize ∧ Stops isspace line := by
  unfold scanAclEntry at h
  split at h
  · cases h
  · next role' after hrole =>
    split at h
    · cases h
    · next line' after' hline =>
      cases h
      obtain ⟨-, hnewline, hlen, hrest⟩ := scanLine_form hline
      refine ⟨scanInt_isInt hrole, hnewline, hlen, fun c hc => ?_⟩
      -- the line begins where the white space ends
      refine @takeAll_stops _ isspace after c ?_
      rw [show (takeAll isspace after).2.rest = line ++ after'.rest from hrest.symm]
      cases line with
      | nil => cases hc
      | cons d line => exact hc

theorem cString_subset {c : UInt8} {buffer : Bytes} (h : c ∈ cString buffer) : c ∈ buffer :=
  (List.takeWhile_sublist _).subset h

theorem head?_cString {buffer : Bytes} {c : UInt8} (h : c ∈ (cString buffer).head?) :
    c ∈ buffer.head? := by
  cases buffer with
  | nil => cases h
  | cons d buffer =>
    unfold cString at h
    rw [List.takeWhile_cons] at h
    split at h
    · exact h
    · cases h

theorem aclLoop_loaded : ∀ (limit : Nat) (file : InputFile),
    ∀ entry ∈ (aclLoop limit file).1, LoadedEntry entry
  | 0, _, _, hmem => by cases hmem
  | limit + 1, file, entry, hmem => by
    unfold aclLoop at hmem
    split at hmem
    · cases hmem
    · split at hmem
      · cases hmem
      · next role line after hscan =>
        split at hmem
        · cases hmem
        · next jid hjid =>
          rcases List.mem_cons.mp hmem with rfl | hmem
          · obtain ⟨hrole, hnewline, hlen, hstops⟩ := scanAclEntry_some hscan
            have htext : jidText jid = cString line := text_of_struct hjid
            constructor
            · exact hrole
            · rw [htext]
              exact hjid
            · rw [htext]
              exact Nat.le_trans (List.takeWhile_prefix _).length_le hlen
            · rw [htext]
              exact fun h => hnewline (cString_subset h)
            · rw [htext]
              intro h
              simpa using List.mem_takeWhile_imp h
            · rw [htext]
              exact fun c hc => hstops c (head?_cString hc)
          · exact aclLoop_loaded limit after entry hmem

/-! ## What is saved -/

namespace LoadedEntry

variable {entry : ACLEntry} {rest : Bytes}

theorem text_ne (h : LoadedEntry entry) : jidText entry.jid ≠ [] := by
  intro hnil
  have hjid := h.jid
  rw [hnil] at hjid
  cases hjid

theorem cString_text (h : LoadedEntry entry) : cString (jidText entry.jid) = jidText entry.jid := by
  unfold cString
  rw [List.takeWhile_eq_self_iff]
  intro c hc
  exact decide_eq_true fun he => h.terminator (he ▸ hc)

/-- **A line that has been saved is scanned as the entry.** -/
theorem scan (h : LoadedEntry entry) (hrest : Stops isspace rest) :
    scanAclEntry ⟨aclEntryLine entry ++ rest, false⟩
      = (some (entry.role, jidText entry.jid), ⟨rest, rest.isEmpty⟩) := by
  have htail : Stops isspace (jidText entry.jid ++ newline :: rest) := by
    intro c hc
    refine h.stops c ?_
    cases htext : jidText entry.jid with
    | nil => exact absurd htext h.text_ne
    | cons d text =>
      rw [htext] at hc
      exact hc
  have hspace : scanSpace ⟨ch ' ' :: (jidText entry.jid ++ newline :: rest), false⟩
      = ⟨jidText entry.jid ++ newline :: rest, false⟩ := by
    rw [scanSpace_one (by decide) htail]
    simp
  unfold scanAclEntry aclEntryLine
  rw [List.append_assoc, List.cons_append, List.append_assoc, List.singleton_append,
    scanInt_toString h.role (stops_cons (by decide))]
  simp only [List.isEmpty_cons, Bool.or_false]
  rw [hspace, scanLine_line h.text_ne h.oneLine h.length_le]
  dsimp only
  rw [scanSpace_one (by decide) hrest, Bool.false_or]

end LoadedEntry

/-- No line begins with white space. -/
theorem aclEntryLine_stops (entry : ACLEntry) : Stops isspace (aclEntryLine entry) := by
  obtain ⟨sign, digits, hnum, htext, -⟩ := toString_numeral entry.role
  unfold aclEntryLine
  rw [htext, List.append_assoc]
  exact hnum.stops

theorem aclLines_stops (entries : List ACLEntry) : Stops isspace (entries.flatMap aclEntryLine) := by
  cases entries with
  | nil => exact stops_nil
  | cons entry entries =>
    rw [List.flatMap_cons]
    intro c hc
    refine aclEntryLine_stops entry c ?_
    cases hline : aclEntryLine entry with
    | nil => simp [aclEntryLine] at hline
    | cons d line =>
      rw [hline] at hc
      exact hc

theorem aclLine_ne_nil (entry : ACLEntry) : aclEntryLine entry ≠ [] := by
  simp [aclEntryLine]

/-- The loop over lines that have been saved. The file ends with the last of them. -/
theorem aclLoop_lines : ∀ (limit : Nat) (entries : List ACLEntry),
    (∀ entry ∈ entries, LoadedEntry entry) →
    aclLoop limit ⟨entries.flatMap aclEntryLine, false⟩
        = (entries.take limit, decide (entries ≠ [] ∧ entries.length ≤ limit))
  | 0, [], _ => rfl
  | 0, entry :: entries, _ => rfl
  | limit + 1, [], _ => rfl
  | limit + 1, entry :: entries, h => by
    have hentry := h entry List.mem_cons_self
    rw [List.flatMap_cons]
    unfold aclLoop
    rw [hentry.scan (aclLines_stops entries)]
    simp only [Bool.false_eq_true, if_false, hentry.cString_text, hentry.jid]
    cases entries with
    | nil => cases limit <;> rfl
    | cons next entries =>
      have ih := aclLoop_lines limit (next :: entries)
        fun e he => h e (List.mem_cons_of_mem _ he)
      have hmore : ((next :: entries).flatMap aclEntryLine).isEmpty = false := by
        rw [List.flatMap_cons]
        simp [aclLine_ne_nil]
      rw [hmore, ih]
      simp

/-- **What has been loaded from any file is saved and loaded again as it was.** -/
theorem acl_saved_loaded (acl acl' : ACLConfig) (input : InputFile) (limit limit' : Int) :
    aclDeserialize acl' (fopened (aclSerialize (aclDeserialize acl input limit).1)) limit'
      = ({ acl' with entries := (aclDeserialize acl input limit).1.entries.take limit'.toNat },
        decide ((aclDeserialize acl input limit).1.entries ≠ [] ∧
          (aclDeserialize acl input limit).1.entries.length ≤ limit')) := by
  have hlines := aclLoop_lines limit'.toNat _ (aclLoop_loaded limit.toNat input)
  have hfits : ∀ entries : List ACLEntry, (entries ≠ [] ∧ entries.length ≤ limit'.toNat ↔
      entries ≠ [] ∧ (entries.length : Int) ≤ limit') := by
    intro entries
    refine and_congr_right fun hne => ?_
    have := List.length_pos_of_ne_nil hne
    omega
  unfold aclDeserialize aclSerialize fopened
  dsimp only
  rw [hlines]
  simp only [hfits]

end Mukite
