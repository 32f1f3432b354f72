import Mukite.Room.Iq
import Mathlib.Data.Sum.Basic

/-!
# The options of a configuration form

`room_config_parse` changes the room while it reads the form, field by field and value by value.
Which values it visits does not depend on the room, so a form is the list of its options
(`formOptions`), and what it does to a room is what they do to it one after the other
(`roomConfigParse_options`).
-/

namespace Mukite

open WhileLoop

/-! ## Loops side by side -/

/-- **A loop over the same siblings as another one ends as that one does.** -/
theorem siblingLoop_sim {σ σ' ρ ρ' : Type} {mem : Bytes}
    {body : σ → XmlNodeTraverser → Option (σ ⊕ ρ)}
    {body' : σ' → XmlNodeTraverser → Option (σ' ⊕ ρ')} {R : σ → σ' → Prop} {S : ρ → ρ' → Prop}
    (hbody : ∀ s t nodes x, R s t → body s nodes = some x →
      ∃ y, body' t nodes = some y ∧ Sum.LiftRel R S x y)
    {buffer : Span} {s : σ} {t : σ'} {x : σ ⊕ ρ} (hR : R s t)
    (h : siblingLoop mem body buffer s = some x) :
    ∃ y, siblingLoop mem body' buffer t = some y ∧ Sum.LiftRel R S x y := by
  unfold siblingLoop at h ⊢
  refine whileLoop_sim (R := fun x y => x.1 = y.1 ∧ R x.2 y.2) ?_ ?_ (Nat.le_refl _) ⟨rfl, hR⟩ h
  · rintro ⟨buffer, s⟩ ⟨_, t⟩ ⟨buffer₁, s₁⟩ ⟨rfl, hR⟩ hb
    obtain ⟨next, hnext, hb⟩ := Option.bind_eq_some_iff.mp hb
    dsimp only at hnext ⊢
    cases next with
    | none => simp at hb
    | some nodes =>
      obtain ⟨x, hx, hb⟩ := Option.bind_eq_some_iff.mp hb
      obtain ⟨y, hy, hrel⟩ := hbody s t nodes x hR hx
      cases hrel with
      | inl hs =>
        cases hb
        refine ⟨(nodes.buffer, _), ?_, rfl, hs⟩
        simp [hnext, hy]
      | inr hr => cases hb
  · rintro ⟨buffer, s⟩ ⟨_, t⟩ r ⟨rfl, hR⟩ hb
    obtain ⟨next, hnext, hb⟩ := Option.bind_eq_some_iff.mp hb
    dsimp only at hnext ⊢
    cases next with
    | none =>
      cases hb
      refine ⟨.inl t, ?_, .inl hR⟩
      simp [hnext]
    | some nodes =>
      obtain ⟨x, hx, hb⟩ := Option.bind_eq_some_iff.mp hb
      obtain ⟨y, hy, hrel⟩ := hbody s t nodes x hR hx
      cases hrel with
      | inl hs => cases hb
      | inr hr =>
        cases hb
        refine ⟨.inr _, ?_, .inr hr⟩
        simp [hnext, hy]

/-- **A loop that goes on wherever another one does visits all the siblings if that one does.** -/
theorem siblingLoop_sim_inl {σ σ' ρ ρ' : Type} {mem : Bytes}
    {body : σ → XmlNodeTraverser → Option (σ ⊕ ρ)}
    {body' : σ' → XmlNodeTraverser → Option (σ' ⊕ ρ')} {R : σ → σ' → Prop}
    (hbody : ∀ s t nodes s', R s t → body s nodes = some (.inl s') →
      ∃ t', body' t nodes = some (.inl t') ∧ R s' t')
    {buffer : Span} {s s' : σ} {t : σ'} (hR : R s t)
    (h : siblingLoop mem body buffer s = some (.inl s')) :
    ∃ t', siblingLoop mem body' buffer t = some (.inl t') ∧ R s' t' := by
  have hend : ∃ y, siblingLoop mem body' buffer t = some y ∧ ∃ t', y = .inl t' ∧ R s' t' := by
    unfold siblingLoop at h ⊢
    have hstart : (buffer, s).1 = (buffer, t).1 ∧ R (buffer, s).2 (buffer, t).2 := ⟨rfl, hR⟩
    refine whileLoop_sim_where (P := fun x => x = .inl s')
      (S := fun _ (y : σ' ⊕ ρ') => ∃ t', y = .inl t' ∧ R s' t')
      (R := fun (x : Span × σ) (y : Span × σ') => x.1 = y.1 ∧ R x.2 y.2) ?_ ?_ (Nat.le_refl _)
      hstart rfl h
    · rintro ⟨buffer, s⟩ ⟨_, t⟩ ⟨buffer₁, s₁⟩ ⟨rfl, hR⟩ hb
      obtain ⟨next, hnext, hb⟩ := Option.bind_eq_some_iff.mp hb
      dsimp only at hnext ⊢
      cases next with
      | none => simp at hb
      | some nodes =>
        obtain ⟨x, hx, hb⟩ := Option.bind_eq_some_iff.mp hb
        cases x with
        | inr r => cases hb
        | inl s₂ =>
          cases hb
          obtain ⟨t₁, ht, hR₁⟩ := hbody s t nodes s₁ hR hx
          exact ⟨(nodes.buffer, t₁), by simp [hnext, ht], rfl, hR₁⟩
    · rintro ⟨buffer, s⟩ ⟨_, t⟩ r ⟨rfl, hR⟩ rfl hb
      obtain ⟨next, hnext, hb⟩ := Option.bind_eq_some_iff.mp hb
      dsimp only at hnext ⊢
      cases next with
      | none =>
        cases hb
        exact ⟨.inl t, by simp [hnext], t, rfl, hR⟩
      | some nodes =>
        obtain ⟨x, hx, hb⟩ := Option.bind_eq_some_iff.mp hb
        cases x with
        | inr r => cases hb
        | inl s₂ => cases hb
  obtain ⟨y, hy, t', rfl, hR'⟩ := hend
  exact ⟨t', hy, hR'⟩

/-! ## The options of a form -/

/-- An option of a form: the name of its field, and one of the values there. -/
structure FormOption where
  var : Span
  value : Span
deriving DecidableEq, Repr

/-- What an option does to a room. -/
def FormOption.set (mem : Bytes) (acl : Int) (room : Room) (option : FormOption) : Option Room :=
  roomConfigOptionSet room mem option.var option.value acl

/-- The option of a `<value/>`, none for another node or an empty one. -/
def valueOption (mem : Bytes) (var : Span) (nodes : XmlNodeTraverser) :
    Option (Option FormOption) := do
  if !nodes.nodeName.eqLit mem "value" then return none
  let (content, data) ← xmlfsmSkipAttrs mem nodes.node.data
  if !content then return none
  return some
    { var := var
      value := { data := data, stop := nodes.node.stop - endTagSize "value" } }

/-- The options so far, and those of one `<field/>`. -/
def fieldOptions (mem : Bytes) (options : List FormOption) (nodes : XmlNodeTraverser) :
    Option (List FormOption) := do
  if !nodes.nodeName.eqLit mem "field" then return options
  let (var, data) ← xmlfsmSkiptoAttr mem nodes.node.data "var"
  match var with
  | none => return options
  | some var =>
    let (content, data) ← xmlfsmSkipAttrs mem data
    if !content then return options
    match ← siblingLoop (ρ := Empty) mem
        (fun options nodes => (valueOption mem var.value nodes).map
          (fun option => .inl (options ++ option.toList)))
        { data := data, stop := nodes.node.stop } options with
    | .inl options => return options
    | .inr r => nomatch r

/-- The options of a form, in their order. -/
def formOptions (mem : Bytes) (data : Span) : Option (List FormOption) := do
  match ← siblingLoop (ρ := Empty) mem
      (fun options nodes => (fieldOptions mem options nodes).map .inl) data [] with
  | .inl options => return options
  | .inr r => nomatch r

/-- The options turn one room into another. -/
def Applied (mem : Bytes) (acl : Int) (start room : Room) (options : List FormOption) : Prop :=
  options.foldlM (FormOption.set mem acl) start = some room

section Options

variable {mem : Bytes} {acl : Int} {start room room' : Room} {options : List FormOption}

theorem applied_nil : Applied mem acl start start [] := rfl

theorem Applied.append (h : Applied mem acl start room options) {option : FormOption}
    (hset : option.set mem acl room = some room') :
    Applied mem acl start room' (options ++ [option]) := by
  unfold Applied at *
  rw [List.foldlM_append, h]
  simp [hset]

/-- **What every option of a form keeps, the form keeps.** -/
theorem Applied.keeps {I : Room → Prop} : ∀ {options : List FormOption} {start : Room},
    Applied mem acl start room options →
    (∀ room room' option, option ∈ options → I room → option.set mem acl room = some room' →
      I room') → I start → I room
  | [], start, h, _, hI => by
    obtain rfl : start = room := Option.some.inj h
    exact hI
  | option :: rest, start, h, hset, hI => by
    unfold Applied at h
    rw [List.foldlM_cons] at h
    obtain ⟨room₁, h₁, h⟩ := Option.bind_eq_some_iff.mp h
    refine Applied.keeps h (fun room room' o ho => hset room room' o ?_) ?_
    · exact List.mem_cons_of_mem _ ho
    · exact hset start room₁ option List.mem_cons_self hI h₁

theorem configValue_option {var : Span} {nodes : XmlNodeTraverser}
    (h : configValue mem acl var room nodes = some room') :
    ∃ option, valueOption mem var nodes = some option ∧
      option.elim (some room) (FormOption.set mem acl room) = some room' := by
  unfold configValue at h
  unfold valueOption
  split at h
  · next hname => exact ⟨none, by rw [if_pos hname]; rfl, h⟩
  · next hname =>
    rw [if_neg hname]
    obtain ⟨⟨content, data⟩, hattrs, h⟩ := Option.bind_eq_some_iff.mp h
    simp only [hattrs, Option.bind_eq_bind, Option.bind_some]
    dsimp only at h
    split at h
    · next hcontent => exact ⟨none, by rw [if_pos hcontent]; rfl, h⟩
    · next hcontent =>
      refine ⟨some { var := var, value := _ }, ?_, h⟩
      rw [if_neg hcontent]
      rfl

/-- One turn of the loop over the values, beside the turn that collects the options. -/
theorem configValue_turn {var : Span} (room : Room) (options : List FormOption)
    (nodes : XmlNodeTraverser) (x : Room ⊕ Empty) (hR : Applied mem acl start room options)
    (h : (configValue mem acl var room nodes).map .inl = some x) :
    ∃ y : List FormOption ⊕ Empty, (valueOption mem var nodes).map
        (fun option => .inl (options ++ option.toList)) = some y ∧
      Sum.LiftRel (Applied mem acl start) (fun _ _ => True) x y := by
  obtain ⟨room', hroom, rfl⟩ := Option.map_eq_some_iff.mp h
  obtain ⟨option, hoption, hset⟩ := configValue_option hroom
  refine ⟨.inl (options ++ option.toList), by rw [hoption]; rfl, .inl ?_⟩
  cases option with
  | none =>
    obtain rfl := Option.some.inj hset
    rwa [Option.toList_none, List.append_nil]
  | some option => exact hR.append hset

theorem configField_options {nodes : XmlNodeTraverser} (hR : Applied mem acl start room options)
    (h : configField mem acl room nodes = some room') :
    ∃ options', fieldOptions mem options nodes = some options' ∧
      Applied mem acl start room' options' := by
  unfold configField at h
  unfold fieldOptions
  split at h
  · next hname =>
    cases h
    exact ⟨options, by rw [if_pos hname]; rfl, hR⟩
  · next hname =>
    rw [if_neg hname]
    obtain ⟨⟨var, data⟩, hvar, h⟩ := Option.bind_eq_some_iff.mp h
    simp only [hvar, Option.bind_eq_bind, Option.bind_some]
    cases var with
    | none =>
      cases h
      exact ⟨options, rfl, hR⟩
    | some var =>
      obtain ⟨⟨content, data⟩, hattrs, h⟩ := Option.bind_eq_some_iff.mp h
      simp only [hattrs, Option.bind_some]
      dsimp only at h
      split at h
      · next hcontent =>
        cases h
        exact ⟨options, by rw [if_pos hcontent]; rfl, hR⟩
      · next hcontent =>
        rw [if_neg hcontent]
        obtain ⟨x, hx, h⟩ := Option.bind_eq_some_iff.mp h
        obtain ⟨y, hy, hrel⟩ := siblingLoop_sim configValue_turn hR hx
        cases hrel with
        | inr _ => exact nomatch h
        | @inl _ options' hs =>
          cases h
          refine ⟨options', ?_, hs⟩
          rw [hy]
          rfl

/-- One turn of the loop over the fields. -/
theorem configField_turn (room : Room) (options : List FormOption) (nodes : XmlNodeTraverser)
    (x : Room ⊕ Empty) (hR : Applied mem acl start room options)
    (h : (configField mem acl room nodes).map .inl = some x) :
    ∃ y : List FormOption ⊕ Empty, (fieldOptions mem options nodes).map .inl = some y ∧
      Sum.LiftRel (Applied mem acl start) (fun _ _ => True) x y := by
  obtain ⟨room', hroom, rfl⟩ := Option.map_eq_some_iff.mp h
  obtain ⟨options', ho, hs⟩ := configField_options hR hroom
  exact ⟨.inl options', by rw [ho]; rfl, .inl hs⟩

/-- **A form does to a room what its options do to it, one after the other.** -/
theorem roomConfigParse_options {data : Span} (h : roomConfigParse room mem data acl = some room') :
    ∃ options, formOptions mem data = some options ∧ Applied mem acl room room' options := by
  unfold roomConfigParse at h
  unfold formOptions
  obtain ⟨x, hx, h⟩ := Option.bind_eq_some_iff.mp h
  obtain ⟨y, hy, hrel⟩ := siblingLoop_sim configField_turn applied_nil hx
  cases hrel with
  | inr _ => exact nomatch h
  | @inl _ options hs =>
    cases h
    refine ⟨options, ?_, hs⟩
    rw [hy]
    rfl

end Options

/-! ## The password -/

theorem forall_ite {α : Type} {c : Prop} [Decidable c] {a b : Option α} {P : α → Prop}
    (ha : c → ∀ r, a = some r → P r) (hb : ∀ r, b = some r → P r) :
    ∀ r, (if c then a else b) = some r → P r := by
  intro r hr
  split at hr
  · next hc => exact ha hc r hr
  · exact hb r hr

/-- The option that asks for a password. -/
def FormOption.isSecret (mem : Bytes) (option : FormOption) : Bool :=
  option.var.eqLit mem "muc#roomconfig_roomsecret"

/-- The password is as it was, or the value of the option that asks for one. -/
def PasswordFrom (mem : Bytes) (option : FormOption) (room room' : Room) : Prop :=
  room'.password = room.password ∨
    option.isSecret mem = true ∧ ∃ b, option.value.copy mem = some b ∧ room'.password = some b

/-- **One option alone writes the password**, and it writes whatever it is given. -/
theorem FormOption.set_password {mem : Bytes} {acl : Int} {room : Room} {option : FormOption} :
    ∀ room', option.set mem acl room = some room' → PasswordFrom mem option room room' := by
  have hkeep : ∀ r : Room, r.password = room.password → ∀ r', some r = some r' →
      PasswordFrom mem option room r' := by
    intro r hr r' h
    exact .inl (Option.some.inj h ▸ hr)
  have hcopy : ∀ set : Bytes → Room, (∀ b, (set b).password = room.password) → ∀ r',
      (option.value.copy mem).map set = some r' → PasswordFrom mem option room r' := by
    intro set hset r' h
    obtain ⟨b, -, rfl⟩ := Option.map_eq_some_iff.mp h
    exact .inl (hset b)
  unfold FormOption.set roomConfigOptionSet
  dsimp only
  refine forall_ite (fun _ => forall_ite (fun _ => hcopy _ fun _ => rfl) (hkeep _ rfl)) ?_
  refine forall_ite (fun _ => forall_ite (fun _ => hcopy _ fun _ => rfl) (hkeep _ rfl)) ?_
  refine forall_ite (fun _ => forall_ite (fun _ => hkeep _ rfl) (hkeep _ rfl)) ?_
  refine forall_ite (fun _ => hkeep _ rfl) ?_
  refine forall_ite (fun _ => hkeep _ rfl) ?_
  refine forall_ite (fun _ => forall_ite (fun _ => hkeep _ rfl) (hkeep _ rfl)) ?_
  refine forall_ite (fun hvar r' h => ?_) ?_
  · obtain ⟨b, hb, rfl⟩ := Option.map_eq_some_iff.mp h
    exact .inr ⟨hvar, b, hb, rfl⟩
  iterate 12 refine forall_ite (fun _ => hkeep _ rfl) ?_
  exact hkeep _ rfl

end Mukite
