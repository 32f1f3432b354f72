import Mathlib.Tactic.Common
import Mathlib.Data.List.Nodup

/-!
# Linked lists of nodes

A linked list whose nodes are told apart by their address. Two nodes may hold equal values, and
a pointer to a node stays good while other nodes are changed, added or removed. That no two
nodes share an address is part of the type, so no operation can build a list that breaks it.

* `cons`, `ofList` — new nodes get fresh addresses
* `get?`, `find?` — follow a pointer, search along the list
* `modify`, `mapVals`, `mapNodes` — change one node or all of them in place
* `erase` — unlink a node
-/

/-- A linked list: address and value of each node, in list order. -/
@[ext]
structure NodeList (α : Type*) where
  nodes : List (Nat × α)
  distinct : (nodes.map Prod.fst).Nodup

namespace NodeList

variable {α : Type*} {l : NodeList α} {a b : Nat} {x y : α}

/-- The list without nodes. -/
def nil : NodeList α := ⟨[], List.nodup_nil⟩

def addrs (l : NodeList α) : List Nat := l.nodes.map Prod.fst

def vals (l : NodeList α) : List α := l.nodes.map Prod.snd

/-- What the pointer `a` points to. -/
def get? (l : NodeList α) (a : Nat) : Option α :=
  (l.nodes.find? (fun n => n.1 == a)).map Prod.snd

/-- The first node whose value satisfies `p`. -/
def find? (l : NodeList α) (p : α → Bool) : Option (Nat × α) := l.nodes.find? (fun n => p n.2)

/-- An address that no node of the list has. -/
def fresh (l : NodeList α) : Nat := l.addrs.foldr max 0 + 1

theorem lt_fresh (h : a ∈ l.addrs) : a < l.fresh := by
  have hle : ∀ xs : List Nat, a ∈ xs → a ≤ xs.foldr max 0 := by
    intro xs
    induction xs with
    | nil => simp
    | cons c xs ih =>
      intro hm
      rcases List.mem_cons.mp hm with rfl | hm
      · exact Nat.le_max_left _ _
      · exact Nat.le_trans (ih hm) (Nat.le_max_right _ _)
  exact Nat.lt_succ_of_le (hle _ h)

theorem fresh_notMem : l.fresh ∉ l.addrs := fun h => absurd (lt_fresh h) (Nat.lt_irrefl _)

/-- Link a new node in front of the list. -/
def cons (l : NodeList α) (x : α) : NodeList α where
  nodes := (l.fresh, x) :: l.nodes
  distinct := by
    rw [List.map_cons, List.nodup_cons]
    exact ⟨fresh_notMem, l.distinct⟩

/-- A list with one new node for each value. -/
def ofList (xs : List α) : NodeList α where
  nodes := xs.zipIdx.map Prod.swap
  distinct := by
    have h : (xs.zipIdx.map Prod.swap).map Prod.fst = List.range' 0 xs.length := by
      rw [List.map_map, show Prod.fst ∘ Prod.swap = (Prod.snd : α × Nat → Nat) from rfl,
        List.zipIdx_map_snd]
    rw [h]
    exact List.nodup_range'

/-- Change the node at `a` in place. -/
def modify (l : NodeList α) (a : Nat) (f : α → α) : NodeList α where
  nodes := l.nodes.map (fun n => if n.1 = a then (n.1, f n.2) else n)
  distinct := by
    have h : (l.nodes.map (fun n => if n.1 = a then (n.1, f n.2) else n)).map Prod.fst
        = l.nodes.map Prod.fst := by
      rw [List.map_map]
      refine List.map_congr_left fun n _ => ?_
      simp only [Function.comp_apply]
      split <;> rfl
    rw [h]
    exact l.distinct

/-- Change every node in place. -/
def mapVals (l : NodeList α) (f : α → α) : NodeList α where
  nodes := l.nodes.map (fun n => (n.1, f n.2))
  distinct := by
    rw [List.map_map]
    exact l.distinct

/-- Change every node in place, as its address says. -/
def mapNodes (l : NodeList α) (f : Nat → α → α) : NodeList α where
  nodes := l.nodes.map (fun n => (n.1, f n.1 n.2))
  distinct := by
    rw [List.map_map]
    exact l.distinct

/-- Unlink the node at `a`. -/
def erase (l : NodeList α) (a : Nat) : NodeList α where
  nodes := l.nodes.filter (fun n => n.1 != a)
  distinct := (List.filter_sublist.map Prod.fst).nodup l.distinct

/-! ## Nodes and addresses -/

@[simp] theorem nodes_nil : (nil : NodeList α).nodes = [] := rfl

@[simp] theorem vals_ofList (xs : List α) : (ofList xs).vals = xs := by
  show (xs.zipIdx.map Prod.swap).map Prod.snd = xs
  rw [List.map_map, show Prod.snd ∘ Prod.swap = (Prod.fst : α × Nat → α) from rfl,
    List.zipIdx_map_fst]

theorem mem_addrs_of_mem (h : (a, x) ∈ l.nodes) : a ∈ l.addrs := List.mem_map_of_mem h

theorem exists_of_mem_addrs (h : a ∈ l.addrs) : ∃ x, (a, x) ∈ l.nodes := by
  obtain ⟨⟨c, x⟩, hm, rfl⟩ := List.mem_map.mp h
  exact ⟨x, hm⟩

/-- An address holds one value. -/
theorem val_unique (hx : (a, x) ∈ l.nodes) (hy : (a, y) ∈ l.nodes) : x = y :=
  congrArg Prod.snd (List.inj_on_of_nodup_map l.distinct hx hy rfl)

/-- **Following a pointer finds exactly the node with that address.** -/
theorem get?_eq_some_iff : l.get? a = some x ↔ (a, x) ∈ l.nodes := by
  unfold get?
  constructor
  · intro h
    obtain ⟨⟨c, z⟩, hf, rfl⟩ := Option.map_eq_some_iff.mp h
    have hc : c = a := by simpa using List.find?_some hf
    exact hc ▸ List.mem_of_find?_eq_some hf
  · intro h
    obtain ⟨n, hf⟩ : ∃ n, l.nodes.find? (fun n => n.1 == a) = some n :=
      Option.isSome_iff_exists.mp (List.find?_isSome.mpr ⟨(a, x), h, by simp⟩)
    have hn : n.1 = a := by simpa using List.find?_some hf
    have hm : (a, n.2) ∈ l.nodes := hn ▸ List.mem_of_find?_eq_some hf
    rw [hf, Option.map_some, val_unique hm h]

theorem get?_eq_none_iff : l.get? a = none ↔ a ∉ l.addrs := by
  constructor
  · intro h hm
    obtain ⟨x, hx⟩ := exists_of_mem_addrs hm
    rw [get?_eq_some_iff.mpr hx] at h
    cases h
  · intro h
    cases hg : l.get? a with
    | none => rfl
    | some x => exact absurd (mem_addrs_of_mem (get?_eq_some_iff.mp hg)) h

theorem mem_of_find? {p : α → Bool} (h : l.find? p = some (a, x)) :
    (a, x) ∈ l.nodes ∧ p x = true :=
  ⟨List.mem_of_find?_eq_some h, by simpa using List.find?_some h⟩

theorem find?_eq_none {p : α → Bool} (h : l.find? p = none) :
    ∀ c z, (c, z) ∈ l.nodes → p z = false := by
  intro c z hm
  simpa using List.find?_eq_none.mp h (c, z) hm

/-! ## What the operations do to the nodes -/

theorem mem_cons : (a, x) ∈ (l.cons y).nodes ↔ (a = l.fresh ∧ x = y) ∨ (a, x) ∈ l.nodes := by
  show (a, x) ∈ (l.fresh, y) :: l.nodes ↔ _
  rw [List.mem_cons, Prod.mk.injEq]

theorem mem_modify {f : α → α} :
    (b, y) ∈ (l.modify a f).nodes ↔
      ∃ x, (b, x) ∈ l.nodes ∧ y = if b = a then f x else x := by
  show (b, y) ∈ l.nodes.map _ ↔ _
  rw [List.mem_map]
  constructor
  · rintro ⟨⟨c, x⟩, hm, he⟩
    by_cases hc : c = a
    · simp only [hc, if_true, Prod.mk.injEq] at he
      obtain ⟨rfl, rfl⟩ := he
      exact ⟨x, hc ▸ hm, by simp⟩
    · simp only [hc, if_false, Prod.mk.injEq] at he
      obtain ⟨rfl, rfl⟩ := he
      exact ⟨x, hm, by simp [hc]⟩
  · rintro ⟨x, hm, rfl⟩
    refine ⟨(b, x), hm, ?_⟩
    by_cases hb : b = a <;> simp [hb]

theorem mem_mapVals {f : α → α} :
    (a, y) ∈ (l.mapVals f).nodes ↔ ∃ x, (a, x) ∈ l.nodes ∧ y = f x := by
  show (a, y) ∈ l.nodes.map _ ↔ _
  rw [List.mem_map]
  constructor
  · rintro ⟨⟨c, x⟩, hm, he⟩
    simp only [Prod.mk.injEq] at he
    obtain ⟨rfl, rfl⟩ := he
    exact ⟨x, hm, rfl⟩
  · rintro ⟨x, hm, rfl⟩
    exact ⟨(a, x), hm, rfl⟩

theorem mem_erase : (b, x) ∈ (l.erase a).nodes ↔ (b, x) ∈ l.nodes ∧ b ≠ a := by
  show (b, x) ∈ l.nodes.filter _ ↔ _
  rw [List.mem_filter]
  simp

@[simp] theorem addrs_modify {f : α → α} : (l.modify a f).addrs = l.addrs := by
  show (l.nodes.map _).map Prod.fst = l.nodes.map Prod.fst
  rw [List.map_map]
  refine List.map_congr_left fun n _ => ?_
  simp only [Function.comp_apply]
  split <;> rfl

@[simp] theorem addrs_mapVals {f : α → α} : (l.mapVals f).addrs = l.addrs := by
  show (l.nodes.map _).map Prod.fst = l.nodes.map Prod.fst
  rw [List.map_map]
  rfl

theorem mem_addrs_erase : b ∈ (l.erase a).addrs ↔ b ∈ l.addrs ∧ b ≠ a := by
  constructor
  · intro h
    obtain ⟨x, hx⟩ := exists_of_mem_addrs h
    obtain ⟨hm, hne⟩ := mem_erase.mp hx
    exact ⟨mem_addrs_of_mem hm, hne⟩
  · rintro ⟨h, hne⟩
    obtain ⟨x, hx⟩ := exists_of_mem_addrs h
    exact mem_addrs_of_mem (mem_erase.mpr ⟨hx, hne⟩)

@[simp] theorem length_cons : (l.cons x).nodes.length = l.nodes.length + 1 := rfl

@[simp] theorem length_modify {f : α → α} : (l.modify a f).nodes.length = l.nodes.length :=
  List.length_map _

@[simp] theorem length_mapVals {f : α → α} : (l.mapVals f).nodes.length = l.nodes.length :=
  List.length_map _

/-- Unlinking a node of the list shortens it by one. -/
theorem length_erase (h : a ∈ l.addrs) : (l.erase a).nodes.length + 1 = l.nodes.length := by
  have haux : ∀ ns : List (Nat × α), (ns.map Prod.fst).Nodup → a ∈ ns.map Prod.fst →
      (ns.filter (fun n => n.1 != a)).length + 1 = ns.length := by
    intro ns
    induction ns with
    | nil => simp
    | cons n ns ih =>
      intro hd hm
      rw [List.map_cons, List.nodup_cons] at hd
      by_cases hn : n.1 = a
      · have hrest : ns.filter (fun n => n.1 != a) = ns := by
          rw [List.filter_eq_self]
          intro m hmem
          have : m.1 ≠ a := fun he => hd.1 (hn ▸ he ▸ List.mem_map_of_mem hmem)
          simpa using this
        simp [hn, hrest]
      · have hm' : a ∈ ns.map Prod.fst := by
          rcases List.mem_cons.mp (List.map_cons ▸ hm) with he | hm
          · exact absurd he.symm hn
          · exact hm
        have := ih hd.2 hm'
        simp only [List.filter_cons, bne_iff_ne, ne_eq, hn, not_false_eq_true, if_true,
          List.length_cons]
        omega
  exact haux l.nodes l.distinct h

/-- Changing a node to the value it has changes nothing. -/
theorem modify_eq_self {f : α → α} (h : (a, x) ∈ l.nodes) (hf : f x = x) : l.modify a f = l := by
  apply NodeList.ext
  show l.nodes.map _ = l.nodes
  refine (List.map_congr_left fun n hn => ?_).trans (List.map_id _)
  obtain ⟨b, y⟩ := n
  by_cases hb : b = a
  · subst hb
    obtain rfl := val_unique hn h
    simp [hf]
  · simp [hb]

theorem mapVals_eq_self {f : α → α} (h : ∀ a x, (a, x) ∈ l.nodes → f x = x) :
    l.mapVals f = l := by
  apply NodeList.ext
  show l.nodes.map _ = l.nodes
  refine (List.map_congr_left fun n hn => ?_).trans (List.map_id _)
  rw [h n.1 n.2 hn]
  rfl

theorem mem_mapNodes {f : Nat → α → α} :
    (a, y) ∈ (l.mapNodes f).nodes ↔ ∃ x, (a, x) ∈ l.nodes ∧ y = f a x := by
  show (a, y) ∈ l.nodes.map _ ↔ _
  rw [List.mem_map]
  constructor
  · rintro ⟨⟨c, x⟩, hm, he⟩
    simp only [Prod.mk.injEq] at he
    obtain ⟨rfl, rfl⟩ := he
    exact ⟨x, hm, rfl⟩
  · rintro ⟨x, hm, rfl⟩
    exact ⟨(a, x), hm, rfl⟩

theorem mapNodes_eq_self {f : Nat → α → α} (h : ∀ a x, (a, x) ∈ l.nodes → f a x = x) :
    l.mapNodes f = l := by
  apply NodeList.ext
  show l.nodes.map _ = l.nodes
  refine (List.map_congr_left fun n hn => ?_).trans (List.map_id _)
  rw [h n.1 n.2 hn]
  rfl

/-! ## Values that tell the nodes apart -/

/-- No two nodes hold values that `r` relates. -/
def UniqueBy (l : NodeList α) (r : α → α → Prop) : Prop :=
  ∀ a x b y, (a, x) ∈ l.nodes → (b, y) ∈ l.nodes → r x y → a = b

theorem uniqueBy_nil {r : α → α → Prop} : (nil : NodeList α).UniqueBy r := by
  intro a x b y hx
  exact absurd hx List.not_mem_nil

theorem UniqueBy.cons {r : α → α → Prop} (h : l.UniqueBy r)
    (hl : ∀ b y, (b, y) ∈ l.nodes → ¬ r x y) (hr : ∀ b y, (b, y) ∈ l.nodes → ¬ r y x) :
    (l.cons x).UniqueBy r := by
  intro a u b v hu hv huv
  rcases mem_cons.mp hu with ⟨ha, hx⟩ | hu' <;> rcases mem_cons.mp hv with ⟨hb, hy⟩ | hv'
  · rw [ha, hb]
  · exact absurd (hx ▸ huv) (hl _ _ hv')
  · exact absurd (hy ▸ huv) (hr _ _ hu')
  · exact h _ _ _ _ hu' hv' huv

theorem UniqueBy.erase {r : α → α → Prop} (h : l.UniqueBy r) : (l.erase a).UniqueBy r := by
  intro c u d v hu hv huv
  exact h _ _ _ _ (mem_erase.mp hu).1 (mem_erase.mp hv).1 huv

/-- Changing a node keeps the values apart when the new value is apart from the others. -/
theorem UniqueBy.modify {r : α → α → Prop} {f : α → α} (h : l.UniqueBy r)
    (hl : ∀ x b y, (a, x) ∈ l.nodes → (b, y) ∈ l.nodes → b ≠ a → ¬ r (f x) y)
    (hr : ∀ x b y, (a, x) ∈ l.nodes → (b, y) ∈ l.nodes → b ≠ a → ¬ r y (f x)) :
    (l.modify a f).UniqueBy r := by
  intro c u d v hu hv huv
  obtain ⟨x, hx, rfl⟩ := mem_modify.mp hu
  obtain ⟨y, hy, rfl⟩ := mem_modify.mp hv
  by_cases hc : c = a <;> by_cases hd : d = a
  · rw [hc, hd]
  · simp only [hc, hd, if_true, if_false] at huv hx hy
    exact absurd huv (hl x d y hx hy hd)
  · simp only [hc, hd, if_true, if_false] at huv hx hy
    exact absurd huv (hr y c x hy hx hc)
  · simp only [hc, hd, if_false] at huv
    exact h _ _ _ _ hx hy huv

/-- A change to one node that keeps what `r` looks at keeps the values apart. -/
theorem UniqueBy.modify_keeping {r : α → α → Prop} {f : α → α} (h : l.UniqueBy r)
    (hl : ∀ x y, r (f x) y → r x y) (hr : ∀ x y, r y (f x) → r y x) :
    (l.modify a f).UniqueBy r :=
  h.modify (fun x b y hx hy hb hxy => hb (h a x b y hx hy (hl x y hxy)).symm)
    (fun x b y hx hy hb hyx => hb (h b y a x hy hx (hr x y hyx)))

/-- A change that keeps what `r` looks at keeps the values apart. -/
theorem UniqueBy.mapVals {r : α → α → Prop} {f : α → α} (h : l.UniqueBy r)
    (hf : ∀ x y, r (f x) (f y) → r x y) : (l.mapVals f).UniqueBy r := by
  intro c u d v hu hv huv
  obtain ⟨x, hx, rfl⟩ := mem_mapVals.mp hu
  obtain ⟨y, hy, rfl⟩ := mem_mapVals.mp hv
  exact h _ _ _ _ hx hy (hf _ _ huv)

end NodeList
