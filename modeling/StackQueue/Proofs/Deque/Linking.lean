import StackQueue.Proofs.Deque.Refinement

/-! Taking a slot out of the chain and putting one back. `unlink` takes a slot from anywhere on
the chain: the front, the back, the only slot, or one between two others, whose links it joins.
It leaves the rest of the chain sound and the slot detached, linking to nothing and on neither the
chain nor the free list, still holding its value; the values read from the front lose that value
at its place, and the front and the back move only when the slot was there. Linking a detached
slot at either end puts its value at that end and makes the chain whole again. The rotations are
an unlink and a link of the same slot, so these are the laws that both rest on. -/

namespace StackQueue.Deque

variable {d : Deque} {l : List Nat} {i : Nat}

@[simp] theorem free_unlink (i : Nat) : (d.unlink i).free = d.free := by
  unfold Deque.unlink
  split
  · rfl
  · split <;> split <;> rfl

/-- An unlinked slot links to nothing. -/
theorem linksAt_unlink_self (hi : i < d.slots.size) :
    linksAt (d.unlink i).slots i = some (none, none) := by
  obtain ⟨⟨v, p, n⟩, hs⟩ : ∃ s, d.slots[i]? = some s :=
    Option.isSome_iff_exists.mp (by simpa using hi)
  have hlinks : linksAt d.slots i = some (p, n) := by simp [linksAt, hs]
  unfold Deque.unlink
  rw [hs]
  cases p <;> cases n <;> simp [hlinks]

/-! ### Detached slots -/

namespace Detached

theorem head_eq (h : d.Detached l i) : d.head = l.head? := h.release.head_eq

theorem tail_eq (h : d.Detached l i) : d.tail = l.getLast? := h.release.tail_eq

end Detached

/-! ### Unlinking anywhere on the chain -/

namespace Chain

variable {c₁ c₂ : List Nat}

/-- Unlinking a slot between two others links them to each other, and leaves the slot detached
and the ends of the chain where they were. -/
theorem unlink_interior {p n : Nat} (h : d.Chain (c₁ ++ p :: i :: n :: c₂)) :
    (d.unlink i).Detached (c₁ ++ p :: n :: c₂) i := by
  obtain ⟨x, y, h₁, h₂⟩ := h.segment.split
  obtain ⟨rfl, f, hp, h₂⟩ := h₂.cons_inv
  obtain ⟨rfl, g, hi, h₂⟩ := h₂.cons_inv
  obtain ⟨rfl, e, hn, h₂⟩ := h₂.cons_inv
  obtain ⟨s, hs, hsl⟩ := Option.map_eq_some_iff.mp hi
  obtain ⟨hprev, hnext⟩ := Prod.mk.inj hsl
  -- the three slots are distinct and appear nowhere else on the chain
  have hnd : (p :: i :: n :: (c₁ ++ c₂)).Nodup := by
    refine (List.Perm.nodup_iff ?_).mp (List.nodup_append.mp h.nodup).1
    exact List.perm_middle.trans (.cons _ (List.perm_middle.trans (.cons _ List.perm_middle)))
  simp only [List.nodup_cons, List.mem_cons, List.mem_append, not_or] at hnd
  obtain ⟨⟨hpi, hpn, hpc₁, hpc₂⟩, ⟨hin, hic₁, hic₂⟩, ⟨hnc₁, hnc₂⟩, -⟩ := hnd
  have hlen := h.length_eq
  unfold Deque.unlink
  rw [hs]
  simp only [hprev, hnext]
  refine ⟨(h₁.frame fun j hj => ?_).append (.cons ?_ (.cons ?_ (h₂.frame fun j hj => ?_))), ?_,
    ?_⟩
  · have : i ≠ j := fun e => hic₁ (e ▸ hj)
    have : p ≠ j := fun e => hpc₁ (e ▸ hj)
    have : n ≠ j := fun e => hnc₁ (e ▸ hj)
    simp [*]
  · simp [Ne.symm hpi, Ne.symm hpn, hp]
  · simp [hpn, hin, hn]
  · have : i ≠ j := fun e => hic₂ (e ▸ hj)
    have : p ≠ j := fun e => hpc₂ (e ▸ hj)
    have : n ≠ j := fun e => hnc₂ (e ▸ hj)
    simp [*]
  · simp at hlen ⊢
    omega
  · have hmid := @List.perm_middle _ i (c₁ ++ [p]) (n :: (c₂ ++ d.free))
    have hchain := h.perm
    simp only [List.append_assoc, List.cons_append, List.nil_append] at hmid hchain
    simpa using hmid.symm.trans hchain

/-- Unlinking a slot anywhere on the chain leaves the rest of the chain, and the slot detached. -/
theorem unlink_mem (h : d.Chain (c₁ ++ i :: c₂)) : (d.unlink i).Detached (c₁ ++ c₂) i := by
  rcases List.eq_nil_or_concat c₁ with rfl | ⟨c₁, p, rfl⟩
  · exact h.unlink_front
  · rw [List.concat_eq_append] at h ⊢
    cases c₂ with
    | nil =>
      rw [List.append_nil]
      exact h.unlink_back
    | cons n c₂ =>
      rw [List.append_assoc, List.singleton_append] at h ⊢
      exact h.unlink_interior

theorem head_unlink (h : d.Chain (c₁ ++ i :: c₂)) (hc₁ : c₁ ≠ []) :
    (d.unlink i).head = d.head := by
  rw [h.unlink_mem.head_eq, h.head_eq, List.head?_append_of_ne_nil _ hc₁,
    List.head?_append_of_ne_nil _ hc₁]

theorem tail_unlink (h : d.Chain (c₁ ++ i :: c₂)) (hc₂ : c₂ ≠ []) :
    (d.unlink i).tail = d.tail := by
  have hlast : (c₁ ++ i :: c₂).getLast? = c₂.getLast? := by
    rw [← List.singleton_append, ← List.append_assoc, List.getLast?_append_of_ne_nil _ hc₂]
  rw [h.unlink_mem.tail_eq, h.tail_eq, hlast, List.getLast?_append_of_ne_nil _ hc₂]

theorem size_unlink_add_one (h : d.Chain (c₁ ++ i :: c₂)) : (d.unlink i).size + 1 = d.size := by
  have hdet := h.unlink_mem.length_eq
  have hlen := h.length_eq
  simp only [List.length_append, List.length_cons] at hdet hlen
  omega

/-- On a chain that reads `l₁ ++ v :: l₂` with the slot at the place of `v`, the slot holds `v`,
and unlinking it leaves `l₁ ++ l₂`. -/
theorem unlink_reads {l₁ l₂ : List Word} {v : Word} (h : d.Chain (c₁ ++ i :: c₂))
    (hl : d.toList = l₁ ++ v :: l₂) (hlen : l₁.length = c₁.length) :
    valueAt d.slots i = some v ∧ (d.unlink i).toList = l₁ ++ l₂ := by
  obtain ⟨w, hw⟩ := h.valueAt_some (List.mem_append_right _ List.mem_cons_self)
  have hread :
      d.toList = c₁.filterMap (valueAt d.slots) ++ w :: c₂.filterMap (valueAt d.slots) := by
    rw [h.toList_eq, List.filterMap_append, List.filterMap_cons_some hw]
  have hfront : (c₁.filterMap (valueAt d.slots)).length = c₁.length :=
    length_filterMap_valueAt fun j hj => h.lt_size (List.mem_append_left _ hj)
  obtain ⟨rfl, hrest⟩ := List.append_inj (hl.symm.trans hread) (hlen.trans hfront.symm)
  obtain ⟨rfl, rfl⟩ := List.cons.inj hrest
  refine ⟨hw, ?_⟩
  rw [h.unlink_mem.toList_eq, valueAt_unlink, List.filterMap_append]

end Chain

/-- Unlinking a slot anywhere on the chain, at the front, at the back or between two others,
detaches it: it links to nothing, is on neither the chain nor the free list, and keeps its value,
which the values read from the front lose at its place; the container holds one value fewer,
keeps its free list, and keeps its front and back unless the slot was there. Linking a detached
slot at the front or the back makes the chain whole again with its value at that end. -/
theorem unlink_detaches_link_attaches :
    (∀ (d : Deque) (c₁ c₂ : List Nat) (i : Nat) (l₁ l₂ : List Word) (v : Word),
      d.Chain (c₁ ++ i :: c₂) → d.toList = l₁ ++ v :: l₂ → l₁.length = c₁.length →
        (d.unlink i).Detached (c₁ ++ c₂) i ∧ i ∉ (c₁ ++ c₂) ++ (d.unlink i).free ∧
        linksAt (d.unlink i).slots i = some (none, none) ∧
        valueAt (d.unlink i).slots i = some v ∧ (d.unlink i).toList = l₁ ++ l₂ ∧
        (d.unlink i).size + 1 = d.size ∧ (d.unlink i).free = d.free ∧
        (c₁ ≠ [] → (d.unlink i).head = d.head) ∧ (c₂ ≠ [] → (d.unlink i).tail = d.tail)) ∧
    (∀ (d : Deque) (c : List Nat) (i : Nat) (v : Word), d.Detached c i →
      valueAt d.slots i = some v →
        (d.linkFront i).Chain (i :: c) ∧ (d.linkFront i).toList = v :: d.toList ∧
        (d.linkBack i).Chain (c ++ [i]) ∧ (d.linkBack i).toList = d.toList ++ [v]) := by
  refine ⟨fun d c₁ c₂ i l₁ l₂ v h hl hlen => ?_, fun d c i v h hv => ?_⟩
  · have hdet := h.unlink_mem
    obtain ⟨hv, hread⟩ := h.unlink_reads hl hlen
    have hi : i < d.slots.size := h.lt_size (List.mem_append_right _ List.mem_cons_self)
    exact ⟨hdet, hdet.not_mem, linksAt_unlink_self hi, by rw [valueAt_unlink]; exact hv, hread,
      h.size_unlink_add_one, free_unlink i, h.head_unlink, h.tail_unlink⟩
  · exact ⟨h.linkFront, h.toList_linkFront hv, h.linkBack, h.toList_linkBack hv⟩

/-- Three values pushed on a stack sit in slots 2, 1 and 0 from the front. Unlinking the middle
slot leaves the other two values, and both ends where they were. -/
theorem unlink_middle_of_three :
    let d := (((Deque.empty .stack).pushFront 1).pushFront 2).pushFront 3
    d.Chain ([2] ++ 1 :: [0]) ∧ d.toList = [3] ++ 2 :: [1] ∧
      (d.unlink 1).toList = [3] ++ [1] ∧ (d.unlink 1).head = d.head ∧
      (d.unlink 1).tail = d.tail := by
  intro d
  have hc : d.Chain ([2] ++ 1 :: [0]) :=
    (((Chain.empty .stack).pushFront 1).pushFront 2).pushFront 3
  have hread : d.toList = [3] ++ 2 :: [1] := by decide +kernel
  obtain ⟨-, -, -, -, hlist, -, -, hhead, htail⟩ :=
    unlink_detaches_link_attaches.1 d [2] [0] 1 [3] [1] 2 hc hread rfl
  exact ⟨hc, hread, hlist, hhead (List.cons_ne_nil _ _), htail (List.cons_ne_nil _ _)⟩

end StackQueue.Deque
