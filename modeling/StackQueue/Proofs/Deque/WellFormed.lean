import StackQueue.Proofs.Deque.Invariant

/-! The slots of every container that calls build are sound. The walk from the front meets one
slot per value, each linked forward to the next and back to the one before, from the front slot
to the back slot; the chain and the free list hold every slot of the array once; every index the
container holds names a slot, so no operation reads or writes past the array, and the walk stops
by itself. The array never has more slots than the container has had values since it was made
or last emptied, because a free slot is always reused before the array grows. -/

namespace StackQueue.Deque

/-- Every slot index the container holds names a slot: its two ends, its free slots, and the
links of the slots on its chain. -/
def Indexed (d : Deque) : Prop :=
  (∀ i ∈ d.head, i < d.slots.size) ∧ (∀ i ∈ d.tail, i < d.slots.size) ∧
    (∀ i ∈ d.free, i < d.slots.size) ∧
    ∀ j ∈ d.ids, ∀ p n, linksAt d.slots j = some (p, n) →
      (∀ i ∈ p, i < d.slots.size) ∧ ∀ i ∈ n, i < d.slots.size

/-- The sound shape of a container's slots. -/
structure WellFormed (d : Deque) : Prop where
  segment : Segment d.slots none d.head d.ids d.tail none
  length_ids : d.ids.length = d.size
  perm : (d.ids ++ d.free).Perm (List.range d.slots.size)
  head_eq_none : d.head = none ↔ d.size = 0
  tail_eq_none : d.tail = none ↔ d.size = 0
  size_slots : d.slots.size = d.size + d.free.length
  indexed : d.Indexed
  walk_stops : ∀ fuel, d.size ≤ fuel → chainFrom d.slots fuel d.head = d.ids
  length_toList : d.toList.length = d.size

/-- The links of a slot of a segment lead to slots of the segment, or to its own ends. -/
theorem Segment.links_mem {slots : Array Slot} {prev first last next : Option Nat}
    {l : List Nat} (h : Segment slots prev first l last next) {j : Nat} (hj : j ∈ l)
    {p n : Option Nat} (hl : linksAt slots j = some (p, n)) :
    (∀ i ∈ p, i ∈ l ∨ some i = prev) ∧ ∀ i ∈ n, i ∈ l ∨ some i = next := by
  induction l generalizing prev first with
  | nil => cases hj
  | cons k t ih =>
    obtain ⟨-, f, hk, hrest⟩ := h.cons_inv
    rcases List.mem_cons.mp hj with rfl | hj
    · obtain ⟨rfl, rfl⟩ := Prod.mk.inj (Option.some.inj (hl.symm.trans hk))
      refine ⟨fun i hi => .inr (Option.mem_def.mp hi).symm, fun i hi => ?_⟩
      rw [hrest.first_eq] at hi
      cases t with
      | nil => exact .inr (by simpa using hi.symm)
      | cons m t =>
        simp only [List.head?_cons, Option.some_or, Option.mem_def, Option.some.injEq] at hi
        exact .inl (hi ▸ List.mem_cons_of_mem _ List.mem_cons_self)
    · obtain ⟨hp, hn⟩ := ih hrest hj
      refine ⟨fun i hi => ?_, fun i hi => ?_⟩
      · rcases hp i hi with hm | he
        · exact .inl (List.mem_cons_of_mem _ hm)
        · exact .inl (Option.some.inj he ▸ List.mem_cons_self)
      · rcases hn i hi with hm | he
        · exact .inl (List.mem_cons_of_mem _ hm)
        · exact .inr he

variable {d : Deque} {l : List Nat}

theorem Chain.indexed (h : d.Chain l) : d.Indexed := by
  refine ⟨fun i hi => ?_, fun i hi => ?_, fun i hi => ?_, fun j hj p n hl => ?_⟩
  · rw [h.head_eq] at hi
    exact h.lt_size (List.mem_of_mem_head? hi)
  · rw [h.tail_eq] at hi
    exact h.lt_size (List.mem_of_mem_getLast? hi)
  · exact h.mem_iff.mp (List.mem_append_right _ hi)
  · rw [h.ids_eq] at hj
    obtain ⟨hp, hn⟩ := h.segment.links_mem hj hl
    refine ⟨fun i hi => ?_, fun i hi => ?_⟩
    · rcases hp i hi with hm | he
      · exact h.lt_size hm
      · cases he
    · rcases hn i hi with hm | he
      · exact h.lt_size hm
      · cases he

theorem Chain.wellFormed (h : d.Chain l) : d.WellFormed := by
  have hids := h.ids_eq
  have hlen := h.length_eq
  have hslots : d.slots.size = d.size + d.free.length := by
    rw [← List.length_range (n := d.slots.size), ← h.perm.length_eq, List.length_append, hlen]
  have hvalues : (l.filterMap (valueAt d.slots)).length = l.length :=
    length_filterMap_valueAt fun j hj => h.lt_size hj
  refine ⟨hids ▸ h.segment, hids ▸ hlen, hids ▸ h.perm, ?_, ?_, hslots, h.indexed, ?_, ?_⟩
  · rw [h.head_eq, List.head?_eq_none_iff, ← hlen, List.length_eq_zero_iff]
  · rw [h.tail_eq, List.getLast?_eq_none_iff, ← hlen, List.length_eq_zero_iff]
  · intro fuel hfuel
    rw [hids]
    exact h.segment.chainFrom_eq (hlen ▸ hfuel)
  · rw [h.toList_eq, hvalues, hlen]

/-! ### The size of the array -/

theorem Chain.size_pushFront (h : d.Chain l) (v : Word) :
    (d.pushFront v).slots.size = max d.slots.size (d.pushFront v).size := by
  have hlen := (h.pushFront v).length_eq
  show ((d.allocate v).1.linkFront (d.allocate v).2).slots.size = _
  rw [size_linkFront, (h.allocate v).2.2.2, ← hlen, List.length_cons, h.length_eq]

theorem Chain.size_pushBack (h : d.Chain l) (v : Word) :
    (d.pushBack v).slots.size = max d.slots.size (d.pushBack v).size := by
  have hlen := (h.pushBack v).length_eq
  show ((d.allocate v).1.linkBack (d.allocate v).2).slots.size = _
  rw [size_linkBack, (h.allocate v).2.2.2, ← hlen, List.length_append, List.length_singleton,
    h.length_eq]

/-- A call other than `releaseAll` adds a slot only to hold a value the container has no free
slot for. -/
theorem Chain.size_call (h : d.Chain l) {c : Call} (hc : c ≠ .releaseAll) :
    (d.call c).2.slots.size ≤ max d.slots.size (d.call c).2.size := by
  cases c with
  | push v =>
    show (d.push v).slots.size ≤ max d.slots.size (d.push v).size
    unfold Deque.push
    split
    · exact Nat.le_of_eq (h.size_pushFront v)
    · exact Nat.le_of_eq (h.size_pushBack v)
  | pushFront v => exact Nat.le_of_eq (h.size_pushFront v)
  | pushBack v => exact Nat.le_of_eq (h.size_pushBack v)
  | popFront line =>
    simp only [Deque.call, Deque.popFront, Deque.takeFront?]
    cases d.front? <;> simp only [size_dropFront, Nat.le_max_left]
  | peekFront line =>
    simp only [Deque.call]
    split <;> simp only [Nat.le_max_left]
  | takeFront =>
    simp only [Deque.call, Deque.takeFront?]
    cases d.front? <;> simp only [size_dropFront, Nat.le_max_left]
  | takeBack =>
    simp only [Deque.call, Deque.takeBack?]
    cases d.back? <;> simp only [size_dropBack, Nat.le_max_left]
  | swapFront =>
    simp only [Deque.call, Deque.swapFront?]
    cases d.frontPair? <;> simp only [size_swapFront, Nat.le_max_left]
  | setFront v =>
    simp only [Deque.call, Deque.setFront?]
    cases d.front? <;> simp only [size_setFront, Nat.le_max_left]
  | releaseAll => exact absurd rfl hc
  | front | back | rotateLeft | rotateRight | setMode _ =>
    simp only [Deque.call, Deque.setMode, size_rotateLeft, size_rotateRight, Nat.le_max_left]

/-- Along calls from an empty container there is always a chain, and the array never has more
slots than the largest size since the container was made or last emptied. -/
theorem Reaches.chain_size {peak : Nat} (h : d.Reaches peak) :
    ∃ l, d.Chain l ∧ d.slots.size ≤ peak := by
  induction h with
  | empty mode => exact ⟨[], Chain.empty mode, Nat.le_refl 0⟩
  | call c hc _ ih =>
    obtain ⟨l, hl, hsize⟩ := ih
    obtain ⟨l', hl'⟩ := hl.call c
    have hgrow := hl.size_call hc
    exact ⟨l', hl', by omega⟩
  | @releaseAll d _ _ ih =>
    obtain ⟨l, hl, -⟩ := ih
    have hempty : (d.call .releaseAll).2 = Deque.empty d.mode := hl.releaseAll_eq
    rw [hempty]
    exact ⟨[], Chain.empty d.mode, Nat.le_refl 0⟩

/-- Every sequence of calls from an empty container leaves its slots sound, and leaves the
array no larger than the largest size since the container was made or last emptied. -/
theorem wellFormed_of_reaches {peak : Nat} (h : d.Reaches peak) :
    d.WellFormed ∧ d.slots.size ≤ peak := by
  obtain ⟨l, hl, hsize⟩ := h.chain_size
  exact ⟨hl.wellFormed, hsize⟩

/-- Two pushes, a removal from the front and a push: the last push reuses the freed slot. -/
theorem wellFormed_after_reuse :
    let d := ((((Deque.empty .stack).call (.push 1)).2.call (.push 2)).2.call .takeFront).2.call
      (.push 3) |>.2
    d.Reaches 2 ∧ d.WellFormed ∧ d.slots.size ≤ 2 :=
  have h : Deque.Reaches _ 2 :=
    .call (.push 3) (by decide) (.call .takeFront (by decide)
      (.call (.push 2) (by decide) (.call (.push 1) (by decide) (.empty .stack))))
  ⟨h, wellFormed_of_reaches h⟩

end StackQueue.Deque
