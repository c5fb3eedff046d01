import StackQueue.Deque.Basic

/-! Segments of linked slots. A segment is a list of slot indices, front to back, in which each
slot links forward to the one after it and back to the one before; the first links back to a
given `prev` and the last forward to a given `next`. The chain of a container is a segment that
links to nothing at either end. A segment depends only on the links of its own slots, and adding
or removing a slot at either end changes the links of at most two of them.

Every update of the slot array that the container makes has its lemmas here, for the links and
for the values it leaves. -/

namespace StackQueue.Deque

/-- The links of slot `i`, back and forward, if the slot exists. -/
def linksAt (slots : Array Slot) (i : Nat) : Option (Option Nat × Option Nat) :=
  slots[i]?.map fun s => (s.prev, s.next)

/-- The value of slot `i`, if the slot exists. -/
def valueAt (slots : Array Slot) (i : Nat) : Option Word :=
  slots[i]?.map Slot.value

theorem toList_eq_filterMap (d : Deque) : d.toList = d.ids.filterMap (valueAt d.slots) := rfl

theorem isSome_linksAt {slots : Array Slot} {i : Nat} :
    (linksAt slots i).isSome ↔ i < slots.size := by
  simp [linksAt]

theorem isSome_valueAt {slots : Array Slot} {i : Nat} :
    (valueAt slots i).isSome ↔ i < slots.size := by
  simp [valueAt]

/-- Slots that all exist have one value each. -/
theorem length_filterMap_valueAt {slots : Array Slot} {l : List Nat}
    (hl : ∀ j ∈ l, j < slots.size) : (l.filterMap (valueAt slots)).length = l.length := by
  rw [List.length_filterMap_eq_countP, List.countP_eq_length]
  intro j hj
  simpa using isSome_valueAt.mpr (hl j hj)

/-! ### Links and values after an update -/

section Updates

variable (slots : Array Slot) (i j : Nat)

@[simp] theorem linksAt_setNext (n : Option Nat) :
    linksAt (setNext slots i n) j =
      if i = j then (linksAt slots j).map fun lk => (lk.1, n) else linksAt slots j := by
  unfold linksAt setNext
  rw [Array.getElem?_modify]
  split <;> simp [Option.map_map, Function.comp_def]

@[simp] theorem linksAt_setPrev (p : Option Nat) :
    linksAt (setPrev slots i p) j =
      if i = j then (linksAt slots j).map fun lk => (p, lk.2) else linksAt slots j := by
  unfold linksAt setPrev
  rw [Array.getElem?_modify]
  split <;> simp [Option.map_map, Function.comp_def]

@[simp] theorem linksAt_modify_links (p n : Option Nat) :
    linksAt (slots.modify i fun s => { s with prev := p, next := n }) j =
      if i = j then (linksAt slots j).map fun _ => (p, n) else linksAt slots j := by
  unfold linksAt
  rw [Array.getElem?_modify]
  split <;> simp [Option.map_map, Function.comp_def]

@[simp] theorem linksAt_modify_value (v : Word) :
    linksAt (slots.modify i fun s => { s with value := v }) j = linksAt slots j := by
  unfold linksAt
  rw [Array.getElem?_modify]
  split <;> simp_all [Option.map_map, Function.comp_def]

@[simp] theorem linksAt_setIfInBounds (v : Word) :
    linksAt (slots.setIfInBounds i ⟨v, none, none⟩) j =
      if i = j then (if i < slots.size then some (none, none) else none) else linksAt slots j := by
  unfold linksAt
  rw [Array.getElem?_setIfInBounds]
  split
  · split <;> rfl
  · rfl

@[simp] theorem linksAt_push (s : Slot) :
    linksAt (slots.push s) j =
      if j = slots.size then some (s.prev, s.next) else linksAt slots j := by
  unfold linksAt
  rw [Array.getElem?_push]
  split <;> rfl

@[simp] theorem valueAt_setNext (n : Option Nat) :
    valueAt (setNext slots i n) j = valueAt slots j := by
  unfold valueAt setNext
  rw [Array.getElem?_modify]
  split <;> simp_all [Option.map_map, Function.comp_def]

@[simp] theorem valueAt_setPrev (p : Option Nat) :
    valueAt (setPrev slots i p) j = valueAt slots j := by
  unfold valueAt setPrev
  rw [Array.getElem?_modify]
  split <;> simp_all [Option.map_map, Function.comp_def]

@[simp] theorem valueAt_modify_links (p n : Option Nat) :
    valueAt (slots.modify i fun s => { s with prev := p, next := n }) j = valueAt slots j := by
  unfold valueAt
  rw [Array.getElem?_modify]
  split <;> simp_all [Option.map_map, Function.comp_def]

@[simp] theorem valueAt_modify_value (v : Word) :
    valueAt (slots.modify i fun s => { s with value := v }) j =
      if i = j then (valueAt slots j).map fun _ => v else valueAt slots j := by
  unfold valueAt
  rw [Array.getElem?_modify]
  split <;> simp [Option.map_map, Function.comp_def]

@[simp] theorem valueAt_setIfInBounds (v : Word) :
    valueAt (slots.setIfInBounds i ⟨v, none, none⟩) j =
      if i = j then (if i < slots.size then some v else none) else valueAt slots j := by
  unfold valueAt
  rw [Array.getElem?_setIfInBounds]
  split
  · split <;> rfl
  · rfl

@[simp] theorem valueAt_push (s : Slot) :
    valueAt (slots.push s) j = if j = slots.size then some s.value else valueAt slots j := by
  unfold valueAt
  rw [Array.getElem?_push]
  split <;> rfl

end Updates

/-! ### Segments -/

/-- `Segment slots prev first l last next`: the slots `l`, front to back, link to each other both
ways; `first` and `last` are the first and the last of them, the first links back to `prev` and
the last forward to `next`. An empty segment starts at `next` and ends at `prev`. -/
inductive Segment (slots : Array Slot) :
    Option Nat → Option Nat → List Nat → Option Nat → Option Nat → Prop
  | nil (prev next : Option Nat) : Segment slots prev next [] prev next
  | cons {i : Nat} {prev first last next : Option Nat} {l : List Nat} :
      linksAt slots i = some (prev, first) → Segment slots (some i) first l last next →
      Segment slots prev (some i) (i :: l) last next

namespace Segment

variable {slots slots' : Array Slot} {prev first last next : Option Nat} {l : List Nat}

theorem nil_inv (h : Segment slots prev first [] last next) : first = next ∧ last = prev := by
  cases h
  exact ⟨rfl, rfl⟩

theorem cons_inv {i : Nat} (h : Segment slots prev first (i :: l) last next) :
    first = some i ∧
      ∃ f, linksAt slots i = some (prev, f) ∧ Segment slots (some i) f l last next := by
  cases h with
  | cons hi hl => exact ⟨rfl, _, hi, hl⟩

/-- A segment depends only on the links of its own slots. -/
theorem frame (h : Segment slots prev first l last next)
    (hs : ∀ j ∈ l, linksAt slots' j = linksAt slots j) :
    Segment slots' prev first l last next := by
  induction h with
  | nil prev next => exact .nil prev next
  | cons hi _ ih =>
    exact .cons ((hs _ List.mem_cons_self).trans hi)
      (ih fun j hj => hs j (List.mem_cons_of_mem _ hj))

/-- A slot that links back to the last of a segment, which links forward to it, extends the
segment at its back. -/
theorem snoc {i : Nat} (h : Segment slots prev first l last (some i))
    (hi : linksAt slots i = some (last, next)) :
    Segment slots prev first (l ++ [i]) (some i) next := by
  induction l generalizing prev first with
  | nil =>
    obtain ⟨rfl, rfl⟩ := h.nil_inv
    exact .cons hi (.nil _ _)
  | cons j l ih =>
    obtain ⟨rfl, f, hj, hl⟩ := h.cons_inv
    exact .cons hj (ih hl)

/-- The last slot of a segment links back to the last of the rest, which links forward to it. -/
theorem of_snoc {i : Nat} (h : Segment slots prev first (l ++ [i]) last next) :
    last = some i ∧
      ∃ y, Segment slots prev first l y (some i) ∧ linksAt slots i = some (y, next) := by
  induction l generalizing prev first with
  | nil =>
    obtain ⟨rfl, f, hi, hl⟩ := h.cons_inv
    obtain ⟨rfl, rfl⟩ := hl.nil_inv
    exact ⟨rfl, prev, .nil _ _, hi⟩
  | cons j l ih =>
    obtain ⟨rfl, f, hj, hl⟩ := h.cons_inv
    obtain ⟨hlast, y, hy, hi⟩ := ih hl
    exact ⟨hlast, y, .cons hj hy, hi⟩

/-- Two segments make one when the second starts where the first ends. -/
theorem append {l₁ l₂ : List Nat} {x y : Option Nat} (h₁ : Segment slots prev first l₁ x y)
    (h₂ : Segment slots x y l₂ last next) : Segment slots prev first (l₁ ++ l₂) last next := by
  induction h₁ with
  | nil => exact h₂
  | cons hi _ ih => exact .cons hi (ih h₂)

/-- A segment splits anywhere into two, the second starting where the first ends. -/
theorem split {l₁ l₂ : List Nat} (h : Segment slots prev first (l₁ ++ l₂) last next) :
    ∃ x y, Segment slots prev first l₁ x y ∧ Segment slots x y l₂ last next := by
  induction l₁ generalizing prev first with
  | nil => exact ⟨prev, first, .nil _ _, h⟩
  | cons i l₁ ih =>
    obtain ⟨rfl, f, hi, hrest⟩ := h.cons_inv
    obtain ⟨x, y, h₁, h₂⟩ := ih hrest
    exact ⟨x, y, .cons hi h₁, h₂⟩

theorem first_eq (h : Segment slots prev first l last next) : first = l.head?.or next := by
  cases l with
  | nil => exact h.nil_inv.1
  | cons i l => exact h.cons_inv.1

theorem last_eq (h : Segment slots prev first l last next) : last = l.getLast?.or prev := by
  rcases List.eq_nil_or_concat l with rfl | ⟨l, i, rfl⟩
  · exact h.nil_inv.2
  · rw [List.concat_eq_append] at h ⊢
    simpa using h.of_snoc.1

theorem lt_size (h : Segment slots prev first l last next) {j : Nat} (hj : j ∈ l) :
    j < slots.size := by
  induction h with
  | nil => cases hj
  | @cons i _ _ _ _ _ hi _ ih =>
    rcases List.mem_cons.mp hj with rfl | hj
    · exact isSome_linksAt.mp (by simp [hi])
    · exact ih hj

/-- A segment that ends in no link and starts at slot `i` has `i` first. -/
theorem exists_cons {i : Nat} (h : Segment slots prev (some i) l last none) :
    ∃ t, l = i :: t := by
  cases l with
  | nil => cases h.nil_inv.1
  | cons j t => exact ⟨t, by rw [Option.some.inj h.cons_inv.1]⟩

/-- A segment that starts nowhere has no slot. -/
theorem eq_nil_of_first (h : Segment slots prev none l last next) : l = [] := by
  cases l with
  | nil => rfl
  | cons j t => cases h.cons_inv.1

/-- A segment that links back to nothing and ends at slot `i` has `i` last. -/
theorem exists_snoc {i : Nat} (h : Segment slots none first l (some i) next) :
    ∃ t, l = t ++ [i] := by
  rcases List.eq_nil_or_concat l with rfl | ⟨t, j, rfl⟩
  · cases h.nil_inv.2
  · rw [List.concat_eq_append] at h ⊢
    exact ⟨t, by rw [Option.some.inj h.of_snoc.1]⟩

/-- A segment that links back to nothing and ends nowhere has no slot. -/
theorem eq_nil_of_last (h : Segment slots none first l none next) : l = [] := by
  rcases List.eq_nil_or_concat l with rfl | ⟨t, j, rfl⟩
  · rfl
  · rw [List.concat_eq_append] at h
    cases h.of_snoc.1

/-- Following the forward links from the first slot of a segment that ends in no link meets its
slots in order and stops, given at least as many steps as it has slots. -/
theorem chainFrom_eq (h : Segment slots prev first l last none) {fuel : Nat}
    (hfuel : l.length ≤ fuel) : chainFrom slots fuel first = l := by
  induction l generalizing prev first fuel with
  | nil =>
    obtain ⟨rfl, -⟩ := h.nil_inv
    cases fuel <;> rfl
  | cons i l ih =>
    obtain ⟨rfl, f, hi, hl⟩ := h.cons_inv
    obtain ⟨fuel, rfl⟩ : ∃ k, fuel = k + 1 := ⟨fuel - 1, by simp at hfuel; omega⟩
    obtain ⟨s, hs, hlinks⟩ := Option.map_eq_some_iff.mp hi
    simp only [Prod.mk.injEq] at hlinks
    simp only [chainFrom, hs, hlinks.2, ih hl (by simp at hfuel; omega)]

end Segment

end StackQueue.Deque
