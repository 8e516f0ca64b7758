import Mathlib.Data.List.Chain
import Mathlib.Data.List.Nodup

/-!
# Circular doubly linked lists

Nodes linked by two pointers each, through a head that is not an element.  `Ring` relates the
pointers to the list of elements; adding a node at the end and removing one are the two edits.
-/

/-- The pointers of each node, `none` for a null pointer. -/
structure Links (α : Type*) where
  next : α → Option α
  prev : α → Option α

namespace Links

variable {α : Type*} [DecidableEq α]

def setNext (links : Links α) (a : α) (b : Option α) : Links α :=
  { links with next := Function.update links.next a b }

def setPrev (links : Links α) (a : α) (b : Option α) : Links α :=
  { links with prev := Function.update links.prev a b }

/-- A new node in front of the head; `none` where a null pointer is followed. -/
def addAtEnd (links : Links α) (new head : α) : Option (Links α) := do
  let last ← links.prev head
  let links := links.setNext last (some new)
  let links := links.setPrev new (links.prev head)
  let links := links.setNext new (some head)
  return links.setPrev head (some new)

/-- The neighbours of a node are linked to each other. -/
def remove (links : Links α) (node : α) : Option (Links α) := do
  let next ← links.next node
  let links := links.setPrev next (links.prev node)
  let prev ← links.prev node
  return links.setNext prev (links.next node)

def clear (links : Links α) (node : α) : Links α := (links.setNext node none).setPrev node none

/-- Two nodes are linked both ways. -/
def Linked (links : Links α) (a b : α) : Prop := links.next a = some b ∧ links.prev b = some a

/-- The elements of the circular list, in the order of the `next` pointers. -/
structure Ring (links : Links α) (head : α) (l : List α) : Prop where
  chain : (head :: l ++ [head]).IsChain links.Linked
  nodup : (head :: l).Nodup

variable {links links' : Links α} {head a x : α} {l l₁ l₂ : List α}

omit [DecidableEq α] in
/-- A chain reads the `next` pointers of all nodes but the last and the `prev` pointers of all but the
first. -/
theorem isChain_congr (h : l.IsChain links.Linked) (hnext : ∀ a ∈ l.dropLast, links'.next a = links.next a)
    (hprev : ∀ a ∈ l.tail, links'.prev a = links.prev a) : l.IsChain links'.Linked := by
  induction h with
  | nil => exact .nil
  | singleton a => exact .singleton a
  | cons_cons hab _ ih =>
    refine .cons_cons ⟨?_, ?_⟩ (ih (fun a ha => hnext a ?_) fun a ha => hprev a ?_)
    · exact (hnext _ (by simp)).trans hab.1
    · exact (hprev _ (by simp)).trans hab.2
    · rw [List.dropLast_cons_cons]
      exact List.mem_cons_of_mem _ ha
    · exact List.mem_of_mem_tail ha

omit [DecidableEq α] in
theorem ring_nil_iff : Ring links head [] ↔ links.next head = some head ∧ links.prev head = some head := by
  refine ⟨fun h => ?_, fun h => ⟨?_, by simp⟩⟩
  · have hchain := h.chain
    simpa [Linked] using hchain
  · simpa [Linked] using h

omit [DecidableEq α] in
theorem Ring.congr (h : Ring links head l) (hnext : ∀ a ∈ head :: l, links'.next a = links.next a)
    (hprev : ∀ a ∈ head :: l, links'.prev a = links.prev a) : Ring links' head l := by
  refine ⟨isChain_congr h.chain (fun a ha => hnext a ?_) (fun a ha => hprev a ?_), h.nodup⟩
  · rwa [List.dropLast_concat] at ha
  · rw [List.cons_append, List.tail_cons, List.mem_append, List.mem_singleton] at ha
    exact List.mem_cons.2 ha.symm

omit [DecidableEq α] in
/-- The nodes in front of an element and behind it, around the ring. -/
theorem Ring.split (h : Ring links head (l₁ ++ x :: l₂)) :
    ∃ A a b B, head :: l₁ = A ++ [a] ∧ l₂ ++ [head] = b :: B ∧
      (A ++ [a]).IsChain links.Linked ∧ links.Linked a x ∧ links.Linked x b ∧
      (b :: B).IsChain links.Linked := by
  obtain ⟨A, a, hA⟩ : ∃ A a, head :: l₁ = A ++ [a] :=
    ⟨_, _, (List.dropLast_append_getLast (List.cons_ne_nil head l₁)).symm⟩
  obtain ⟨b, B, hB⟩ : ∃ b B, l₂ ++ [head] = b :: B :=
    List.exists_cons_of_ne_nil (by simp)
  have hcycle : head :: (l₁ ++ x :: l₂) ++ [head] = A ++ a :: x :: b :: B := by
    rw [← List.cons_append, hA, List.append_assoc, List.append_assoc, List.singleton_append,
      List.cons_append, hB]
  have hchain := h.chain
  rw [hcycle, List.isChain_append_cons_cons, List.isChain_cons_cons] at hchain
  exact ⟨A, a, b, B, hA, hB, hchain.1, hchain.2.1, hchain.2.2.1, hchain.2.2.2⟩

omit [DecidableEq α] in
theorem Ring.next_head (h : Ring links head (x :: l)) : links.next head = some x := by
  have hchain := h.chain
  rw [List.cons_append, List.cons_append, List.isChain_cons_cons] at hchain
  exact hchain.1.1

omit [DecidableEq α] in
theorem Ring.next_append (h : Ring links head (l₁ ++ x :: l₂)) :
    links.next x = some ((l₂ ++ [head]).head (by simp)) := by
  obtain ⟨A, a, b, B, -, hB, -, -, hxb, -⟩ := h.split
  simp only [hB, List.head_cons]
  exact hxb.1

/-- A node that is not in the ring is added behind the elements. -/
theorem Ring.addAtEnd (h : Ring links head l) (hx : x ∉ head :: l) :
    ∃ links', addAtEnd links x head = some links' ∧ Ring links' head (l ++ [x]) ∧
      ∀ y ∉ head :: (l ++ [x]), links'.next y = links.next y := by
  obtain ⟨A, a, hA⟩ : ∃ A a, head :: l = A ++ [a] :=
    ⟨_, _, (List.dropLast_append_getLast (List.cons_ne_nil head l)).symm⟩
  have hchain := h.chain
  rw [hA, List.append_assoc, List.singleton_append, List.isChain_append_cons_cons] at hchain
  obtain ⟨hinit, ⟨-, hlast⟩, -⟩ := hchain
  have hnodup := h.nodup
  rw [hA] at hnodup hx
  have hane : a ∉ A := fun hmem => (List.nodup_append.1 hnodup).2.2 a hmem a (by simp) rfl
  have hax : a ≠ x := fun heq => hx (by simp [heq])
  have hxhead : x ≠ head := by
    rintro rfl
    exact hx (hA ▸ List.mem_cons_self)
  have hxA : x ∉ A := fun hmem => hx (List.mem_append_left _ hmem)
  have hhead : head ∉ l := (List.nodup_cons.1 h.nodup).1
  have hxl : x ∉ l := fun hmem => hx (hA ▸ List.mem_cons_of_mem _ hmem)
  unfold Links.addAtEnd
  simp only [hlast, Option.bind_eq_bind, Option.bind_some, setNext, setPrev]
  refine ⟨_, rfl, ⟨?_, ?_⟩, fun y hy => ?_⟩
  · rw [← List.cons_append, hA, List.append_assoc, List.append_assoc, List.singleton_append,
      List.singleton_append, List.isChain_append_cons_cons, List.isChain_cons_cons]
    refine ⟨isChain_congr hinit (fun y hy => ?_) (fun y hy => ?_), ⟨?_, ?_⟩, ⟨?_, ?_⟩, .singleton _⟩
    · rw [List.dropLast_concat] at hy
      have hyx : y ≠ x := fun heq => hxA (heq ▸ hy)
      have hya : y ≠ a := fun heq => hane (heq ▸ hy)
      simp [hyx, hya]
    · rw [← hA, List.tail_cons] at hy
      have hyx : y ≠ x := fun heq => hxl (heq ▸ hy)
      have hyh : y ≠ head := fun heq => hhead (heq ▸ hy)
      simp [hyx, hyh]
    · simp [hax]
    · simp [hxhead]
    · simp
    · simp
  · rw [← List.cons_append, hA]
    exact List.nodup_append.2 ⟨hnodup, List.nodup_singleton x, fun y hy z hz heq =>
      hx (by rw [List.mem_singleton.1 hz] at heq; exact heq ▸ hy)⟩
  · rw [← List.cons_append, hA, List.mem_append, List.mem_append, List.mem_singleton,
      List.mem_singleton] at hy
    have hya : y ≠ a := fun heq => hy (Or.inl (Or.inr heq))
    have hyx : y ≠ x := fun heq => hy (Or.inr heq)
    simp [hya, hyx]

/-- An element is taken out. -/
theorem Ring.remove (h : Ring links head (l₁ ++ x :: l₂)) :
    ∃ links', remove links x = some links' ∧ Ring links' head (l₁ ++ l₂) ∧
      ∀ y ∉ head :: (l₁ ++ l₂), links'.next y = links.next y := by
  obtain ⟨A, a, b, B, hA, hB, hinit, hax, hxb, htail⟩ := h.split
  have hnodup : (head :: l₁ ++ x :: l₂).Nodup := h.nodup
  obtain ⟨hleft, hright, hdisj⟩ := List.nodup_append.1 hnodup
  obtain ⟨hxl₂, hl₂⟩ := List.nodup_cons.1 hright
  have ha : a ∈ head :: l₁ := by simp [hA]
  have hb : b ∈ l₂ ++ [head] := by simp [hB]
  have hxb' : x ≠ b := by
    rintro rfl
    rw [List.mem_append, List.mem_singleton] at hb
    rcases hb with hb | rfl
    · exact hxl₂ hb
    · exact hdisj x List.mem_cons_self x List.mem_cons_self rfl
  have haA : a ∉ A := by
    rw [hA] at hleft
    exact fun hmem => (List.nodup_append.1 hleft).2.2 a hmem a (by simp) rfl
  have hbB : b ∉ B := by
    have hcycle : (l₂ ++ [head]).Nodup := by
      refine List.nodup_append.2 ⟨hl₂, List.nodup_singleton head, fun y hy z hz heq => ?_⟩
      rw [List.mem_singleton.1 hz] at heq
      exact hdisj head List.mem_cons_self y (List.mem_cons_of_mem _ hy) heq.symm
    rw [hB] at hcycle
    exact (List.nodup_cons.1 hcycle).1
  have hdrop : (b :: B).dropLast = l₂ := by rw [← hB, List.dropLast_concat]
  unfold Links.remove
  simp only [hxb.1, hax.2, Option.bind_eq_bind, Option.bind_some, setNext, setPrev,
    Function.update_of_ne hxb']
  refine ⟨_, rfl, ⟨?_, ?_⟩, fun y hy => ?_⟩
  · rw [← List.cons_append, hA, List.append_assoc, List.append_assoc, hB, List.singleton_append,
      List.isChain_append_cons_cons]
    refine ⟨isChain_congr hinit (fun y hy => ?_) (fun y hy => ?_), ⟨?_, ?_⟩,
      isChain_congr htail (fun y hy => ?_) fun y hy => ?_⟩
    · rw [List.dropLast_concat] at hy
      have hya : y ≠ a := fun heq => haA (heq ▸ hy)
      simp [hya]
    · rw [← hA, List.tail_cons] at hy
      have hyb : y ≠ b := by
        rintro rfl
        rw [List.mem_append, List.mem_singleton] at hb
        rcases hb with hb | rfl
        · exact hdisj y (List.mem_cons_of_mem _ hy) y (List.mem_cons_of_mem _ hb) rfl
        · exact (List.nodup_cons.1 hleft).1 hy
      simp [hyb]
    · simp
    · simp
    · rw [hdrop] at hy
      have hya : y ≠ a := fun heq => hdisj a ha y (List.mem_cons_of_mem _ hy) heq.symm
      simp [hya]
    · rw [List.tail_cons] at hy
      have hyb : y ≠ b := fun heq => hbB (heq ▸ hy)
      simp [hyb]
  · exact List.nodup_append.2 ⟨hleft, hl₂, fun y hy z hz =>
      hdisj y hy z (List.mem_cons_of_mem _ hz)⟩
  · have hya : y ≠ a := by
      rintro rfl
      rw [List.mem_cons] at ha
      refine hy (List.mem_cons.2 (ha.imp_right (List.mem_append_left _)))
    simp [hya]

theorem Ring.clear (h : Ring links head l) (hx : x ∉ head :: l) :
    Ring (clear links x) head l := by
  refine h.congr (fun y hy => ?_) fun y hy => ?_
  · have hyx : y ≠ x := fun heq => hx (heq ▸ hy)
    simp [Links.clear, setNext, setPrev, hyx]
  · have hyx : y ≠ x := fun heq => hx (heq ▸ hy)
    simp [Links.clear, setNext, setPrev, hyx]

theorem next_clear (links : Links α) (x y : α) :
    (clear links x).next y = if y = x then none else links.next y := by
  simp [Links.clear, setNext, setPrev, Function.update_apply]

end Links
