import Mathlib.Data.List.Perm.Basic
import Mathlib.Data.List.Perm.Lattice

/-!
# Queues whose items are drawn, and taken out or given back

An item is drawn from the head of a queue and stays unsettled until it is taken out for good or
given back to the head; whatever is unsettled when the channel is closed goes back as well. New
items come in at the tail. No item is lost or doubled, and items that are given back in the
reverse order of their draws are in their old places again.
-/

universe u

/-- A queue with the items drawn from it, those taken out, and all that were ever put in. -/
structure Deliveries (α : Type u) where
  ready : List α
  unsettled : List α
  removed : List α
  published : List α
  deriving DecidableEq, Repr

namespace Deliveries

variable {α : Type u} [DecidableEq α] {q q' : Deliveries α} {a : α} {items : List α}

/-- A queue nobody has drawn from. -/
def ofList (items : List α) : Deliveries α := ⟨items, [], [], items⟩

/-- New items at the tail. -/
def arrive (q : Deliveries α) (items : List α) : Deliveries α :=
  { q with ready := q.ready ++ items, published := q.published ++ items }

/-- The item at the head, if there is one. -/
def draw (q : Deliveries α) : Option (α × Deliveries α) :=
  match q.ready with
  | [] => none
  | a :: rest => some (a, { q with ready := rest, unsettled := q.unsettled ++ [a] })

/-- Take an item out for good. -/
def take (q : Deliveries α) (a : α) : Deliveries α :=
  { q with unsettled := q.unsettled.erase a, removed := q.removed ++ [a] }

/-- Give an item back to the head. -/
def giveBack (q : Deliveries α) (a : α) : Deliveries α :=
  { q with unsettled := q.unsettled.erase a, ready := a :: q.ready }

/-- The channel is closed. -/
def close (q : Deliveries α) : Deliveries α :=
  { q with unsettled := [], ready := q.unsettled ++ q.ready }

/-- Every item that was put in is in one place. -/
def Conserved (q : Deliveries α) : Prop :=
  (q.ready ++ q.unsettled ++ q.removed).Perm q.published

omit [DecidableEq α] in
theorem conserved_ofList (items : List α) : (ofList items).Conserved := by
  simp [Conserved, ofList]

omit [DecidableEq α] in
theorem Conserved.arrive (h : q.Conserved) (items : List α) : (q.arrive items).Conserved := by
  show (q.ready ++ items ++ q.unsettled ++ q.removed).Perm (q.published ++ items)
  have hmove : (q.ready ++ items ++ q.unsettled ++ q.removed).Perm
      (q.ready ++ q.unsettled ++ q.removed ++ items) := by
    simp only [List.append_assoc]
    exact (List.perm_append_comm.trans (by rw [List.append_assoc])).append_left q.ready
  exact hmove.trans (h.append_right items)

omit [DecidableEq α] in
theorem draw_some (h : q.draw = some (a, q')) :
    q.ready = a :: q'.ready ∧ q'.unsettled = q.unsettled ++ [a] ∧ q'.removed = q.removed ∧
    q'.published = q.published := by
  unfold draw at h
  split at h
  · cases h
  · next hready =>
      obtain ⟨rfl, rfl⟩ := Prod.mk.inj (Option.some.inj h)
      exact ⟨hready, rfl, rfl, rfl⟩

omit [DecidableEq α] in
theorem Conserved.draw (h : q.Conserved) (drawn : q.draw = some (a, q')) : q'.Conserved := by
  obtain ⟨hready, hunsettled, hremoved, hpublished⟩ := draw_some drawn
  unfold Conserved at h ⊢
  rw [hready] at h
  rw [hunsettled, hremoved, hpublished]
  refine List.Perm.trans ?_ h
  rw [List.append_assoc, List.append_assoc, List.append_assoc, List.singleton_append]
  have hmiddle : (q.unsettled ++ a :: q.removed).Perm (a :: (q.unsettled ++ q.removed)) :=
    List.perm_middle
  exact (hmiddle.append_left q'.ready).trans List.perm_middle

theorem Conserved.take (h : q.Conserved) (mem : a ∈ q.unsettled) : (q.take a).Conserved := by
  show (q.ready ++ q.unsettled.erase a ++ (q.removed ++ [a])).Perm q.published
  refine List.Perm.trans ?_ h
  have hback : (q.unsettled.erase a ++ (q.removed ++ [a])).Perm (q.unsettled ++ q.removed) := by
    rw [← List.append_assoc]
    exact List.perm_append_comm.trans ((List.perm_cons_erase mem).symm.append_right q.removed)
  simp only [List.append_assoc] at hback ⊢
  exact hback.append_left q.ready

theorem Conserved.giveBack (h : q.Conserved) (mem : a ∈ q.unsettled) :
    (q.giveBack a).Conserved := by
  show (a :: q.ready ++ q.unsettled.erase a ++ q.removed).Perm q.published
  refine List.Perm.trans ?_ h
  refine List.Perm.append_right q.removed ?_
  exact List.perm_middle.symm.trans ((List.perm_cons_erase mem).symm.append_left q.ready)

omit [DecidableEq α] in
theorem Conserved.close (h : q.Conserved) : q.close.Conserved := by
  show (q.unsettled ++ q.ready ++ [] ++ q.removed).Perm q.published
  rw [List.append_nil]
  exact (List.perm_append_comm.append_right q.removed).trans h

omit [DecidableEq α] in
/-- What is left in the queue or unsettled is told by the rest. -/
theorem Conserved.left (h : q.Conserved) (h' : q'.Conserved) (removed : q'.removed = q.removed)
    (published : q'.published = q.published) :
    (q'.ready ++ q'.unsettled).Perm (q.ready ++ q.unsettled) := by
  unfold Conserved at h h'
  rw [removed, published] at h'
  exact (List.perm_append_right_iff q.removed).mp (h'.trans h.symm)

end Deliveries
