import RuleMatching.Proofs.SlotMap

set_option autoImplicit false

/-! # References that were handed out

Whoever adds an item keeps its reference, also after the item has gone. `SlotMap.Issued` says which
references a container has handed out so far, and how often it has used each slot. **An addition
hands out a reference that is not among them** (`SlotMap.Issued.next_not_mem`), and a slot is in the
generation that counts its uses. -/

namespace RuleMatching.SlotMap

variable {α : Type} {m : SlotMap α} {issued : List SlotRef}

/-- The container has handed out these references so far, in this order. -/
structure Issued (m : SlotMap α) (issued : List SlotRef) : Prop where
  valid : m.Valid
  nodup : issued.Nodup
  /-- Every slot has reached the generations that were handed out. -/
  reached : ∀ r ∈ issued, ∃ g, m.generations[r.index]? = some g ∧ r.generation ≤ g
  uses : ∀ i, issued.countP (fun r => r.index = i) = (m.generations[i]?.map (· + 1)).getD 0

theorem issued_empty : (empty : SlotMap α).Issued [] :=
  ⟨valid_empty, List.nodup_nil, fun _ hr => (List.not_mem_nil hr).elim, fun _ => rfl⟩

namespace Issued

/-- **A reference is handed out once.** -/
theorem next_not_mem (h : m.Issued issued) : m.next ∉ issued :=
  fun hmem => ne_next_of_le (h.reached _ hmem) rfl

theorem add (h : m.Issued issued) (a : α) : (m.add a).Issued (issued ++ [m.next]) := by
  refine ⟨valid_add h.valid a, ?_, fun r hr => ?_, fun i => ?_⟩
  · rw [← List.concat_eq_append]
    exact h.nodup.concat h.next_not_mem
  · rcases List.mem_append.mp hr with hr | hr
    · exact exists_generation_add h.valid a (h.reached r hr)
    · rw [getElem?_generations_add h.valid, List.mem_singleton.mp hr, if_pos rfl]
      exact ⟨m.next.generation, rfl, Nat.le_refl _⟩
  · rw [List.countP_append, h.uses, getElem?_generations_add h.valid, List.countP_singleton]
    by_cases hi : i = m.next.index
    · subst hi
      rcases generation_next h.valid with ⟨hnone, hnext⟩ | ⟨g, hg, hnext⟩
      · simp [hnone, hnext]
      · simp [hg, hnext]
    · simp [hi, Ne.symm hi]

theorem remove (h : m.Issued issued) (r : SlotRef) : (m.remove r).Issued issued := by
  refine ⟨valid_remove h.valid r, h.nodup, ?_, ?_⟩
  · rw [generations_remove]
    exact h.reached
  · rw [generations_remove]
    exact h.uses

theorem modify (h : m.Issued issued) (r : SlotRef) (f : α → α) : (m.modify r f).Issued issued :=
  ⟨valid_modify h.valid r f, h.nodup, h.reached, h.uses⟩

/-- A slot that is used a number of times at most has only generations below it. -/
theorem generation_lt (h : m.Issued issued) {bound : Nat}
    (huses : ∀ i, issued.countP (fun r => r.index = i) ≤ bound) {i g : Nat}
    (hg : m.generations[i]? = some g) : g < bound := by
  have hcount := huses i
  rw [h.uses, hg] at hcount
  exact hcount

theorem generation_lt_of_mem (h : m.Issued issued) {bound : Nat}
    (huses : ∀ i, issued.countP (fun r => r.index = i) ≤ bound) {r : SlotRef} (hr : r ∈ issued) :
    r.generation < bound := by
  obtain ⟨g, hg, hle⟩ := h.reached r hr
  exact Nat.lt_of_le_of_lt hle (h.generation_lt huses hg)

end Issued

end RuleMatching.SlotMap
