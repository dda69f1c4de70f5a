import RuleMatching.Proofs.JoinCondition
import RuleMatching.Proofs.Network.Routing

set_option autoImplicit false

/-! # What the network sees of a fact

Tests, keys and routes see no more of a fact than its type and the values of its fields: neither its
handle nor whether a field that is null is there. **Facts of one type with the same values belong in
at the same entries** (`Fact.SameValues.admitting`), join the same facts and have the same keys. -/

namespace RuleMatching

/-- The facts have one type and the same value in every field. -/
structure Fact.SameValues (f f' : Fact) : Prop where
  factType : f'.factType = f.factType
  value : ∀ field, f'.value field = f.value field

namespace Fact.SameValues

variable {f f' : Fact} {bound bound' : List Fact}

theorem refl (f : Fact) : f.SameValues f := ⟨rfl, fun _ => rfl⟩

theorem symm (h : f.SameValues f') : f'.SameValues f :=
  ⟨h.factType.symm, fun field => (h.value field).symm⟩

/-! ## Single facts -/

theorem read (h : f.SameValues f') (a : Accessor) : a.read f' = a.read f := by
  rw [Accessor.read, Accessor.read, h.factType, h.value]

theorem fieldTest (h : f.SameValues f') (t : FieldTest) : t.isAllowed f' = t.isAllowed f := by
  rw [FieldTest.isAllowed, FieldTest.isAllowed, h.read]

theorem matching (h : f.SameValues f') (routes : Routes) :
    routes.matching f' = routes.matching f := by
  induction routes with
  | nil => rfl
  | entry n rest ih => rw [Routes.matching, Routes.matching, ih]
  | test n t below rest ihb ihr => rw [Routes.matching, Routes.matching, h.fieldTest, ihb, ihr]

theorem tryReads (h : f.SameValues f') (reads : List FieldRead) :
    Network.tryReads f' reads = Network.tryReads f reads := by
  induction reads with
  | nil => rfl
  | cons r rest ih => rw [Network.tryReads, Network.tryReads, h.read, ih]

theorem matchingEntries (h : f.SameValues f') (net : Network) :
    net.matchingEntries f' = net.matchingEntries f := by
  unfold Network.matchingEntries
  rw [h.factType]
  cases net.objectType? f.factType with
  | none => rfl
  | some o => exact h.matching o.routes

theorem checkEntry (h : f.SameValues f') (net : Network) (n : NodeId) :
    net.checkEntry n f' = net.checkEntry n f := by
  unfold Network.checkEntry
  cases net.entry? n with
  | none => rfl
  | some e => exact h.tryReads e.reads

/-- **Facts with the same values belong in at the same entries.** -/
theorem admitting (h : f.SameValues f') (net : Network) : net.admitting f' = net.admitting f := by
  unfold Network.admitting Network.enterable
  simp only [h.matchingEntries, h.checkEntry]

theorem rightKey (h : f.SameValues f') (c : JoinCondition) : c.rightKey f' = c.rightKey f := by
  unfold JoinCondition.rightKey
  simp only [h.read]

/-! ## Facts of a match -/

theorem boundRead (hb : List.Forall₂ SameValues bound bound') (d : Declaration) :
    d.read bound' = d.read bound := by
  unfold Declaration.read
  rcases hopt : bound[d.pattern]? with _ | g
  · have hlen := List.getElem?_eq_none_iff.mp hopt
    rw [hb.length_eq] at hlen
    rw [List.getElem?_eq_none hlen]
  · obtain ⟨hi, rfl⟩ := List.getElem?_eq_some_iff.mp hopt
    have hi' : d.pattern < bound'.length := hb.length_eq ▸ hi
    rw [List.getElem?_eq_getElem hi']
    exact (hb.get hi hi').read d.accessor

/-- **Facts with the same values join facts with the same values.** -/
theorem joinTest (h : f.SameValues f') (hb : List.Forall₂ SameValues bound bound') (t : JoinTest) :
    t.isAllowed bound' f' = t.isAllowed bound f := by
  rw [JoinTest.isAllowed, JoinTest.isAllowed, h.read, boundRead hb]

theorem leftKey (hb : List.Forall₂ SameValues bound bound') (c : JoinCondition) :
    c.leftKey bound' = c.leftKey bound := by
  unfold JoinCondition.leftKey
  simp only [boundRead hb]

end Fact.SameValues

end RuleMatching
