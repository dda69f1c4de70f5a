import RuleMatching.Proofs.Network.Routing

set_option autoImplicit false

/-! # Plans of updates

A plan lists, in the order of routes, the entries that a fact leaves and those that it enters
(`Session.planUpdate_eq`). The entries that it enters come with all entries that it passes by in the
same order in which the new version reaches them. -/

namespace RuleMatching

open Network

namespace Session

/-- A plan made entry by entry. -/
theorem foldl_add_eq (was now passBy : NodeId → Bool) (l : List NodeId) (plan : UpdatePlan) :
    l.foldl (fun plan n => plan.add n (was n) (now n) (passBy n)) plan =
      ⟨plan.retract ++ l.filter fun n => was n && !(now n && passBy n),
        plan.assert ++ l.filter fun n => now n && !(was n && passBy n),
        plan.skipped + (l.filter fun n => was n && now n && passBy n).length⟩ := by
  induction l generalizing plan with
  | nil => simp
  | cons n rest ih =>
      rw [List.foldl_cons, ih]
      cases hw : was n <;> cases hn : now n <;> cases hp : passBy n <;>
        simp [UpdatePlan.add, hw, hn, hp, Nat.add_assoc, Nat.add_comm 1]

/-- The entries that an update looks at. -/
def candidates (net : Network) (old new : Fact) : List NodeId :=
  net.entriesFor old.factType
    ++ (if old.factType == new.factType then [] else net.entriesFor new.factType)

/-- Whether an update passes by an entry that the fact stays in. -/
def passesBy (net : Network) (old new : Fact) (n : NodeId) : Bool :=
  net.config.skipUnaffected && old.factType == new.factType
    && !net.isAffected n (old.changedFields new)

theorem planUpdate_eq (s : Session) (h : Handle) (old new : Fact) (reached : List NodeId) :
    s.planUpdate h old new reached =
      ⟨(candidates s.network old new).filter fun n =>
          s.state.holds n h && !(reached.contains n && passesBy s.network old new n),
        (candidates s.network old new).filter fun n =>
          reached.contains n && !(s.state.holds n h && passesBy s.network old new n),
        ((candidates s.network old new).filter fun n =>
          s.state.holds n h && reached.contains n && passesBy s.network old new n).length⟩ := by
  have hfold := foldl_add_eq (s.state.holds · h) (reached.contains ·) (passesBy s.network old new)
    (candidates s.network old new) ⟨[], [], 0⟩
  simp only [List.nil_append, Nat.zero_add] at hfold
  exact hfold

end Session

/-- What lies in a list without repetition that contains a second one in order. -/
theorem filter_contains_eq {l l' : List NodeId} (h : l'.Sublist l) (hl : l.Nodup) :
    l.filter (l'.contains ·) = l' := by
  have hsub : l'.Sublist (l.filter (l'.contains ·)) := by
    have := h.filter (l'.contains ·)
    rwa [List.filter_eq_self.mpr fun n hn => by simpa using hn] at this
  refine (hsub.eq_of_length (List.Perm.length_eq ?_)).symm
  rw [List.perm_ext_iff_of_nodup (hl.sublist h) (hl.filter _)]
  intro n
  simp only [List.mem_filter, List.contains_iff_mem]
  exact ⟨fun hn => ⟨h.subset hn, hn⟩, fun hn => hn.2⟩

namespace Network

variable {net : Network}

/-- Entries that a fact can enter need no check. -/
theorem checkEntries_filter {f : Fact} {l : List NodeId} {q : NodeId → Bool}
    (h : ∀ n ∈ l, q n = false → net.checkEntry n f = .ok ()) :
    Session.checkEntries net f (l.filter q) = Session.checkEntries net f l := by
  induction l with
  | nil => rfl
  | cons n rest ih =>
      have hrest := ih fun m hm => h m (List.mem_cons_of_mem n hm)
      rw [checkEntries_cons, List.filter_cons]
      cases hq : q n with
      | true =>
          rw [if_pos rfl, checkEntries_cons, hrest]
      | false =>
          rw [if_neg Bool.false_ne_true, hrest, h n List.mem_cons_self hq]

section Candidates

variable (hnet : net.WellFormed)

include hnet

/-- **The entries that an update looks at are distinct, and the new version reaches
some of them.** -/
theorem WellFormed.nodup_candidates (old new : Fact) : (Session.candidates net old new).Nodup := by
  unfold Session.candidates
  split
  · rw [List.append_nil]
    exact hnet.nodup_entriesFor _
  · next htype =>
    refine List.nodup_append.mpr ⟨hnet.nodup_entriesFor _, hnet.nodup_entriesFor _, ?_⟩
    rintro n hn m hm rfl
    obtain ⟨e, he, hen, het⟩ := hnet.mem_entriesFor _ n hn
    obtain ⟨e', he', hen', het'⟩ := hnet.mem_entriesFor _ n hm
    rw [hnet.eq_of_node_eq he he' (hen.trans hen'.symm)] at het
    exact htype (beq_iff_eq.mpr (het.symm.trans het'))

theorem WellFormed.candidates_filter (old : Fact) {new : Fact} {reached : List NodeId}
    (h : net.matchingEntries new = .ok reached) :
    (Session.candidates net old new).filter (reached.contains ·) = reached := by
  refine filter_contains_eq ?_ (hnet.nodup_candidates old new)
  have hsub : reached.Sublist (net.entriesFor new.factType) := reached_sublist h
  unfold Session.candidates
  split
  · next htype =>
    rw [List.append_nil, beq_iff_eq.mp htype]
    exact hsub
  · exact hsub.trans (List.sublist_append_right _ _)

end Candidates

end Network

end RuleMatching
