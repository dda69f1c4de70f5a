import RuleMatching.Proofs.Session.Refusals
import RuleMatching.Proofs.Session.Renaming

set_option autoImplicit false

/-! # Handles

A fact store takes a fact under a handle that is greater than every handle taken before; the other
ways in which it changes (`FactStore.Becomes`) take none. **Over a whole run the handles that were
taken increase, however facts were deleted, updated or stopped in the network**
(`Session.handles_run`), so a handle never names two facts. -/

namespace RuleMatching

open Network

/-- The handles that were taken in a run with these replies, in order. -/
def acceptedHandles (calls : List Call) (replies : List (Reply Answer)) : List Handle :=
  (calls.zip replies).filterMap fun (c, reply) => c.accepted? reply.result

theorem acceptedHandles_cons (c : Call) (calls : List Call) (reply : Reply Answer)
    (replies : List (Reply Answer)) :
    acceptedHandles (c :: calls) (reply :: replies) =
      (c.accepted? reply.result).toList ++ acceptedHandles calls replies := by
  unfold acceptedHandles
  rw [List.zip_cons_cons, List.filterMap_cons]
  cases h : c.accepted? reply.result <;> simp [h]

/-- The handle is greater than zero and than all of these. -/
def Handle.Exceeds (h : Handle) (taken : List Handle) : Prop := 0 < h ∧ ∀ k ∈ taken, k < h

/-! ## Taking handles -/

namespace FactStore

variable {facts facts' : FactStore} {issued : List Handle} {h : Handle} {f : Fact}
    {taken? : Option Handle}

/-- The store has taken these handles so far, in this order; zero comes before all of them. -/
structure Accepted (facts : FactStore) (issued : List Handle) : Prop where
  increasing : (0 :: issued).Pairwise (· < ·)
  greatest : IsGreatest {k | k ∈ 0 :: issued} facts.lastIssued
  live : facts.facts.keys = issued.filter facts.contains

theorem accepted_empty : Accepted .empty [] :=
  ⟨List.pairwise_singleton _ _,
    ⟨List.mem_cons_self, fun _ hk => Nat.le_of_eq (List.mem_singleton.mp hk)⟩, rfl⟩

theorem contains_eq (facts : FactStore) (h : Handle) : facts.contains h = (facts.get? h).isSome :=
  rfl

theorem contains_of_insert (hi : facts.insert h f = .ok facts') (k : Handle) :
    facts'.contains k = (decide (k = h) || facts.contains k) := by
  rw [contains_eq, contains_eq, (get?_of_insert hi).2]
  by_cases hk : k = h
  · simp [hk]
  · simp [hk]

theorem contains_set {old : Fact} (hold : facts.get? h = some old) (f : Fact) :
    (facts.set h f).contains = facts.contains := by
  funext k
  rw [contains_eq, contains_eq, get?_set]
  by_cases hk : k = h
  · simp [hk, hold]
  · simp [hk]

theorem contains_drop (facts : FactStore) (h k : Handle) :
    (facts.drop h).contains k = (decide (k ≠ h) && facts.contains k) := by
  rw [contains_eq, contains_eq, get?_drop]
  by_cases hk : k = h
  · simp [hk]
  · simp [hk]

theorem keys_of_insert (hi : facts.insert h f = .ok facts') :
    facts'.facts.keys = facts.facts.keys ++ [h] := by
  have hnone := (get?_of_insert hi).1
  obtain ⟨rfl, -⟩ := eq_of_insert hi
  exact FiniteMap.keys_insert_new hnone f

theorem keys_set {old : Fact} (hold : facts.get? h = some old) (f : Fact) :
    (facts.set h f).facts.keys = facts.facts.keys := by
  have hbound : ¬ facts.facts.entries.lookup h = none := by
    intro hnone
    rw [show facts.facts.entries.lookup h = some old from hold] at hnone
    cases hnone
  show (facts.facts.insert h f).keys = _
  rw [FiniteMap.insert, dif_neg hbound, FiniteMap.keys_modify]

theorem keys_drop (facts : FactStore) (h : Handle) :
    (facts.drop h).facts.keys = facts.facts.keys.filter fun k => decide (k ≠ h) :=
  FiniteMap.keys_erase _ _

/-- The handles up to the last one are live or stale. -/
theorem insert_of_le (hle : h ≤ facts.lastIssued) (f : Fact) :
    facts.insert h f = .error (if facts.contains h then .duplicateHandle h
      else .staleHandle h facts.lastIssued) := by
  unfold insert
  rw [if_pos hle]
  split <;> rfl

namespace Accepted

variable (ha : facts.Accepted issued)

include ha

theorem lt_iff (h : Handle) : facts.lastIssued < h ↔ h.Exceeds issued := by
  constructor
  · intro hlt
    exact ⟨Nat.zero_lt_of_lt hlt,
      fun k hk => Nat.lt_of_le_of_lt (ha.greatest.2 (List.mem_cons_of_mem 0 hk)) hlt⟩
  · rintro ⟨hpos, hall⟩
    rcases List.mem_cons.mp ha.greatest.1 with hlast | hlast
    · rwa [hlast]
    · exact hall _ hlast

theorem max?_eq : issued.max?.getD 0 = facts.lastIssued := by
  obtain ⟨hmem, hle⟩ := ha.greatest
  cases hmax : issued.max? with
  | none =>
      rw [List.max?_eq_none_iff] at hmax
      rw [hmax] at hmem
      exact (List.mem_singleton.mp hmem).symm
  | some m =>
      obtain ⟨hm, hall⟩ := List.max?_eq_some_iff.mp hmax
      refine Nat.le_antisymm (hle (List.mem_cons_of_mem 0 hm)) ?_
      rcases List.mem_cons.mp hmem with hlast | hlast
      · rw [hlast]
        exact Nat.zero_le m
      · exact hall _ hlast

theorem mem_of_contains (hh : facts.contains h = true) : h ∈ issued := by
  have hmem : h ∈ facts.facts.keys := (FiniteMap.mem_keys_iff_contains _ _).mpr hh
  rw [ha.live] at hmem
  exact (List.mem_filter.mp hmem).1

/-- The live handles, in order, are those of the handles that were taken. -/
theorem handles_eq : facts.handles = issued.filter facts.contains := by
  have hsorted : (issued.filter facts.contains).Pairwise fun a b => decide (a ≤ b) = true :=
    (ha.increasing.of_cons.filter _).imp fun hlt => decide_eq_true (Nat.le_of_lt hlt)
  rw [handles, ha.live, List.mergeSort_of_pairwise hsorted]

/-- **The store takes a fact exactly under the handles beyond the last one.** -/
theorem insert_ok_iff : (∃ facts', facts.insert h f = .ok facts') ↔ facts.lastIssued < h := by
  constructor
  · rintro ⟨facts', hi⟩
    exact (eq_of_insert hi).2
  · intro hlt
    have hnew : ¬ facts.contains h = true := by
      intro hh
      exact Nat.lt_irrefl h (((ha.lt_iff h).mp hlt).2 h (ha.mem_of_contains hh))
    rw [FactStore.insert, if_neg hnew, if_neg (Nat.not_le.mpr hlt)]
    exact ⟨_, rfl⟩

theorem insert (hi : facts.insert h f = .ok facts') : facts'.Accepted (issued ++ [h]) := by
  have hkeys := keys_of_insert hi
  have hcontains := contains_of_insert hi
  obtain ⟨hlast, hlt⟩ := eq_of_insert hi
  obtain ⟨hpos, hall⟩ := (ha.lt_iff h).mp hlt
  refine ⟨?_, ⟨?_, fun k hk => ?_⟩, ?_⟩
  · rw [← List.cons_append, List.pairwise_append]
    refine ⟨ha.increasing, List.pairwise_singleton _ _, fun k hk j hj => ?_⟩
    rw [List.mem_singleton.mp hj]
    rcases List.mem_cons.mp hk with rfl | hk
    · exact hpos
    · exact hall k hk
  · rw [hlast]
    exact List.mem_cons_of_mem 0 (List.mem_append_right issued (List.mem_singleton_self h))
  · -- The new handle is the greatest, since it exceeds all that were taken.
    rw [hlast]
    rcases List.mem_cons.mp hk with rfl | hk
    · exact Nat.zero_le h
    · rcases List.mem_append.mp hk with hk | hk
      · exact Nat.le_of_lt (hall k hk)
      · exact Nat.le_of_eq (List.mem_singleton.mp hk)
  · -- The live handles are those of before and the new one.
    have hsame : ∀ k ∈ issued, facts'.contains k = facts.contains k := by
      intro k hk
      have hne : k ≠ h := Nat.ne_of_lt (hall k hk)
      simp [hcontains, hne]
    have hnew : [h].filter facts'.contains = [h] := by simp [hcontains]
    calc facts'.facts.keys
        = facts.facts.keys ++ [h] := hkeys
      _ = issued.filter facts.contains ++ [h] := by rw [ha.live]
      _ = issued.filter facts'.contains ++
        [h].filter facts'.contains := by rw [List.filter_congr hsame, hnew]
      _ = (issued ++ [h]).filter facts'.contains := (List.filter_append issued [h]).symm

theorem set {old : Fact} (hold : facts.get? h = some old) (f : Fact) :
    (facts.set h f).Accepted issued :=
  ⟨ha.increasing, ha.greatest, by rw [keys_set hold, contains_set hold, ha.live]⟩

theorem drop (h : Handle) : (facts.drop h).Accepted issued := by
  refine ⟨ha.increasing, ha.greatest, ?_⟩
  rw [keys_drop, ha.live, List.filter_filter]
  exact List.filter_congr fun k _ => (contains_drop facts h k).symm

/-- **A call adds the handle that it takes.** -/
theorem step (hb : facts.Becomes facts' taken?) : facts'.Accepted (issued ++ taken?.toList) := by
  cases hb with
  | same => rwa [Option.toList_none, List.append_nil]
  | insert hi => exact ha.insert hi
  | set hold f =>
      rw [Option.toList_none, List.append_nil]
      exact ha.set hold f
  | drop h =>
      rw [Option.toList_none, List.append_nil]
      exact ha.drop h

end Accepted

/-- The handle was taken and its fact is gone. -/
def Retired (facts : FactStore) (h : Handle) : Prop := h ≤ facts.lastIssued ∧ facts.get? h = none

/-- A retired handle stays retired. -/
theorem Retired.step (hr : facts.Retired h) (hb : facts.Becomes facts' taken?) :
    facts'.Retired h := by
  obtain ⟨hle, hnone⟩ := hr
  cases hb with
  | same => exact ⟨hle, hnone⟩
  | @insert _ k g hi =>
      have hget := (get?_of_insert hi).2 h
      obtain ⟨rfl, hlt⟩ := eq_of_insert hi
      have hbefore : h < k := Nat.lt_of_le_of_lt hle hlt
      rw [if_neg (Nat.ne_of_lt hbefore), hnone] at hget
      exact ⟨Nat.le_of_lt hbefore, hget⟩
  | @set k old hold f =>
      refine ⟨hle, ?_⟩
      have hne : h ≠ k := by
        rintro rfl
        rw [hnone] at hold
        cases hold
      rw [get?_set, if_neg hne, hnone]
  | drop k =>
      refine ⟨hle, ?_⟩
      rw [get?_drop, hnone, ite_self]

end FactStore

/-! ## Runs -/

namespace Session

variable {s : Session} {issued : List Handle}

/-- The handles of a run come after those that were taken before it. -/
theorem Consistent.accepted_run (hs : s.Consistent) (ha : s.facts.Accepted issued)
    (calls : List Call) :
    (s.run calls).1.facts.Accepted (issued ++ acceptedHandles calls (s.run calls).2) := by
  induction calls generalizing s issued with
  | nil => exact (List.append_nil issued).symm ▸ ha
  | cons c calls ih =>
      have hstep := ha.step (hs.becomes_perform c)
      have hrest := ih (perform_spec hs c).1.consistent hstep
      rw [run, acceptedHandles_cons, ← List.append_assoc]
      exact hrest

theorem Consistent.retired_run {h : Handle} (hs : s.Consistent) (hr : s.facts.Retired h)
    (calls : List Call) : (s.run calls).1.facts.Retired h := by
  refine (run_induction (P := fun s => s.Consistent ∧ s.facts.Retired h) (fun s c hs => ?_) ⟨hs,
    hr⟩ calls).2
  exact ⟨(perform_spec hs.1 c).1.consistent, hs.2.step (hs.1.becomes_perform c)⟩

/-- A fact that is taken in is there afterwards, whether it can enter the network or not. -/
theorem Consistent.insertAt_of_lt (hs : s.Consistent) (ha : s.facts.Accepted issued) {h : Handle}
    (hlt : s.facts.lastIssued < h) (f : Fact) :
    (s.insertAt h f).1.get? h = some f ∧ ((s.insertAt h f).2.result = .ok () ∨
      ∃ failure, (s.insertAt h f).2.result = .error (.propagation h failure)) := by
  obtain ⟨facts', hi⟩ := ha.insert_ok_iff (f := f).mpr hlt
  have hanswer := (insertAt_spec hs h f).2
  rw [insertAnswer, hi] at hanswer
  obtain ⟨hfacts, hresult⟩ := Prod.mk.inj hanswer
  refine ⟨?_, ?_⟩
  · show (s.insertAt h f).1.facts.get? h = some f
    rw [hfacts, (FactStore.get?_of_insert hi).2, if_pos rfl]
  · rw [hresult]
    exact s.network.entering_cases h f

/-- **The handles that were taken in a run increase, and no other is ever taken again.** In the
state that any run leads to, the store takes a fact exactly under the handles that exceed all that
it has taken, those of deleted facts and of facts that could not enter the network among them. It
turns a live handle down as a duplicate and any other as stale, and nothing changes; a fact without
a handle is never turned down. The live handles are listed in the order in which they were taken,
and one that is gone names no fact any more. -/
theorem handles_run {rules : List Rule} {schemas : SchemaRegistry} {config : Config} {net : Network}
    (hbuild : Network.build rules schemas config = .ok net) (calls : List Call) :
    let s := ((ofNetwork net).run calls).1
    let taken := acceptedHandles calls ((ofNetwork net).run calls).2
    (0 :: taken).Pairwise (· < ·) ∧
    s.handles = taken.filter (fun h => (s.get? h).isSome) ∧
    (∀ h f, (∃ facts', s.facts.insert h f = .ok facts') ↔ h.Exceeds taken) ∧
    (∀ h f, h.Exceeds taken → (s.insertAt h f).1.get? h = some f ∧
      ((s.insertAt h f).2.result = .ok () ∨
        ∃ failure, (s.insertAt h f).2.result = .error (.propagation h failure))) ∧
    (∀ h f, ¬ h.Exceeds taken → s.insertAt h f = (s, ⟨.error (.consistency
      (if (s.get? h).isSome then .duplicateHandle h else .staleHandle h (taken.max?.getD 0))),
      []⟩)) ∧
    (∀ f, ∃ h, h.Exceeds taken ∧ (s.insert f).1.get? h = some f ∧ ((s.insert f).2.result = .ok h ∨
      ∃ failure, (s.insert f).2.result = .error (.propagation h failure))) ∧
    (∀ h ∈ taken, s.get? h = none → ∀ later, (s.run later).1.get? h = none) := by
  intro s taken
  obtain ⟨-, hs, -⟩ := run_ofNetwork (wellFormed_build hbuild) calls
  have ha : s.facts.Accepted taken :=
    (wellFormed_build hbuild).consistent_ofNetwork.accepted_run FactStore.accepted_empty calls
  refine ⟨ha.increasing, ha.handles_eq, fun h f => ha.insert_ok_iff.trans (ha.lt_iff h),
    fun h f hh => ?_, fun h f hh => ?_, fun f => ?_, fun h hh hnone later => ?_⟩
  · exact hs.insertAt_of_lt ha ((ha.lt_iff h).mpr hh) f
  · have hle : h ≤ s.facts.lastIssued := by
      rw [← ha.lt_iff] at hh
      exact Nat.not_lt.mp hh
    have hresult : (s.insertAt h f).2.result = .error (.consistency (if (s.get? h).isSome then
        .duplicateHandle h else .staleHandle h s.facts.lastIssued)) := by
      rw [result_insertAt hs, insertAnswer, FactStore.insert_of_le hle f]
      rfl
    rw [ha.max?_eq]
    exact insertAt_refused hs hresult
  · have hlt : s.facts.lastIssued < s.facts.nextHandle := Nat.lt_succ_self _
    obtain ⟨hget, hresult⟩ := hs.insertAt_of_lt ha hlt f
    refine ⟨s.facts.nextHandle, (ha.lt_iff _).mp hlt, hget, ?_⟩
    show (s.insertAt s.facts.nextHandle f).2.result.map _ = _ ∨
      ∃ failure, (s.insertAt s.facts.nextHandle f).2.result.map _ = _
    rcases hresult with hresult | ⟨failure, hresult⟩
    · exact Or.inl (by rw [hresult]; rfl)
    · exact Or.inr ⟨failure, by rw [hresult]; rfl⟩
  · exact (hs.retired_run ⟨ha.greatest.2 (List.mem_cons_of_mem 0 hh), hnone⟩ later).2

/-- The handle of a deleted order is not taken again. -/
theorem handles_orders : ∃ net, Network.build [pairRule] orderSchemas .standard = .ok net ∧
    let s := ((ofNetwork net).run orderCalls).1
    s.handles = [2, 5] ∧
    s.insertAt 1 (order 7 3) = (s, ⟨.error (.consistency (.staleHandle 1 5)), []⟩) := by
  obtain ⟨net, hnet, htaken, hlive, hgone⟩ :
      ∃ net, Network.build [pairRule] orderSchemas .standard = .ok net ∧
      acceptedHandles orderCalls ((ofNetwork net).run orderCalls).2 = [1, 2, 5] ∧
      ([1, 2, 5].filter fun h => (((ofNetwork net).run orderCalls).1.get? h).isSome) = [2, 5] ∧
      (((ofNetwork net).run orderCalls).1.get? 1).isSome = false := ⟨_, rfl, rfl, rfl, rfl⟩
  obtain ⟨-, hhandles, -, -, hrefused, -, -⟩ := handles_run hnet orderCalls
  rw [htaken] at hhandles hrefused
  have hstale :=
    hrefused 1 (order 7 3) (fun hexceeds => absurd (hexceeds.2 2 (by decide)) (by decide))
  rw [hgone] at hstale
  exact ⟨net, hnet, hhandles.trans hlive, hstale⟩

end Session

end RuleMatching
