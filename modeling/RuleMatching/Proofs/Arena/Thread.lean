import RuleMatching.Arena.Linked
import RuleMatching.Proofs.Arena
import RuleMatching.Proofs.FiniteMap

set_option autoImplicit false

/-! # Lists strung together by neighbours

A list is strung together from a start if the start is its first tuple and every tuple has as
neighbours the ones next to it in the list (`Strung`). Then going from each tuple to its older
neighbour ends after the whole list (`Strung.walk`), and so a thread is its list
(`Strung.thread_eq`). **A tuple that is put in front of a list, or taken out of it anywhere, leaves
the list without it strung together** (`Strung.cons`, `Strung.remove`). For the threads of many keys
this says that each change concerns the list of one key alone (`Threads.Fits.link`,
`Threads.Fits.unlink`). -/

namespace RuleMatching

/-- Going from one tuple to the next, from some start, passes the tuples of the list
and then ends. -/
inductive Walk (next : TupleId → Option TupleId) : Option TupleId → List TupleId → Prop
  | done : Walk next none []
  | step {t : TupleId} {l : List TupleId} (rest : Walk next (next t) l) :
      Walk next (some t) (t :: l)

theorem Walk.congr {next next' : TupleId → Option TupleId} {start : Option TupleId}
    {l : List TupleId} (h : Walk next start l) (hl : ∀ t ∈ l, next' t = next t) :
    Walk next' start l := by
  induction h with
  | done => exact .done
  | @step t l rest ih =>
      refine .step ?_
      rw [hl t List.mem_cons_self]
      exact ih fun x hx => hl x (List.mem_cons_of_mem t hx)

/-- The start is the first tuple of the list, and every tuple has the ones next to it
as neighbours. -/
structure Strung (neighboursOf : TupleId → Neighbours) (start : Option TupleId) (l : List TupleId) :
    Prop where
  start : start = l.head?
  neighbours : ∀ before t after, l = before ++ t :: after →
    neighboursOf t = ⟨before.getLast?, after.head?⟩

namespace Strung

variable {N N' : TupleId → Neighbours} {start : Option TupleId} {l : List TupleId}

theorem nil (N : TupleId → Neighbours) : Strung N none [] :=
  ⟨rfl, fun before t after h => by simp at h⟩

/-- Only the neighbours of the tuples of the list matter. -/
theorem congr (h : Strung N start l) (hl : ∀ t ∈ l, N' t = N t) : Strung N' start l := by
  refine ⟨h.start, fun before t after heq => ?_⟩
  rw [hl t (heq ▸ List.mem_append_right _ List.mem_cons_self)]
  exact h.neighbours before t after heq

/-- **The walk from the start to older and older tuples ends after the whole list.** -/
theorem walk (h : Strung N start l) : Walk (fun t => (N t).older) start l := by
  have hsuffix : ∀ after before, l = before ++ after →
      Walk (fun t => (N t).older) after.head? after := by
    intro after
    induction after with
    | nil => exact fun _ _ => .done
    | cons t rest ih =>
        intro before heq
        refine .step ?_
        rw [h.neighbours before t rest heq]
        exact ih (before ++ [t]) (by rw [heq, List.append_assoc]; rfl)
  rw [h.start]
  exact hsuffix l [] rfl

/-- A tuple is put in front of the list. -/
theorem cons (h : Strung N start l) {t : TupleId} (ht : t ∉ l) (hl : l.Nodup)
    (hself : N' t = ⟨none, start⟩)
    (hfirst : ∀ s, start = some s → N' s = { N s with newer := some t })
    (hother : ∀ s ∈ l, start ≠ some s → N' s = N s) : Strung N' (some t) (t :: l) := by
  refine ⟨rfl, fun before s after heq => ?_⟩
  rw [List.cons_eq_append_iff] at heq
  rcases heq with ⟨rfl, heq⟩ | ⟨before', rfl, heq⟩
  · obtain ⟨rfl, rfl⟩ := List.cons.inj heq
    rw [hself, h.start]
    rfl
  · have hold := h.neighbours before' s after heq
    cases before' with
    | nil =>
        rw [hfirst s (h.start.trans (by rw [heq]; rfl)), hold]
        rfl
    | cons b rest =>
        -- The first tuple is another one, since no tuple is in the list twice.
        rw [hother s (heq ▸ List.mem_append_right _ List.mem_cons_self), hold]
        · rfl
        · rw [h.start, heq, List.cons_append, List.head?_cons, ne_eq, Option.some.injEq]
          rintro rfl
          rw [heq, List.cons_append, List.nodup_cons] at hl
          exact hl.1 (List.mem_append_right _ List.mem_cons_self)

section Remove

variable {before after : List TupleId} {t : TupleId} (h : Strung N start (before ++ t :: after))
  (hl : (before ++ t :: after).Nodup)
  (hnewer : ∀ s, before.getLast? = some s → N' s = { N s with older := after.head? })
  (holder : ∀ s, after.head? = some s → N' s = { N s with newer := before.getLast? })
  (hother : ∀ s ∈ before ++ after, before.getLast? ≠ some s → after.head? ≠ some s → N' s = N s)

include h hl hnewer hother in
/-- A tuple before the gap is next to the gap if nothing lies between. -/
theorem neighbours_before_gap {pre mid : List TupleId} {s : TupleId}
    (heq : before = pre ++ s :: mid) : N' s = ⟨pre.getLast?, (mid ++ after).head?⟩ := by
  subst heq
  obtain ⟨hbefore, -, hdisjoint⟩ := List.nodup_append.mp hl
  have hold := h.neighbours pre s (mid ++ t :: after) (by simp)
  cases mid with
  | nil =>
      rw [hnewer s (by simp), hold]
      simp
  | cons m mid =>
      have hlast : (pre ++ s :: m :: mid).getLast? ≠ some s := by
        rw [List.getLast?_append_of_ne_nil _ (List.cons_ne_nil _ _), List.getLast?_cons_cons]
        intro hlast
        rw [List.nodup_append, List.nodup_cons] at hbefore
        exact hbefore.2.1.1 (List.mem_of_getLast? hlast)
      have hhead : after.head? ≠ some s := fun hhead =>
        hdisjoint s (List.mem_append_right _ List.mem_cons_self) s
          (List.mem_cons_of_mem _ (List.mem_of_mem_head? hhead)) rfl
      rw [hother s (by simp) hlast hhead, hold]
      rfl

include h hl holder hother in
/-- A tuple after the gap is next to the gap if nothing lies between. -/
theorem neighbours_after_gap {mid post : List TupleId} {s : TupleId}
    (heq : after = mid ++ s :: post) : N' s = ⟨(before ++ mid).getLast?, post.head?⟩ := by
  subst heq
  obtain ⟨-, htail, hdisjoint⟩ := List.nodup_append.mp hl
  have hold := h.neighbours (before ++ t :: mid) s post (by simp)
  cases mid with
  | nil =>
      rw [holder s rfl, hold]
      simp
  | cons m mid =>
      have hlast : before.getLast? ≠ some s := fun hlast =>
        hdisjoint s (List.mem_of_getLast? hlast) s (by simp) rfl
      have hhead : (m :: mid ++ s :: post).head? ≠ some s := by
        rw [List.cons_append, List.head?_cons, ne_eq, Option.some.injEq]
        rintro rfl
        rw [List.nodup_cons, List.cons_append, List.nodup_cons] at htail
        exact htail.2.1 (List.mem_append_right _ List.mem_cons_self)
      rw [hother s (by simp) hlast hhead, hold]
      simp [List.getLast?_append]

include h hl hnewer holder hother in
/-- A tuple is taken out of the list: its neighbours become neighbours of each other. -/
theorem remove : Strung N' (if before = [] then after.head? else start) (before ++ after) := by
  refine ⟨?_, fun pre s post heq => ?_⟩
  · cases before with
    | nil => rfl
    | cons b rest => exact h.start
  · rcases List.append_eq_append_iff.mp heq with ⟨mid, rfl, hafter⟩ | ⟨mid, hbefore, hmid⟩
    · exact h.neighbours_after_gap hl holder hother hafter
    · cases mid with
      | nil =>
          rw [List.append_nil] at hbefore
          have hafter : after = [] ++ s :: post := hmid.symm
          have hs := h.neighbours_after_gap hl holder hother hafter
          rwa [List.append_nil, hbefore] at hs
      | cons m mid =>
          obtain ⟨rfl, rfl⟩ := List.cons.inj hmid
          exact h.neighbours_before_gap hl hnewer hother hbefore

end Remove

/-- **A thread is the list that is strung together from its start.** -/
theorem thread_eq {a : ThreadedArena} (h : Strung a.neighboursOf start l)
    (hl : l.length ≤ a.arena.size + 1) : a.thread start = l := by
  have hsuffix : ∀ after before n, l = before ++ after → after.length ≤ n →
      a.threadWithin n after.head? = after := by
    intro after
    induction after with
    | nil =>
        intro before n _ _
        cases n <;> rfl
    | cons t rest ih =>
        intro before n heq hn
        obtain ⟨n, rfl⟩ : ∃ m, n = m + 1 := ⟨n - 1, by simp at hn; omega⟩
        rw [List.head?_cons, ThreadedArena.threadWithin, h.neighbours before t rest heq]
        refine congrArg (t :: ·) (ih (before ++ [t]) n (by rw [heq, List.append_assoc]; rfl) ?_)
        exact Nat.le_of_succ_le_succ hn
  rw [ThreadedArena.thread, h.start]
  exact hsuffix l [] _ rfl hl

end Strung

/-! ## Neighbours after a change -/

theorem filter_ne_of_not_mem {t : TupleId} {l : List TupleId} (ht : t ∉ l) :
    l.filter (· ≠ t) = l := by
  rw [List.filter_eq_self]
  intro x hx
  have hne : x ≠ t := fun heq => ht (heq ▸ hx)
  simpa using hne

theorem filter_ne_middle {t : TupleId} {before after : List TupleId} (ht : t ∉ before ++ after) :
    (before ++ t :: after).filter (· ≠ t) = before ++ after := by
  rw [List.filter_append, List.filter_cons_of_neg (by simp), ← List.filter_append,
    filter_ne_of_not_mem ht]

namespace ThreadedArena

variable {a : ThreadedArena}

@[simp] theorem arena_modifyNeighbours (a : ThreadedArena) (o : Option TupleId)
    (f : Neighbours → Neighbours) : (a.modifyNeighbours o f).arena = a.arena := by
  unfold modifyNeighbours
  split
  · split <;> rfl
  · rfl

theorem neighboursOf_modifyNeighbours {o : Option TupleId}
    (ho : ∀ t, o = some t → a.arena.contains t = true) (f : Neighbours → Neighbours) (x : TupleId) :
    (a.modifyNeighbours o f).neighboursOf x =
      if o = some x then f (a.neighboursOf x) else a.neighboursOf x := by
  cases o with
  | none => rfl
  | some t =>
      rw [modifyNeighbours, if_pos (ho t rfl)]
      by_cases hx : x = t
      · subst hx
        simp [neighboursOf]
      · rw [if_neg fun h => hx (Option.some.inj h).symm, neighboursOf,
          FiniteMap.get?_insert_ne _ _ hx]
        rfl

theorem neighboursOf_link {newest : Option TupleId} {t : TupleId} (ht : a.arena.contains t = true)
    (hn : ∀ s, newest = some s → a.arena.contains s = true) (x : TupleId) :
    (a.link newest t).neighboursOf x =
      ⟨if newest = some x then some t else if t = x then none else (a.neighboursOf x).newer,
        if t = x then newest else (a.neighboursOf x).older⟩ := by
  rw [link, neighboursOf_modifyNeighbours (by simpa using hn),
    neighboursOf_modifyNeighbours fun s hs => Option.some.inj hs ▸ ht]
  by_cases hx : t = x
  · simp only [hx, if_true]
    split <;> rfl
  · rw [if_neg fun h => hx (Option.some.inj h), if_neg hx, if_neg hx]
    split <;> rfl

theorem neighboursOf_unlink {t : TupleId} (ht : a.arena.contains t = true)
    (hnewer : ∀ s, (a.neighboursOf t).newer = some s → a.arena.contains s = true)
    (holder : ∀ s, (a.neighboursOf t).older = some s → a.arena.contains s = true) (x : TupleId) :
    (a.unlink t).neighboursOf x =
      ⟨if (a.neighboursOf t).older = some x then (a.neighboursOf t).newer
        else if t = x then none else (a.neighboursOf x).newer,
        if (a.neighboursOf t).newer = some x then (a.neighboursOf t).older
        else if t = x then none else (a.neighboursOf x).older⟩ := by
  rw [unlink, if_pos ht]
  simp only
  rw [neighboursOf_modifyNeighbours (by simpa using holder),
    neighboursOf_modifyNeighbours (by simpa using hnewer),
    neighboursOf_modifyNeighbours fun s hs => Option.some.inj hs ▸ ht]
  by_cases hx : t = x
  · simp only [hx, if_true]
    split <;> split <;> rfl
  · rw [if_neg fun h => hx (Option.some.inj h), if_neg hx, if_neg hx]
    split <;> split <;> rfl

end ThreadedArena

/-! ## Threads of many keys -/

namespace Threads

variable {κ : Type} [DecidableEq κ]

/-- The neighbours of a tuple. -/
def neighboursOf (s : Threads κ) (t : TupleId) : Neighbours := (s.neighbours.get? t).getD {}

/-- The thread of every key is a list of its own. -/
structure Fits (s : Threads κ) (lists : κ → List TupleId) : Prop where
  strung : ∀ k, Strung s.neighboursOf (s.newest.get? k) (lists k)
  nodup : ∀ k, (lists k).Nodup
  apart : ∀ j k t, t ∈ lists j → t ∈ lists k → j = k

/-- A tuple in no thread has no neighbours. -/
def Loose (s : Threads κ) (lists : κ → List TupleId) : Prop :=
  ∀ t, (∀ k, t ∉ lists k) → s.neighboursOf t = {}

theorem fits_empty : (empty : Threads κ).Fits fun _ => [] :=
  ⟨fun _ => .nil _, fun _ => List.nodup_nil, fun _ _ _ h => nomatch h⟩

variable {s : Threads κ} {lists lists' : κ → List TupleId} {a : Arena} {k : Option κ} {t : TupleId}

theorem newest_restart (s : Threads κ) (k : κ) (newest : Option TupleId) (j : κ) :
    (s.restart k newest).newest.get? j = if k = j then newest else s.newest.get? j := by
  cases newest with
  | none => simp only [restart, FiniteMap.get?_erase, eq_comm]
  | some t => simp only [restart, FiniteMap.get?_insert, eq_comm]

theorem newest_link (s : Threads κ) (a : Arena) (k : Option κ) (t : TupleId) (j : κ) :
    (s.link a k t).newest.get? j = if k = some j then some t else s.newest.get? j := by
  cases k with
  | none => rfl
  | some k =>
      rw [link, newest_restart]
      simp only [Option.some.injEq]

theorem neighboursOf_link_eq (ht : a.contains t = true)
    (hn : ∀ x, k.bind s.newest.get? = some x → a.contains x = true) (x : TupleId) :
    (s.link a k t).neighboursOf x =
      ⟨if k.bind s.newest.get? = some x then some t
        else if t = x then none else (s.neighboursOf x).newer,
        if t = x then k.bind s.newest.get? else (s.neighboursOf x).older⟩ := by
  cases k <;> exact ThreadedArena.neighboursOf_link (a := s.beside a) ht hn x

theorem neighboursOf_unlink_eq (ht : a.contains t = true)
    (hnewer : ∀ x, (s.neighboursOf t).newer = some x → a.contains x = true)
    (holder : ∀ x, (s.neighboursOf t).older = some x → a.contains x = true) (x : TupleId) :
    (s.unlink a k t).neighboursOf x =
      ⟨if (s.neighboursOf t).older = some x then (s.neighboursOf t).newer
        else if t = x then none else (s.neighboursOf x).newer,
        if (s.neighboursOf t).newer = some x then (s.neighboursOf t).older
        else if t = x then none else (s.neighboursOf x).older⟩ := by
  cases k <;> exact ThreadedArena.neighboursOf_unlink (a := s.beside a) ht hnewer holder x

theorem newest_unlink (s : Threads κ) (a : Arena) (k : Option κ) (t : TupleId) (j : κ) :
    (s.unlink a k t).newest.get? j =
      if k = some j then (s.beside a).newestWithout (s.newest.get? j) t else s.newest.get? j := by
  cases k with
  | none => rfl
  | some k =>
      rw [unlink, newest_restart]
      simp only [Option.some.injEq]
      split
      · next hk => rw [hk]
      · rfl

omit [DecidableEq κ] in
theorem newestWithout_of_live (ht : a.contains t = true) (newest : Option TupleId) :
    (s.beside a).newestWithout newest t =
      if (s.neighboursOf t).newer = none ∧ newest = some t then (s.neighboursOf t).older
      else newest :=
  if_congr (and_iff_right ht) rfl rfl

/-- A tuple without neighbours is next to no other. -/
theorem neighboursOf_unlink_loose (ht : a.contains t = true) (hloose : s.neighboursOf t = {})
    (x : TupleId) : (s.unlink a k t).neighboursOf x = s.neighboursOf x := by
  rw [neighboursOf_unlink_eq ht (by simp [hloose]) (by simp [hloose])]
  by_cases hx : t = x
  · subst hx
    simp [hloose]
  · simp [hloose, hx]

omit [DecidableEq κ] in
theorem neighboursOf_forget (s : Threads κ) (t x : TupleId) :
    (s.forget t).neighboursOf x = if x = t then {} else s.neighboursOf x := by
  rw [neighboursOf, forget, FiniteMap.get?_erase]
  split <;> rfl

namespace Fits

theorem congr (h : s.Fits lists) (hlists : ∀ k, lists' k = lists k) : s.Fits lists' := by
  rw [show lists' = lists from funext hlists]
  exact h

theorem mem_of_newest (h : s.Fits lists) {j : κ} {x : TupleId} (hx : s.newest.get? j = some x) :
    x ∈ lists j := by
  rw [(h.strung j).start] at hx
  exact List.mem_of_mem_head? hx

/-- What is next to a tuple of a list is in the list. -/
theorem mem_of_neighbour (h : s.Fits lists) {j : κ} (ht : t ∈ lists j) {x : TupleId}
    (hx : (s.neighboursOf t).newer = some x ∨ (s.neighboursOf t).older = some x) : x ∈ lists j := by
  obtain ⟨before, after, hlist⟩ := List.append_of_mem ht
  rw [(h.strung j).neighbours before t after hlist] at hx
  rw [hlist]
  rcases hx with hx | hx
  · exact List.mem_append_left _ (List.mem_of_getLast? hx)
  · exact List.mem_append_right _ (List.mem_cons_of_mem t (List.mem_of_mem_head? hx))

/-- **The thread of a key is its list.** -/
theorem thread_eq (h : s.Fits lists) {j : κ} (hj : (lists j).length ≤ a.size + 1) :
    s.thread a j = lists j :=
  (h.strung j).thread_eq (a := s.beside a) hj

/-! ## A tuple that is put in front of a thread -/

/-- The tuple comes next to the one that was the newest. -/
theorem neighboursOf_link (h : s.Fits lists) (ht : a.contains t = true)
    (hlive : ∀ j x, x ∈ lists j → a.contains x = true) (hnew : ∀ j, t ∉ lists j) :
    (s.link a k t).neighboursOf t = ⟨none, k.bind s.newest.get?⟩ ∧
      (∀ x, k.bind s.newest.get? = some x →
        (s.link a k t).neighboursOf x = { s.neighboursOf x with newer := some t }) ∧
      ∀ x, x ≠ t → k.bind s.newest.get? ≠ some x →
      (s.link a k t).neighboursOf x = s.neighboursOf x := by
  have hmem : ∀ x, k.bind s.newest.get? = some x → ∃ j, x ∈ lists j := by
    intro x hx
    obtain ⟨j, -, hj⟩ := Option.bind_eq_some_iff.mp hx
    exact ⟨j, h.mem_of_newest hj⟩
  simp only [neighboursOf_link_eq ht fun x hx => (hmem x hx).elim fun j hj => hlive j x hj]
  refine ⟨?_, fun x hx => ?_, fun x hne hx => ?_⟩
  · rw [if_neg fun hx => (hmem t hx).elim hnew, if_pos trivial, if_pos trivial]
  · have hne : t ≠ x := fun heq => (hmem x hx).elim fun j hj => hnew j (heq ▸ hj)
    rw [if_pos hx, if_neg hne]
  · rw [if_neg hx, if_neg hne.symm, if_neg hne.symm]

/-- **Putting a tuple in front of a thread concerns this thread alone.** -/
theorem link (h : s.Fits lists) (ht : a.contains t = true)
    (hlive : ∀ j x, x ∈ lists j → a.contains x = true) (hnew : ∀ j, t ∉ lists j) :
    (s.link a k t).Fits fun j => if k = some j then t :: lists j else lists j := by
  obtain ⟨hself, hfirst, hother⟩ := h.neighboursOf_link (k := k) ht hlive hnew
  have hne : ∀ {j x}, x ∈ lists j → x ≠ t := fun {j _} hx heq => hnew j (heq ▸ hx)
  refine ⟨fun j => ?_, fun j => ?_, fun j j' x hj hj' => ?_⟩
  · rw [newest_link]
    split
    · next hk =>
      subst hk
      exact (h.strung j).cons (hnew j) (h.nodup j) hself hfirst fun x hx hx' =>
        hother x (hne hx) hx'
    · next hk =>
      refine (h.strung j).congr fun x hx => hother x (hne hx) fun hx' => ?_
      -- The first tuple of one thread is in no other.
      obtain ⟨j', rfl, hj'⟩ := Option.bind_eq_some_iff.mp hx'
      exact hk (congrArg some (h.apart j' j x (h.mem_of_newest hj') hx))
  · split
    · exact List.nodup_cons.mpr ⟨hnew j, h.nodup j⟩
    · exact h.nodup j
  · have hcases : ∀ {i}, x ∈ (if k = some i then t :: lists i else lists i) →
        (x = t ∧ k = some i) ∨ x ∈ lists i := by
      intro i hi
      split at hi
      · next hk => exact (List.mem_cons.mp hi).imp (fun hx => ⟨hx, hk⟩) id
      · exact Or.inr hi
    rcases hcases hj with ⟨hx, hk⟩ | hx <;> rcases hcases hj' with ⟨hx', hk'⟩ | hx'
    · exact Option.some.inj (hk.symm.trans hk')
    · exact absurd hx (hne hx')
    · exact absurd hx' (hne hx)
    · exact h.apart j j' x hx hx'

/-! ## A tuple that is taken out of its thread -/

/-- The neighbours of the tuple become neighbours of each other. -/
theorem neighboursOf_unlink (h : s.Fits lists) {j : κ} {before after : List TupleId}
    (hj : lists j = before ++ t :: after) (hlive : ∀ x ∈ lists j, a.contains x = true) :
    (s.unlink a k t).neighboursOf t = {} ∧
      (∀ x, before.getLast? = some x →
        (s.unlink a k t).neighboursOf x = { s.neighboursOf x with older := after.head? }) ∧
      (∀ x, after.head? = some x →
        (s.unlink a k t).neighboursOf x = { s.neighboursOf x with newer := before.getLast? }) ∧
      ∀ x, x ≠ t → before.getLast? ≠ some x → after.head? ≠ some x →
        (s.unlink a k t).neighboursOf x = s.neighboursOf x := by
  have hn : s.neighboursOf t = ⟨before.getLast?, after.head?⟩ :=
    (h.strung j).neighbours before t after hj
  have hnodup := h.nodup j
  rw [hj] at hlive hnodup
  obtain ⟨hnot, hrest⟩ := List.nodup_cons.mp (List.nodup_middle.mp hnodup)
  have hbefore : ∀ x, before.getLast? = some x → x ∈ before := fun x => List.mem_of_getLast?
  have hafter : ∀ x, after.head? = some x → x ∈ after := fun x => List.mem_of_mem_head?
  have ht : t ∉ before ∧ t ∉ after := by rwa [List.mem_append, not_or] at hnot
  have hapart : ∀ x, before.getLast? = some x → after.head? ≠ some x := fun x hx hx' =>
    (List.nodup_append.mp hrest).2.2 x (hbefore x hx) x (hafter x hx') rfl
  simp only [neighboursOf_unlink_eq (hlive t (List.mem_append_right _ List.mem_cons_self))
    (fun x hx => hlive x (List.mem_append_left _ (hbefore x (by rw [← hx, hn]))))
    (fun x hx => hlive x (List.mem_append_right _
      (List.mem_cons_of_mem t (hafter x (by rw [← hx, hn]))))), hn]
  refine ⟨?_, fun x hx => ?_, fun x hx => ?_, fun x hne hx hx' => ?_⟩
  · rw [if_neg fun hx => ht.2 (hafter t hx), if_neg fun hx => ht.1 (hbefore t hx), if_pos trivial,
      if_pos trivial]
  · have hne : t ≠ x := fun heq => ht.1 (heq ▸ hbefore x hx)
    rw [if_neg (hapart x hx), if_pos hx, if_neg hne]
  · have hne : t ≠ x := fun heq => ht.2 (heq ▸ hafter x hx)
    rw [if_pos hx, if_neg fun hx' => hapart x hx' hx, if_neg hne]
  · rw [if_neg hx', if_neg hx, if_neg hne.symm, if_neg hne.symm]

/-- Without its first tuple a thread starts at the second. -/
theorem newestWithout_eq (h : s.Fits lists) (ht : a.contains t = true) {j : κ}
    {before after : List TupleId} (hj : lists j = before ++ t :: after) :
    (s.beside a).newestWithout (s.newest.get? j) t =
      if before = [] then after.head? else s.newest.get? j := by
  have hn : s.neighboursOf t = ⟨before.getLast?, after.head?⟩ :=
    (h.strung j).neighbours before t after hj
  rw [newestWithout_of_live ht, hn, (h.strung j).start, hj]
  cases before <;> simp

/-- **Taking a tuple out of its thread leaves all threads without it.** -/
theorem unlink (h : s.Fits lists) (ht : a.contains t = true)
    (hlive : ∀ j x, x ∈ lists j → a.contains x = true) (hk : ∀ j, t ∈ lists j ↔ k = some j)
    (hloose : k = none → s.neighboursOf t = {}) :
    (s.unlink a k t).Fits fun j => (lists j).filter (· ≠ t) := by
  refine ⟨fun j => ?_, fun j => (h.nodup j).filter _, fun j j' x hj hj' =>
    h.apart j j' x (List.mem_filter.mp hj).1 (List.mem_filter.mp hj').1⟩
  rw [newest_unlink]
  cases k with
  | none =>
      rw [if_neg (by simp), filter_ne_of_not_mem fun hmem => nomatch (hk j).mp hmem]
      exact (h.strung j).congr fun x _ => neighboursOf_unlink_loose ht (hloose rfl) x
  | some k =>
      obtain ⟨before, after, hlist⟩ := List.append_of_mem ((hk k).mpr rfl)
      obtain ⟨-, hnewer, holder, hother⟩ := h.neighboursOf_unlink (k := some k) hlist (hlive k)
      have hnodup := hlist ▸ h.nodup k
      have hnot := (List.nodup_cons.mp (List.nodup_middle.mp hnodup)).1
      by_cases hj : k = j
      · subst hj
        rw [if_pos rfl, hlist, filter_ne_middle hnot, h.newestWithout_eq ht hlist]
        refine (hlist ▸ h.strung k).remove hnodup hnewer holder fun x hx hx' hx'' => ?_
        exact hother x (fun heq => hnot (heq ▸ hx)) hx' hx''
      · rw [if_neg (by simpa using hj),
          filter_ne_of_not_mem fun hmem => hj (Option.some.inj ((hk j).mp hmem))]
        -- A tuple of another thread is not next to the one that goes.
        have hne : ∀ x ∈ lists j, x ∉ before ++ t :: after := fun x hx hx' =>
          hj (h.apart k j x (hlist ▸ hx') hx)
        refine (h.strung j).congr fun x hx =>
          hother x (fun heq => ?_) (fun hlast => ?_) fun hhead => ?_
        · exact hne x hx (heq ▸ List.mem_append_right _ List.mem_cons_self)
        · exact hne x hx (List.mem_append_left _ (List.mem_of_getLast? hlast))
        · exact hne x hx
            (List.mem_append_right _ (List.mem_cons_of_mem t (List.mem_of_mem_head? hhead)))

/-! ## Tuples and threads that go -/

/-- The neighbours of a tuple in no thread can be forgotten. -/
theorem forget (h : s.Fits lists) (ht : ∀ j, t ∉ lists j) : (s.forget t).Fits lists := by
  refine ⟨fun j => (h.strung j).congr fun x hx => ?_, h.nodup, h.apart⟩
  have hne : x ≠ t := fun heq => ht j (heq ▸ hx)
  rw [neighboursOf_forget, if_neg hne]

/-- A thread can be given up. -/
theorem restart_none (h : s.Fits lists) (k : κ) :
    (s.restart k none).Fits fun j => if k = j then [] else lists j := by
  refine ⟨fun j => ?_, fun j => ?_, fun j j' x hj hj' => ?_⟩
  · rw [newest_restart]
    split
    · exact .nil _
    · exact h.strung j
  · split
    · exact List.nodup_nil
    · exact h.nodup j
  · split at hj
    · cases hj
    · split at hj'
      · cases hj'
      · exact h.apart j j' x hj hj'

end Fits

/-! ## Tuples in no thread -/

namespace Loose

theorem link (hl : s.Loose lists) (h : s.Fits lists) (ht : a.contains t = true)
    (hlive : ∀ j x, x ∈ lists j → a.contains x = true) (hnew : ∀ j, t ∉ lists j) :
    (s.link a k t).Loose fun j => if k = some j then t :: lists j else lists j := by
  obtain ⟨hself, -, hother⟩ := h.neighboursOf_link (k := k) ht hlive hnew
  intro x hx
  have hold : ∀ j, x ∉ lists j := fun j hmem => hx j (by simp only; split <;> simp [hmem])
  by_cases hxt : x = t
  · subst hxt
    cases k with
    | none => exact hself
    | some k => exact absurd (hx k) (by simp)
  · rw [hother x hxt fun hnewest => ?_]
    · exact hl x hold
    · obtain ⟨j, -, hj⟩ := Option.bind_eq_some_iff.mp hnewest
      exact hold j (h.mem_of_newest hj)

theorem unlink (hl : s.Loose lists) (h : s.Fits lists) (ht : a.contains t = true)
    (hlive : ∀ j x, x ∈ lists j → a.contains x = true) (hk : ∀ j, t ∈ lists j ↔ k = some j) :
    (s.unlink a k t).Loose fun j => (lists j).filter (· ≠ t) := by
  intro x hx
  cases k with
  | none =>
      have hloose := hl t fun j hmem => nomatch (hk j).mp hmem
      rw [neighboursOf_unlink_loose ht hloose]
      refine hl x fun j hmem => hx j ?_
      simp only [filter_ne_of_not_mem fun hmem' => nomatch (hk j).mp hmem']
      exact hmem
  | some k =>
      obtain ⟨before, after, hlist⟩ := List.append_of_mem ((hk k).mpr rfl)
      obtain ⟨hself, -, -, hother⟩ := h.neighboursOf_unlink (k := some k) hlist (hlive k)
      by_cases hxt : x = t
      · exact hxt ▸ hself
      · have hold : ∀ j, x ∉ lists j :=
          fun j hmem => hx j (List.mem_filter.mpr ⟨hmem, by simpa using hxt⟩)
        have hnot := hlist ▸ hold k
        rw [hother x hxt (fun hlast => hnot ?_) fun hhead => hnot ?_]
        · exact hl x hold
        · exact List.mem_append_left _ (List.mem_of_getLast? hlast)
        · exact List.mem_append_right _ (List.mem_cons_of_mem t (List.mem_of_mem_head? hhead))

omit [DecidableEq κ] in
theorem forget (hl : s.Loose lists) (t : TupleId) : (s.forget t).Loose lists := by
  intro x hx
  rw [neighboursOf_forget]
  split
  · rfl
  · exact hl x hx

end Loose

end Threads

end RuleMatching
