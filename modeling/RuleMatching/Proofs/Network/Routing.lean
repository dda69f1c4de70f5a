import RuleMatching.Proofs.Network.Shape
import RuleMatching.Proofs.Outcome
import RuleMatching.Session.Basic

set_option autoImplicit false

/-! # Where a fact belongs

A fact reaches entries of its own type only, each once (`Network.WellFormed.reached`), and it
belongs in those that come before the first whose joins could not read it (`Network.admitting`). An
entry that the changed fields do not concern reads both versions of a fact alike
(`Network.reads_alike`). -/

namespace RuleMatching

open Network

/-- The entries that a fact reaches are among those on its routes, in the same order. -/
theorem Routes.matching_sublist {f : Fact} {routes : Routes} {l : List NodeId}
    (h : routes.matching f = .ok l) : l.Sublist routes.entries := by
  induction routes generalizing l with
  | nil =>
      cases h
      exact List.Sublist.refl _
  | entry n rest ih =>
      rw [matching, Outcome.bind_eq_ok_iff] at h
      obtain ⟨l', hl', h⟩ := h
      rw [Outcome.pure_eq_ok_iff] at h
      rw [h, entries]
      exact (ih hl').cons_cons n
  | test n t below rest ihb ihr =>
      rw [matching] at h
      rw [entries]
      split at h
      · cases h
      · rw [Outcome.bind_eq_ok_iff] at h
        obtain ⟨l₁, hl₁, h⟩ := h
        rw [Outcome.bind_eq_ok_iff] at h
        obtain ⟨l₂, hl₂, h⟩ := h
        rw [Outcome.pure_eq_ok_iff] at h
        rw [h]
        exact (ihb hl₁).append (ihr hl₂)
      · -- The test fails, and what is below it is passed over.
        exact (ihr h).trans (List.sublist_append_right _ _)

namespace Network

variable {net : Network} {f : Fact} {l : List NodeId}

/-- The entries of a list before the first whose joins could not read the fact. -/
def enterable (net : Network) (f : Fact) (l : List NodeId) : List NodeId :=
  l.takeWhile fun n => (net.checkEntry n f).isOk

/-- The entries that a fact belongs in. -/
def admitting (net : Network) (f : Fact) : List NodeId :=
  match net.matchingEntries f with
  | .ok l => net.enterable f l
  | .error _ => []

theorem admitting_of_ok (h : net.matchingEntries f = .ok l) :
    net.admitting f = net.enterable f l := by
  rw [admitting, h]

theorem admitting_of_error {failure : NodeFailure} (h : net.matchingEntries f = .error failure) :
    net.admitting f = [] := by
  rw [admitting, h]

/-- A fact reaches entries for its own type, in the order of routes. -/
theorem reached_sublist (h : net.matchingEntries f = .ok l) :
    l.Sublist (net.entriesFor f.factType) := by
  unfold matchingEntries at h
  unfold entriesFor
  split at h
  · exact Routes.matching_sublist h
  · cases h
    exact List.nil_sublist _

/-- **A fact reaches entries of its own type, each once.** -/
theorem WellFormed.reached (hnet : net.WellFormed) (h : net.matchingEntries f = .ok l) :
    l.Nodup ∧ (∀ n ∈ l, n ∈ net.entriesFor f.factType) ∧
      ∀ n ∈ l, ∃ e ∈ net.allEntries, e.node = n ∧ e.factType = f.factType := by
  have hsub := reached_sublist h
  exact ⟨(hnet.nodup_entriesFor _).sublist hsub, fun n hn => hsub.subset hn,
    fun n hn => hnet.mem_entriesFor _ n (hsub.subset hn)⟩

/-! ## Entries that can be entered -/

theorem enterable_cons (n : NodeId) (rest : List NodeId) : net.enterable f (n :: rest) =
    match net.checkEntry n f with
    | .ok () => n :: net.enterable f rest
    | .error _ => [] := by
  rw [enterable, List.takeWhile_cons]
  cases net.checkEntry n f <;> rfl

theorem checkEntries_cons (n : NodeId) (rest : List NodeId) :
    Session.checkEntries net f (n :: rest) =
    match net.checkEntry n f with
    | .ok () => Session.checkEntries net f rest
    | .error failure => .error failure := by
  rw [Session.checkEntries]
  cases net.checkEntry n f <;> rfl

/-- A fact can enter all entries of a list iff it can enter each of them. -/
theorem checkEntries_eq_ok_iff :
    Session.checkEntries net f l = .ok () ↔ ∀ n ∈ l, net.checkEntry n f = .ok () := by
  induction l with
  | nil => simp [Session.checkEntries]
  | cons n rest ih =>
      rw [checkEntries_cons]
      cases hn : net.checkEntry n f with
      | ok u => simp [hn, ih]
      | error failure => simp [hn]

/-- A fact cannot enter all entries of a list iff there is a first that it cannot enter. -/
theorem checkEntries_eq_error_iff {failure : NodeFailure} :
    Session.checkEntries net f l = .error failure ↔ ∃ before n after, l = before ++ n :: after ∧
      (∀ m ∈ before, net.checkEntry m f = .ok ()) ∧ net.checkEntry n f = .error failure := by
  induction l with
  | nil => simp [Session.checkEntries]
  | cons n rest ih =>
      rw [checkEntries_cons]
      constructor
      · intro h
        cases hn : net.checkEntry n f with
        | error failure' =>
            rw [hn] at h
            exact ⟨[], n, rest, rfl, List.forall_mem_nil _, hn.trans h⟩
        | ok u =>
            rw [hn] at h
            obtain ⟨before, m, after, rfl, hbefore, hm⟩ := ih.mp h
            exact ⟨n :: before, m, after, rfl, List.forall_mem_cons.mpr ⟨hn, hbefore⟩, hm⟩
      · rintro ⟨before, m, after, hl, hbefore, hm⟩
        cases before with
        | nil =>
            obtain ⟨rfl, -⟩ := List.cons.inj hl
            rw [hm]
        | cons n' before =>
            obtain ⟨rfl, hrest⟩ := List.cons.inj hl
            obtain ⟨hn, hbefore⟩ := List.forall_mem_cons.mp hbefore
            rw [hn]
            exact ih.mpr ⟨before, m, after, hrest, hbefore, hm⟩

/-- All entries of a list can be entered if the fact can enter each of them. -/
theorem enterable_eq_self (h : ∀ n ∈ l, net.checkEntry n f = .ok ()) : net.enterable f l = l := by
  rw [enterable, List.takeWhile_eq_self_iff]
  intro n hn
  rw [h n hn]
  rfl

theorem checkEntry_of_mem_enterable {n : NodeId} (h : n ∈ net.enterable f l) :
    n ∈ l ∧ net.checkEntry n f = .ok () := by
  refine ⟨(List.takeWhile_sublist _).subset h, ?_⟩
  have hok := List.mem_takeWhile_imp h
  cases hn : net.checkEntry n f with
  | ok u => rfl
  | error failure =>
      rw [hn] at hok
      cases hok

/-- What the check of an entry says. -/
theorem WellFormed.checkEntry_eq (hnet : net.WellFormed) {e : Entry} (he : e ∈ net.allEntries)
    (f : Fact) : net.checkEntry e.node f = tryReads f e.reads := by
  rw [checkEntry, hnet.entry?_eq he]

/-! ## Networks with the same routes -/

/-- The networks lead every fact to the same entries, and check it alike there. -/
structure RoutesAlike (net net' : Network) : Prop where
  matching : ∀ f, net'.matchingEntries f = net.matchingEntries f
  check : ∀ n f, net'.checkEntry n f = net.checkEntry n f

namespace RoutesAlike

variable {net' : Network} (h : net.RoutesAlike net')

include h

theorem checkEntries (f : Fact) (l : List NodeId) :
    Session.checkEntries net' f l = Session.checkEntries net f l := by
  induction l with
  | nil => rfl
  | cons n rest ih => rw [checkEntries_cons, checkEntries_cons, h.check, ih]

theorem admitting (f : Fact) : net'.admitting f = net.admitting f := by
  unfold Network.admitting enterable
  simp only [h.matching, h.check]

end RoutesAlike

/-! ## Changes that do not concern an entry -/

/-- An entry that the changed fields do not concern reads none of them. -/
theorem WellFormed.not_mem_of_isAffected (hnet : net.WellFormed) {e : Entry}
    (he : e ∈ net.allEntries) {changed : List String} (h : net.isAffected e.node changed = false) :
    ∀ r ∈ e.reads, r.accessor.field ∉ changed := by
  rw [isAffected, hnet.entry?_eq he] at h
  intro r hr hmem
  have hany : (changed.any fun field => e.reads.any (·.accessor.field == field)) = true :=
    List.any_eq_true.mpr ⟨_, hmem, List.any_eq_true.mpr ⟨r, hr, beq_self_eq_true _⟩⟩
  exact Bool.false_ne_true (h.symm.trans hany)

/-- All reads of an entry are alike in the two versions of a fact. -/
def VersionsAlike (e : Entry) (old new : Fact) : Prop :=
  ∀ r ∈ e.reads, ReadsAlike (r.accessor.read old) (r.accessor.read new)

/-- **A change that does not concern an entry leaves its reads alike.** -/
theorem WellFormed.versionsAlike (hnet : net.WellFormed) {e : Entry} (he : e ∈ net.allEntries)
    {old new : Fact} (htype : old.factType = new.factType)
    (h : net.isAffected e.node (old.changedFields new) = false)
    (hread : tryReads old e.reads = .ok ()) :
    VersionsAlike e old new := fun r hr =>
  Accessor.readsAlike htype (hnet.not_mem_of_isAffected he h r hr)
    (tryReads_eq_ok_iff.mp hread r hr)

theorem VersionsAlike.refl {e : Entry} {f : Fact} (h : tryReads f e.reads = .ok ()) :
    VersionsAlike e f f := fun r hr => .refl (tryReads_eq_ok_iff.mp h r hr)

theorem VersionsAlike.readable {e : Entry} {old new : Fact} (h : VersionsAlike e old new) :
    tryReads new e.reads = .ok () := by
  rw [tryReads_eq_ok_iff]
  intro r hr
  obtain ⟨_, w, _, hw, _⟩ := h r hr
  exact ⟨w, hw⟩

end Network

end RuleMatching
