import Mathlib.Data.List.Induction
import RuleMatching.Proofs.Session.Runs

set_option autoImplicit false

/-! # Which matches there are

A match of some entries is a list of live facts, one for each of the entries, each of which belongs
in at its entry and joins the facts before it (`Network.IsMatch`). **In a consistent session that is
current every place of a chain has each of its matches exactly once**
(`Session.Current.mem_handles_iff`, `Session.Current.handles_inj`). -/

namespace RuleMatching

open Network

/-- The facts belong in at the entries, one at each, and each of them joins those before it. -/
def Network.IsMatch (net : Network) (facts : FactStore) (es : List Entry) (hs : List Handle) :
    Prop :=
  ∃ fs : List Fact, hs.map facts.get? = fs.map some ∧ fs.length = es.length ∧
    ∀ (i : Nat) e f, es[i]? = some e → fs[i]? = some f →
      e.node ∈ net.admitting f ∧ ∀ t ∈ e.condition.tests, t.isAllowed (fs.take i) f = .ok true

/-- The fact is live and belongs in at the entry. -/
def Network.Admits (net : Network) (facts : FactStore) (n : NodeId) (h : Handle) : Prop :=
  ∃ f, facts.get? h = some f ∧ n ∈ net.admitting f

variable {net : Network} {facts : FactStore}

theorem Network.RoutesAlike.admits_iff {net' : Network} (h : net.RoutesAlike net') (n : NodeId)
    (k : Handle) : net'.Admits facts n k ↔ net.Admits facts n k := by
  simp only [Admits, h.admitting]

theorem Network.RoutesAlike.isMatch_iff {net' : Network} (h : net.RoutesAlike net')
    (es : List Entry) (hs : List Handle) : net'.IsMatch facts es hs ↔ net.IsMatch facts es hs := by
  simp only [IsMatch, h.admitting]

/-! ## Matches fact by fact -/

theorem factsOf_eq_of_map {hs : List Handle} {fs : List Fact}
    (h : hs.map facts.get? = fs.map some) : factsOf facts hs = fs := by
  have hfilter := congrArg (List.filterMap id) h
  rw [List.filterMap_map, List.filterMap_map, Function.id_comp, Function.id_comp,
    List.filterMap_some] at hfilter
  exact hfilter

theorem Entry.joins_iff_isAllowed {e : Entry} {hs : List Handle} {h : Handle} {f : Fact}
    (hf : facts.get? h = some f) : e.joins facts hs h = true ↔
      ∀ t ∈ e.condition.tests, t.isAllowed (factsOf facts hs) f = .ok true := by
  rw [joins, hf]
  simp only
  rw [JoinCondition.passes, List.all_eq_true]
  exact forall₂_congr fun t _ => t.passes_iff (factsOf facts hs) f

namespace Network

theorem isMatch_nil_iff {hs : List Handle} : net.IsMatch facts [] hs ↔ hs = [] := by
  constructor
  · rintro ⟨fs, hmap, hlen, -⟩
    have hlen' := congrArg List.length hmap
    rw [List.length_map, List.length_map, hlen] at hlen'
    exact List.length_eq_zero_iff.mp hlen'
  · rintro rfl
    exact ⟨[], rfl, rfl, fun i e f he => by simp at he⟩

/-- **A match of one more entry is a match with a fact that joins it there.** -/
theorem isMatch_append_iff {es : List Entry} {e : Entry} {hs : List Handle} {h : Handle} :
    net.IsMatch facts (es ++ [e]) (hs ++ [h]) ↔
      net.IsMatch facts es hs ∧ net.Admits facts e.node h ∧ e.joins facts hs h = true := by
  constructor
  · rintro ⟨fs, hmap, hlen, hall⟩
    obtain ⟨fs, f, rfl⟩ : ∃ fs' f, fs = fs' ++ [f] := by
      have hne : fs ≠ [] := by
        rintro rfl
        simp at hlen
      exact ⟨fs.dropLast, fs.getLast hne, (List.dropLast_append_getLast hne).symm⟩
    rw [List.map_append, List.map_append, List.map_singleton, List.map_singleton] at hmap
    obtain ⟨hmap, hlast⟩ := List.append_inj' hmap rfl
    rw [List.singleton_inj] at hlast
    have hlen' : fs.length = es.length := by simpa using hlen
    -- At the last position the tests are those of the entry, against all the facts before.
    obtain ⟨hadm, htests⟩ := hall es.length e f (by simp) (by simp [← hlen'])
    rw [← hlen', List.take_left] at htests
    refine ⟨⟨fs, hmap, hlen', fun i e' f' he hf => ?_⟩, ⟨f, hlast, hadm⟩, ?_⟩
    · have hi := (List.getElem?_eq_some_iff.mp hf).1
      have hi' := (List.getElem?_eq_some_iff.mp he).1
      have := hall i e' f' (by rw [List.getElem?_append_left hi', he])
        (by rw [List.getElem?_append_left hi, hf])
      rwa [List.take_append_of_le_length (Nat.le_of_lt hi)] at this
    · rw [Entry.joins_iff_isAllowed hlast, factsOf_eq_of_map hmap]
      exact htests
  · rintro ⟨⟨fs, hmap, hlen, hall⟩, ⟨f, hf, hadm⟩, hjoins⟩
    rw [Entry.joins_iff_isAllowed hf, factsOf_eq_of_map hmap] at hjoins
    refine ⟨fs ++ [f], by simp [hmap, hf], by simp [hlen], fun i e' f' he hf' => ?_⟩
    -- A position before the last one sees the facts that it saw without the last one.
    rcases Nat.lt_trichotomy i fs.length with hi | hi | hi
    · rw [List.getElem?_append_left hi] at hf'
      rw [List.getElem?_append_left (hlen ▸ hi)] at he
      rw [List.take_append_of_le_length (Nat.le_of_lt hi)]
      exact hall i e' f' he hf'
    · subst hi
      rw [hlen] at he
      simp only [List.getElem?_concat_length, Option.some.injEq] at he hf'
      subst he hf'
      rw [List.take_left]
      exact ⟨hadm, hjoins⟩
    · rw [List.getElem?_eq_none (by simp; omega)] at hf'
      cases hf'

/-- A match of one more entry has a last fact. -/
theorem exists_append_of_isMatch {es : List Entry} {e : Entry} {l : List Handle}
    (h : net.IsMatch facts (es ++ [e]) l) : ∃ hs k, l = hs ++ [k] := by
  obtain ⟨fs, hmap, hlen, -⟩ := h
  have hne : l ≠ [] := by
    rintro rfl
    have := congrArg List.length hmap
    simp [hlen] at this
  exact ⟨l.dropLast, l.getLast hne, (List.dropLast_append_getLast hne).symm⟩

end Network

/-! ## The matches of a session -/

namespace Session

variable {s : Session}

theorem Consistent.holds_iff_admits (hs : s.Consistent) (n : NodeId) (h : Handle) :
    s.state.holds n h = true ↔ s.network.Admits s.facts n h := hs.placed n h

/-- Every fact joins at the first entry of a rule. -/
theorem Consistent.joins_first (hs : s.Consistent) {r : CompiledRule} (hr : r ∈ s.network.rules)
    {h : Handle} (hh : s.network.Admits s.facts r.first.node h) :
    r.first.joins s.facts [] h = true := by
  obtain ⟨f, hf, -⟩ := hh
  rw [Entry.joins_iff_isAllowed hf, (hs.network.rule r hr).first_tests]
  intro t ht
  cases ht

namespace Current

variable (hs : s.Consistent) (hc : s.Current) {r : CompiledRule} {before later : List Entry}
  (hcut : s.network.Cut r before later)

include hs hc hcut

/-- Every live tuple is a match. -/
theorem isMatch {x : TupleId} {t : Tuple} (hx : s.state.arena.get? x = some t)
    (hsink : t.sink = r.sinkAfter later) :
    s.network.IsMatch s.facts before (s.state.arena.handles x) := by
  have ha := hc.coherent.arena
  refine hc.coherent.match_induction hs.network
    (C := fun x _ _ before _ => s.network.IsMatch s.facts before (s.state.arena.handles x))
    (fun x t r hx hl => ?_) (fun x t q u r before e later hx hl hb hq hu husink ih => ?_) hx
      hcut hsink
  · have hin := (hc.settled x t hx).backed r [] r.first r.joins hl.cut hl.sink
    have hadm := (hs.holds_iff_admits _ _).mp hin
    rw [Arena.handles_root ha hx (hl.root rfl).1, ← List.nil_append [r.first],
      ← List.nil_append [t.handle], isMatch_append_iff]
    exact ⟨isMatch_nil_iff.mpr rfl, hadm, hs.joins_first hl.cut.mem hadm⟩
  · have hin := (hc.settled x t hx).backed r before e later hl.cut hl.sink
    have hadm := (hs.holds_iff_admits _ _).mp hin
    have hjoined := (hc.settled q u hu).joined e (hl.cut.join hb) husink t.handle hin
    rw [Arena.handles_child ha hx hq, isMatch_append_iff]
    exact ⟨ih, hadm, hjoined.mpr ⟨x, t, hx, hq, rfl⟩⟩

/-- **A place of a chain has no match twice.** -/
theorem handles_inj {x y : TupleId} {t u : Tuple} (hx : s.state.arena.get? x = some t)
    (hy : s.state.arena.get? y = some u) (hxsink : t.sink = r.sinkAfter later)
    (hysink : u.sink = r.sinkAfter later)
    (heq : s.state.arena.handles x = s.state.arena.handles y) : x = y :=
  RuleMatching.handles_inj hs.network hc.coherent hc.sound.kept hcut hx hy hxsink hysink heq

/-- Every match has its tuple. -/
theorem exists_tuple {l : List Handle} (hb : before ≠ [])
    (hl : s.network.IsMatch s.facts before l) :
    ∃ x t, s.state.arena.get? x = some t ∧ t.sink = r.sinkAfter later ∧
    s.state.arena.handles x = l := by
  have ha := hc.coherent.arena
  -- On the entries before the place: the match of all but the last is a tuple, which the last
  -- fact extends.
  induction before using List.reverseRecOn generalizing later l with
  | nil => exact absurd rfl hb
  | append_singleton es e ih =>
      obtain ⟨l, h, rfl⟩ := exists_append_of_isMatch hl
      obtain ⟨hmatch, hadm, hjoins⟩ := isMatch_append_iff.mp hl
      have hin := (hs.holds_iff_admits _ _).mpr hadm
      have hcut' : s.network.Cut r es (e :: later) :=
        ⟨hcut.mem, by rw [hcut.split, List.append_assoc]; rfl⟩
      by_cases hes : es = []
      · subst hes
        rw [isMatch_nil_iff.mp hmatch]
        obtain ⟨hfirst, hlater⟩ := hcut'.eq_first
        rw [← hfirst] at hin
        obtain ⟨m, hm, hfits⟩ := hc.coherent.adapters.at_site r hcut.mem
        obtain ⟨x, hx⟩ := (hc.coherent.holds_first_iff hs.network hcut.mem hm h).mp hin
        obtain ⟨t, ht, hp, hh, hsink⟩ := hfits.root h x hx
        exact ⟨x, t, ht, hlater ▸ hsink, by rw [Arena.handles_root ha ht hp, hh]; rfl⟩
      · obtain ⟨q, v, hv, hvsink, hq⟩ := ih hcut' hes hmatch
        rw [← hq] at hjoins
        obtain ⟨c, u, hu, hp, hh⟩ :=
          ((hc.settled q v hv).joined e (hcut'.join hes) hvsink h hin).mp hjoins
        exact ⟨c, u, hu, hc.coherent.sink_of_parent hs.network hu hp hv hcut' hvsink,
          by rw [Arena.handles_child ha hu hp, hq, hh]⟩

/-- **At a place of a chain wait the matches of the entries before it.** -/
theorem mem_handles_iff (hb : before ≠ []) (l : List Handle) :
    l ∈ (s.state.arena.storedAt (r.sinkAfter later)).map s.state.arena.handles ↔
      s.network.IsMatch s.facts before l := by
  have hvalid := hc.coherent.arena.valid
  rw [List.mem_map]
  constructor
  · rintro ⟨x, hx, rfl⟩
    obtain ⟨t, _, ht, hsink, _⟩ := (Arena.mem_storedAt hvalid).mp hx
    exact isMatch hs hc hcut ht hsink
  · intro hl
    obtain ⟨x, t, ht, hsink, hx⟩ := exists_tuple hs hc hcut hb hl
    exact ⟨x, (Arena.mem_storedAt_of_get? hvalid ht).mpr ⟨hsink, (hc.settled x t ht).stored⟩, hx⟩

theorem nodup_handles :
    ((s.state.arena.storedAt (r.sinkAfter later)).map s.state.arena.handles).Nodup := by
  have hvalid := hc.coherent.arena.valid
  refine (List.nodup_map_iff_inj_on (Arena.nodup_storedAt hvalid _)).mpr fun x hx y hy heq => ?_
  obtain ⟨t, _, ht, hsink, _⟩ := (Arena.mem_storedAt hvalid).mp hx
  obtain ⟨u, _, hu, husink, _⟩ := (Arena.mem_storedAt hvalid).mp hy
  exact handles_inj hs hc hcut ht hu hsink husink heq

end Current

end Session

end RuleMatching
