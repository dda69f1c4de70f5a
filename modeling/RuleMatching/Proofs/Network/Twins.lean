import Mathlib.Data.List.Forall2
import RuleMatching.Proofs.Network.Acceptance

set_option autoImplicit false

/-! # Networks that share tests and networks that do not

Whether patterns share tests changes the numbers of nodes and the routes, nothing else. Compiled
either way, the rules have entries of the same types and conditions, whose joins read the same
fields, and a fact reaches the entries at the same places (`Network.Twins`). **A rule set that
compiles one way compiles the other way as well, and the two networks are twins**
(`Network.twins_build`). -/

namespace RuleMatching

open Network

/-- The entries differ in the numbers of nodes at most. -/
structure Entry.Alike (e e' : Entry) : Prop where
  factType : e'.factType = e.factType
  condition : e'.condition = e.condition
  accessors : ∀ a, (∃ r ∈ e'.reads, r.accessor = a) ↔ ∃ r ∈ e.reads, r.accessor = a

namespace Entry.Alike

variable {e e' : Entry}

theorem symm (h : e.Alike e') : e'.Alike e :=
  ⟨h.factType.symm, h.condition.symm, fun a => (h.accessors a).symm⟩

/-- The joins can read the same facts. -/
theorem tryReads_iff (h : e.Alike e') (f : Fact) :
    tryReads f e'.reads = .ok () ↔ tryReads f e.reads = .ok () := by
  have haccessors : ∀ reads : List FieldRead, tryReads f reads = .ok () ↔
      ∀ a, (∃ r ∈ reads, r.accessor = a) → ∃ v, a.read f = .ok v := by
    intro reads
    rw [tryReads_eq_ok_iff]
    exact ⟨fun h a ⟨r, hr, ha⟩ => ha ▸ h r hr, fun h r hr => h _ ⟨r, hr, rfl⟩⟩
  rw [haccessors, haccessors]
  exact forall_congr' fun a => imp_congr_left (h.accessors a)

/-- The same changes concern the entries. -/
theorem any_reads (h : e.Alike e') (changed : List String) :
    (changed.any fun field => e'.reads.any (·.accessor.field == field)) =
      changed.any fun field => e.reads.any (·.accessor.field == field) := by
  refine congrArg changed.any (funext fun field => ?_)
  rw [Bool.eq_iff_iff, List.any_eq_true, List.any_eq_true]
  have hfields : ∀ reads : List FieldRead, (∃ r ∈ reads, (r.accessor.field == field) = true) ↔
      ∃ a, (∃ r ∈ reads, r.accessor = a) ∧ a.field = field := by
    intro reads
    simp only [beq_iff_eq]
    exact ⟨fun ⟨r, hr, hf⟩ => ⟨_, ⟨r, hr, rfl⟩, hf⟩, fun ⟨a, ⟨r, hr, ha⟩, hf⟩ => ⟨r, hr, ha ▸ hf⟩⟩
  rw [hfields, hfields]
  exact exists_congr fun a => and_congr_left fun _ => h.accessors a

end Entry.Alike

/-- The rules differ in the numbers of nodes at most. -/
structure CompiledRule.Alike (r r' : CompiledRule) : Prop where
  id : r'.id = r.id
  name : r'.name = r.name
  entries : List.Forall₂ Entry.Alike r.entries r'.entries

theorem forall₂_alike_symm {l l' : List Entry} (h : List.Forall₂ Entry.Alike l l') :
    List.Forall₂ Entry.Alike l' l := (h.imp fun _ _ ha => ha.symm).flip

namespace Network

/-- The chains of two rules of the same number are cut at the same place. -/
structure SamePlace (net net' : Network) (r : CompiledRule) (before later : List Entry)
    (r' : CompiledRule) (before' later' : List Entry) : Prop where
  cut : net.Cut r before later
  cut' : net'.Cut r' before' later'
  id : r'.id = r.id
  before : List.Forall₂ Entry.Alike before before'
  later : List.Forall₂ Entry.Alike later later'

/-- The networks differ in the numbers of nodes and in routes at most. -/
structure Twins (net net' : Network) : Prop where
  wellFormed : net.WellFormed
  wellFormed' : net'.WellFormed
  rules : List.Forall₂ CompiledRule.Alike net.rules net'.rules
  /-- Rules are numbered in order. -/
  id : ∀ (k : Nat) r, net.rules[k]? = some r → r.id = k
  skipUnaffected : net'.config.skipUnaffected = net.config.skipUnaffected
  fails_iff : ∀ f, (∃ failure, net'.matchingEntries f = .error failure) ↔
    ∃ failure, net.matchingEntries f = .error failure
  /-- A fact reaches the entries at the same places. -/
  reached : ∀ {r before e later r' before' e' later'},
    net.SamePlace net' r before (e :: later) r' before' (e' :: later') →
    ∀ {f l l'}, net.matchingEntries f = .ok l → net'.matchingEntries f = .ok l' →
      (e'.node ∈ l' ↔ e.node ∈ l)

variable {net net' : Network}

namespace SamePlace

variable {r r' : CompiledRule} {before later before' later' : List Entry} {e e' : Entry}

theorem symm (h : net.SamePlace net' r before later r' before' later') :
    net'.SamePlace net r' before' later' r before later :=
  ⟨h.cut', h.cut, h.id.symm, forall₂_alike_symm h.before, forall₂_alike_symm h.later⟩

theorem before_ne_nil (h : net.SamePlace net' r before later r' before' later') (hb : before ≠ []) :
    before' ≠ [] := by
  rintro rfl
  exact hb (List.length_eq_zero_iff.mp h.before.length_eq)

theorem next (h : net.SamePlace net' r before (e :: later) r' before' (e' :: later')) :
    net.SamePlace net' r (before ++ [e]) later r' (before' ++ [e']) later' := by
  obtain ⟨he, hlater⟩ := List.forall₂_cons.mp h.later
  exact ⟨h.cut.next, h.cut'.next, h.id, List.rel_append h.before (.cons he .nil), hlater⟩

theorem entry (h : net.SamePlace net' r before (e :: later) r' before' (e' :: later')) :
    e.Alike e' :=
  (List.forall₂_cons.mp h.later).1

/-- The place before the last entry. -/
theorem prev (h : net.SamePlace net' r (before ++ [e]) later r' before' later') :
    ∃ before'' e', before' = before'' ++ [e'] ∧
      net.SamePlace net' r before (e :: later) r' before'' (e' :: later') := by
  obtain ⟨before'', last, rfl⟩ : ∃ before'' last, before' = before'' ++ [last] := by
    have hne : before' ≠ [] := by
      rintro rfl
      have := h.before.length_eq
      simp at this
    exact ⟨before'.dropLast, before'.getLast hne, (List.dropLast_append_getLast hne).symm⟩
  have hlen : before''.length = before.length := by
    have := h.before.length_eq
    simp only [List.length_append, List.length_singleton] at this
    omega
  have hbefore := List.forall₂_take before.length h.before
  have hlast := List.forall₂_drop before.length h.before
  rw [List.take_left, ← hlen, List.take_left] at hbefore
  rw [List.drop_left, ← hlen, List.drop_left] at hlast
  refine ⟨before'', last, rfl, ⟨h.cut.mem, ?_⟩, ⟨h.cut'.mem, ?_⟩, h.id, hbefore,
    .cons (List.forall₂_cons.mp hlast).1 h.later⟩
  · rw [h.cut.split, List.append_assoc]
    rfl
  · rw [h.cut'.split, List.append_assoc]
    rfl

end SamePlace

namespace Twins

theorem id' (h : net.Twins net') (k : Nat) {r' : CompiledRule} (hr : net'.rules[k]? = some r') :
    r'.id = k := by
  obtain ⟨hk', rfl⟩ := List.getElem?_eq_some_iff.mp hr
  have hk : k < net.rules.length := h.rules.length_eq.symm ▸ hk'
  exact (h.rules.get hk hk').id.trans (h.id k _ (List.getElem?_eq_getElem hk))

theorem symm (h : net.Twins net') : net'.Twins net :=
  ⟨h.wellFormed', h.wellFormed,
    (h.rules.imp fun _ _ hr => ⟨hr.id.symm, hr.name.symm, forall₂_alike_symm hr.entries⟩).flip,
    fun k _ => h.id' k, h.skipUnaffected.symm, fun f => (h.fails_iff f).symm,
    fun hplace _ _ _ hl hl' => (h.reached hplace.symm hl' hl).symm⟩

/-- A rule has its twin, and this is the only one of its number. -/
theorem exists_rule (h : net.Twins net') {r : CompiledRule} (hr : r ∈ net.rules) :
    ∃ r' ∈ net'.rules, r.Alike r' ∧ ∀ r'' ∈ net'.rules, r''.id = r.id → r'' = r' := by
  obtain ⟨k, hk, rfl⟩ := List.mem_iff_getElem.mp hr
  have hk' : k < net'.rules.length := h.rules.length_eq ▸ hk
  refine ⟨net'.rules[k], List.getElem_mem hk', h.rules.get hk hk', fun r'' hr'' hid => ?_⟩
  obtain ⟨k'', hk'', rfl⟩ := List.mem_iff_getElem.mp hr''
  rw [h.id k _ (List.getElem?_eq_getElem hk), h.id' k'' (List.getElem?_eq_getElem hk'')] at hid
  subst hid
  rfl

/-- **Every place has its twin.** -/
theorem exists_samePlace (h : net.Twins net') {r : CompiledRule} {before later : List Entry}
    (hcut : net.Cut r before later) :
    ∃ r' before' later', net.SamePlace net' r before later r' before' later' := by
  obtain ⟨r', hr', halike, -⟩ := h.exists_rule hcut.mem
  have hbefore := List.forall₂_take before.length halike.entries
  have hlater := List.forall₂_drop before.length halike.entries
  rw [hcut.split, List.take_left] at hbefore
  rw [hcut.split, List.drop_left] at hlater
  exact ⟨r', _, _, hcut, ⟨hr', (List.take_append_drop before.length r'.entries).symm⟩,
    halike.id, hbefore, hlater⟩

/-- After the first entries of twin rules are the same places. -/
theorem samePlace_joins (h : net.Twins net') {k : Nat} (hk : k < net.rules.length)
    (hk' : k < net'.rules.length) :
      net.SamePlace net' net.rules[k] [net.rules[k].first] net.rules[k].joins net'.rules[k]
      [net'.rules[k].first] net'.rules[k].joins := by
  have halike : net.rules[k].Alike net'.rules[k] := h.rules.get hk hk'
  obtain ⟨hfirst, hjoins⟩ := List.forall₂_cons.mp halike.entries
  exact ⟨⟨List.getElem_mem hk, rfl⟩, ⟨List.getElem_mem hk', rfl⟩, halike.id,
    .cons hfirst .nil, hjoins⟩

/-- Every entry has its twin. -/
theorem exists_entry (h : net.Twins net') {r : CompiledRule} {before later : List Entry} {e : Entry}
    (hcut : net.Cut r before (e :: later)) :
    ∃ r' before' e' later', net.SamePlace net' r before (e :: later) r' before' (e' :: later') := by
  obtain ⟨r', before', rest, hplace⟩ := h.exists_samePlace hcut
  cases rest with
  | nil => cases hplace.later
  | cons e' later' => exact ⟨r', before', e', later', hplace⟩

/-- The ends of twin rules are the same places. -/
theorem exists_terminal (h : net.Twins net') {r : CompiledRule} (hr : r ∈ net.rules) :
    ∃ r' ∈ net'.rules, r'.name = r.name ∧ net.SamePlace net' r r.entries [] r' r'.entries [] := by
  obtain ⟨r', hr', halike, -⟩ := h.exists_rule hr
  exact ⟨r', hr', halike.name, .terminal hr, .terminal hr', halike.id, halike.entries, .nil⟩

/-- Rules are found by name at the same places. -/
theorem rel_ruleNamed? (h : net.Twins net') (name : String) :
    Option.Rel (fun r r' => net.SamePlace net' r r.entries [] r' r'.entries [])
      (net.ruleNamed? name) (net'.ruleNamed? name) := by
  have hfind : ∀ {rs rs' : List CompiledRule}, List.Forall₂ CompiledRule.Alike rs rs' →
      (∀ r ∈ rs, r ∈ net.rules) → (∀ r' ∈ rs', r' ∈ net'.rules) →
      Option.Rel (fun r r' => net.SamePlace net' r r.entries [] r' r'.entries [])
        (rs.find? (·.name == name)) (rs'.find? (·.name == name)) := by
    intro rs rs' hrules
    induction hrules with
    | nil => exact fun _ _ => .none
    | @cons r r' rest rest' halike _ ih =>
        intro hmem hmem'
        rw [List.forall_mem_cons] at hmem hmem'
        rw [List.find?_cons, List.find?_cons, halike.name]
        cases r.name == name with
        | true => exact .some ⟨.terminal hmem.1, .terminal hmem'.1, halike.id, halike.entries, .nil⟩
        | false => exact ih hmem.2 hmem'.2
  exact hfind h.rules (fun _ hr => hr) fun _ hr => hr

theorem matchingEntries_ok (h : net.Twins net') {f : Fact} {l : List NodeId}
    (hl : net.matchingEntries f = .ok l) : ∃ l', net'.matchingEntries f = .ok l' := by
  cases hl' : net'.matchingEntries f with
  | ok l' => exact ⟨l', rfl⟩
  | error failure =>
      obtain ⟨failure', hfail⟩ := (h.fails_iff f).mp ⟨failure, hl'⟩
      rw [hl] at hfail
      cases hfail

/-- The joins at the same place can read the same facts. -/
theorem checkEntry_iff (h : net.Twins net') {r r' : CompiledRule}
    {before later before' later' : List Entry} {e e' : Entry}
    (hplace : net.SamePlace net' r before (e :: later) r' before' (e' :: later')) (f : Fact) :
    net'.checkEntry e'.node f = .ok () ↔ net.checkEntry e.node f = .ok () := by
  rw [h.wellFormed.checkEntry_eq (mem_allEntries_iff.mpr ⟨r, before, later, hplace.cut⟩),
    h.wellFormed'.checkEntry_eq (mem_allEntries_iff.mpr ⟨r', before', later', hplace.cut'⟩)]
  exact hplace.entry.tryReads_iff f

/-- A fact that can enter all entries that it reaches in one network can do so in the other. -/
theorem checkEntries_ok (h : net.Twins net') {f : Fact} {l l' : List NodeId}
    (hl : net.matchingEntries f = .ok l) (hl' : net'.matchingEntries f = .ok l')
    (hok : Session.checkEntries net f l = .ok ()) : Session.checkEntries net' f l' = .ok () := by
  rw [checkEntries_eq_ok_iff] at hok ⊢
  intro n hn
  -- An entry that is reached in the second network has its twin reached in the first one.
  obtain ⟨e', he', rfl, -⟩ := (h.wellFormed'.reached hl').2.2 n hn
  obtain ⟨r', before', later', hcut'⟩ := mem_allEntries_iff.mp he'
  obtain ⟨r, before, e, later, hplace⟩ := h.symm.exists_entry hcut'
  exact (h.checkEntry_iff hplace.symm f).mpr (hok _ ((h.reached hplace.symm hl hl').mp hn))

end Twins

end Network

/-! ## Compilation -/

namespace Builder

variable {schemas : SchemaRegistry} {config : Config}

/-- The reads of a rule depend on its first node by the numbers of nodes only. -/
theorem map_readsFrom (node node' position : Nat) (ps : List CompiledPattern) :
    (readsFrom node' position ps).map (fun x => (x.1, x.2.accessor)) =
      (readsFrom node position ps).map fun x => (x.1, x.2.accessor) := by
  induction ps generalizing node node' position with
  | nil => rfl
  | cons p rest ih =>
      rw [readsFrom, readsFrom, List.map_append, List.map_append, ih (node + 1) (node' + 1)]
      refine congrArg (· ++ _) ?_
      simp only [readsOf, List.map_flatMap, List.map_cons, List.map_nil]

/-- Compiled with another first node, a rule has the same entries but for the numbers of nodes. -/
theorem alike_ruleOf (depth : Nat) (id : RuleId) (node node' : NodeId) (name : String)
    (first : CompiledPattern) (rest : List CompiledPattern) :
    (ruleOf depth id node name first rest).Alike (ruleOf depth id node' name first rest) := by
  refine ⟨rfl, rfl, List.forall₂_iff_get.mpr ⟨by rw [length_entries_ruleOf, length_entries_ruleOf],
    fun i h h' => ?_⟩⟩
  obtain ⟨p, hp, -, -, htype, hcond, hreads⟩ := getElem?_entries_ruleOf (List.getElem?_eq_getElem h)
  obtain ⟨p', hp', -, -, htype', hcond', hreads'⟩ :=
    getElem?_entries_ruleOf (List.getElem?_eq_getElem h')
  rw [hp, Option.some.injEq] at hp'
  subst hp'
  refine ⟨htype'.trans htype.symm, hcond'.trans hcond.symm, fun a => ?_⟩
  have hmem : ∀ n, (∃ r ∈ readsAt (readsFrom n 0 (first :: rest)) i, r.accessor = a) ↔
      (i, a) ∈ (readsFrom n 0 (first :: rest)).map fun x => (x.1, x.2.accessor) := by
    intro n
    simp only [mem_readsAt, List.mem_map, Prod.mk.injEq, Prod.exists]
    exact ⟨fun ⟨r, hr, ha⟩ => ⟨i, r, hr, rfl, ha⟩, fun ⟨_, r, hr, hi, ha⟩ => ⟨r, hi ▸ hr, ha⟩⟩
  rw [List.get_eq_getElem, List.get_eq_getElem, hreads, hreads', hmem, hmem,
    map_readsFrom node node']

end Builder

namespace Network

variable {rules : List Rule} {schemas : SchemaRegistry} {config config' : Config}
    {net net' : Network}

theorem id_build (h : build rules schemas config = .ok net) (k : Nat) {r : CompiledRule}
    (hr : net.rules[k]? = some r) : r.id = k := by
  obtain ⟨rule, -, hcompiled⟩ := rules_build h k hr
  exact hcompiled.id_eq

/-- The entries of one pattern are at the same place. -/
theorem SamePlace.isEntryOf (h : build rules schemas config = .ok net)
    (h' : build rules schemas config' = .ok net') {r r' : CompiledRule}
    {before later before' later' : List Entry} {e e' : Entry}
    (hplace : net.SamePlace net' r before (e :: later) r' before' (e' :: later'))
    {property : Pattern → Prop} (hentry : IsEntryOf rules net.rules property e.node) :
    IsEntryOf rules net'.rules property e'.node := by
  obtain ⟨k, i, rule, p, hk, hp, hprop, hn⟩ := hentry
  refine ⟨k, i, rule, p, hk, hp, hprop, ?_⟩
  obtain ⟨r₁, hr₁, hn⟩ := Option.bind_eq_some_iff.mp hn
  obtain ⟨e₁, he₁, hn⟩ := Option.map_eq_some_iff.mp hn
  -- The node stands at one place only.
  have hi := (List.getElem?_eq_some_iff.mp he₁).1
  have hcut₁ := Cut.of_getElem? (List.mem_of_getElem? hr₁) he₁
  obtain ⟨rfl, hbefore, rfl, -⟩ := (wellFormed_build h).entry_inj hcut₁ hplace.cut hn
  have hlen : before'.length = i := by
    rw [← hplace.before.length_eq, ← hbefore, List.length_take]
    omega
  obtain ⟨k', hk'⟩ := List.mem_iff_getElem?.mp hplace.cut'.mem
  have hkk : k' = k := by rw [← id_build h' k' hk', hplace.id, id_build h k hr₁]
  subst hkk
  rw [entryNode?, hk', Option.bind_some, ← hlen, Builder.getElem?_of_split hplace.cut'.split]
  rfl

/-- **A rule set that compiles with shared tests compiles without them, and the other way round**,
to networks that are twins. -/
theorem twins_build {a b : Bool}
    (h : build rules schemas { config with shareTests := a } = .ok net) :
    ∃ net', build rules schemas { config with shareTests := b } = .ok net' ∧ net.Twins net' := by
  have hadmissible := exists_build_iff.mp ⟨net, h⟩
  -- Whether rules compile does not depend on what they share.
  obtain ⟨net', h'⟩ : ∃ net', build rules schemas { config with shareTests := b } = .ok net' :=
    exists_build_iff.mpr ⟨hadmissible.keyDepth, hadmissible.names, hadmissible.rule⟩
  have hconfig : net'.config.skipUnaffected = net.config.skipUnaffected := by
    obtain ⟨-, _, -, rfl⟩ := build_eq_ok_iff.mp h
    obtain ⟨-, _, -, rfl⟩ := build_eq_ok_iff.mp h'
    rfl
  refine ⟨net', h', wellFormed_build h, wellFormed_build h', ?_, fun k _ => id_build h k, hconfig,
    fun f => ?_, fun hplace f l l' hl hl' => ?_⟩
  · refine List.forall₂_iff_get.mpr ⟨(length_rules_build h).trans (length_rules_build h').symm,
      fun k hk hk' => ?_⟩
    obtain ⟨rule, hrule, node, first, rest, hcompile, heq⟩ :=
      rules_build h k (List.getElem?_eq_getElem hk)
    obtain ⟨rule', hrule', node', first', rest', hcompile', heq'⟩ :=
      rules_build h' k (List.getElem?_eq_getElem hk')
    rw [hrule, Option.some.injEq] at hrule'
    subst hrule'
    rw [hcompile, Except.ok.injEq, List.cons.injEq] at hcompile'
    obtain ⟨rfl, rfl⟩ := hcompile'
    rw [List.get_eq_getElem, List.get_eq_getElem, heq, heq']
    exact Builder.alike_ruleOf config.keyDepth k node node' rule.name first rest
  · rw [matchingEntries_fails_iff h, matchingEntries_fails_iff h']
  · rw [mem_reached_iff h hl, mem_reached_iff h' hl']
    exact ⟨hplace.symm.isEntryOf h' h, hplace.isEntryOf h h'⟩

end Network

end RuleMatching
