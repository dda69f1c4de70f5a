import RuleMatching.Proofs.Memory.Linked

set_option autoImplicit false

/-! # Locations of items that were removed

Whoever removes an item may keep its location and ask for it again. A list knows such a location by
the generation of its slot (`SlotMap.Spent`), and a linear memory has one list for ever. The list of
a key in a hashed memory, though, goes with its last item, and the list that is made for the key
later counts its generations from 0 again. **So a location stays stale for as long as its list is
there, and in any case until it is handed out again** (`Memory.stale_run`). Once the list has gone
the location may come to stand for another item (`Memory.stale_dropped`). -/

namespace RuleMatching

/-! ## Calls by location -/

/-- A call to a memory whose locations are of type `ρ`. Nothing is asked of the location
of a removal. -/
inductive MemoryStep (α ρ : Type) where
  | add (key : Option IndexKey) (item : α)
  | remove (location : ρ)

namespace MemoryOps

variable {α μ ρ : Type} (ops : MemoryOps α μ ρ)

/-- The memory after a call; one that is refused leaves it as it is. -/
def step (m : μ) : MemoryStep α ρ → μ
  | .add key item => ((ops.add? m key item).map Prod.snd).getD m
  | .remove l => ((ops.remove? m l).map Prod.snd).getD m

/-- The location that a call hands out. -/
def handsOut (m : μ) : MemoryStep α ρ → Option ρ
  | .add key item => (ops.add? m key item).map Prod.fst
  | .remove _ => none

/-- The memory after some calls. -/
def after (m : μ) (calls : List (MemoryStep α ρ)) : μ := calls.foldl ops.step m

/-- The locations that some calls hand out, in order. -/
def handedOut : μ → List (MemoryStep α ρ) → List ρ
  | _, [] => []
  | m, c :: rest => (ops.handsOut m c).toList ++ handedOut (ops.step m c) rest

/-- A removal at the location finds nothing and changes nothing. -/
structure Stale (m : μ) (l : ρ) : Prop where
  refused : ops.remove? m l = none
  unchanged : ops.step m (.remove l) = m

/-- The location stays stale through the calls, if the list of its key is there all the
time. A linear memory never loses its list. In any case the location is stale until it is
handed out again. -/
structure Gone (kind : MemoryKind) (key : Option IndexKey) (m : μ) (l : ρ)
    (later : List (MemoryStep α ρ)) : Prop where
  stale : (kind = .hashed → ∀ earlier, earlier <+: later →
    ops.candidates (ops.after m earlier) key ≠ []) →
    ops.Stale (ops.after m later) l
  handed_out : l ∉ ops.handedOut m later → ops.Stale (ops.after m later) l

variable {ops}

theorem step_add {m m' : μ} {key : Option IndexKey} {item : α} {l : ρ}
    (h : ops.add? m key item = some (l, m')) :
    ops.step m (.add key item) = m' ∧ ops.handsOut m (.add key item) = some l := by
  simp [step, handsOut, h]

theorem step_add_none {m : μ} {key : Option IndexKey} {item : α} (h : ops.add? m key item = none) :
    ops.step m (.add key item) = m ∧ ops.handsOut m (.add key item) = none := by
  simp [step, handsOut, h]

theorem step_remove {m m' : μ} {l : ρ} {a : α} (h : ops.remove? m l = some (a, m')) :
    ops.step m (.remove l) = m' := by
  simp [step, h]

theorem step_remove_none {m : μ} {l : ρ} (h : ops.remove? m l = none) :
    ops.step m (.remove l) = m := by
  simp [step, h]

theorem Stale.of_none {m : μ} {l : ρ} (h : ops.remove? m l = none) : ops.Stale m l :=
  ⟨h, step_remove_none h⟩

/-- A call adds an item, removes an item or is refused. -/
theorem step_cases (m : μ) (c : MemoryStep α ρ) :
    (ops.step m c = m ∧ ops.handsOut m c = none) ∨
      (∃ key item l, c = .add key item ∧ ops.add? m key item = some (l, ops.step m c) ∧
        ops.handsOut m c = some l) ∨
      ∃ l a, c = .remove l ∧ ops.remove? m l = some (a, ops.step m c) ∧
      ops.handsOut m c = none := by
  cases c with
  | add key item =>
      cases hadd : ops.add? m key item with
      | none => exact Or.inl (step_add_none hadd)
      | some x =>
          obtain ⟨hstep, hout⟩ := step_add hadd
          exact Or.inr (Or.inl ⟨key, item, x.1, rfl, hstep ▸ hadd, hout⟩)
  | remove l =>
      cases hremove : ops.remove? m l with
      | none => exact Or.inl ⟨step_remove_none hremove, rfl⟩
      | some x => exact Or.inr (Or.inr ⟨l, x.1, rfl, step_remove hremove ▸ hremove, rfl⟩)

theorem handedOut_append (m : μ) (calls more : List (MemoryStep α ρ)) :
    ops.handedOut m (calls ++ more) = ops.handedOut m calls ++
      ops.handedOut (ops.after m calls) more := by
  induction calls generalizing m with
  | nil => rfl
  | cons c rest ih =>
      show (ops.handsOut m c).toList ++ ops.handedOut (ops.step m c) (rest ++ more) = _
      rw [ih, ← List.append_assoc]
      rfl

end MemoryOps

/-! ## The lists of a memory -/

namespace Memory

variable {α : Type} {m m' : Memory α} {l : Location} {a : α}

/-- The list of a key: a bucket, or the list of a linear memory, which goes without a key. -/
def list? : Memory α → Option IndexKey → Option (SlotMap α)
  | linear items, none => some items
  | hashed buckets, some k => buckets.get? k
  | _, _ => none

/-- The list to which an item of the key is added. -/
def listFor (m : Memory α) (key : Option IndexKey) : SlotMap α := (m.list? key).getD .empty

/-- All lists of the memory have the property. -/
def Lists (p : SlotMap α → Prop) (m : Memory α) : Prop :=
  ∀ key list, m.list? key = some list → p list

theorem at?_eq_bind (m : Memory α) (l : Location) :
    m.at? l = (m.list? l.key).bind (SlotMap.get? · l.slot) := by
  obtain ⟨key, slot⟩ := l
  cases m with
  | linear items =>
      cases key with
      | none => exact at?_linear items slot
      | some k => rfl
  | hashed buckets =>
      cases key with
      | none => rfl
      | some k => exact at?_hashed buckets k slot

theorem remove?_eq_none_iff : m.remove? l = none ↔ m.at? l = none := Option.map_eq_none_iff.symm

theorem lists_ofKind {p : SlotMap α → Prop} (hempty : p .empty) (kind : MemoryKind) :
    (ofKind kind).Lists p := by
  intro key list hlist
  cases kind with
  | linear =>
      cases key with
      | none =>
          cases hlist
          exact hempty
      | some k => cases hlist
  | hashed => cases key <;> cases hlist

theorem Lists.listFor {p : SlotMap α → Prop} (hempty : p .empty) (h : m.Lists p)
    (key : Option IndexKey) : p (m.listFor key) := by
  unfold Memory.listFor
  cases hlist : m.list? key with
  | none => exact hempty
  | some list => exact h key list hlist

/-- An addition puts the item at the end of one list, whose next reference is handed out. -/
theorem add?_spec {key : Option IndexKey} (h : m.add? key a = some (l, m')) :
    l.slot = (m.listFor l.key).next ∧ m'.list? l.key = some ((m.listFor l.key).add a) ∧
      (∀ j ≠ l.key, m'.list? j = m.list? j) ∧ m'.kind = m.kind := by
  cases m with
  | linear items =>
      cases h
      refine ⟨rfl, rfl, fun j hj => ?_, rfl⟩
      cases j with
      | none => exact absurd rfl hj
      | some k => rfl
  | hashed buckets =>
      cases key with
      | none => cases h
      | some k =>
          cases h
          refine ⟨rfl, FiniteMap.get?_insert_self _ _ _, fun j hj => ?_, rfl⟩
          cases j with
          | none => rfl
          | some k' => exact FiniteMap.get?_insert_ne _ _ fun heq => hj (congrArg some heq)

/-- A removal takes the item out of its list, and the list may go with it. -/
theorem remove?_spec (h : m.remove? l = some (a, m')) :
    ∃ list, m.list? l.key = some list ∧ list.get? l.slot = some a ∧
      (m'.list? l.key = some (list.remove l.slot) ∨ m'.list? l.key = none) ∧
      (∀ j ≠ l.key, m'.list? j = m.list? j) ∧ m'.kind = m.kind := by
  rcases remove?_cases h with
    ⟨list, rfl, hkey, hget, rfl⟩ | ⟨buckets, k, bucket, rfl, hkey, hbucket, hget, rfl⟩ <;>
    rw [hkey]
  · refine ⟨list, rfl, hget, Or.inl rfl, fun j hj => ?_, rfl⟩
    cases j with
    | none => exact absurd rfl hj
    | some j => rfl
  · refine ⟨bucket, hbucket, hget, ?_, fun j hj => ?_, rfl⟩
    · show (withBucket buckets k (bucket.remove l.slot)).get? k = _ ∨
        (withBucket buckets k (bucket.remove l.slot)).get? k = none
      -- The bucket goes with its last item.
      rw [get?_withBucket_self]
      split
      · exact Or.inr rfl
      · exact Or.inl rfl
    · cases j with
      | none => rfl
      | some j => exact get?_withBucket_ne _ _ fun heq => hj (congrArg some heq)

/-- A linear memory keeps its list. -/
theorem exists_list?_of_linear (h : m.kind = .linear) : ∃ list, m.list? none = some list := by
  cases m with
  | linear items => exact ⟨items, rfl⟩
  | hashed buckets => cases h

/-- A linear memory has no list but the one without a key. -/
theorem key_eq_none_of_linear (h : m.kind = .linear) {key : Option IndexKey} {list : SlotMap α}
    (hlist : m.list? key = some list) : key = none := by
  cases m with
  | hashed buckets => cases h
  | linear items =>
      cases key with
      | none => rfl
      | some k => cases hlist

/-- Where there are candidates for a key there is a list. -/
theorem exists_list?_of_candidates (h : m.kind = .hashed) {key : Option IndexKey}
    (hkey : m.candidates key ≠ []) : ∃ list, m.list? key = some list := by
  cases m with
  | linear items => cases h
  | hashed buckets =>
      cases key with
      | none => exact absurd rfl hkey
      | some k =>
          cases hk : buckets.get? k with
          | none => exact absurd (by rw [candidates, hk]; rfl) hkey
          | some bucket => exact ⟨bucket, hk⟩

/-! ## One call -/

/-- A property of lists that additions and removals keep is kept by a call. -/
theorem Lists.step {p : SlotMap α → Prop} (h : m.Lists p) (c : MemoryStep α Location)
    (hempty : p .empty)
    (hadd : ∀ list l a, p list → ops.handsOut m c = some l → l.slot = list.next → p (list.add a))
    (hremove : ∀ list r, p list → p (list.remove r)) : (ops.step m c).Lists p := by
  intro key list hlist
  rcases ops.step_cases m c with ⟨hsame, -⟩ | ⟨_, item, l, -, hstep, hl⟩ | ⟨l, a, -, hstep, -⟩
  · exact h key list (hsame ▸ hlist)
  · obtain ⟨hslot, hself, hothers, -⟩ := add?_spec hstep
    by_cases hkey : key = l.key
    · rw [hkey, hself, Option.some.injEq] at hlist
      exact hlist ▸ hadd _ l item (h.listFor hempty l.key) hl hslot
    · exact h key list (hothers key hkey ▸ hlist)
  · obtain ⟨before, hbefore, -, hself, hothers, -⟩ := remove?_spec hstep
    by_cases hkey : key = l.key
    · rw [hkey] at hlist
      rcases hself with hself | hself <;> rw [hself] at hlist <;> cases hlist
      exact hremove before l.slot (h _ _ hbefore)
    · exact h key list (hothers key hkey ▸ hlist)

theorem Lists.step_valid (h : m.Lists SlotMap.Valid) (c : MemoryStep α Location) :
    (ops.step m c).Lists SlotMap.Valid :=
  h.step c SlotMap.valid_empty (fun _ _ a hlist _ _ => SlotMap.valid_add hlist a)
    fun _ r hlist => SlotMap.valid_remove hlist r

theorem kind_step (m : Memory α) (c : MemoryStep α Location) : (ops.step m c).kind = m.kind := by
  rcases ops.step_cases m c with ⟨hsame, -⟩ | ⟨_, _, _, -, hadd, -⟩ | ⟨_, _, -, hremove, -⟩
  · rw [hsame]
  · exact (add?_spec hadd).2.2.2
  · obtain ⟨-, -, -, -, -, hkind⟩ := remove?_spec hremove
    exact hkind

/-- What a call hands out is the only location at which there is something that was not
there before. -/
theorem at?_step (h : m.Lists SlotMap.Valid) {c : MemoryStep α Location} (hl : m.at? l = none)
    (hout : ops.handsOut m c ≠ some l) : (ops.step m c).at? l = none := by
  rw [at?_eq_bind] at hl ⊢
  rcases ops.step_cases m c with ⟨hsame, -⟩ | ⟨_, item, l', -, hadd, hl'⟩ | ⟨l', a, -, hremove, -⟩
  · rw [hsame, hl]
  · obtain ⟨hslot, hself, hothers, -⟩ := add?_spec hadd
    by_cases hkey : l.key = l'.key
    · -- At the slot of the addition the location would be the one that is handed out.
      have hne : l.slot ≠ (m.listFor l'.key).next := by
        intro heq
        refine hout (hl'.trans (congrArg some ?_))
        cases l
        cases l'
        simp_all
      have hbefore : (m.listFor l'.key).get? l.slot = none := by
        rw [hkey] at hl
        unfold listFor
        cases hlist : m.list? l'.key with
        | none => rfl
        | some list =>
            rw [hlist] at hl
            exact hl
      rw [hkey, hself, Option.bind_some, SlotMap.get?_add (h.listFor SlotMap.valid_empty _),
        if_neg hne, hbefore]
    · rw [hothers _ hkey, hl]
  · obtain ⟨before, hbefore, -, hself, hothers, -⟩ := remove?_spec hremove
    by_cases hkey : l.key = l'.key
    · rw [hkey, hbefore, Option.bind_some] at hl
      rw [hkey]
      rcases hself with hself | hself
      · rw [hself, Option.bind_some, SlotMap.get?_remove (h _ _ hbefore), hl, ite_self]
      · rw [hself]
        rfl
    · rw [hothers _ hkey, hl]

/-- The location was handed out by the list of its key, and its item is gone. -/
def SpentAt (m : Memory α) (l : Location) : Prop :=
  ∃ list, m.list? l.key = some list ∧ list.Spent l.slot

theorem SpentAt.at?_eq_none (h : m.SpentAt l) : m.at? l = none := by
  obtain ⟨list, hlist, hspent⟩ := h
  rw [at?_eq_bind, hlist, Option.bind_some]
  exact hspent.1

/-- **The location of an item that is removed is spent**, unless the list goes with the item. -/
theorem spentAt_remove? (h : m.Lists SlotMap.Valid) (hremove : m.remove? l = some (a, m'))
    (hlist : ∃ list, m'.list? l.key = some list) : m'.SpentAt l := by
  obtain ⟨before, hbefore, hget, hself | hself, -, -⟩ := remove?_spec hremove
  · exact ⟨_, hself, SlotMap.spent_remove (h _ _ hbefore) hget⟩
  · obtain ⟨list, hlist⟩ := hlist
    rw [hself] at hlist
    cases hlist

/-- **A location that is spent stays so through a call**, unless its list goes. -/
theorem SpentAt.step (h : m.Lists SlotMap.Valid) (hl : m.SpentAt l) (c : MemoryStep α Location)
    (hlist : ∃ list, (ops.step m c).list? l.key = some list) : (ops.step m c).SpentAt l := by
  obtain ⟨before, hbefore, hspent⟩ := hl
  rcases ops.step_cases m c with ⟨hsame, -⟩ | ⟨_, item, l', -, hadd, -⟩ | ⟨l', a, -, hremove, -⟩
  · rw [hsame]
    exact ⟨before, hbefore, hspent⟩
  · obtain ⟨-, hself, hothers, -⟩ := add?_spec hadd
    by_cases hkey : l.key = l'.key
    · rw [← hkey, listFor, hbefore] at hself
      exact ⟨_, hself, hspent.add (h _ _ hbefore) item⟩
    · exact ⟨before, (hothers _ hkey).trans hbefore, hspent⟩
  · obtain ⟨list, hlist'⟩ := hlist
    obtain ⟨old, hold, -, hself, hothers, -⟩ := remove?_spec hremove
    by_cases hkey : l.key = l'.key
    · rw [← hkey, hbefore, Option.some.injEq] at hold
      rw [← hkey] at hself
      rcases hself with hself | hself
      · exact ⟨_, hself, hold ▸ hspent.remove (h _ _ hbefore) l'.slot⟩
      · rw [hself] at hlist'
        cases hlist'
    · exact ⟨before, (hothers _ hkey).trans hbefore, hspent⟩

/-! ## Runs -/

theorem Lists.after_valid (h : m.Lists SlotMap.Valid) (calls : List (MemoryStep α Location)) :
    (ops.after m calls).Lists SlotMap.Valid := by
  induction calls generalizing m with
  | nil => exact h
  | cons c rest ih => exact ih (h.step_valid c)

theorem kind_after (m : Memory α) (calls : List (MemoryStep α Location)) :
    (ops.after m calls).kind = m.kind := by
  induction calls generalizing m with
  | nil => rfl
  | cons c rest ih => exact (ih (ops.step m c)).trans (kind_step m c)

/-- Nothing comes to a location that is not handed out. -/
theorem at?_after (h : m.Lists SlotMap.Valid) (hl : m.at? l = none)
    {calls : List (MemoryStep α Location)} (hout : l ∉ ops.handedOut m calls) :
    (ops.after m calls).at? l = none := by
  induction calls generalizing m with
  | nil => exact hl
  | cons c rest ih =>
      obtain ⟨hfirst, hrest⟩ := not_or.mp fun hmem => hout (List.mem_append.mpr hmem)
      refine ih (h.step_valid c) (at?_step h hl fun heq => hfirst ?_) hrest
      rw [heq]
      exact List.mem_singleton.mpr rfl

/-- A location that is spent stays so while its list is there. -/
theorem SpentAt.after (h : m.Lists SlotMap.Valid) (hl : m.SpentAt l)
    {calls : List (MemoryStep α Location)}
    (hlist : ∀ earlier, earlier <+: calls → ∃ list, (ops.after m earlier).list? l.key = some list) :
    (ops.after m calls).SpentAt l := by
  induction calls generalizing m with
  | nil => exact hl
  | cons c rest ih =>
      have hstep := hlist [c] (List.prefix_iff_eq_append.mpr rfl)
      refine ih (h.step_valid c) (hl.step h c hstep) fun earlier hearlier => ?_
      exact hlist (c :: earlier) (List.cons_prefix_cons.mpr ⟨rfl, hearlier⟩)

/-- **A location is gone with its item.** -/
theorem gone_of_remove? (h : m.Lists SlotMap.Valid) (hremove : m.remove? l = some (a, m'))
    (later : List (MemoryStep α Location)) : ops.Gone m'.kind l.key m' l later := by
  have hvalid : m'.Lists SlotMap.Valid := by
    have hstep := h.step_valid (.remove l)
    rwa [ops.step_remove hremove] at hstep
  obtain ⟨before, hbefore, hget, hself, -, hsame⟩ := remove?_spec hremove
  refine ⟨fun hkept => ?_, fun hout => ?_⟩
  · have hlist : ∀ earlier, earlier <+: later → ∃ list, (ops.after m' earlier).list? l.key =
        some list := by
      intro earlier hearlier
      have hkind := kind_after m' earlier
      cases hm' : m'.kind with
      | hashed => exact exists_list?_of_candidates (hkind.trans hm') (hkept hm' earlier hearlier)
      | linear =>
          have hkey : l.key = none := key_eq_none_of_linear (hsame.symm.trans hm') hbefore
          rw [hkey]
          exact exists_list?_of_linear (hkind.trans hm')
    have hspent := (spentAt_remove? h hremove (hlist [] (List.nil_prefix))).after hvalid hlist
    exact .of_none (remove?_eq_none_iff.mpr hspent.at?_eq_none)
  · -- The list may have gone with the item; then it takes a call that hands the location out to
    -- fill it again.
    have hnone : m'.at? l = none := by
      rw [at?_eq_bind]
      rcases hself with hself | hself
      · rw [hself, Option.bind_some, SlotMap.get?_remove (h _ _ hbefore), if_pos rfl]
      · rw [hself]
        rfl
    exact .of_none (remove?_eq_none_iff.mpr (at?_after hvalid hnone hout))

end Memory

/-! ## Memories of linked lists -/

@[simp] theorem LinkedLocation.kept_counted (l : LinkedLocation) : l.counted.kept = l := by
  simp [LinkedLocation.counted, Location.kept]

/-- The call with its location counted. -/
def MemoryStep.counted {α : Type} : MemoryStep α LinkedLocation → MemoryStep α Location
  | add key item => add key item
  | remove l => remove l.counted

/-- The bookkeeping of the list is sound, and its generations fit in 32 bits. -/
structure SlotMap.Counted {α : Type} (list : SlotMap α) : Prop where
  valid : list.Valid
  lt : ∀ i g : Nat, list.generations[i]? = some g → g < UInt32.size

namespace Memory

variable {α : Type} {m m' : Memory α}

theorem counted_empty : (SlotMap.empty : SlotMap α).Counted :=
  ⟨SlotMap.valid_empty, fun _ _ hg => nomatch hg⟩

/-- Only the slot that is handed out changes its generation. -/
theorem Lists.step_counted (h : m.Lists SlotMap.Counted) (c : MemoryStep α Location)
    (hout : ∀ l ∈ ops.handsOut m c, l.slot.generation < UInt32.size) :
    (ops.step m c).Lists SlotMap.Counted := by
  refine h.step c counted_empty (fun list l a hlist hl hslot => ?_) fun list r hlist => ?_
  · refine ⟨SlotMap.valid_add hlist.valid a, fun i g hg => ?_⟩
    rw [SlotMap.getElem?_generations_add hlist.valid, ← hslot] at hg
    split at hg
    · cases hg
      exact hout l hl
    · exact hlist.lt i g hg
  · refine ⟨SlotMap.valid_remove hlist.valid r, fun i g hg => ?_⟩
    rw [SlotMap.generations_remove] at hg
    exact hlist.lt i g hg

/-- Only a hashed memory refuses an item, and only one without a key. -/
theorem key_eq_none_of_add? {key : Option IndexKey} {a : α} (h : m.add? key a = none) :
    key = none := by
  cases m with
  | linear items => cases h
  | hashed buckets =>
      cases key with
      | none => rfl
      | some k => cases h

end Memory

namespace LinkedMemory

variable {α : Type} {s s' : LinkedMemory α} {m : Memory α}

/-- The memory shows the other one, whose generations all fit in 32 bits. -/
structure Lockstep (s : LinkedMemory α) (m : Memory α) : Prop where
  shows : s.Shows m
  counted : m.Lists SlotMap.Counted

namespace Lockstep

theorem ofKind (kind : MemoryKind) :
    (LinkedMemory.ofKind kind : LinkedMemory α).Lockstep (.ofKind kind) :=
  ⟨.ofKind kind, Memory.lists_ofKind Memory.counted_empty kind⟩

/-- Nothing is at a location at which the other memory has nothing. -/
theorem remove?_eq_none (h : s.Lockstep m) {l : LinkedLocation} (hl : m.at? l.counted = none) :
    s.remove? l = none := by
  obtain ⟨hshows, hcounted⟩ := h
  obtain ⟨key, entry⟩ := l
  rw [Memory.at?_eq_bind] at hl
  have hnone : ∀ {slab : Slab α} {list : SlotMap α}, slab.Shows list → m.list? key = some list →
      slab.remove? entry = none := by
    intro slab list hslab hlist
    rw [show m.list? (LinkedLocation.counted ⟨key, entry⟩).key = some list from hlist] at hl
    exact Option.map_eq_none_iff.mpr (hslab.linked?_eq_none ((hcounted key list hlist).lt _) hl)
  cases hshows with
  | @linear slab list hslab =>
      cases key with
      | some k => rfl
      | none => exact Option.map_eq_none_iff.mpr (hnone hslab rfl)
  | @hashed slabs buckets count hslabs =>
      cases key with
      | none => rfl
      | some k =>
          show ((slabs.get? k).bind fun bucket => (bucket.remove? entry).bind _) = none
          cases hlist : buckets.get? k with
          | none =>
              rw [hslabs.get?_eq_none hlist]
              rfl
          | some list =>
              obtain ⟨slab, hslab, hk⟩ := hslabs.get? hlist
              rw [hslab, Option.bind_some, hnone hk hlist]
              rfl

/-- **Both memories go through a call together**, and hand out the same location, if its generation
fits in 32 bits. -/
theorem step (h : s.Lockstep m) (c : MemoryStep α LinkedLocation)
    (hout : ∀ l ∈ Memory.ops.handsOut m c.counted, l.slot.generation < UInt32.size) :
    (ops.step s c).Lockstep (Memory.ops.step m c.counted) ∧
      ops.handsOut s c = (Memory.ops.handsOut m c.counted).map Location.kept := by
  have hcounted := h.counted.step_counted c.counted hout
  suffices hshows : (ops.step s c).Shows (Memory.ops.step m c.counted) ∧
      ops.handsOut s c = (Memory.ops.handsOut m c.counted).map Location.kept
        from ⟨⟨hshows.1, hcounted⟩, hshows.2⟩
  cases c with
  | add key item =>
      cases hadd : Memory.ops.add? m key item with
      | none =>
          have hs : ops.add? s key item = none := by
            cases Memory.key_eq_none_of_add? hadd
            exact h.shows.add?_none item hadd
          rw [MemoryStep.counted, (ops.step_add_none hs).1, (ops.step_add_none hs).2,
            (Memory.ops.step_add_none hadd).1, (Memory.ops.step_add_none hadd).2]
          exact ⟨h.shows, rfl⟩
      | some x =>
          obtain ⟨s', hs, hshows⟩ := h.shows.add? hadd
          rw [MemoryStep.counted, (ops.step_add hs).1, (ops.step_add hs).2,
            (Memory.ops.step_add hadd).1, (Memory.ops.step_add hadd).2]
          exact ⟨hshows, rfl⟩
  | remove l =>
      cases hremove : Memory.ops.remove? m l.counted with
      | none =>
          have hs : ops.remove? s l = none :=
            h.remove?_eq_none (Memory.remove?_eq_none_iff.mp hremove)
          rw [MemoryStep.counted, ops.step_remove_none hs, Memory.ops.step_remove_none hremove]
          exact ⟨h.shows, rfl⟩
      | some x =>
          obtain ⟨s', hs, hshows⟩ := h.shows.remove? hremove
          rw [LinkedLocation.kept_counted] at hs
          rw [MemoryStep.counted, ops.step_remove hs, Memory.ops.step_remove hremove]
          exact ⟨hshows, rfl⟩

/-- What is removed is removed from both memories. -/
theorem remove? (h : s.Lockstep m) {l : LinkedLocation} {a : α}
    (hs : ops.remove? s l = some (a, s')) : ∃ m', Memory.ops.remove? m l.counted = some (a, m') ∧
    s'.Lockstep m' := by
  cases hm : Memory.ops.remove? m l.counted with
  | none =>
      rw [show ops.remove? s l = none from h.remove?_eq_none (Memory.remove?_eq_none_iff.mp hm)]
        at hs
      cases hs
  | some x =>
      obtain ⟨s'', hs', -⟩ := h.shows.remove? hm
      rw [LinkedLocation.kept_counted] at hs'
      cases hs.symm.trans hs'
      have hstep := (h.step (.remove l) fun l' hl' => nomatch hl').1
      rw [ops.step_remove hs, MemoryStep.counted, Memory.ops.step_remove hm] at hstep
      exact ⟨_, rfl, hstep⟩

/-- **Both memories go through a run together.** -/
theorem run (h : s.Lockstep m) {calls : List (MemoryStep α LinkedLocation)}
    (hout : ∀ l ∈ Memory.ops.handedOut m (calls.map MemoryStep.counted),
      l.slot.generation < UInt32.size) :
    (ops.after s calls).Lockstep (Memory.ops.after m (calls.map MemoryStep.counted)) ∧
      ops.handedOut s calls = (Memory.ops.handedOut m (calls.map MemoryStep.counted)).map
        Location.kept := by
  induction calls generalizing s m with
  | nil => exact ⟨h, rfl⟩
  | cons c rest ih =>
      have hparts : ∀ l, l ∈ Memory.ops.handsOut m c.counted ∨
          l ∈ Memory.ops.handedOut (Memory.ops.step m c.counted) (rest.map MemoryStep.counted) →
          l.slot.generation < UInt32.size :=
        fun l hl => hout l (List.mem_append.mpr (hl.imp_left Option.mem_toList.mpr))
      obtain ⟨hstep, hfirst⟩ := h.step c fun l hl => hparts l (Or.inl hl)
      obtain ⟨hafter, hrest⟩ := ih hstep fun l hl => hparts l (Or.inr hl)
      refine ⟨hafter, ?_⟩
      show (ops.handsOut s c).toList ++ ops.handedOut (ops.step s c) rest = _
      rw [hfirst, hrest, Option.toList_map, ← List.map_append]
      rfl

/-- A run that begins with another goes through with it. -/
theorem earlier (h : s.Lockstep m) {earlier calls : List (MemoryStep α LinkedLocation)}
    (hearlier : earlier <+: calls)
    (hout : ∀ l ∈ Memory.ops.handedOut m (calls.map MemoryStep.counted),
      l.slot.generation < UInt32.size) :
    (ops.after s earlier).Lockstep (Memory.ops.after m (earlier.map MemoryStep.counted)) := by
  obtain ⟨rest, rfl⟩ := hearlier
  refine (h.run fun l hl => hout l ?_).1
  rw [List.map_append, MemoryOps.handedOut_append]
  exact List.mem_append_left _ hl

/-- **A location is gone from both memories**, if it is gone from the one that counts
without end. -/
theorem gone (h : s.Lockstep m) {kind : MemoryKind} {l : LinkedLocation}
    {later : List (MemoryStep α LinkedLocation)}
    (hout : ∀ l' ∈ Memory.ops.handedOut m (later.map MemoryStep.counted),
      l'.slot.generation < UInt32.size)
    (hgone : Memory.ops.Gone kind l.key m l.counted (later.map MemoryStep.counted)) :
    ops.Gone kind l.key s l later := by
  obtain ⟨hafter, hhanded⟩ := h.run hout
  have hstale : Memory.ops.Stale (Memory.ops.after m (later.map MemoryStep.counted)) l.counted →
      ops.Stale (ops.after s later) l :=
    fun hm => .of_none (hafter.remove?_eq_none (Memory.remove?_eq_none_iff.mp hm.refused))
  refine ⟨fun hkept => hstale (hgone.stale fun hkind earlier hearlier hnil => ?_),
    fun hl => hstale (hgone.handed_out ?_)⟩
  · obtain ⟨calls, hcalls, rfl⟩ := List.prefix_map_iff.mp hearlier
    have hcandidates := (h.earlier hcalls hout).shows.candidates_eq l.key
    exact hkept hkind calls hcalls (hcandidates.trans hnil)
  · intro hmem
    refine hl ?_
    rw [hhanded]
    exact List.mem_map.mpr ⟨l.counted, hmem, l.kept_counted⟩

end Lockstep

end LinkedMemory

namespace Memory

variable {α : Type}

/-- **A location whose item was removed is stale while the list of its key is there, and in any case
until it is handed out again.** So it is for both kinds of memories, after whatever calls and
through whatever calls, also those by stale locations. A memory of linked lists counts the uses of a
slot in 32 bits, so no slot may be used again more often than that. `SlotRef.generation` is how
often the slot was used before. -/
theorem stale_run (kind : MemoryKind) :
    (∀ (calls later : List (MemoryStep α Location)) (l : Location) (a : α) (m : Memory α),
      Memory.ops.remove? (Memory.ops.after (.ofKind kind) calls) l = some (a, m) →
      Memory.ops.Gone kind l.key m l later) ∧
    ∀ (calls later : List (MemoryStep α LinkedLocation)) (l : LinkedLocation) (a : α)
      (m : LinkedMemory α),
      (∀ l' ∈ Memory.ops.handedOut (.ofKind kind)
          ((calls ++ .remove l :: later).map MemoryStep.counted),
        l'.slot.generation < UInt32.size) →
      LinkedMemory.ops.remove? (LinkedMemory.ops.after (.ofKind kind) calls) l = some (a, m) →
      LinkedMemory.ops.Gone kind l.key m l later := by
  have hgone : ∀ (calls later : List (MemoryStep α Location)) (l : Location) (a : α) (m : Memory α),
      Memory.ops.remove? (Memory.ops.after (.ofKind kind) calls) l = some (a, m) →
      Memory.ops.Gone kind l.key m l later := by
    intro calls later l a m hremove
    have hvalid : (Memory.ops.after (.ofKind kind) calls).Lists SlotMap.Valid :=
      (lists_ofKind SlotMap.valid_empty kind).after_valid calls
    have hkind : m.kind = kind := by
      rw [← Memory.ops.step_remove hremove, kind_step, kind_after]
      cases kind <;> rfl
    exact hkind ▸ gone_of_remove? hvalid hremove later
  refine ⟨hgone, fun calls later l a s hout hremove => ?_⟩
  rw [List.map_append, MemoryOps.handedOut_append] at hout
  have hbefore :=
    ((LinkedMemory.Lockstep.ofKind kind).run fun l' hl' => hout l' (List.mem_append_left _ hl')).1
  obtain ⟨m, hcounted, hafter⟩ := hbefore.remove? hremove
  refine hafter.gone (fun l' hl' => hout l' (List.mem_append_right _ ?_)) (hgone _ _ _ _ _ hcounted)
  show l' ∈ Memory.ops.handedOut (Memory.ops.step _ (.remove l.counted))
    (later.map MemoryStep.counted)
  rw [Memory.ops.step_remove hcounted]
  exact hl'

/-- Two items under the key 1. The first is removed, and its slot is used again. -/
theorem stale_run_reused : ∃ m : LinkedMemory Nat,
    LinkedMemory.ops.remove? (LinkedMemory.ops.after (.ofKind .hashed)
      [.add (some [.integer 1]) 10, .add (some [.integer 1]) 20]) ⟨some [.integer 1], 0, 0⟩ =
        some (10, m) ∧
    LinkedMemory.ops.handedOut m [.add (some [.integer 1]) 30] = [⟨some [.integer 1], 0, 1⟩] ∧
    LinkedMemory.ops.Stale (LinkedMemory.ops.after m [.add (some [.integer 1]) 30])
      ⟨some [.integer 1], 0, 0⟩ :=
  ⟨_, rfl, rfl, ((stale_run .hashed).2 [.add (some [.integer 1]) 10, .add (some [.integer 1]) 20]
    [.add (some [.integer 1]) 30] ⟨some [.integer 1], 0, 0⟩ 10 _ (by decide) rfl).handed_out
      (by decide)⟩

/-- A location is not stale for ever. If the list of its key goes, the location comes to stand for
the item that is added to the next list of the key, and removes it. -/
theorem stale_dropped : ¬ ∀ (kind : MemoryKind) (calls later : List (MemoryStep Nat LinkedLocation))
    (l : LinkedLocation) (a : Nat) (m : LinkedMemory Nat),
    (∀ l' ∈ Memory.ops.handedOut (.ofKind kind) ((calls ++ .remove l :: later).map
      MemoryStep.counted), l'.slot.generation < UInt32.size) →
    LinkedMemory.ops.remove? (LinkedMemory.ops.after (.ofKind kind) calls) l = some (a, m) →
    LinkedMemory.ops.Stale (LinkedMemory.ops.after m later) l := by
  intro hstale
  have hremoved := (hstale .hashed [.add (some [.integer 1]) 10] [.add (some [.integer 1]) 20]
    ⟨some [.integer 1], 0, 0⟩ 10 _ (by decide) rfl).refused
  cases hremoved

end Memory

end RuleMatching
