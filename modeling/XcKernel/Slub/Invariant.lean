import XcKernel.Slub.Owned

/-!
# The invariant of a cache

Besides the place of every object the invariant says which pages are frozen and
which are on the partial list.  Each function keeps it and returns.
-/

namespace XcKernel.Slub

open State

/-- A page is frozen while it is the page of the processor, and the partial list
holds the other pages that have a free object. -/
structure Listed (pages : Nat → SlabPage) (home : Option Nat) (node : CacheNode) : Prop where
  frozen : ∀ {p}, (pages p).live = true → ((pages p).counters.frozen = true ↔ home = some p)
  member : ∀ p, p ∈ node.slabs ↔
    (pages p).live = true ∧ (pages p).counters.frozen = false ∧ (pages p).freelist ≠ 0
  nodup : node.slabs.Nodup
  count : node.nrPartial = node.slabs.length

/-- The invariant, with the objects that callers have. -/
def SlabInv (s : Cache) (st : State) (allocated : List Nat) : Prop :=
  ∃ loose held, Owned s st.freePointer st.pages allocated st.cpu.page st.cpu.freelist loose held ∧
    Listed st.pages st.cpu.page st.node

variable {s : Cache} {st : State} {pages : Nat → SlabPage} {home : Option Nat} {node : CacheNode}
  {allocated : List Nat} {p x : Nat}

/-- One page, its place on the partial list and the page of the processor may change. -/
theorem Listed.setPage (h : Listed pages home node) {page : SlabPage} {home' : Option Nat}
    {node' : CacheNode} (homes : ∀ q, q ≠ p → (home' = some q ↔ home = some q))
    (frozen : page.live = true → (page.counters.frozen = true ↔ home' = some p))
    (others : ∀ q, q ≠ p → (q ∈ node'.slabs ↔ q ∈ node.slabs))
    (self : p ∈ node'.slabs ↔
      page.live = true ∧ page.counters.frozen = false ∧ page.freelist ≠ 0)
    (nodup : node'.slabs.Nodup) (count : node'.nrPartial = node'.slabs.length) :
    Listed (Function.update pages p page) home' node' := by
  refine ⟨fun {q} live => ?_, fun q => ?_, nodup, count⟩
  · by_cases eq : q = p
    · subst eq
      rw [Function.update_self] at live ⊢
      exact frozen live
    · rw [Function.update_of_ne eq] at live ⊢
      rw [homes q eq]
      exact h.frozen live
  · by_cases eq : q = p
    · subst eq
      rw [Function.update_self]
      exact self
    · rw [Function.update_of_ne eq, others q eq]
      exact h.member q

/-- The lists as they are: the page stays on the partial list or off it. -/
theorem Listed.keepPage (h : Listed pages home node) {page : SlabPage} {home' : Option Nat}
    (homes : ∀ q, q ≠ p → (home' = some q ↔ home = some q))
    (frozen : page.live = true → (page.counters.frozen = true ↔ home' = some p))
    (self : p ∈ node.slabs ↔
      page.live = true ∧ page.counters.frozen = false ∧ page.freelist ≠ 0) :
    Listed (Function.update pages p page) home' node :=
  h.setPage homes frozen (fun _ _ => Iff.rfl) self h.nodup h.count

theorem Listed.addPage (h : Listed pages home node) {page : SlabPage} {home' : Option Nat}
    (homes : ∀ q, q ≠ p → (home' = some q ↔ home = some q)) (off : p ∉ node.slabs) (tail : Bool)
    (live : page.live = true) (unfrozen : page.counters.frozen = false) (free : page.freelist ≠ 0)
    (gone : home' ≠ some p) :
    Listed (Function.update pages p page) home' ⟨node.nrPartial + 1,
      if tail then node.slabs ++ [p] else p :: node.slabs⟩ := by
  have perm : (if tail then node.slabs ++ [p] else p :: node.slabs).Perm (p :: node.slabs) := by
    split
    · exact List.perm_append_singleton p node.slabs
    · exact .refl _
  refine h.setPage homes (fun _ => by simp [unfrozen, gone]) (fun q ne => ?_) ?_ ?_ ?_
  · rw [perm.mem_iff, List.mem_cons, or_iff_right ne]
  · rw [perm.mem_iff]
    simp [live, unfrozen, free]
  · exact perm.nodup_iff.mpr (List.nodup_cons.mpr ⟨off, h.nodup⟩)
  · rw [perm.length_eq, List.length_cons, h.count]
    push_cast
    rfl

theorem Listed.removePage (h : Listed pages home node) {page : SlabPage} {home' : Option Nat}
    (homes : ∀ q, q ≠ p → (home' = some q ↔ home = some q)) (on : p ∈ node.slabs)
    (frozen : page.live = true → (page.counters.frozen = true ↔ home' = some p))
    (self : page.live = true → page.counters.frozen = true) :
    Listed (Function.update pages p page) home'
      ⟨node.nrPartial - 1, node.slabs.erase p⟩ := by
  refine h.setPage homes frozen (fun q ne => List.mem_erase_of_ne ne) ?_ (h.nodup.erase p) ?_
  · refine iff_of_false h.nodup.not_mem_erase fun listed => ?_
    have := self listed.1
    rw [listed.2.1] at this
    cases this
  · have := List.length_pos_of_mem on
    dsimp only
    rw [List.length_erase_of_mem on, h.count]
    omega

/-- What a function leaves of the slabs: the invariant, and a slab is given up
only when callers have none of its objects. -/
structure Outcome (s : Cache) (st st' : State) (allocated' : List Nat) : Prop where
  inv : SlabInv s st' allocated'
  discarded : ∀ q, (st.pages q).live = true → (st'.pages q).live = false →
    ∀ o ∈ objectsOf s st.pages q, o ∉ allocated'

theorem Outcome.of_live {st' : State} {allocated' : List Nat} (inv : SlabInv s st' allocated')
    (live : ∀ q, (st.pages q).live = true → (st'.pages q).live = true) :
    Outcome s st st' allocated' :=
  ⟨inv, fun q here gone => absurd (live q here) (by simp [gone])⟩

theorem live_update {page : SlabPage} (live : page.live = true) {q : Nat}
    (here : (pages q).live = true) : (Function.update pages p page q).live = true := by
  by_cases eq : q = p
  · rw [eq, Function.update_self, live]
  · rw [Function.update_of_ne eq, here]

theorem slabFree_fast (valid : s.Valid) (inv : SlabInv s st allocated)
    (here : st.cpu.page = some p) (inside : x ∈ objectsOf s st.pages p) (out : x ∈ allocated) :
    ∃ st', slabFree s st p x = some st' ∧ Outcome s st st' (allocated.erase x) := by
  obtain ⟨loose, held, owned, listed⟩ := inv
  have back := owned.giveLoose valid here inside out
  refine ⟨_, by rw [slabFree, if_pos here]; dsimp only; rw [cpuCmpxchgDouble_self], ?_⟩
  exact .of_live ⟨x :: loose, held, back, listed⟩ fun _ live => live

/-- A page has just been changed, has no flag and is not that of the processor;
its place on the partial list is still to be settled. -/
structure Unlisted (s : Cache) (st st₁ : State) (p : Nat) (allocated' : List Nat) : Prop where
  owned : ∃ loose held, Owned s st₁.freePointer st₁.pages allocated' st₁.cpu.page st₁.cpu.freelist
    loose held
  listed : ∃ home, Listed st.pages home st₁.node ∧
    ∀ q, q ≠ p → (st₁.cpu.page = some q ↔ home = some q)
  other : st₁.cpu.page ≠ some p
  pages : ∀ q, q ≠ p → st₁.pages q = st.pages q
  live : (st₁.pages p).live = true
  unfrozen : (st₁.pages p).counters.frozen = false
  objects : (st₁.pages p).counters.objects = (st.pages p).counters.objects

namespace Unlisted

variable {st₁ : State} {allocated' : List Nat}

theorem update (h : Unlisted s st st₁ p allocated') :
    st₁.pages = Function.update st.pages p (st₁.pages p) := by
  funext q
  by_cases eq : q = p
  · rw [eq, Function.update_self]
  · rw [Function.update_of_ne eq, h.pages q eq]

theorem keepsLive (h : Unlisted s st st₁ p allocated') {q : Nat} (live : (st.pages q).live = true) :
    (st₁.pages q).live = true := by
  by_cases eq : q = p
  · rw [eq, h.live]
  · rw [h.pages q eq, live]

theorem stay (h : Unlisted s st st₁ p allocated')
    (self : p ∈ st₁.node.slabs ↔ (st₁.pages p).freelist ≠ 0) : Outcome s st st₁ allocated' := by
  obtain ⟨loose, held, owned⟩ := h.owned
  obtain ⟨home, listed, homes⟩ := h.listed
  refine .of_live ⟨loose, held, owned, ?_⟩ fun q => h.keepsLive
  rw [h.update]
  refine listed.keepPage homes (fun _ => by simp [h.unfrozen, h.other]) ?_
  simp [self, h.live, h.unfrozen]

theorem add (h : Unlisted s st st₁ p allocated') (off : p ∉ st₁.node.slabs)
    (free : (st₁.pages p).freelist ≠ 0) (tail : Bool) :
    Outcome s st (st₁.addPartial p tail) allocated' := by
  obtain ⟨loose, held, owned⟩ := h.owned
  obtain ⟨home, listed, homes⟩ := h.listed
  refine .of_live ⟨loose, held, owned, ?_⟩ fun q => h.keepsLive
  show Listed st₁.pages st₁.cpu.page _
  rw [h.update]
  exact listed.addPage homes off tail h.live h.unfrozen free h.other

theorem discard (h : Unlisted s st st₁ p allocated') (unused : (st₁.pages p).counters.inuse = 0)
    {prior : Nat} (self : p ∈ st₁.node.slabs ↔ prior ≠ 0) :
    Outcome s st (discardSlab s (if prior ≠ 0 then st₁.removePartial p else st₁) p) allocated' := by
  obtain ⟨loose, held, owned⟩ := h.owned
  obtain ⟨home, listed, homes⟩ := h.listed
  have gone : ∀ o ∈ objectsOf s st.pages p, o ∉ allocated' := fun o inside => by
    rw [← objectsOf_congr h.objects] at inside
    exact (owned.not_allocated h.live (owned.all_held h.live unused inside)).1
  set st₂ := if prior ≠ 0 then st₁.removePartial p else st₁ with hst₂
  have pages₂ : st₂.pages = st₁.pages := by
    rw [hst₂]
    split <;> rfl
  have fp₂ : st₂.freePointer = st₁.freePointer := by
    rw [hst₂]
    split <;> rfl
  have cpu₂ : st₂.cpu = st₁.cpu := by
    rw [hst₂]
    split <;> rfl
  obtain ⟨page, dead, pages₃⟩ : ∃ page : SlabPage, page.live = false ∧
      (discardSlab s st₂ p).pages = Function.update st₁.pages p page :=
    ⟨_, rfl, by rw [discardSlab, modifyPage_pages, pages₂]⟩
  refine ⟨⟨loose, held, ?_, ?_⟩, fun q live dead' o inside => ?_⟩
  · rw [pages₃]
    show Owned s st₂.freePointer _ allocated' st₂.cpu.page st₂.cpu.freelist loose held
    rw [fp₂, cpu₂]
    exact owned.discard h.live unused h.other dead
  · show Listed (discardSlab s st₂ p).pages st₂.cpu.page st₂.node
    rw [pages₃, cpu₂, h.update, Function.update_idem, hst₂]
    split_ifs with full
    · refine listed.removePage homes (self.mpr full) ?_ ?_
      · simp [dead]
      · simp [dead]
    · refine listed.keepPage homes ?_ ?_
      · simp [dead]
      · simp [dead, self, full]
  · have here : q = p := by
      by_contra ne
      rw [pages₃, Function.update_of_ne ne, h.keepsLive live] at dead'
      cases dead'
    exact gone o (here ▸ inside)

end Unlisted

theorem slabFreeSlow_spec (valid : s.Valid) (inv : SlabInv s st allocated)
    (live : (st.pages p).live = true) (other : st.cpu.page ≠ some p)
    (inside : x ∈ objectsOf s st.pages p) (out : x ∈ allocated) :
    ∃ st', slabFreeSlow s st p x = some st' ∧ Outcome s st st' (allocated.erase x) := by
  obtain ⟨loose, held, owned, listed⟩ := inv
  have unfrozen : (st.pages p).counters.frozen = false := by
    rw [← Bool.not_eq_true, listed.frozen live]
    exact other
  have given := owned.givePage valid live inside out (st.pages p).counters.frozen
  unfold slabFreeSlow
  dsimp only
  rw [cmpxchgDoubleSlab_self (st.setFreepointer_pages x _)]
  dsimp only
  set st₁ := (st.setFreepointer x (st.pages p).freelist).modifyPage p fun q => { q with
    freelist := x
    counters := { (st.pages p).counters with inuse := (st.pages p).counters.inuse - 1 } } with hst₁
  have pages₁ : st₁.pages = Function.update st.pages p { st.pages p with
      freelist := x
      counters := ⟨(st.pages p).counters.inuse - 1, (st.pages p).counters.objects,
        (st.pages p).counters.frozen⟩ } := by
    rw [hst₁, modifyPage_pages, setFreepointer_pages]
  have self : st₁.pages p = { st.pages p with
      freelist := x
      counters := ⟨(st.pages p).counters.inuse - 1, (st.pages p).counters.objects,
        (st.pages p).counters.frozen⟩ } := by
    rw [pages₁, Function.update_self]
  have free : (st₁.pages p).freelist ≠ 0 := by
    rw [self]
    exact ne_zero_of_mem inside
  have moved : Unlisted s st st₁ p (allocated.erase x) := by
    refine ⟨⟨loose, _, by rw [pages₁]; exact given⟩, ⟨st.cpu.page, listed, fun _ _ => Iff.rfl⟩, other,
      fun q ne => ?_, ?_, ?_, ?_⟩
    · rw [pages₁, Function.update_of_ne ne]
    · rw [self]
      exact live
    · rw [self]
      exact unfrozen
    · rw [self]
  have member : p ∈ st₁.node.slabs ↔ (st.pages p).freelist ≠ 0 := by
    refine (listed.member p).trans ?_
    simp [live, unfrozen]
  split
  · rename_i node
    refine ⟨st₁, rfl, moved.stay (member.trans (iff_of_true (fun zero => ?_) free))⟩
    simp [zero, unfrozen] at node
  · split
    · rename_i empty
      have unused : (st₁.pages p).counters.inuse = 0 := by
        rw [self]
        exact empty.1
      exact ⟨_, rfl, moved.discard unused member⟩
    · split
      · rename_i full
        exact ⟨_, rfl, moved.add (by simp [member, full]) free true⟩
      · rename_i full
        exact ⟨st₁, rfl, moved.stay (member.trans (iff_of_true full free))⟩

theorem slabFree_spec (valid : s.Valid) (inv : SlabInv s st allocated)
    (live : (st.pages p).live = true) (inside : x ∈ objectsOf s st.pages p) (out : x ∈ allocated) :
    ∃ st', slabFree s st p x = some st' ∧ Outcome s st st' (allocated.erase x) := by
  by_cases here : st.cpu.page = some p
  · exact slabFree_fast valid inv here inside out
  · rw [slabFree, if_neg here]
    exact slabFreeSlow_spec valid inv live here inside out

end XcKernel.Slub
