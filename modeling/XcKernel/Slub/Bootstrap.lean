import XcKernel.Slub.Runs

/-!
# Moving a descriptor

`kmem_cache_init` opens two caches in pages of their own, copies the descriptors to
objects of the first one, has `kmem_cache_bootstrap_fixup` correct `page->slab`, and
frees the pages.  A cache has the same slabs, objects and lists after the copy; what
is followed here beside them is `page->slab`, from which `kfree` takes the descriptor.
-/

namespace XcKernel.Slub

open State

/-- A cache, `page->slab` of every page, and where the descriptor in use is. -/
structure Described where
  t : Tracked
  slab : Nat → Nat
  desc : Nat

/-- `page->slab` after a call with the descriptor at `desc`: only `new_slab` writes it, and
only `new_slab` makes a page a slab. -/
def tagged (desc : Nat) (st st' : State) (slab : Nat → Nat) (p : Nat) : Nat :=
  if (st'.pages p).live = true ∧ (st.pages p).live = false then desc else slab p

/-- A step of `kmem_cache_init`, or of what it calls.  The word of a page that is no slab
belongs to others. -/
inductive BootStep (s : Cache) (new : Nat) : Described → Described → Prop where
  | call {r : Described} {t' : Tracked} {slab' : Nat → Nat} (step : SlabStep s r.t t')
      (tags : ∀ p, (t'.st.pages p).live = true → slab' p = tagged r.desc r.t.st t'.st r.slab p) :
      BootStep s new r ⟨t', slab', r.desc⟩
  /-- The `memcpy` of the descriptor, with its per-cpu part behind it -/
  | copy {r : Described} : BootStep s new r ⟨r.t, r.slab, new⟩

/-- A cache that has been opened with its descriptor at `old`. -/
structure Started (s : Cache) (old : Nat) (r : Described) : Prop where
  opened : Opened s r.t
  desc : r.desc = old
  slab : ∀ p, (r.t.st.pages p).live = true → r.slab p = old

/-- `kmem_cache_bootstrap_fixup`, as far as it goes to the pages -/
def kmemCacheBootstrapFixup (r : Described) : Described :=
  { r with slab := r.t.st.node.slabs.foldl (fun slab p => Function.update slab p r.desc) r.slab }

/-- The descriptor that `kfree` passes on for an object of the slab at `page` -/
def kfreeCache (r : Described) (page : Nat) : Nat := r.slab page

/-- All slabs, and with them `kfree` of every object that is out, lead to the new descriptor. -/
structure Relocated (r : Described) (new : Nat) : Prop where
  slabs : ∀ p, (r.t.st.pages p).live = true → r.slab p = new
  kfree : ∀ x ∈ r.t.allocated, ∀ p, (r.t.st.pages p).live = true → pageAddress p ≤ x →
    x < pageAddress (p + 2 ^ (r.t.st.pages p).order) → kfreeCache r p = new

/-- What holds between the opening and the fix-up. -/
structure Moving (s : Cache) (old new : Nat) (r : Described) : Prop where
  inv : SlabInv s r.t.st r.t.allocated
  desc : r.desc = old ∨ r.desc = new
  slab : ∀ p, (r.t.st.pages p).live = true → r.slab p = old ∨ r.slab p = new

variable {s : Cache} {old new : Nat} {r₀ r r' : Described}

theorem Started.moving (valid : s.Valid) (started : Started s old r) : Moving s old new r :=
  ⟨started.opened.inv valid, .inl started.desc, fun p live => .inl (started.slab p live)⟩

theorem Moving.step (valid : s.Valid) (moving : Moving s old new r) (step : BootStep s new r r') :
    Moving s old new r' := by
  cases step with
  | copy => exact ⟨moving.inv, .inr rfl, moving.slab⟩
  | @call t' slab' step tags =>
    refine ⟨(moving.inv.step valid step).inv, moving.desc, fun p live => ?_⟩
    change slab' p = old ∨ slab' p = new
    rw [tags p live, tagged]
    by_cases made : (t'.st.pages p).live = true ∧ (r.t.st.pages p).live = false
    · rw [if_pos made]
      exact moving.desc
    · rw [if_neg made]
      apply moving.slab
      by_contra dead
      exact made ⟨live, by simpa using dead⟩

theorem moving_of_run (valid : s.Valid) (started : Started s old r₀)
    (run : Relation.ReflTransGen (BootStep s new) r₀ r) : Moving s old new r :=
  invariant_of_run (Moving s old new) (fun _ _ moving step => moving.step valid step)
    (started.moving valid) run

theorem foldl_update (desc : Nat) (l : List Nat) (slab : Nat → Nat) (p : Nat) :
    l.foldl (fun slab p => Function.update slab p desc) slab p = if p ∈ l then desc else slab p := by
  induction l generalizing slab with
  | nil => simp
  | cons q l ih =>
    rw [List.foldl_cons, ih]
    by_cases later : p ∈ l
    · simp [later]
    · by_cases here : p = q
      · simp [here]
      · simp [later, here]

theorem fixup_slab (r : Described) (p : Nat) : (kmemCacheBootstrapFixup r).slab p =
    if p ∈ r.t.st.node.slabs then r.desc else r.slab p := foldl_update ..

/-- The fix-up reaches the slabs on the partial list, so that all lead to the new descriptor
if and only if no slab from before the copy is the page of the processor or has an empty list. -/
theorem bootstrap_fixup_iff (valid : s.Valid) (ne : old ≠ new) (started : Started s old r₀)
    (run : Relation.ReflTransGen (BootStep s new) r₀ r) (copied : r.desc = new) :
    Relocated (kmemCacheBootstrapFixup r) new ↔
      ∀ p, (r.t.st.pages p).live = true → r.slab p = old →
        r.t.st.cpu.page ≠ some p ∧ (r.t.st.pages p).freelist ≠ 0 := by
  have moving := moving_of_run valid started run
  obtain ⟨-, -, -, listed⟩ := moving.inv
  have member : ∀ p, (r.t.st.pages p).live = true → (p ∈ r.t.st.node.slabs ↔
      r.t.st.cpu.page ≠ some p ∧ (r.t.st.pages p).freelist ≠ 0) := by
    intro p live
    have frozen := not_congr (listed.frozen live)
    rw [Bool.not_eq_true] at frozen
    rw [listed.member, frozen]
    exact and_iff_right live
  constructor
  · intro relocated p live stale
    rw [← member p live]
    by_contra off
    have slab := relocated.slabs p live
    rw [fixup_slab, if_neg off, stale] at slab
    exact ne slab
  · intro condition
    have slabs : ∀ p, (r.t.st.pages p).live = true → (kmemCacheBootstrapFixup r).slab p = new := by
      intro p live
      rw [fixup_slab]
      by_cases on : p ∈ r.t.st.node.slabs
      · rw [if_pos on]
        exact copied
      · rw [if_neg on]
        rcases moving.slab p live with stale | moved
        · exact absurd ((member p live).mpr (condition p live stale)) on
        · exact moved
    exact ⟨slabs, fun x _ p live _ _ => slabs p live⟩

theorem pairStart_fresh (s : Cache) : FreshPages s pairStart (some 5) none := by
  refine ⟨fun page _ => ⟨rfl, fun {q} live => ?_⟩, fun page given => ?_⟩
  · cases live
  · cases given

/-- The cache of nodes right after its opening: its one slab is on the partial list. -/
theorem bootstrap_fixup_early : ∃ r, earlyKmemCacheNodeAlloc pairCache pairStart (some 5) none = some r ∧
    r.2.node.slabs = [5] ∧ r.1 = pageAddress 5 ∧
    Relocated (kmemCacheBootstrapFixup ⟨⟨r.2, [r.1]⟩, fun _ => pageAddress 4, pageAddress 6⟩)
      (pageAddress 6) := by
  obtain ⟨r, returns, slabs, object, page, freelist⟩ : ∃ r,
      earlyKmemCacheNodeAlloc pairCache pairStart (some 5) none = some r ∧ r.2.node.slabs = [5] ∧
        r.1 = pageAddress 5 ∧ r.2.cpu.page = none ∧ (r.2.pages 5).freelist ≠ 0 :=
    ⟨_, Option.eq_some_of_isSome (by decide +kernel), by decide +kernel, by decide +kernel,
      by decide +kernel, by decide +kernel⟩
  have fresh := pairStart_fresh pairCache
  have opened : Opened pairCache ⟨r.2, [r.1]⟩ :=
    .early pairStart pairStart_empty (some 5) none r fresh (by decide) returns
  have started : Started pairCache (pageAddress 4)
      ⟨⟨r.2, [r.1]⟩, fun _ => pageAddress 4, pageAddress 4⟩ := ⟨opened, rfl, fun _ _ => rfl⟩
  have only : ∀ p, (r.2.pages p).live = true → p = 5 := by
    intro p live
    by_contra elsewhere
    have first : (newSlab pairCache pairStart (some 5) none).1 = some 5 := by decide +kernel
    rcases newSlab_spec pairCache_valid fresh with failed | ⟨page, st', made, new⟩
    · rw [failed] at first
      cases first
    · rw [made] at first
      obtain rfl := Option.some.inj first
      rw [earlyKmemCacheNodeAlloc, made] at returns
      obtain rfl := Option.some.inj returns
      rw [State.addPartial] at live
      simp only [modifyPage, if_neg elsewhere] at live
      rw [new.pages p elsewhere] at live
      cases live
  refine ⟨r, returns, slabs, object, (bootstrap_fixup_iff pairCache_valid (by decide) started
    (.single .copy) rfl).mpr fun p live _ => ?_⟩
  obtain rfl := only p live
  rw [page]
  exact ⟨(Option.some_ne_none 5).symm, freelist⟩

/-- The cache of descriptors, with the size that `kmem_cache_init` gives it -/
def descriptorCache : Cache := ⟨96, 96, 0, 6, ⟨0, 42⟩, ⟨0, 42⟩, false⟩

/-- The object for the descriptor of the cache itself -/
def descriptorFirst : Option (Nat × State) := slabAlloc descriptorCache pairStart false (some 5) none 0

/-- The object for the descriptor of the cache of nodes -/
def descriptorSecond : Option (Nat × State) :=
  descriptorFirst.bind fun r => slabAlloc descriptorCache r.2 false none none 0

/-- In `kmem_cache_init` the slab with both descriptors is the page of the processor, and after
the fix-up it still has the descriptor in the page that is freed next. -/
theorem bootstrap_fixup_misses : descriptorCache.Valid ∧ ∃ r₀ r,
    Started descriptorCache (pageAddress 4) r₀ ∧
    Relation.ReflTransGen (BootStep descriptorCache (pageAddress 5)) r₀ r ∧
    r.desc = pageAddress 5 ∧ r.t.allocated = [pageAddress 5 + 96, pageAddress 5] ∧
    (r.t.st.pages 5).live = true ∧ r.t.st.cpu.page = some 5 ∧
    kfreeCache (kmemCacheBootstrapFixup r) 5 = pageAddress 4 ∧
    ¬ Relocated (kmemCacheBootstrapFixup r) (pageAddress 5) := by
  obtain ⟨r₁, h₁, o₁, live₁⟩ : ∃ r, descriptorFirst = some r ∧ r.1 = pageAddress 5 ∧
      (r.2.pages 5).live = true :=
    ⟨_, Option.eq_some_of_isSome (by decide +kernel), by decide +kernel, by decide +kernel⟩
  obtain ⟨r₂, h₂, o₂, page, live₂, slabs⟩ : ∃ r, descriptorSecond = some r ∧
      r.1 = pageAddress 5 + 96 ∧ r.2.cpu.page = some 5 ∧ (r.2.pages 5).live = true ∧
      r.2.node.slabs = [] :=
    ⟨_, Option.eq_some_of_isSome (by decide +kernel), by decide +kernel, by decide +kernel,
      by decide +kernel, by decide +kernel⟩
  rw [descriptorSecond, h₁, Option.bind_some] at h₂
  have first : SlabStep descriptorCache ⟨pairStart, []⟩ ⟨r₁.2, [pageAddress 5]⟩ := by
    have step := SlabStep.alloc ⟨pairStart, []⟩ false (some 5) none 0 r₁
      (pairStart_fresh descriptorCache) h₁
    rwa [o₁, if_neg (by decide)] at step
  have second : SlabStep descriptorCache ⟨r₁.2, [pageAddress 5]⟩
      ⟨r₂.2, [pageAddress 5 + 96, pageAddress 5]⟩ := by
    have step := SlabStep.alloc ⟨r₁.2, [pageAddress 5]⟩ false none none 0 r₂ ⟨nofun, nofun⟩ h₂
    rwa [o₂, if_neg (by decide)] at step
  set r : Described := ⟨⟨r₂.2, [pageAddress 5 + 96, pageAddress 5]⟩,
    tagged (pageAddress 5) r₁.2 r₂.2 fun _ => pageAddress 4, pageAddress 5⟩ with hr
  have made : BootStep descriptorCache (pageAddress 5)
      ⟨⟨pairStart, []⟩, fun _ => pageAddress 4, pageAddress 4⟩
      ⟨⟨r₁.2, [pageAddress 5]⟩, fun _ => pageAddress 4, pageAddress 4⟩ :=
    .call first fun p _ => (ite_self _).symm
  have run := ((Relation.ReflTransGen.single made).tail .copy).tail (.call second fun p _ => rfl)
  have missed : kfreeCache (kmemCacheBootstrapFixup r) 5 = pageAddress 4 := by
    rw [kfreeCache, fixup_slab, if_neg]
    · simp [hr, tagged, live₁]
    · rw [hr, slabs]
      exact List.not_mem_nil
  refine ⟨⟨by decide, by decide, by decide⟩, _, r, ⟨.empty pairStart pairStart_empty, rfl, fun _ _ => rfl⟩,
    run, rfl, rfl, live₂, page, missed, fun relocated => ?_⟩
  have moved := relocated.slabs 5 live₂
  rw [kfreeCache, moved] at missed
  exact absurd missed (by decide)

end XcKernel.Slub
