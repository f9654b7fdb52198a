import XcKernel.Slub.Basic
import Mathlib.Data.List.Nodup
import Mathlib.Data.List.Count

/-!
# Where the objects of a cache are

Every object of a live slab is with a caller, on one loose list (that of the
processor, or the one a function has in hand), or on the list of its page, and
in one of these places only.  Each lemma below is one move of an object or of a
list.
-/

namespace XcKernel.Slub

/-- The addresses of the objects of a slab. -/
def objectsOf (s : Cache) (pages : Nat → SlabPage) (page : Nat) : List Nat :=
  (List.range (pages page).counters.objects.toNat).map fun i => pageAddress page + i * s.size

/-- The cache as `calculate_sizes` sets it up. -/
structure Cache.Valid (s : Cache) : Prop where
  size : 0 < s.size
  oo : 0 < s.oo.objects ∧ s.oo.objects < 2 ^ 15 ∧ s.oo.objects * s.size ≤ pageSize * 2 ^ s.oo.order
  min : 0 < s.min.objects ∧ s.min.objects < 2 ^ 15 ∧
    s.min.objects * s.size ≤ pageSize * 2 ^ s.min.order

/-- Where the objects are: `allocated` with callers, `loose` on the list from
`head`, whose objects are of the page `home`, and `held p` on the list of page `p`. -/
structure Owned (s : Cache) (fp : Nat → Nat) (pages : Nat → SlabPage) (allocated : List Nat)
    (home : Option Nat) (head : Nat) (loose : List Nat) (held : Nat → List Nat) : Prop where
  looseChain : Chain 0 fp head loose
  chain : ∀ {p}, (pages p).live = true → Chain 0 fp (pages p).freelist (held p)
  once : ∀ {p}, (pages p).live = true → ∀ o ∈ objectsOf s pages p,
    allocated.count o + loose.count o + (held p).count o = 1
  ofPage : ∀ {p}, (pages p).live = true → ∀ o ∈ held p, o ∈ objectsOf s pages p
  ofHome : ∀ o ∈ loose, ∃ p, home = some p ∧ o ∈ objectsOf s pages p
  ofLive : ∀ o ∈ allocated, ∃ p, (pages p).live = true ∧ o ∈ objectsOf s pages p
  homeLive : ∀ {p}, home = some p → (pages p).live = true
  inuse : ∀ {p}, (pages p).live = true →
    (pages p).counters.inuse.toNat + (held p).length = (pages p).counters.objects.toNat
  room : ∀ {p}, (pages p).live = true →
    (pages p).counters.objects.toNat * s.size ≤ pageSize * 2 ^ (pages p).order
  apart : ∀ {p q}, (pages p).live = true → (pages q).live = true → p ≠ q →
    p + 2 ^ (pages p).order ≤ q ∨ q + 2 ^ (pages q).order ≤ p

variable {s : Cache} {fp : Nat → Nat} {pages : Nat → SlabPage} {allocated loose : List Nat}
  {home : Option Nat} {head p x : Nat} {held : Nat → List Nat}

theorem mem_objectsOf {o : Nat} : o ∈ objectsOf s pages p ↔
    ∃ i < (pages p).counters.objects.toNat, o = pageAddress p + i * s.size := by
  simp only [objectsOf, List.mem_map, List.mem_range, eq_comm]

theorem length_objectsOf : (objectsOf s pages p).length = (pages p).counters.objects.toNat := by
  simp [objectsOf]

theorem nodup_objectsOf (valid : s.Valid) : (objectsOf s pages p).Nodup := by
  refine List.nodup_range.map fun i j eq => ?_
  exact Nat.eq_of_mul_eq_mul_right valid.size (Nat.add_left_cancel eq)

theorem ne_zero_of_mem {o : Nat} (member : o ∈ objectsOf s pages p) : o ≠ 0 := by
  obtain ⟨i, -, rfl⟩ := mem_objectsOf.mp member
  simp only [pageAddress, pageOffset]
  omega

theorem objectsOf_congr {pages' : Nat → SlabPage}
    (same : (pages' p).counters.objects = (pages p).counters.objects) :
    objectsOf s pages' p = objectsOf s pages p := by
  rw [objectsOf, objectsOf, same]

theorem mem_objectsOf_bounds (valid : s.Valid) {order : Nat}
    (room : (pages p).counters.objects.toNat * s.size ≤ pageSize * 2 ^ order) {o : Nat}
    (member : o ∈ objectsOf s pages p) :
    pageAddress p ≤ o ∧ o < pageAddress (p + 2 ^ order) := by
  obtain ⟨i, hi, rfl⟩ := mem_objectsOf.mp member
  have step : (i + 1) * s.size ≤ (pages p).counters.objects.toNat * s.size :=
    Nat.mul_le_mul_right _ hi
  have size := valid.size
  have grow : pageAddress (p + 2 ^ order) = pageAddress p + pageSize * 2 ^ order := by
    simp only [pageAddress, pageSize]
    omega
  rw [Nat.succ_mul] at step
  omega

theorem pageAddress_le {q : Nat} (le : p ≤ q) : pageAddress p ≤ pageAddress q :=
  Nat.add_le_add_left (Nat.mul_le_mul_right _ le) _

theorem Owned.page_unique (h : Owned s fp pages allocated home head loose held) (valid : s.Valid)
    {q o : Nat} (live : (pages p).live = true) (live' : (pages q).live = true)
    (member : o ∈ objectsOf s pages p) (member' : o ∈ objectsOf s pages q) : p = q := by
  by_contra ne
  have bounds := mem_objectsOf_bounds valid (h.room live) member
  have bounds' := mem_objectsOf_bounds valid (h.room live') member'
  rcases h.apart live live' ne with before | after
  · have := pageAddress_le before
    omega
  · have := pageAddress_le after
    omega

theorem Owned.nodup_held (h : Owned s fp pages allocated home head loose held)
    (live : (pages p).live = true) : (held p).Nodup := by
  rw [List.nodup_iff_count_le_one]
  intro o
  by_cases member : o ∈ held p
  · have := h.once live o (h.ofPage live o member)
    omega
  · rw [List.count_eq_zero_of_not_mem member]
    exact Nat.zero_le 1

theorem Owned.all_held (h : Owned s fp pages allocated home head loose held)
    (live : (pages p).live = true) (unused : (pages p).counters.inuse = 0) {o : Nat}
    (member : o ∈ objectsOf s pages p) : o ∈ held p := by
  have count := h.inuse live
  have zero : (0 : BitVec 16).toNat = 0 := rfl
  rw [unused, zero, Nat.zero_add, ← length_objectsOf (s := s)] at count
  exact ((h.nodup_held live).subperm (h.ofPage live)).perm_of_length_le count.ge |>.mem_iff.mpr member

theorem Owned.not_allocated (h : Owned s fp pages allocated home head loose held)
    (live : (pages p).live = true) {o : Nat} (member : o ∈ held p) : o ∉ allocated ∧ o ∉ loose := by
  have once := h.once live o (h.ofPage live o member)
  have pos := List.count_pos_iff.mpr member
  exact ⟨fun out => by have := List.count_pos_iff.mpr out; omega,
    fun out => by have := List.count_pos_iff.mpr out; omega⟩

theorem Owned.not_allocated_of_loose (h : Owned s fp pages allocated home head loose held) {o : Nat}
    (member : o ∈ loose) : o ∉ allocated := by
  obtain ⟨p, here, inside⟩ := h.ofHome o member
  have once := h.once (h.homeLive here) o inside
  have pos := List.count_pos_iff.mpr member
  exact fun out => by have := List.count_pos_iff.mpr out; omega

theorem Owned.off_lists (h : Owned s fp pages allocated home head loose held) (valid : s.Valid)
    (live : (pages p).live = true) (inside : x ∈ objectsOf s pages p) (out : x ∈ allocated) :
    x ∉ loose ∧ ∀ {q}, (pages q).live = true → x ∉ held q := by
  have once := h.once live x inside
  have pos := List.count_pos_iff.mpr out
  refine ⟨fun on => by have := List.count_pos_iff.mpr on; omega, fun {q} liveq on => ?_⟩
  obtain rfl := h.page_unique valid liveq live (h.ofPage liveq x on) inside
  have := List.count_pos_iff.mpr on
  omega

theorem Owned.inuse_pos (h : Owned s fp pages allocated home head loose held)
    (live : (pages p).live = true) (inside : x ∈ objectsOf s pages p) (off : x ∉ held p) :
    0 < (pages p).counters.inuse.toNat := by
  rcases Nat.eq_zero_or_pos (pages p).counters.inuse.toNat with zero | pos
  · exact absurd (h.all_held live (BitVec.eq_of_toNat_eq (by simpa using zero)) inside) off
  · exact pos

theorem Owned.take (h : Owned s fp pages allocated home x (x :: loose) held) :
    Owned s fp pages (x :: allocated) home (fp x) loose held := by
  obtain ⟨p, here, inside⟩ := h.ofHome x List.mem_cons_self
  refine ⟨h.looseChain.2.2, h.chain, fun live o member => ?_, h.ofPage,
    fun o on => h.ofHome o (List.mem_cons_of_mem x on), fun o out => ?_, h.homeLive, h.inuse, h.room,
    h.apart⟩
  · have once := h.once live o member
    rw [List.count_cons] at once ⊢
    omega
  · rcases List.mem_cons.mp out with rfl | old
    · exact ⟨p, h.homeLive here, inside⟩
    · exact h.ofLive o old

theorem count_erase_add {l : List Nat} (member : x ∈ l) (o : Nat) :
    (l.erase x).count o + (if x = o then 1 else 0) = l.count o := by
  have perm := (List.perm_cons_erase member).count_eq o
  rw [perm, List.count_cons]
  simp only [beq_iff_eq]

theorem Owned.giveLoose (h : Owned s fp pages allocated home head loose held) (valid : s.Valid)
    (here : home = some p) (inside : x ∈ objectsOf s pages p) (out : x ∈ allocated) :
    Owned s (Function.update fp x head) pages (allocated.erase x) home x (x :: loose) held := by
  have live := h.homeLive here
  obtain ⟨offLoose, offHeld⟩ := h.off_lists valid live inside out
  refine ⟨h.looseChain.push offLoose (ne_zero_of_mem inside),
    fun liveq => (h.chain liveq).update (offHeld liveq), fun liveq o member => ?_, h.ofPage,
    fun o on => ?_, fun o on => h.ofLive o (List.mem_of_mem_erase on), h.homeLive, h.inuse, h.room,
    h.apart⟩
  · have once := h.once liveq o member
    rw [← count_erase_add out o] at once
    rw [List.count_cons]
    simp only [beq_iff_eq]
    omega
  · rcases List.mem_cons.mp on with rfl | old
    · exact ⟨p, here, inside⟩
    · exact h.ofHome o old

theorem objects_setPage {page : SlabPage} (objects : page.counters.objects = (pages p).counters.objects)
    (q : Nat) : objectsOf s (Function.update pages p page) q = objectsOf s pages q := by
  apply objectsOf_congr
  by_cases eq : q = p
  · rw [eq, Function.update_self, objects]
  · rw [Function.update_of_ne eq]

/-- One page changes in its list and its use count; its objects are where they were or
have moved between its list, the loose list and the callers. -/
theorem Owned.setPage (h : Owned s fp pages allocated home head loose held)
    (live : (pages p).live = true) {page : SlabPage} {fp' : Nat → Nat} {allocated' loose' : List Nat}
    {home' : Option Nat} {head' : Nat} {list : List Nat} (livePage : page.live = true)
    (order : page.order = (pages p).order)
    (objects : page.counters.objects = (pages p).counters.objects)
    (looseChain : Chain 0 fp' head' loose') (chain : Chain 0 fp' page.freelist list)
    (other : ∀ {q}, (pages q).live = true → q ≠ p → ∀ o ∈ held q, fp' o = fp o)
    (once : ∀ o ∈ objectsOf s pages p, allocated'.count o + loose'.count o + list.count o = 1)
    (onceOther : ∀ o, o ∉ objectsOf s pages p →
      allocated'.count o + loose'.count o = allocated.count o + loose.count o)
    (ofPage : ∀ o ∈ list, o ∈ objectsOf s pages p)
    (ofHome : ∀ o ∈ loose', ∃ q, home' = some q ∧ o ∈ objectsOf s pages q)
    (ofLive : ∀ o ∈ allocated', ∃ q, (pages q).live = true ∧ o ∈ objectsOf s pages q)
    (homeLive : ∀ {q}, home' = some q → (pages q).live = true)
    (inuse : page.counters.inuse.toNat + list.length = (pages p).counters.objects.toNat)
    (valid : s.Valid) :
    Owned s fp' (Function.update pages p page) allocated' home' head' loose'
      (Function.update held p list) := by
  have same := objects_setPage (s := s) objects
  have lives : ∀ q, (Function.update pages p page q).live = true ↔ (pages q).live = true := by
    intro q
    by_cases eq : q = p
    · rw [eq, Function.update_self, livePage, live]
    · rw [Function.update_of_ne eq]
  have orders : ∀ q, (Function.update pages p page q).order = (pages q).order := by
    intro q
    by_cases eq : q = p
    · rw [eq, Function.update_self, order]
    · rw [Function.update_of_ne eq]
  refine ⟨looseChain, fun {q} liveq => ?_, fun {q} liveq o member => ?_, fun {q} liveq o on => ?_,
    fun o on => ?_, fun o out => ?_, fun {q} here => (lives q).mpr (homeLive here), fun {q} liveq => ?_,
    fun {q} liveq => ?_, fun {q r} liveq liver ne => ?_⟩
  · by_cases eq : q = p
    · rw [eq, Function.update_self, Function.update_self]
      exact chain
    · rw [Function.update_of_ne eq, Function.update_of_ne eq]
      exact (h.chain ((lives q).mp liveq)).congr (other ((lives q).mp liveq) eq)
  · rw [same] at member
    by_cases eq : q = p
    · subst eq
      rw [Function.update_self]
      exact once o member
    · rw [Function.update_of_ne eq, onceOther o fun inside =>
        eq (h.page_unique valid ((lives q).mp liveq) live member inside)]
      exact h.once ((lives q).mp liveq) o member
  · rw [same]
    by_cases eq : q = p
    · subst eq
      rw [Function.update_self] at on
      exact ofPage o on
    · rw [Function.update_of_ne eq] at on
      exact h.ofPage ((lives q).mp liveq) o on
  · obtain ⟨q, here, inside⟩ := ofHome o on
    exact ⟨q, here, by rwa [same]⟩
  · obtain ⟨q, liveq, inside⟩ := ofLive o out
    exact ⟨q, (lives q).mpr liveq, by rwa [same]⟩
  · by_cases eq : q = p
    · rw [eq, Function.update_self, Function.update_self, inuse, objects]
    · rw [Function.update_of_ne eq, Function.update_of_ne eq]
      exact h.inuse ((lives q).mp liveq)
  · rw [orders, ← length_objectsOf (s := s), same, length_objectsOf]
    exact h.room ((lives q).mp liveq)
  · rw [orders, orders]
    exact h.apart ((lives q).mp liveq) ((lives r).mp liver) ne

/-- An object comes back to the list of its page. -/
theorem Owned.givePage (h : Owned s fp pages allocated home head loose held) (valid : s.Valid)
    (live : (pages p).live = true) (inside : x ∈ objectsOf s pages p) (out : x ∈ allocated)
    (frozen : Bool) :
    Owned s (Function.update fp x (pages p).freelist)
      (Function.update pages p { pages p with
        freelist := x
        counters := ⟨(pages p).counters.inuse - 1, (pages p).counters.objects, frozen⟩ })
      (allocated.erase x) home head loose (Function.update held p (x :: held p)) := by
  obtain ⟨offLoose, offHeld⟩ := h.off_lists valid live inside out
  have pos := h.inuse_pos live inside (offHeld live)
  refine h.setPage live live rfl rfl (h.looseChain.update offLoose)
    ((h.chain live).push (offHeld live) (ne_zero_of_mem inside)) (fun {q} liveq _ o on => ?_)
    (fun o member => ?_) (fun o outside => ?_) (fun o on => ?_) h.ofHome
    (fun o on => h.ofLive o (List.mem_of_mem_erase on)) h.homeLive ?_ valid
  · refine Function.update_of_ne ?_ _ _
    rintro rfl
    exact offHeld liveq on
  · have once := h.once live o member
    rw [← count_erase_add out o] at once
    rw [List.count_cons]
    simp only [beq_iff_eq]
    omega
  · have ne : x ≠ o := by
      rintro rfl
      exact outside inside
    have := count_erase_add out o
    rw [if_neg ne] at this
    omega
  · rcases List.mem_cons.mp on with rfl | old
    · exact inside
    · exact h.ofPage live o old
  · have total := h.inuse live
    have one : (1 : BitVec 16).toNat = 1 := rfl
    dsimp only
    rw [BitVec.toNat_sub_of_le (by rw [BitVec.le_def, one]; exact pos), one, List.length_cons]
    omega

/-- The list of a page becomes the loose list. -/
theorem Owned.refill (h : Owned s fp pages allocated home head [] held) (valid : s.Valid)
    (live : (pages p).live = true) (frozen : Bool) :
    Owned s fp
      (Function.update pages p { pages p with
        freelist := 0
        counters := ⟨(pages p).counters.objects.setWidth 16, (pages p).counters.objects, frozen⟩ })
      allocated (some p) (pages p).freelist (held p) (Function.update held p []) := by
  refine h.setPage live live rfl rfl (h.chain live) rfl (fun _ _ _ _ => rfl) (fun o member => ?_)
    (fun o outside => ?_) (by simp) (fun o on => ⟨p, rfl, h.ofPage live o on⟩) h.ofLive
    (fun here => Option.some.inj here ▸ live) ?_ valid
  · have once := h.once live o member
    simp only [List.count_nil] at once ⊢
    omega
  · have off : o ∉ held p := fun on => outside (h.ofPage live o on)
    rw [List.count_eq_zero_of_not_mem off, List.count_nil]
  · dsimp only
    rw [BitVec.toNat_setWidth, List.length_nil, Nat.add_zero, Nat.mod_eq_of_lt]
    have := (pages p).counters.objects.isLt
    omega

theorem Owned.letGo (h : Owned s fp pages allocated home head [] held) :
    Owned s fp pages allocated none 0 [] held :=
  ⟨rfl, h.chain, h.once, h.ofPage, by simp, h.ofLive, by simp, h.inuse, h.room, h.apart⟩

theorem Owned.setFrozen (h : Owned s fp pages allocated home head loose held) (valid : s.Valid)
    (live : (pages p).live = true) (frozen : Bool) :
    Owned s fp (Function.update pages p { pages p with counters :=
      { (pages p).counters with frozen := frozen } }) allocated home head loose held := by
  have set : Owned s fp (Function.update pages p { pages p with counters :=
      { (pages p).counters with frozen := frozen } }) allocated home head loose
      (Function.update held p (held p)) :=
    h.setPage live live rfl rfl h.looseChain (h.chain live) (fun _ _ _ _ => rfl) (h.once live)
      (fun _ _ => rfl) (h.ofPage live) h.ofHome h.ofLive h.homeLive (h.inuse live) valid
  rwa [Function.update_eq_self] at set

theorem Owned.discard (h : Owned s fp pages allocated home head loose held)
    (live : (pages p).live = true) (unused : (pages p).counters.inuse = 0) (other : home ≠ some p)
    {page : SlabPage} (dead : page.live = false) :
    Owned s fp (Function.update pages p page) allocated home head loose held := by
  have away : ∀ {q}, (Function.update pages p page q).live = true → q ≠ p := by
    rintro q liveq rfl
    rw [Function.update_self, dead] at liveq
    cases liveq
  have same : ∀ {q}, q ≠ p → Function.update pages p page q = pages q := fun ne =>
    Function.update_of_ne ne page pages
  have objects : ∀ {q}, q ≠ p → objectsOf s (Function.update pages p page) q = objectsOf s pages q :=
    fun ne => objectsOf_congr (by rw [same ne])
  refine ⟨h.looseChain, fun {q} liveq => ?_, fun {q} liveq => ?_, fun {q} liveq => ?_, fun o on => ?_,
    fun o out => ?_, fun {q} here => ?_, fun {q} liveq => ?_, fun {q} liveq => ?_,
    fun {q r} liveq liver => ?_⟩
  · have ne := away liveq
    rw [same ne] at liveq ⊢
    exact h.chain liveq
  · rw [objects (away liveq)]
    rw [same (away liveq)] at liveq
    exact h.once liveq
  · rw [objects (away liveq)]
    rw [same (away liveq)] at liveq
    exact h.ofPage liveq
  · obtain ⟨q, here, inside⟩ := h.ofHome o on
    have ne : q ≠ p := fun eq => other (eq ▸ here)
    exact ⟨q, here, by rwa [objects ne]⟩
  · obtain ⟨q, liveq, inside⟩ := h.ofLive o out
    have ne : q ≠ p := by
      rintro rfl
      exact (h.not_allocated live (h.all_held live unused inside)).1 out
    exact ⟨q, by rwa [same ne], by rwa [objects ne]⟩
  · have ne : q ≠ p := fun eq => other (eq ▸ here)
    rw [same ne]
    exact h.homeLive here
  · have ne := away liveq
    rw [same ne] at liveq ⊢
    exact h.inuse liveq
  · have ne := away liveq
    rw [same ne] at liveq ⊢
    exact h.room liveq
  · have ne := away liveq
    have ne' := away liver
    rw [same ne] at liveq ⊢
    rw [same ne'] at liver ⊢
    exact h.apart liveq liver

/-- The free pointers after a number of rounds of the loop of `new_slab`. -/
structure Linked (s : Cache) (start count : Nat) (st : State) (r : State × Nat) : Prop where
  last : r.2 = start + count * s.size
  links : ∀ i < count, r.1.freePointer (start + i * s.size) = start + (i + 1) * s.size
  other : ∀ y, (∀ i ≤ count, y ≠ start + i * s.size) → r.1.freePointer y = st.freePointer y
  same : { r.1 with freePointer := st.freePointer } = st

theorem linkObjects_linked (valid : s.Valid) (st : State) (start count : Nat) :
    Linked s start count st
      ((List.range (count + 1)).foldl (linkObjects s start) (st, start)) := by
  have inj : ∀ {i j}, start + i * s.size = start + j * s.size → i = j := fun eq =>
    Nat.eq_of_mul_eq_mul_right valid.size (Nat.add_left_cancel eq)
  induction count with
  | zero =>
    refine ⟨by simp [linkObjects], by simp, fun y off => ?_, rfl⟩
    have := off 0 le_rfl
    simp only [Nat.zero_mul, Nat.add_zero] at this
    simp [linkObjects, State.setFreepointer, Function.update_of_ne this]
  | succ count ih =>
    rw [List.range_succ, List.foldl_append, List.foldl_cons, List.foldl_nil]
    generalize (List.range (count + 1)).foldl (linkObjects s start) (st, start) = r at ih ⊢
    obtain ⟨last, links, other, same⟩ := ih
    refine ⟨rfl, fun i hi => ?_, fun y off => ?_, same⟩
    · simp only [linkObjects, State.setFreepointer, last]
      by_cases eq : i = count
      · rw [eq, Function.update_self]
      · rw [Function.update_of_ne fun h => eq (inj h)]
        exact links i (by omega)
    · simp only [linkObjects, State.setFreepointer, last]
      rw [Function.update_of_ne (off count (by omega))]
      exact other y fun i hi => off i (by omega)

/-- The block of a page that may become a slab. -/
structure Fresh (pages : Nat → SlabPage) (page order : Nat) : Prop where
  dead : (pages page).live = false
  apart : ∀ {q}, (pages q).live = true → page + 2 ^ order ≤ q ∨ q + 2 ^ (pages q).order ≤ page

/-- A fresh page with all its objects linked becomes a slab. -/
theorem Owned.addSlab (h : Owned s fp pages allocated home head loose held) (valid : s.Valid)
    {page : SlabPage} {fp' : Nat → Nat} (fresh : Fresh pages p page.order)
    (unused : page.counters.inuse = 0)
    (room : page.counters.objects.toNat * s.size ≤ pageSize * 2 ^ page.order)
    (chain : Chain 0 fp' page.freelist (objectsOf s (Function.update pages p page) p))
    (other : ∀ y, y ∉ objectsOf s (Function.update pages p page) p → fp' y = fp y) :
    Owned s fp' (Function.update pages p page) allocated home head loose
      (Function.update held p (objectsOf s (Function.update pages p page) p)) := by
  set pages' := Function.update pages p page with hpages
  have self : pages' p = page := Function.update_self p page pages
  have same : ∀ {q}, q ≠ p → pages' q = pages q := fun ne => Function.update_of_ne ne page pages
  have objects : ∀ {q}, q ≠ p → objectsOf s pages' q = objectsOf s pages q := fun ne =>
    objectsOf_congr (by rw [same ne])
  have away : ∀ {q}, (pages q).live = true → q ≠ p := by
    rintro q liveq rfl
    rw [fresh.dead] at liveq
    cases liveq
  -- no object of the new slab belongs to another one
  have new : ∀ {q}, (pages q).live = true → ∀ o ∈ objectsOf s pages q, o ∉ objectsOf s pages' p := by
    intro q liveq o member member'
    have bounds := mem_objectsOf_bounds valid (h.room liveq) member
    have bounds' : pageAddress p ≤ o ∧ o < pageAddress (p + 2 ^ page.order) :=
      mem_objectsOf_bounds valid (by rwa [self]) member'
    rcases fresh.apart liveq with before | after
    · have := pageAddress_le before
      omega
    · have := pageAddress_le after
      omega
  have looseNew : ∀ o ∈ loose, o ∉ objectsOf s pages' p := fun o on => by
    obtain ⟨q, here, inside⟩ := h.ofHome o on
    exact new (h.homeLive here) o inside
  have outNew : ∀ o ∈ allocated, o ∉ objectsOf s pages' p := fun o out => by
    obtain ⟨q, liveq, inside⟩ := h.ofLive o out
    exact new liveq o inside
  refine ⟨h.looseChain.congr fun y on => other y (looseNew y on), fun {q} liveq => ?_,
    fun {q} liveq o member => ?_, fun {q} liveq o on => ?_, fun o on => ?_, fun o out => ?_,
    fun {q} here => ?_, fun {q} liveq => ?_, fun {q} liveq => ?_, fun {q r} liveq liver ne => ?_⟩
  · by_cases eq : q = p
    · rw [eq, self, Function.update_self]
      exact chain
    · rw [same eq] at liveq ⊢
      rw [Function.update_of_ne eq]
      exact (h.chain liveq).congr fun y on => other y (new liveq y (h.ofPage liveq y on))
  · by_cases eq : q = p
    · subst eq
      rw [Function.update_self, List.count_eq_zero_of_not_mem fun out => outNew o out member,
        List.count_eq_zero_of_not_mem fun on => looseNew o on member,
        List.count_eq_one_of_mem (nodup_objectsOf valid) member]
    · rw [objects eq] at member
      rw [same eq] at liveq
      rw [Function.update_of_ne eq]
      exact h.once liveq o member
  · by_cases eq : q = p
    · subst eq
      rwa [Function.update_self] at on
    · rw [Function.update_of_ne eq] at on
      rw [objects eq]
      rw [same eq] at liveq
      exact h.ofPage liveq o on
  · obtain ⟨q, here, inside⟩ := h.ofHome o on
    exact ⟨q, here, by rwa [objects (away (h.homeLive here))]⟩
  · obtain ⟨q, liveq, inside⟩ := h.ofLive o out
    exact ⟨q, by rwa [same (away liveq)], by rwa [objects (away liveq)]⟩
  · have liveq := h.homeLive here
    rwa [same (away liveq)]
  · by_cases eq : q = p
    · have zero : (0 : BitVec 16).toNat = 0 := rfl
      rw [eq, Function.update_self, length_objectsOf, self, unused, zero, Nat.zero_add]
    · rw [same eq] at liveq ⊢
      rw [Function.update_of_ne eq]
      exact h.inuse liveq
  · by_cases eq : q = p
    · rw [eq, self]
      exact room
    · rw [same eq] at liveq ⊢
      exact h.room liveq
  · by_cases eq : q = p
    · subst eq
      have ner : r ≠ q := Ne.symm ne
      rw [same ner] at liver ⊢
      rw [self]
      exact fresh.apart liver
    · by_cases eqr : r = p
      · subst eqr
        rw [same eq] at liveq ⊢
        rw [self]
        exact (fresh.apart liveq).symm
      · rw [same eq] at liveq ⊢
        rw [same eqr] at liver ⊢
        exact h.apart liveq liver ne

end XcKernel.Slub
