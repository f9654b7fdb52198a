import XcKernel.PageAlloc.BuddyRuns
import XcKernel.PageAlloc.PcpSpec

/-!
# Which block `__rmqueue` takes

The lists of the requested type are searched from the smallest order, those of
the other types from the largest, and the reserve last.  The entries that the
initialiser of `fallbacks` leaves out are `MIGRATE_UNMOVABLE` again, which adds
nothing: the three types are searched, each from every start.
-/

namespace XcKernel.PageAlloc

variable {s : State} {o t p migratetype : Nat}

/-- A list of the type has a block of at least the order. -/
def State.HasBlock (s : State) (order migratetype : Nat) : Prop :=
  ∃ high, order ≤ high ∧ high < maxOrder ∧ s.zone.freeList high migratetype ≠ []

/-- The block heads a list of the type, of at least the order. -/
def State.Offers (s : State) (order migratetype page : Nat) : Prop :=
  ∃ high, order ≤ high ∧ high < maxOrder ∧ page ∈ s.zone.freeList high migratetype

theorem State.Offers.hasBlock (offers : s.Offers o t p) : s.HasBlock o t := by
  obtain ⟨high, le, small, mem⟩ := offers
  exact ⟨high, le, small, List.ne_nil_of_mem mem⟩

theorem mem_orders {high : Nat} :
    high ∈ List.range' o (maxOrder - o) ↔ o ≤ high ∧ high < maxOrder := by
  rw [List.mem_range'_1]
  omega

theorem rmqueueSmallest_none (none : (rmqueueSmallest s o t).1 = none) : ¬ s.HasBlock o t := by
  unfold rmqueueSmallest at none
  dsimp only at none
  split at none
  · rename_i missing
    rintro ⟨high, le, small, nonempty⟩
    have absent := List.findSome?_eq_none_iff.mp missing high (mem_orders.mpr ⟨le, small⟩)
    rw [Option.map_eq_none_iff, List.head?_eq_none_iff] at absent
    exact nonempty absent
  · cases none

theorem rmqueueSmallest_offers (some : (rmqueueSmallest s o t).1 = some p) : s.Offers o t p := by
  unfold rmqueueSmallest at some
  dsimp only at some
  split at some
  · cases some
  · rename_i high page found
    cases some
    obtain ⟨high', inside, hit⟩ := List.exists_of_findSome?_eq_some found
    rw [Option.map_eq_some_iff] at hit
    obtain ⟨_, head, pair⟩ := hit
    obtain ⟨rfl, rfl⟩ := Prod.mk.inj pair
    obtain ⟨le, small⟩ := mem_orders.mp inside
    exact ⟨_, le, small, List.mem_of_mem_head? head⟩

theorem mem_fallbacks (start : migratetype < migratePcptypes) (type : t < migratePcptypes)
    (other : t ≠ migratetype) : t ∈ fallbacks migratetype := by
  have table : ∀ m < migratePcptypes, ∀ t < migratePcptypes, t ≠ m → t ∈ fallbacks m := by decide
  exact table migratetype start t type other

theorem fallbacks_type (start : migratetype < migratePcptypes) (member : t ∈ fallbacks migratetype)
    (notReserve : t ≠ migrateReserve) : t < migratePcptypes := by
  have table : ∀ m < migratePcptypes, ∀ t ∈ fallbacks m, t ≠ migrateReserve →
      t < migratePcptypes := by decide
  exact table migratetype start t member notReserve

theorem rmqueueFallback_none (start : migratetype < migratePcptypes)
    (none : (rmqueueFallback s o migratetype).1 = none) (type : t < migratePcptypes)
    (other : t ≠ migratetype) : ¬ s.HasBlock o t := by
  unfold rmqueueFallback at none
  split at none
  · rename_i missing
    rintro ⟨high, le, small, nonempty⟩
    unfold findFallback at missing
    have order := List.findSome?_eq_none_iff.mp missing high
      (List.mem_reverse.mpr (mem_orders.mpr ⟨le, small⟩))
    have absent := List.findSome?_eq_none_iff.mp order t (mem_fallbacks start type other)
    have notReserve : t ≠ migrateReserve := Nat.ne_of_lt type
    rw [if_neg notReserve, Option.map_eq_none_iff, List.head?_eq_none_iff] at absent
    exact nonempty absent
  · cases none

theorem rmqueueFallback_offers (start : migratetype < migratePcptypes)
    (some : (rmqueueFallback s o migratetype).1 = some p) :
    ∃ t < migratePcptypes, s.Offers o t p := by
  unfold rmqueueFallback at some
  split at some
  · cases some
  · rename_i high type page found
    cases some
    unfold findFallback at found
    obtain ⟨high', inside, hit⟩ := List.exists_of_findSome?_eq_some found
    obtain ⟨t, member, hit⟩ := List.exists_of_findSome?_eq_some hit
    split at hit
    · cases hit
    · rename_i notReserve
      rw [Option.map_eq_some_iff] at hit
      obtain ⟨_, head, triple⟩ := hit
      simp only [Prod.mk.injEq] at triple
      obtain ⟨rfl, rfl, rfl⟩ := triple
      obtain ⟨le, small⟩ := mem_orders.mp (List.mem_reverse.mp inside)
      exact ⟨t, fallbacks_type start member notReserve, _, le, small, List.mem_of_mem_head? head⟩

/-- The block comes from the requested type if that has one, and from the reserve
only if no other type has one. -/
structure Source (s : State) (order migratetype page type : Nat) : Prop where
  type_le : type ≤ migrateReserve
  offers : s.Offers order type page
  requested : s.HasBlock order migratetype → type = migratetype
  reserve : type = migrateReserve → ∀ t < migrateReserve, ¬ s.HasBlock order t

/-- The fallback is reached with nothing in the lists of the requested type, the
reserve with nothing in the lists of the other two as well. -/
theorem rmqueue_cases (inv : BuddyInv s) (range : migratetype < migratePcptypes) :
    (∃ p t, (rmqueue s o migratetype).1 = some p ∧ Source s o migratetype p t) ∨
      (rmqueue s o migratetype).1 = none ∧ ∀ t ≤ migrateReserve, ¬ s.HasBlock o t := by
  have types : migratetype < migrateTypes := range.trans (by decide)
  have notReserve : migratetype ≠ migrateReserve := Nat.ne_of_lt range
  unfold rmqueue
  dsimp only
  cases smallest : (rmqueueSmallest s o migratetype).1 with
  | some p =>
    left
    rw [if_neg (by simp), smallest]
    have offers := rmqueueSmallest_offers smallest
    refine ⟨p, migratetype, rfl, range.le, offers, fun _ => rfl, ?_⟩
    intro reserve
    exact (notReserve reserve).elim
  | none =>
    have empty := rmqueueSmallest_none smallest
    have same : (rmqueueSmallest s o migratetype).2 = s := by
      rcases rmqueueSmallest_takes (o := o) inv types with none | ⟨p, some, -⟩
      · rw [none]
      · rw [smallest] at some
        cases some
    rw [if_pos ⟨rfl, notReserve⟩, same]
    cases fallback : (rmqueueFallback s o migratetype).1 with
    | some p =>
      left
      rw [if_neg (by simp), fallback]
      obtain ⟨t, type, offers⟩ := rmqueueFallback_offers range fallback
      refine ⟨p, t, rfl, type.le, offers, fun has => (empty has).elim, ?_⟩
      intro reserve
      exact (Nat.ne_of_lt type reserve).elim
    | none =>
      have others : ∀ t < migrateReserve, ¬ s.HasBlock o t := by
        intro t type
        by_cases requested : t = migratetype
        · rw [requested]
          exact empty
        · exact rmqueueFallback_none range fallback type requested
      have same' : (rmqueueFallback s o migratetype).2 = s := by
        rcases rmqueueFallback_takes (o := o) inv types with none | ⟨p, some, -⟩
        · rw [none]
        · rw [fallback] at some
          cases some
      rw [if_pos rfl, same']
      cases last : (rmqueueSmallest s o migrateReserve).1 with
      | some p =>
        left
        exact ⟨p, migrateReserve, rfl, le_rfl, rmqueueSmallest_offers last,
          fun has => (empty has).elim, fun _ => others⟩
      | none =>
        right
        refine ⟨rfl, fun t type => ?_⟩
        rcases Nat.lt_or_eq_of_le type with below | rfl
        · exact others t below
        · exact rmqueueSmallest_none last

/-- `__rmqueue` finds a block exactly when a list of one of its types has one; it
takes `2 ^ order` free pages, and without a block it changes nothing. -/
theorem rmqueue_finds (inv : BuddyInv s) (range : migratetype < migratePcptypes) :
    ((∃ p, (rmqueue s o migratetype).1 = some p) ↔ ∃ t ≤ migrateReserve, s.HasBlock o t) ∧
    (∀ p, (rmqueue s o migratetype).1 = some p →
      TakeSpec s (rmqueue s o migratetype).2 o p ∧
      (rmqueue s o migratetype).2.zone.pagesBelow maxOrder + 2 ^ o = s.zone.pagesBelow maxOrder ∧
      ∃ t, Source s o migratetype p t) ∧
    ((rmqueue s o migratetype).1 = none → (rmqueue s o migratetype).2 = s) := by
  have takes : Takes s o (rmqueue s o migratetype) := rmqueue_takes o inv (range.trans (by decide))
  have searched := rmqueue_cases (o := o) inv range
  refine ⟨⟨?_, ?_⟩, ?_, ?_⟩
  · rintro ⟨p, some⟩
    rcases searched with ⟨_, t, _, source⟩ | ⟨none, -⟩
    · exact ⟨t, source.type_le, source.offers.hasBlock⟩
    · rw [none] at some
      cases some
  · rintro ⟨t, type, has⟩
    rcases searched with ⟨p, _, some, -⟩ | ⟨-, empty⟩
    · exact ⟨p, some⟩
    · exact (empty t type has).elim
  · intro p some
    rcases searched with ⟨p', t, some', source⟩ | ⟨none, -⟩
    · obtain rfl : p' = p := Option.some.inj (some'.symm.trans some)
      rcases takes with none | ⟨p'', some'', take⟩
      · rw [none] at some
        cases some
      · obtain rfl : p'' = p' := Option.some.inj (some''.symm.trans some)
        exact ⟨take, (take.pagesBelow inv).symm, t, source⟩
    · rw [none] at some
      cases some
  · intro none
    rcases takes with same | ⟨p, some, -⟩
    · rw [same]
    · rw [none] at some
      cases some

theorem reserveOnly_inv : BuddyInv (freeOnePageLocked (freshState 4096) 8 3 migrateReserve) := by
  have fresh := (freshState_empty 4096).inv.inv
  apply (freeOnePageLocked_spec fresh ⟨by decide, by decide, ?_, ?_⟩ (by decide) (by decide)).inv
  · intro x inside
    rw [← inBlock_iff (by decide)] at inside
    exact ⟨Nat.zero_le x, inside.2.trans (by decide)⟩
  · rintro x inside ⟨o, free⟩
    simp [State.Free, State.free, freshState] at free

/-- The only block is in the reserve: a request for another type gets it. -/
theorem rmqueue_finds_reserve :
    let s := freeOnePageLocked (freshState 4096) 8 3 migrateReserve
    (rmqueue s 1 migrateMovable).1 = some 8 ∧
      ∃ t, Source s 1 migrateMovable 8 t ∧ ∀ t < migrateReserve, ¬ s.HasBlock 1 t := by
  have found : (rmqueue (freeOnePageLocked (freshState 4096) 8 3 migrateReserve) 1 migrateMovable).1 =
      some 8 := by decide +kernel
  have finds := @rmqueue_finds _ 1 migrateMovable reserveOnly_inv (by decide)
  obtain ⟨-, -, t, source⟩ := finds.2.1 8 found
  refine ⟨found, t, source, ?_⟩
  have empty : ∀ t < migrateReserve, ∀ high < maxOrder,
      (freeOnePageLocked (freshState 4096) 8 3 migrateReserve).zone.freeList high t = [] := by
    decide +kernel
  rintro t type ⟨high, -, small, nonempty⟩
  exact nonempty (empty t type high small)

end XcKernel.PageAlloc
