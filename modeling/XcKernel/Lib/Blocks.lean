import Mathlib.Algebra.BigOperators.Group.Finset.Basic
import Mathlib.Algebra.Order.BigOperators.Group.Finset
import Mathlib.Data.Nat.Bitwise
import Mathlib.Order.Interval.Finset.Nat

/-!
# Dyadic blocks

A block of order `o` is the interval of `2 ^ o` numbers that starts at a
multiple of `2 ^ o`.  Every number lies in exactly one block of each order, so
that a block is named by its first number and the block of order `o` around `x`
starts at `head o x`.

A family of blocks is a predicate on orders and heads.  It is a tiling when no
number lies in two of its blocks.
-/

namespace XcKernel.Blocks

/-- The first number of the block of order `o` around `x`. -/
def head (o x : Nat) : Nat := x / 2 ^ o * 2 ^ o

/-- The other half of the block of order `o + 1` around the block at `p`. -/
def buddy (o p : Nat) : Nat := p ^^^ 2 ^ o

theorem two_pow_dvd_head (o x : Nat) : 2 ^ o ∣ head o x := Dvd.intro_left _ rfl

theorem head_le (o x : Nat) : head o x ≤ x := Nat.div_mul_le_self x (2 ^ o)

theorem head_of_dvd {o p : Nat} (h : 2 ^ o ∣ p) : head o p = p := Nat.div_mul_cancel h

theorem head_eq_iff {o p x : Nat} (h : 2 ^ o ∣ p) : head o x = p ↔ p ≤ x ∧ x < p + 2 ^ o := by
  obtain ⟨q, rfl⟩ := h
  have pos : 0 < 2 ^ o := Nat.two_pow_pos o
  rw [head, Nat.mul_comm, Nat.mul_right_inj pos.ne', Nat.div_eq_iff pos]
  rw [Nat.mul_comm q]
  omega

theorem head_head {o o' : Nat} (h : o ≤ o') (x : Nat) : head o' (head o x) = head o' x := by
  obtain ⟨d, rfl⟩ := Nat.exists_eq_add_of_le h
  have pos : 0 < 2 ^ o := Nat.two_pow_pos o
  rw [head, head, head, Nat.pow_add, ← Nat.div_div_eq_div_mul, Nat.mul_div_cancel _ pos,
    Nat.div_div_eq_div_mul]

theorem head_eq_of_le {o o' p x : Nat} (h : o ≤ o') (inside : head o x = p) :
    head o' x = head o' p := by
  rw [← inside, head_head h]

theorem buddy_mul_two_pow (o q : Nat) : buddy o (q * 2 ^ o) = (q ^^^ 1) * 2 ^ o := by
  have := Nat.shiftLeft_xor_distrib (a := q) (b := 1) (i := o)
  simp only [Nat.shiftLeft_eq, one_mul] at this
  exact this.symm

theorem two_pow_dvd_buddy {o p : Nat} (h : 2 ^ o ∣ p) : 2 ^ o ∣ buddy o p := by
  obtain ⟨q, rfl⟩ := h
  rw [Nat.mul_comm, buddy_mul_two_pow]
  exact Dvd.intro_left _ rfl

theorem buddy_buddy (o p : Nat) : buddy o (buddy o p) = p := by
  rw [buddy, buddy, Nat.xor_assoc, Nat.xor_self, Nat.xor_zero]

theorem xor_one_cases (q : Nat) :
    (q % 2 = 0 ∧ q ^^^ 1 = q + 1) ∨ (q % 2 = 1 ∧ (q ^^^ 1) + 1 = q) := by
  rcases Nat.mod_two_eq_zero_or_one q with even | odd
  · left
    refine ⟨even, ?_⟩
    rw [Nat.xor_one_of_even (Nat.even_iff.mpr even)]
  · right
    refine ⟨odd, ?_⟩
    rw [Nat.xor_one_of_odd (Nat.odd_iff.mpr odd)]
    omega

theorem buddy_cases {o p : Nat} (h : 2 ^ o ∣ p) :
    (head (o + 1) p = p ∧ buddy o p = p + 2 ^ o) ∨
    (head (o + 1) p = buddy o p ∧ p = buddy o p + 2 ^ o) := by
  obtain ⟨q, rfl⟩ := h
  rw [Nat.mul_comm, buddy_mul_two_pow]
  have parent : head (o + 1) (q * 2 ^ o) = q / 2 * 2 * 2 ^ o := by
    rw [head, Nat.pow_succ, Nat.mul_comm (2 ^ o) 2,
      Nat.mul_div_mul_right q 2 (Nat.two_pow_pos o), Nat.mul_assoc]
  rw [parent]
  rcases xor_one_cases q with ⟨even, step⟩ | ⟨odd, step⟩
  · left
    constructor
    · congr 1
      omega
    · rw [step, Nat.succ_mul]
  · right
    constructor
    · congr 1
      omega
    · rw [← Nat.succ_mul, Nat.succ_eq_add_one, step]

theorem buddy_of_dvd_succ {o p : Nat} (h : 2 ^ (o + 1) ∣ p) : buddy o p = p + 2 ^ o := by
  have pos := Nat.two_pow_pos o
  rcases buddy_cases ((Nat.pow_dvd_pow 2 (Nat.le_succ o)).trans h) with ⟨-, up⟩ | ⟨same, down⟩
  · exact up
  · rw [head_of_dvd h] at same
    omega

theorem buddy_ne {o p : Nat} (h : 2 ^ o ∣ p) : buddy o p ≠ p := by
  have pos := Nat.two_pow_pos o
  rcases buddy_cases h with ⟨-, up⟩ | ⟨-, down⟩ <;> omega

theorem head_succ_eq_iff {o p : Nat} (h : 2 ^ o ∣ p) (x : Nat) :
    head (o + 1) x = head (o + 1) p ↔ head o x = p ∨ head o x = buddy o p := by
  rw [head_eq_iff (two_pow_dvd_head (o + 1) p), head_eq_iff h, head_eq_iff (two_pow_dvd_buddy h)]
  have double : 2 ^ (o + 1) = 2 ^ o + 2 ^ o := by rw [Nat.pow_succ]; omega
  rcases buddy_cases h with ⟨low, up⟩ | ⟨low, down⟩ <;> rw [low] <;> omega

theorem buddy_and_self_of_dvd_succ {o p : Nat} (h : 2 ^ (o + 1) ∣ p) : buddy o p &&& p = p := by
  have bit : p.testBit o = false := by
    obtain ⟨q, rfl⟩ := h
    simp [Nat.testBit_two_pow_mul]
  apply Nat.eq_of_testBit_eq
  intro i
  rw [buddy, Nat.testBit_and, Nat.testBit_xor, Nat.testBit_two_pow]
  by_cases here : o = i
  · subst here
    simp [bit]
  · simp [here]

theorem buddy_and_self {o p : Nat} (h : 2 ^ o ∣ p) : buddy o p &&& p = head (o + 1) p := by
  have parent := two_pow_dvd_head (o + 1) p
  rcases buddy_cases h with ⟨low, -⟩ | ⟨low, -⟩ <;> rw [low] at parent ⊢
  · exact buddy_and_self_of_dvd_succ parent
  · have lower := buddy_and_self_of_dvd_succ parent
    rwa [buddy_buddy, Nat.and_comm] at lower

/-! The same computations on the low `n` bits of the head give the same offsets. -/

section Window

variable {n o p : Nat}

theorem dvd_mod (le : o ≤ n) (h : 2 ^ o ∣ p) : 2 ^ o ∣ p % 2 ^ n :=
  (Nat.dvd_mod_iff (Nat.pow_dvd_pow 2 le)).mpr h

theorem head_window (le : o ≤ n) : head o p = p / 2 ^ n * 2 ^ n + head o (p % 2 ^ n) := by
  obtain ⟨d, rfl⟩ := Nat.exists_eq_add_of_le le
  have pos := Nat.two_pow_pos o
  have split : p = p / 2 ^ (o + d) * 2 ^ d * 2 ^ o + p % 2 ^ (o + d) := by
    have := Nat.div_add_mod' p (2 ^ (o + d))
    rw [Nat.mul_assoc, ← Nat.pow_add, Nat.add_comm d o]
    exact this.symm
  have quotient : p / 2 ^ o = p / 2 ^ (o + d) * 2 ^ d + p % 2 ^ (o + d) / 2 ^ o := by
    conv_lhs => rw [split]
    rw [Nat.add_comm, Nat.add_mul_div_right _ _ pos, Nat.add_comm]
  rw [head, quotient, Nat.add_mul, head, Nat.mul_assoc, ← Nat.pow_add, Nat.add_comm d o]

theorem buddy_window (lt : o < n) (h : 2 ^ o ∣ p) :
    p + buddy o (p % 2 ^ n) - p % 2 ^ n = buddy o p := by
  have base := Nat.div_add_mod' p (2 ^ n)
  have parent := head_window (o := o + 1) (p := p) lt
  have pos := Nat.two_pow_pos o
  rcases buddy_cases h with ⟨low, up⟩ | ⟨low, down⟩ <;>
    rcases buddy_cases (dvd_mod lt.le h) with ⟨low', up'⟩ | ⟨low', down'⟩ <;> omega

theorem join_window (lt : o < n) (h : 2 ^ o ∣ p) :
    p + (buddy o (p % 2 ^ n) &&& p % 2 ^ n) - p % 2 ^ n = head (o + 1) p := by
  rw [buddy_and_self (dvd_mod lt.le h), head_window (o := o + 1) (p := p) lt]
  have base := Nat.div_add_mod' p (2 ^ n)
  omega

theorem head_mod_window (le : o ≤ n) : head o p % 2 ^ n = head o (p % 2 ^ n) := by
  have small := (head_le o (p % 2 ^ n)).trans_lt (Nat.mod_lt p (Nat.two_pow_pos n))
  rw [head_window le, Nat.mul_add_mod_self_right, Nat.mod_eq_of_lt small]

end Window

variable {F F' : Nat → Nat → Prop} {o p x : Nat}

/-- `x` lies in a block of the family. -/
def Covered (F : Nat → Nat → Prop) (x : Nat) : Prop := ∃ o, F o (head o x)

/-- Blocks start where they should, and no number lies in two of them. -/
structure Tiling (F : Nat → Nat → Prop) : Prop where
  aligned : ∀ {o p}, F o p → 2 ^ o ∣ p
  unique : ∀ {o o' x}, F o (head o x) → F o' (head o' x) → o = o'

/-- No block of the family meets the block of order `o` at `p`. -/
def Clear (F : Nat → Nat → Prop) (o p : Nat) : Prop := ∀ x, head o x = p → ¬ Covered F x

theorem covered_of_head (member : F o p) (inside : head o x = p) : Covered F x :=
  ⟨o, inside.symm ▸ member⟩

theorem Tiling.head_mem (tiling : Tiling F) (member : F o p) : Covered F p :=
  covered_of_head member (head_of_dvd (tiling.aligned member))

theorem Tiling.order_eq (tiling : Tiling F) {o' : Nat} (h : F o p) (h' : F o' p) : o = o' := by
  apply tiling.unique (x := p)
  · rwa [head_of_dvd (tiling.aligned h)]
  · rwa [head_of_dvd (tiling.aligned h')]

theorem Clear.not_mem (clear : Clear F o p) (h : 2 ^ o ∣ p) : ¬ F o p := fun member =>
  clear p (head_of_dvd h) (covered_of_head member (head_of_dvd h))

theorem Clear.mono (clear : Clear F o p) (sub : ∀ x, Covered F' x → Covered F x) :
    Clear F' o p := fun x inside covered => clear x inside (sub x covered)

theorem Clear.inside {o' p' : Nat} (clear : Clear F o p) (le : o' ≤ o) (within : head o p' = p) :
    Clear F o' p' := fun x inside => clear x ((head_eq_of_le le inside).trans within)

theorem Tiling.insert (tiling : Tiling F) (h : 2 ^ o ∣ p) (clear : Clear F o p)
    (new : ∀ o' p', F' o' p' ↔ F o' p' ∨ (o' = o ∧ p' = p)) : Tiling F' := by
  constructor
  · intro o' p' member
    rcases (new o' p').mp member with old | ⟨rfl, rfl⟩
    · exact tiling.aligned old
    · exact h
  · intro o₁ o₂ x h₁ h₂
    rcases (new o₁ _).mp h₁ with old₁ | ⟨rfl, in₁⟩ <;> rcases (new o₂ _).mp h₂ with old₂ | ⟨rfl, in₂⟩
    · exact tiling.unique old₁ old₂
    · exact (clear x in₂ ⟨o₁, old₁⟩).elim
    · exact (clear x in₁ ⟨o₂, old₂⟩).elim
    · rfl

theorem covered_insert (new : ∀ o' p', F' o' p' ↔ F o' p' ∨ (o' = o ∧ p' = p)) (x : Nat) :
    Covered F' x ↔ Covered F x ∨ head o x = p := by
  constructor
  · rintro ⟨o', member⟩
    rcases (new o' _).mp member with old | ⟨rfl, inside⟩
    · exact .inl ⟨o', old⟩
    · exact .inr inside
  · rintro (⟨o', member⟩ | inside)
    · exact ⟨o', (new o' _).mpr (.inl member)⟩
    · exact ⟨o, (new o _).mpr (.inr ⟨rfl, inside⟩)⟩

theorem Tiling.erase (tiling : Tiling F)
    (rest : ∀ o' p', F' o' p' ↔ F o' p' ∧ ¬ (o' = o ∧ p' = p)) : Tiling F' :=
  ⟨fun member => tiling.aligned ((rest _ _).mp member).1,
    fun h₁ h₂ => tiling.unique ((rest _ _).mp h₁).1 ((rest _ _).mp h₂).1⟩

theorem Tiling.covered_erase (tiling : Tiling F) (member : F o p)
    (rest : ∀ o' p', F' o' p' ↔ F o' p' ∧ ¬ (o' = o ∧ p' = p)) (x : Nat) :
    Covered F' x ↔ Covered F x ∧ head o x ≠ p := by
  constructor
  · rintro ⟨o', kept⟩
    obtain ⟨old, other⟩ := (rest o' _).mp kept
    refine ⟨⟨o', old⟩, ?_⟩
    intro inside
    obtain rfl := tiling.unique old (inside.symm ▸ member)
    exact other ⟨rfl, inside⟩
  · rintro ⟨⟨o', old⟩, outside⟩
    refine ⟨o', (rest o' _).mpr ⟨old, ?_⟩⟩
    rintro ⟨rfl, inside⟩
    exact outside inside

theorem Clear.join (h : 2 ^ o ∣ p) (clear : Clear F o p) (other : Clear F o (buddy o p)) :
    Clear F (o + 1) (head (o + 1) p) := by
  intro x inside
  rcases (head_succ_eq_iff h x).mp inside with low | high
  · exact clear x low
  · exact other x high

/-- A tiling by blocks of orders below `n` in which no two buddies could be joined. -/
structure Maximal (n : Nat) (F : Nat → Nat → Prop) : Prop extends Tiling F where
  small : ∀ {o p}, F o p → o < n
  merged : ∀ {o p}, o + 1 < n → F o p → ¬ F o (buddy o p)

variable {n : Nat}

theorem head_buddy (h : 2 ^ o ∣ p) {o' : Nat} (lt : o < o') :
    head o' (buddy o p) = head o' p := by
  have parent : head (o + 1) (buddy o p) = head (o + 1) p :=
    (head_succ_eq_iff h _).mpr (.inr (head_of_dvd (two_pow_dvd_buddy h)))
  rw [← head_head lt (buddy o p), parent, head_head lt]

theorem Maximal.gap (maximal : Maximal n F) {o' : Nat} (member : F o p) (lt : o < o')
    (small : o' < n) : ∃ x, head o' x = head o' p ∧ ¬ Covered F x := by
  -- by induction on the order: the buddy is cut into smaller blocks, or is not covered
  induction o using Nat.strong_induction_on generalizing p with
  | _ o ih =>
    have aligned := maximal.aligned member
    by_contra! full
    obtain ⟨o₂, cover⟩ := full (buddy o p) (head_buddy aligned lt)
    rcases Nat.lt_trichotomy o₂ o with below | rfl | above
    · obtain ⟨x, inside, missed⟩ := ih o₂ below cover (below.trans lt)
      rw [head_head (below.trans lt).le, head_buddy aligned lt] at inside
      exact missed (full x inside)
    · rw [head_of_dvd (two_pow_dvd_buddy aligned)] at cover
      exact maximal.merged (by omega) member cover
    · rw [head_buddy aligned above] at cover
      have self : F o (head o p) := (head_of_dvd aligned).symm ▸ member
      exact above.ne (maximal.unique self cover)

theorem Maximal.subset (left : Maximal n F) (right : Maximal n F')
    (same : ∀ x, Covered F x ↔ Covered F' x) (member : F o p) : F' o p := by
  have aligned := left.aligned member
  obtain ⟨o₂, cover⟩ := (same p).mp (left.head_mem member)
  rcases Nat.lt_trichotomy o₂ o with below | rfl | above
  · obtain ⟨x, inside, missed⟩ := right.gap cover below (left.small member)
    rw [head_head below.le, head_of_dvd aligned] at inside
    exact (missed ((same x).mp (covered_of_head member inside))).elim
  · rwa [head_of_dvd aligned] at cover
  · obtain ⟨x, inside, missed⟩ := left.gap member above (right.small cover)
    exact (missed ((same x).mpr (covered_of_head cover inside))).elim

theorem Maximal.eq (left : Maximal n F) (right : Maximal n F')
    (same : ∀ x, Covered F x ↔ Covered F' x) (o p : Nat) : F o p ↔ F' o p :=
  ⟨left.subset right same, right.subset left fun x => (same x).symm⟩

/-- The numbers in the blocks of order below `n` whose heads the lists hold. -/
def pages (n : Nat) (L : Nat → List Nat) : Finset Nat :=
  (Finset.range n).biUnion fun o => (L o).toFinset.biUnion fun p => Finset.Ico p (p + 2 ^ o)

theorem mem_pages {n : Nat} {L : Nat → List Nat} (tiling : Tiling fun o p => p ∈ L o)
    (bound : ∀ o, n ≤ o → L o = []) (x : Nat) :
    x ∈ pages n L ↔ Covered (fun o p => p ∈ L o) x := by
  simp only [pages, Finset.mem_biUnion, Finset.mem_range, List.mem_toFinset, Finset.mem_Ico]
  constructor
  · rintro ⟨o, -, p, member, inside⟩
    exact covered_of_head member ((head_eq_iff (tiling.aligned member)).mpr inside)
  · rintro ⟨o, member⟩
    refine ⟨o, ?_, head o x, member, (head_eq_iff (two_pow_dvd_head o x)).mp rfl⟩
    by_contra large
    rw [bound o (by omega)] at member
    exact List.not_mem_nil member

theorem card_pages {n : Nat} {L : Nat → List Nat} (tiling : Tiling fun o p => p ∈ L o)
    (nodup : ∀ o, (L o).Nodup) :
    (pages n L).card = ∑ o ∈ Finset.range n, (L o).length * 2 ^ o := by
  have inBlock : ∀ {o p y}, p ∈ L o → (y ∈ Finset.Ico p (p + 2 ^ o) ↔ head o y = p) := by
    intro o p y member
    rw [Finset.mem_Ico, head_eq_iff (tiling.aligned member)]
  rw [pages, Finset.card_biUnion]
  · refine Finset.sum_congr rfl fun o _ => ?_
    rw [Finset.card_biUnion]
    · simp [List.toFinset_card_of_nodup (nodup o)]
    · intro p hp q hq ne
      apply Finset.disjoint_left.mpr
      intro y hy hy'
      rw [inBlock (List.mem_toFinset.mp hp)] at hy
      rw [inBlock (List.mem_toFinset.mp hq)] at hy'
      exact ne (hy.symm.trans hy')
  · intro o _ o' _ ne
    apply Finset.disjoint_left.mpr
    intro y hy hy'
    simp only [Finset.mem_biUnion, List.mem_toFinset] at hy hy'
    obtain ⟨p, hp, inside⟩ := hy
    obtain ⟨p', hp', inside'⟩ := hy'
    rw [inBlock hp] at inside
    rw [inBlock hp'] at inside'
    exact ne (tiling.unique (x := y) (inside.symm ▸ hp) (inside'.symm ▸ hp'))

end XcKernel.Blocks
