import Mathlib.Data.Int.Basic
import Mathlib.Tactic.Ring

/-! # GridSpacingItemDecoration.java

The space around the items of a grid. All numbers are `int`s, and a division cuts
towards zero.
-/

namespace AndroidDemo.SupportLibrary

@[ext]
structure Rect where
  left : Int32
  top : Int32
  right : Int32
  bottom : Int32
  deriving DecidableEq

structure GridSpacingItemDecoration where
  spanCount : Int32
  spacing : Int32
  includeEdge : Bool

namespace GridSpacingItemDecoration

/-- `none` is the `ArithmeticException` of a division by zero. -/
def getItemOffsets (d : GridSpacingItemDecoration) (outRect : Rect) (position : Int32) :
    Option Rect :=
  if d.spanCount = 0 then none
  else
    let column := position % d.spanCount
    if d.includeEdge then
      some
        { left := d.spacing - column * d.spacing / d.spanCount
          right := (column + 1) * d.spacing / d.spanCount
          top := if position < d.spanCount then d.spacing else outRect.top
          bottom := d.spacing }
    else
      some
        { left := column * d.spacing / d.spanCount
          right := d.spacing - (column + 1) * d.spacing / d.spanCount
          top := if d.spanCount ≤ position then d.spacing else outRect.top
          bottom := outRect.bottom }

/-- The insets that the `RecyclerView` asks for start at zero. -/
def offsets (d : GridSpacingItemDecoration) (position : Int32) : Option Rect :=
  d.getItemOffsets ⟨0, 0, 0, 0⟩ position

/-- The insets of `count` items in a grid of `spanCount` columns. What two columns lose of their
widths differs by at most one. -/
structure Spaced (spanCount count : Nat) (spacing edge : Int) (insets : Nat → Rect) : Prop where
  leftEdge : ∀ position < count, position % spanCount = 0 → (insets position).left.toInt = edge
  rightEdge : ∀ position < count, (position + 1) % spanCount = 0 →
    (insets position).right.toInt = edge
  topEdge : ∀ position < count, position < spanCount → (insets position).top.toInt = edge
  bottomEdge : ∀ position < count, (insets position).bottom.toInt = edge
  between : ∀ position, position + 1 < count → (position + 1) % spanCount ≠ 0 →
    (insets position).right.toInt + (insets (position + 1)).left.toInt = spacing
  rows : ∀ position, position + spanCount < count →
    (insets position).bottom.toInt + (insets (position + spanCount)).top.toInt = spacing
  widths : ∀ position < count, ∀ other < count,
    (insets position).left.toInt + (insets position).right.toInt ≤
      (insets other).left.toInt + (insets other).right.toInt + 1

/-! ## Where a length is cut -/

/-- The end of the first `c` of `n` parts of a length, which may be negative. -/
def cut (n : Nat) (length : Int) (c : Nat) : Int := (c * length).tdiv n

theorem cut_nat (n length c : Nat) : cut n length c = (c * length / n : Nat) := by
  rw [cut, ← Int.natCast_mul, Int.ofNat_tdiv]

theorem cut_neg (n : Nat) (length : Int) (c : Nat) : cut n (-length) c = -cut n length c := by
  rw [cut, cut, Int.mul_neg, Int.neg_tdiv]

theorem cut_zero (n : Nat) (length : Int) : cut n length 0 = 0 := by
  rw [cut, Int.natCast_zero, Int.zero_mul, Int.zero_tdiv]

theorem cut_all {n : Nat} (hn : 0 < n) (length : Int) : cut n length n = length :=
  Int.mul_tdiv_cancel_left length (by omega)

/-- A cut lies between zero and the length. -/
theorem cut_between {n c : Nat} (hc : c ≤ n) (length : Int) :
    0 ≤ cut n length c ∧ cut n length c ≤ length ∨ length ≤ cut n length c ∧ cut n length c ≤ 0 := by
  have hNat (k : Nat) : 0 ≤ cut n k c ∧ cut n k c ≤ k := by
    have hLe : c * k / n ≤ k := Nat.div_le_of_le_mul (Nat.mul_le_mul_right k hc)
    rw [cut_nat]
    exact ⟨Int.natCast_nonneg _, Int.ofNat_le.mpr hLe⟩
  obtain ⟨k, rfl | rfl⟩ := length.eq_nat_or_neg
  · exact .inl (hNat k)
  · have hCut := hNat k
    rw [cut_neg]
    omega

theorem div_succ {n : Nat} (hn : 0 < n) (length c : Nat) :
    c * length / n + length / n ≤ (c + 1) * length / n ∧
      (c + 1) * length / n ≤ c * length / n + length / n + 1 := by
  have hFirst := Nat.div_add_mod (c * length) n
  have hMore := Nat.div_add_mod length n
  have hBoth := Nat.div_add_mod ((c + 1) * length) n
  have hFirstLt := Nat.mod_lt (c * length) hn
  have hMoreLt := Nat.mod_lt length hn
  have hBothLt := Nat.mod_lt ((c + 1) * length) hn
  have hSum : (c + 1) * length = c * length + length := Nat.succ_mul c length
  constructor
  · apply Nat.le_of_lt_succ
    apply Nat.lt_of_mul_lt_mul_left (a := n)
    rw [Nat.mul_add, Nat.mul_succ]
    omega
  · apply Nat.le_of_lt_succ
    apply Nat.lt_of_mul_lt_mul_left (a := n)
    rw [Nat.mul_succ, Nat.mul_succ, Nat.mul_add]
    omega

/-- Two parts differ by at most one. -/
theorem cut_succ {n : Nat} (hn : 0 < n) (length : Int) :
    ∃ part, ∀ c, part ≤ cut n length (c + 1) - cut n length c ∧
      cut n length (c + 1) - cut n length c ≤ part + 1 := by
  obtain ⟨k, rfl | rfl⟩ := length.eq_nat_or_neg
  · refine ⟨(k / n : Nat), fun c => ?_⟩
    have hParts := div_succ hn k c
    rw [cut_nat, cut_nat]
    omega
  · refine ⟨-(k / n : Nat) - 1, fun c => ?_⟩
    have hParts := div_succ hn k c
    rw [cut_neg, cut_neg, cut_nat, cut_nat]
    omega

/-! ## Numbers that an `int` holds -/

section Numbers

variable {a b : Int32} {m k : Nat} {l : Int}

theorem toInt_mul_of_fits (ha : a.toInt = m) (hb : b.toInt = l) (hLow : -2 ^ 31 ≤ m * l)
    (h : m * l < 2 ^ 31) : (a * b).toInt = m * l := by
  rw [Int32.toInt_mul, ha, hb]
  exact Int.bmod_eq_of_le (by omega) (by omega)

theorem toInt_add_one (ha : a.toInt = m) (h : m + 1 < 2 ^ 31) : (a + 1).toInt = (m + 1 : Nat) := by
  rw [Int32.toInt_add, ha]
  exact Int.bmod_eq_of_le (by simp; omega) (by simp; omega)

/-- What is left of a number behind a part of it. -/
theorem toInt_sub_part (ha : a.toInt = l) {part : Int} (hb : b.toInt = part)
    (h : 0 ≤ part ∧ part ≤ l ∨ l ≤ part ∧ part ≤ 0) : (a - b).toInt = l - part := by
  have hLt := a.toInt_lt
  have hLe := a.le_toInt
  rw [Int32.toInt_sub, ha, hb]
  exact Int.bmod_eq_of_le (by omega) (by omega)

theorem toInt_mod_nat (ha : a.toInt = m) (hb : b.toInt = k) : (a % b).toInt = (m % k : Nat) := by
  rw [Int32.toInt_mod, ha, hb, Int.ofNat_tmod]

theorem toInt_div_nat (ha : a.toInt = l) (hb : b.toInt = k) : (a / b).toInt = l.tdiv k := by
  have hNot : b ≠ -1 := by
    rintro rfl
    change (-1 : Int) = k at hb
    omega
  rw [Int32.toInt_div_of_ne_right a b hNot, ha, hb]

theorem ite_lt_nat (ha : a.toInt = m) (hb : b.toInt = k) : a < b ↔ m < k := by
  rw [Int32.lt_iff_toInt_lt, ha, hb, Int.ofNat_lt]

/-- Fewer columns need no more room. -/
theorem mul_fits {n c : Nat} (hc : c ≤ n) (hLow : -2 ^ 31 ≤ n * l) (h : n * l < 2 ^ 31) :
    -2 ^ 31 ≤ c * l ∧ c * l < 2 ^ 31 := by
  have hLe : (c : Int) ≤ n := by omega
  rcases Int.le_total 0 l with hPos | hNeg
  · have hMono := Int.mul_le_mul_of_nonneg_right hLe hPos
    have hZero := Int.mul_nonneg (Int.natCast_nonneg c) hPos
    omega
  · have hMono := Int.mul_le_mul_of_nonpos_right hLe hNeg
    have hZero := Int.mul_nonpos_of_nonneg_of_nonpos (Int.natCast_nonneg c) hNeg
    omega

end Numbers

/-! ## The insets without overflow -/

/-- A grid of `n` columns whose numbers fit into `int`. -/
structure Fits (d : GridSpacingItemDecoration) (n : Nat) (s : Int) : Prop where
  spanCount : d.spanCount.toInt = n
  spacing : d.spacing.toInt = s
  pos : 0 < n
  low : -2 ^ 31 ≤ n * s
  total : n * s < 2 ^ 31

/-- The insets of an item, where a column begins and ends at a cut of the spacing. -/
structure Cell (includeEdge : Bool) (n : Nat) (s : Int) (position : Nat) (rect : Rect) : Prop where
  left : rect.left.toInt =
    if includeEdge then s - cut n s (position % n) else cut n s (position % n)
  right : rect.right.toInt =
    if includeEdge then cut n s (position % n + 1) else s - cut n s (position % n + 1)
  top : rect.top.toInt = if includeEdge = decide (position < n) then s else 0
  bottom : rect.bottom.toInt = if includeEdge then s else 0

theorem Fits.cell {d : GridSpacingItemDecoration} {n : Nat} {s : Int} (h : Fits d n s)
    {position : Nat} (hPosition : position < 2 ^ 31) :
    ∃ rect, d.offsets (Int32.ofNat position) = some rect ∧ Cell d.includeEdge n s position rect := by
  have hPos := h.pos
  have hLt := d.spanCount.toInt_lt
  have hSpan := h.spanCount
  have hMod := Nat.mod_lt position hPos
  have hInt := Int32.toInt_ofNat_of_lt hPosition
  have hNonzero : d.spanCount ≠ 0 := by
    intro hZero
    rw [hZero, Int32.toInt_zero] at hSpan
    omega
  have hColumn := toInt_mod_nat hInt hSpan
  have hNext := toInt_add_one hColumn (by omega)
  obtain ⟨hLeftLow, hLeftRoom⟩ := mul_fits (Nat.le_of_lt hMod) h.low h.total
  obtain ⟨hRightLow, hRightRoom⟩ := mul_fits (Nat.succ_le_of_lt hMod) h.low h.total
  have hLeft : _ = cut n s (position % n) :=
    toInt_div_nat (toInt_mul_of_fits hColumn h.spacing hLeftLow hLeftRoom) hSpan
  have hRight : _ = cut n s (position % n + 1) :=
    toInt_div_nat (toInt_mul_of_fits hNext h.spacing hRightLow hRightRoom) hSpan
  have hBelow := ite_lt_nat hInt hSpan
  rw [offsets, getItemOffsets, if_neg hNonzero]
  cases d.includeEdge with
  | true =>
    refine ⟨_, rfl, toInt_sub_part h.spacing hLeft (cut_between (Nat.le_of_lt hMod) s), hRight, ?_,
      h.spacing⟩
    dsimp only
    rw [apply_ite Int32.toInt, h.spacing]
    simp only [hBelow, Bool.true_eq, decide_eq_true_eq]
    rfl
  | false =>
    refine ⟨_, rfl, hLeft, toInt_sub_part h.spacing hRight (cut_between hMod s), ?_, rfl⟩
    dsimp only
    rw [apply_ite Int32.toInt, h.spacing]
    simp only [← Int32.not_lt, hBelow, Bool.false_eq, decide_eq_false_iff_not]
    rfl

theorem succ_mod {n : Nat} (hn : 0 < n) (position : Nat) :
    (position % n + 1 = n ∧ (position + 1) % n = 0) ∨
      (position % n + 1 < n ∧ (position + 1) % n = position % n + 1) := by
  have hLt := Nat.mod_lt position hn
  have hSucc : (position + 1) % n = (position % n + 1) % n := (Nat.mod_add_mod position n 1).symm
  rcases Nat.lt_or_ge (position % n + 1) n with hInside | hOutside
  · exact Or.inr ⟨hInside, by rw [hSucc, Nat.mod_eq_of_lt hInside]⟩
  · have hLast : position % n + 1 = n := Nat.le_antisymm hLt hOutside
    exact Or.inl ⟨hLast, by rw [hSucc, hLast, Nat.mod_self]⟩

theorem Fits.spaced {includeEdge : Bool} {n count : Nat} {s : Int} (hn : 0 < n)
    {insets : Nat → Rect}
    (h : ∀ position < count, Cell includeEdge n s position (insets position)) :
    Spaced n count s (if includeEdge then s else 0) insets where
  leftEdge position hPosition hFirst := by
    rw [(h position hPosition).left, hFirst, cut_zero]
    cases includeEdge <;> simp
  rightEdge position hPosition hLast := by
    have hColumn : position % n + 1 = n := by
      rcases succ_mod hn position with ⟨hColumn, -⟩ | ⟨-, hColumn⟩
      · exact hColumn
      · omega
    rw [(h position hPosition).right, hColumn, cut_all hn]
    cases includeEdge <;> simp
  topEdge position hPosition hRow := by
    rw [(h position hPosition).top]
    cases includeEdge <;> simp [hRow]
  bottomEdge position hPosition := (h position hPosition).bottom
  between position hPosition hInside := by
    have hColumn : (position + 1) % n = position % n + 1 := by
      rcases succ_mod hn position with ⟨-, hColumn⟩ | ⟨-, hColumn⟩
      · exact absurd hColumn hInside
      · exact hColumn
    rw [(h position (by omega)).right, (h (position + 1) hPosition).left, hColumn]
    cases includeEdge <;> simp
  rows position hPosition := by
    have hBelow : ¬ position + n < n := by omega
    rw [(h position (by omega)).bottom, (h (position + n) hPosition).top]
    cases includeEdge <;> simp [hBelow]
  widths position hPosition other hOther := by
    obtain ⟨part, hParts⟩ := cut_succ hn s
    have hHere := hParts (position % n)
    have hThere := hParts (other % n)
    rw [(h position hPosition).left, (h position hPosition).right, (h other hOther).left,
      (h other hOther).right]
    cases includeEdge
    · simp only [Bool.false_eq_true, if_false]
      omega
    · simp only [if_true]
      omega

/-- A grid without overflow: the spacing lies between two neighbours of a row and between two rows,
and with `includeEdge` around the grid as well. -/
theorem getItemOffsets_spaced (d : GridSpacingItemDecoration) {count : Nat}
    (hSpan : 0 < d.spanCount.toInt) (hLow : -2 ^ 31 ≤ d.spanCount.toInt * d.spacing.toInt)
    (hTotal : d.spanCount.toInt * d.spacing.toInt < 2 ^ 31) (hCount : count ≤ 2 ^ 31) :
    ∃ insets : Nat → Rect,
      (∀ position < count, d.offsets (Int32.ofNat position) = some (insets position)) ∧
      Spaced d.spanCount.toInt.toNat count d.spacing.toInt
        (if d.includeEdge then d.spacing.toInt else 0) insets := by
  obtain ⟨n, hn⟩ := Int.eq_ofNat_of_zero_le (Int.le_of_lt hSpan)
  rw [hn] at hSpan hLow hTotal
  have hFits : Fits d n d.spacing.toInt := ⟨hn, rfl, by omega, hLow, hTotal⟩
  have hCells (position : Nat) : ∃ rect : Rect, position < count →
      d.offsets (Int32.ofNat position) = some rect ∧
        Cell d.includeEdge n d.spacing.toInt position rect := by
    rcases Nat.lt_or_ge position count with hIn | hOut
    · obtain ⟨rect, hRect⟩ := hFits.cell (Nat.lt_of_lt_of_le hIn hCount)
      exact ⟨rect, fun _ => hRect⟩
    · exact ⟨⟨0, 0, 0, 0⟩, fun hIn => absurd hIn (Nat.not_lt.mpr hOut)⟩
  choose insets hInsets using hCells
  refine ⟨insets, fun position hPosition => (hInsets position hPosition).1, ?_⟩
  rw [hn]
  exact Fits.spaced hFits.pos fun position hPosition => (hInsets position hPosition).2

/-- The decoration of RecyclerViewActivity, with its images. -/
theorem getItemOffsets_spaced_recyclerView :
    ∃ insets : Nat → Rect,
      (∀ position < 13, (⟨2, 10, true⟩ : GridSpacingItemDecoration).offsets (Int32.ofNat position) =
        some (insets position)) ∧
      Spaced 2 13 10 10 insets :=
  getItemOffsets_spaced ⟨2, 10, true⟩ (by decide) (by decide) (by decide) (by decide)

end GridSpacingItemDecoration

end AndroidDemo.SupportLibrary
