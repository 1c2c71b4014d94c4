import Mathlib.Logic.Function.Basic

/-! # RecyclerView

What an adapter relies on. A `RecyclerView` has its view holders under names in
`H`. It is told of every change of the adapter's list, and binds a holder only to
an item of the list.
-/

namespace AndroidDemo.SupportLibrary

variable {H V W : Type}

/-- `adapterPosition` is `none` for `NO_POSITION`. -/
structure ViewHolder (V : Type) where
  bound : Bool
  adapterPosition : Option Nat
  itemView : V

namespace ViewHolder

/-- `onCreateViewHolder` returned `itemView`. -/
def create (itemView : V) : ViewHolder V where
  bound := false
  adapterPosition := none
  itemView := itemView

def inserted (position : Nat) (holder : ViewHolder V) : ViewHolder V :=
  { holder with
    adapterPosition := holder.adapterPosition.map fun p => if p < position then p else p + 1 }

def removed (position : Nat) (holder : ViewHolder V) : ViewHolder V :=
  { holder with
    adapterPosition := holder.adapterPosition.bind fun p =>
      if p < position then some p else if p = position then none else some (p - 1) }

/-- A holder that is bound to an item of the range is bound to it again. -/
def rangeChanged {n : Nat} (positionStart itemCount : Nat) (hRange : positionStart + itemCount ≤ n)
    (onBindViewHolder : Fin n → V → V) (holder : ViewHolder V) : ViewHolder V :=
  match holder.adapterPosition with
  | none => holder
  | some p =>
    if hp : positionStart ≤ p ∧ p < positionStart + itemCount then
      let position : Fin n := ⟨p, Nat.lt_of_lt_of_le hp.2 hRange⟩
      { holder with itemView := onBindViewHolder position holder.itemView }
    else holder

def bind (position : Nat) (onBindViewHolder : V → V) (holder : ViewHolder V) : ViewHolder V where
  bound := true
  adapterPosition := some position
  itemView := onBindViewHolder holder.itemView

def recycle (holder : ViewHolder V) : ViewHolder V :=
  { holder with bound := false, adapterPosition := none }

theorem inserted_of_none {holder : ViewHolder V} {position : Nat}
    (h : holder.adapterPosition = none) : (holder.inserted position).adapterPosition = none := by
  rw [inserted, h]
  rfl

theorem removed_of_none {holder : ViewHolder V} {position : Nat}
    (h : holder.adapterPosition = none) : (holder.removed position).adapterPosition = none := by
  rw [removed, h]
  rfl

section RangeChanged

variable {n positionStart itemCount : Nat} {hRange : positionStart + itemCount ≤ n}
  {onBind : Fin n → V → V} {holder : ViewHolder V} {p : Nat}

theorem rangeChanged_of_none (h : holder.adapterPosition = none) :
    holder.rangeChanged positionStart itemCount hRange onBind = holder := by
  rw [rangeChanged, h]

theorem rangeChanged_of_mem (h : holder.adapterPosition = some p)
    (hp : positionStart ≤ p ∧ p < positionStart + itemCount) :
    holder.rangeChanged positionStart itemCount hRange onBind =
      { holder with itemView := onBind ⟨p, Nat.lt_of_lt_of_le hp.2 hRange⟩ holder.itemView } := by
  rw [rangeChanged, h]
  exact dif_pos hp

theorem rangeChanged_of_not_mem (h : holder.adapterPosition = some p)
    (hp : ¬ (positionStart ≤ p ∧ p < positionStart + itemCount)) :
    holder.rangeChanged positionStart itemCount hRange onBind = holder := by
  rw [rangeChanged, h]
  exact dif_neg hp

theorem rangeChanged_eq_bind (hBound : holder.bound = true)
    (h : holder.adapterPosition = some p)
    (hp : positionStart ≤ p ∧ p < positionStart + itemCount) :
    holder.rangeChanged positionStart itemCount hRange onBind =
      holder.bind p (onBind ⟨p, Nat.lt_of_lt_of_le hp.2 hRange⟩) := by
  rw [rangeChanged_of_mem h hp, hBound, h]
  rfl

end RangeChanged

/-! ## Views that are mapped -/

def map (g : V → W) (holder : ViewHolder V) : ViewHolder W where
  bound := holder.bound
  adapterPosition := holder.adapterPosition
  itemView := g holder.itemView

theorem map_rangeChanged {n m positionStart itemCount itemCount' : Nat}
    (hn : positionStart + itemCount ≤ n) (hm : positionStart + itemCount' ≤ m)
    {onBind : Fin n → V → V} {onBind' : Fin m → W → W} {g : V → W} (hCount : itemCount' = itemCount)
    (hBind : ∀ p (hp : p < n) (hp' : p < m) view,
      onBind' ⟨p, hp'⟩ (g view) = g (onBind ⟨p, hp⟩ view)) (holder : ViewHolder V) :
    (holder.map g).rangeChanged positionStart itemCount' hm onBind' =
      (holder.rangeChanged positionStart itemCount hn onBind).map g := by
  subst hCount
  cases hPosition : holder.adapterPosition with
  | none =>
    rw [rangeChanged_of_none hPosition]
    exact rangeChanged_of_none hPosition
  | some p =>
    have hMap : (holder.map g).adapterPosition = some p := hPosition
    by_cases hp : positionStart ≤ p ∧ p < positionStart + itemCount'
    · rw [rangeChanged_of_mem hPosition hp, rangeChanged_of_mem hMap hp]
      simp only [map, hBind p (Nat.lt_of_lt_of_le hp.2 hn)]
    · rw [rangeChanged_of_not_mem hPosition hp, rangeChanged_of_not_mem hMap hp]

end ViewHolder

/-- The view holders. -/
@[ext]
structure RecyclerView (H V : Type) where
  viewHolder : H → ViewHolder V

namespace RecyclerView

def map (g : V → W) (rv : RecyclerView H V) : RecyclerView H W where
  viewHolder holder := (rv.viewHolder holder).map g

def create (itemView : V) : RecyclerView H V where
  viewHolder _ := .create itemView

def notifyItemInserted (rv : RecyclerView H V) (position : Nat) : RecyclerView H V where
  viewHolder holder := (rv.viewHolder holder).inserted position

def notifyItemRemoved (rv : RecyclerView H V) (position : Nat) : RecyclerView H V where
  viewHolder holder := (rv.viewHolder holder).removed position

def notifyItemRangeChanged {n : Nat} (rv : RecyclerView H V) (positionStart itemCount : Nat)
    (hRange : positionStart + itemCount ≤ n) (onBindViewHolder : H → Fin n → V → V) :
    RecyclerView H V where
  viewHolder holder :=
    (rv.viewHolder holder).rangeChanged positionStart itemCount hRange (onBindViewHolder holder)

theorem map_notifyItemInserted {g : V → W} (rv : RecyclerView H V) (position : Nat) :
    (rv.map g).notifyItemInserted position = (rv.notifyItemInserted position).map g := rfl

theorem map_notifyItemRangeChanged {n m positionStart itemCount itemCount' : Nat}
    {hn : positionStart + itemCount ≤ n} {hm : positionStart + itemCount' ≤ m}
    {onBind : H → Fin n → V → V} {onBind' : H → Fin m → W → W} {g : V → W}
    (hCount : itemCount' = itemCount)
    (hBind : ∀ holder p (hp : p < n) (hp' : p < m) view,
      onBind' holder ⟨p, hp'⟩ (g view) = g (onBind holder ⟨p, hp⟩ view)) (rv : RecyclerView H V) :
    (rv.map g).notifyItemRangeChanged positionStart itemCount' hm onBind' =
      (rv.notifyItemRangeChanged positionStart itemCount hn onBind).map g := by
  ext1
  funext holder
  exact ViewHolder.map_rangeChanged hn hm hCount (hBind holder) (rv.viewHolder holder)

variable [DecidableEq H]

def bind (rv : RecyclerView H V) (holder : H) (position : Nat) (onBindViewHolder : V → V) :
    RecyclerView H V where
  viewHolder := Function.update rv.viewHolder holder
    ((rv.viewHolder holder).bind position onBindViewHolder)

def recycle (rv : RecyclerView H V) (holder : H) : RecyclerView H V where
  viewHolder := Function.update rv.viewHolder holder (rv.viewHolder holder).recycle

variable {rv : RecyclerView H V} {holder other : H} {position : Nat} {onBind : V → V}

theorem bind_self : (rv.bind holder position onBind).viewHolder holder =
    (rv.viewHolder holder).bind position onBind :=
  Function.update_self ..

theorem bind_of_ne (h : other ≠ holder) :
    (rv.bind holder position onBind).viewHolder other = rv.viewHolder other :=
  Function.update_of_ne h ..

theorem recycle_self : (rv.recycle holder).viewHolder holder = (rv.viewHolder holder).recycle :=
  Function.update_self ..

theorem recycle_of_ne (h : other ≠ holder) :
    (rv.recycle holder).viewHolder other = rv.viewHolder other :=
  Function.update_of_ne h ..

theorem map_bind {g : V → W} {onBind' : W → W}
    (hBind : ∀ view, onBind' (g view) = g (onBind view)) :
    (rv.map g).bind holder position onBind' = (rv.bind holder position onBind).map g := by
  ext1
  funext other
  have hHolder : (ViewHolder.map g (rv.viewHolder holder)).bind position onBind' =
      ((rv.viewHolder holder).bind position onBind).map g := by
    simp only [ViewHolder.bind, ViewHolder.map, hBind]
  simp only [bind, map]
  rw [hHolder, Function.apply_update fun _ => ViewHolder.map g]

theorem map_recycle {g : V → W} : (rv.map g).recycle holder = (rv.recycle holder).map g := by
  ext1
  funext other
  simp only [recycle, map]
  rw [Function.apply_update fun _ => ViewHolder.map g]
  rfl

end RecyclerView

end AndroidDemo.SupportLibrary
