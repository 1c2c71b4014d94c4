import AndroidDemo.Interaction.Steps
import AndroidDemo.Java.Shuffle
import AndroidDemo.SupportLibrary.RecyclerView

/-! # MyAdapter.java and RecyclerViewActivity.java

The grid of images and its menu. `H` names the view holders, and `α` are the
elements of `resIds`; the code does not look into them.
-/

namespace AndroidDemo.SupportLibrary

open AndroidDemo.Java Interaction

variable {H α β : Type}

/-- What the anonymous listeners of `onBindViewHolder` capture. -/
structure Captured (H : Type) where
  holder : H
  position : Nat
  deriving DecidableEq

/-- The image that is set and the listeners of the view; `none` stands for `null`. -/
structure ImageView (H α : Type) where
  resource : Option α
  onClickListener : Option (Captured H)
  onLongClickListener : Option (Captured H)
  deriving DecidableEq

/-- The objects that listen to an adapter. -/
inductive Listener
  | activity
  deriving DecidableEq

/-- Its list `resIds` is the one of the activity. -/
structure MyAdapter where
  mOnItemClickListener : Option Listener
  mOnItemLongClickListener : Option Listener
  deriving DecidableEq

namespace MyAdapter

def onCreateViewHolder : ImageView H α where
  resource := none
  onClickListener := none
  onLongClickListener := none

def onBindViewHolder (resIds : List α) (holder : H) (position : Fin resIds.length)
    (imageView : ImageView H α) : ImageView H α :=
  { imageView with
    resource := some (resIds.get position)
    onClickListener := some { holder, position }
    onLongClickListener := some { holder, position } }

/-- The call of the listener, if there is one. -/
def onClick (adapter : MyAdapter) (captured : Captured H) : Option (Listener × H × Nat) :=
  adapter.mOnItemClickListener.map fun listener => (listener, captured.holder, captured.position)

/-- Returns `true` just when it calls a listener. -/
def onLongClick (adapter : MyAdapter) (captured : Captured H) : Option (Listener × H × Nat) :=
  adapter.mOnItemLongClickListener.map fun listener =>
    (listener, captured.holder, captured.position)

end MyAdapter

@[ext]
structure RecyclerViewActivity (H α : Type) where
  resIds : List α
  adapter : MyAdapter
  recyclerView : RecyclerView H (ImageView H α)

/-- The images of `R.drawable` in the list. -/
inductive Drawable
  | meizhi001 | meizhi002 | meizhi003 | meizhi004 | meizhi005 | meizhi006 | meizhi008 | meizhi009
  | meizhi010 | meizhi012 | meizhi013 | meizhi014 | meizhi015
  deriving DecidableEq

inductive MenuItem
  | add
  | del
  | resort
  deriving DecidableEq

/-- A menu selection, with the random numbers it draws, or a decision of the
`RecyclerView` on a holder. -/
inductive Action (H : Type)
  | select (item : MenuItem) (random : Nat → Nat)
  | bind (holder : H) (position : Nat)
  | recycle (holder : H)

namespace RecyclerViewActivity

def getData : List Drawable :=
  [.meizhi003, .meizhi014, .meizhi002, .meizhi009, .meizhi001, .meizhi004, .meizhi005,
    .meizhi006, .meizhi008, .meizhi010, .meizhi012, .meizhi013, .meizhi015]

/-- `data` is what `getData` returns. -/
def getContentView (data : List α) : RecyclerViewActivity H α where
  resIds := data
  adapter := { mOnItemClickListener := some .activity, mOnItemLongClickListener := none }
  recyclerView := .create MyAdapter.onCreateViewHolder

/-- No result stands for an exception. -/
def onOptionsItemSelected (random : Nat → Nat) (a : RecyclerViewActivity H α) :
    MenuItem → Option (RecyclerViewActivity H α)
  | .add => do
    let i ← nextInt random a.resIds.length
    let resId ← a.resIds[i]?
    return { a with
      resIds := resId :: a.resIds
      recyclerView := a.recyclerView.notifyItemInserted 0 }
  | .del =>
    match a.resIds with
    | [] => none
    | _ :: resIds => some { a with resIds, recyclerView := a.recyclerView.notifyItemRemoved 0 }
  | .resort => do
    let resIds ← shuffle random a.resIds
    return { a with
      resIds
      recyclerView := a.recyclerView.notifyItemRangeChanged 0 resIds.length (Nat.zero_add _).le
        (MyAdapter.onBindViewHolder resIds) }

/-- A click on the image of a holder. -/
def click (a : RecyclerViewActivity H α) (holder : H) : Option (Listener × H × Nat) :=
  (a.recyclerView.viewHolder holder).itemView.onClickListener.bind a.adapter.onClick

def longClick (a : RecyclerViewActivity H α) (holder : H) : Option (Listener × H × Nat) :=
  (a.recyclerView.viewHolder holder).itemView.onLongClickListener.bind a.adapter.onLongClick

variable [DecidableEq H]

def step (a : RecyclerViewActivity H α) : Action H → Option (RecyclerViewActivity H α)
  | .select item random => a.onOptionsItemSelected random item
  | .bind holder position =>
    if hp : position < a.resIds.length then
      some { a with
        recyclerView := a.recyclerView.bind holder position
          (MyAdapter.onBindViewHolder a.resIds holder ⟨position, hp⟩) }
    else none
  | .recycle holder => some { a with recyclerView := a.recyclerView.recycle holder }

/-! ## What a step does -/

variable {a a' : RecyclerViewActivity H α} {random : Nat → Nat}

theorem step_add (h : a.step (.select .add random) = some a') :
    ∃ resId ∈ a.resIds,
      a' = { a with
        resIds := resId :: a.resIds
        recyclerView := a.recyclerView.notifyItemInserted 0 } := by
  simp only [step, onOptionsItemSelected, Option.bind_eq_bind, Option.bind_eq_some_iff,
    Option.pure_def, Option.some.injEq] at h
  obtain ⟨i, _, resId, hGet, rfl⟩ := h
  exact ⟨resId, List.mem_of_getElem? hGet, rfl⟩

theorem step_del (h : a.step (.select .del random) = some a') :
    ∃ resId resIds, a.resIds = resId :: resIds ∧
      a' = { a with resIds, recyclerView := a.recyclerView.notifyItemRemoved 0 } := by
  rw [step, onOptionsItemSelected] at h
  cases hList : a.resIds with
  | nil => simp [hList] at h
  | cons resId resIds =>
    simp only [hList, Option.some.injEq] at h
    exact ⟨resId, resIds, rfl, h.symm⟩

theorem step_resort (h : a.step (.select .resort random) = some a') :
    ∃ resIds, resIds.Perm a.resIds ∧
      a' = { a with
        resIds
        recyclerView := a.recyclerView.notifyItemRangeChanged 0 resIds.length (Nat.zero_add _).le
          (MyAdapter.onBindViewHolder resIds) } := by
  simp only [step, onOptionsItemSelected, Option.bind_eq_bind, Option.bind_eq_some_iff,
    Option.pure_def, Option.some.injEq] at h
  obtain ⟨resIds, hShuffle, rfl⟩ := h
  exact ⟨resIds, shuffle_perm hShuffle, rfl⟩

theorem step_bind_of_lt {holder : H} {position : Nat} (hp : position < a.resIds.length) :
    a.step (.bind holder position) = some { a with
      recyclerView := a.recyclerView.bind holder position
        (MyAdapter.onBindViewHolder a.resIds holder ⟨position, hp⟩) } :=
  dif_pos hp

theorem step_bind_of_not_lt {holder : H} {position : Nat} (hp : ¬ position < a.resIds.length) :
    a.step (.bind holder position) = none :=
  dif_neg hp

end RecyclerViewActivity

end AndroidDemo.SupportLibrary
