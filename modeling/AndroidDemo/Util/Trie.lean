import AndroidDemo.Java.JString
import Mathlib.Algebra.GroupWithZero.Nat
import Mathlib.Logic.Function.Basic

/-! # Trie.java -/

namespace AndroidDemo.Util

open AndroidDemo.Java

inductive Node
  | null
  | node (c : UInt16) (childNodes : Fin 26 → Node)

namespace Node

def new (c : UInt16) : Node := .node c fun _ => .null

def isNull : Node → Bool
  | .null => true
  | .node _ _ => false

def orNew (n : Node) (c : UInt16) : Node := if n.isNull then new c else n

/-- The number of nodes of the tree. -/
def size : Node → Nat
  | .null => 0
  | .node _ childNodes => 1 + ((List.finRange 26).map fun i => (childNodes i).size).sum

end Node

/-- `word.charAt(0) - 'a'`, where it is an index of `childNodes`. -/
def childIndex (u : UInt16) : Option (Fin 26) :=
  if h : 97 ≤ u.toNat ∧ u.toNat - 97 < 26 then some ⟨u.toNat - 97, h.2⟩ else none

namespace Trie

/-- The tree after the call, which has also changed when the call throws. -/
def addNode : Node → JString → Node × Option RuntimeException
  | root, [] => (root, none)
  | .null, _ :: _ => (.null, some .nullPointer)
  | .node c childNodes, u :: word =>
    match childIndex u with
    | none => (.node c childNodes, some .arrayIndexOutOfBounds)
    | some index =>
      let (child, thrown) := addNode ((childNodes index).orNew u) word
      (.node c (Function.update childNodes index child), thrown)

def addNodes : Node → List JString → Node × Option RuntimeException
  | root, [] => (root, none)
  | root, word :: words =>
    match addNode root word with
    | (root, none) => addNodes root words
    | (root, some thrown) => (root, some thrown)

def delStep (childN : Node) (del : Bool) : Node → Except RuntimeException Bool
  | .null => pure del
  | .node c _ =>
    match childN with
    | .null => throw .nullPointer
    | .node d _ => pure (if c ≠ d then false else del)

/-- The loop of `delNode`, which stays `true` when no other child than `childN`
has another character. -/
def delLoop (childNodes : Fin 26 → Node) (childN : Node) : Except RuntimeException Bool :=
  (List.finRange 26).foldlM (fun del i => delStep childN del (childNodes i)) true

/-- The tree after the call, and what it returns or throws. -/
def delNode : Node → JString → Node × Except RuntimeException Bool
  | root, [] => (root, .ok true)
  | .null, _ :: _ => (.null, .error .nullPointer)
  | .node c childNodes, u :: word =>
    match childIndex u with
    | none => (.node c childNodes, .error .arrayIndexOutOfBounds)
    | some index =>
      match delLoop childNodes (childNodes index) with
      | .error thrown => (.node c childNodes, .error thrown)
      | .ok true => (.node c childNodes, .ok true)
      | .ok false =>
        match delNode (childNodes index) word with
        | (child, .error thrown) =>
          (.node c (Function.update childNodes index child), .error thrown)
        | (_, .ok true) => (.node c (Function.update childNodes index .null), .ok false)
        | (child, .ok false) => (.node c (Function.update childNodes index child), .ok false)

def deleteLastChar (builder : JString) : Except RuntimeException JString :=
  if builder.isEmpty then .error .stringIndexOutOfBounds else .ok builder.dropLast

/-- The builder and the result list after the call. -/
def getDFS : Node → JString → List JString → Except RuntimeException (JString × List JString)
  | .null, _, _ => .error .nullPointer
  | .node c childNodes, builder, result => do
    let (builder, result, hasChild) ← (List.finRange 26).foldlM
      (fun (builder, result, hasChild) i =>
        if (childNodes i).isNull then pure (builder, result, hasChild)
        else do
          let (builder, result) ← getDFS (childNodes i) builder result
          let builder ← deleteLastChar builder
          pure (builder, result, true))
      (builder ++ [c], result, false)
    if hasChild then pure (builder, result) else pure (builder, result ++ [builder])

/-- The local variables of `getBFS`. -/
structure BfsLocals where
  builder : JString
  queue : List Node
  curLevelCnt : Int
  nextLevelCnt : Int

def offer (st : BfsLocals) : Node → BfsLocals
  | .null => st
  | .node c childNodes =>
    { st with
      builder := st.builder ++ [c]
      queue := st.queue ++ [.node c childNodes]
      nextLevelCnt := st.nextLevelCnt + 1 }

/-- The body of the loop of `getBFS`, behind the `poll` of a node. -/
def visit (childNodes : Fin 26 → Node) (st : BfsLocals) : BfsLocals :=
  let st := (List.finRange 26).foldl (fun st i => offer st (childNodes i))
    { st with curLevelCnt := st.curLevelCnt - 1 }
  if st.curLevelCnt = 0 then
    { st with builder := st.builder ++ [10], curLevelCnt := st.nextLevelCnt, nextLevelCnt := 0 }
  else st

def queueSize (st : BfsLocals) : Nat := (st.queue.map Node.size).sum

theorem queueSize_foldl_offer (childNodes : Fin 26 → Node) (children : List (Fin 26))
    (st : BfsLocals) :
    queueSize (children.foldl (fun st i => offer st (childNodes i)) st) =
      queueSize st + (children.map fun i => (childNodes i).size).sum := by
  induction children generalizing st with
  | nil => rfl
  | cons i children ih =>
    rw [List.foldl_cons, ih, List.map_cons, List.sum_cons, ← Nat.add_assoc]
    congr 1
    cases childNodes i <;> simp [offer, queueSize, Node.size]

theorem queueSize_visit (c : UInt16) (childNodes : Fin 26 → Node) (st : BfsLocals) :
    queueSize (visit childNodes st) + 1 = queueSize st + (Node.node c childNodes).size := by
  have hOffer := queueSize_foldl_offer childNodes (List.finRange 26)
    { st with curLevelCnt := st.curLevelCnt - 1 }
  have hVisit : queueSize (visit childNodes st) = queueSize ((List.finRange 26).foldl
      (fun st i => offer st (childNodes i)) { st with curLevelCnt := st.curLevelCnt - 1 }) := by
    rw [visit]
    split <;> rfl
  rw [hVisit, hOffer, Node.size]
  simp only [queueSize]
  omega

theorem queueSize_visit_lt {c : UInt16} {childNodes : Fin 26 → Node} {st : BfsLocals}
    {queue : List Node} (hQueue : st.queue = .node c childNodes :: queue) :
    queueSize (visit childNodes { st with queue := queue }) < queueSize st := by
  have hVisit := queueSize_visit c childNodes { st with queue := queue }
  have hSize : queueSize st = (Node.node c childNodes).size + queueSize { st with queue := queue } := by
    simp [queueSize, hQueue]
  omega

/-- `poll` returns `null` from an empty queue and for a `null` in it. -/
def bfsLoop (st : BfsLocals) : JString :=
  match hQueue : st.queue with
  | [] => st.builder
  | .null :: _ => st.builder
  | .node _ childNodes :: queue =>
    have := queueSize_visit_lt hQueue
    bfsLoop (visit childNodes { st with queue := queue })
termination_by queueSize st

def getBFS (root : Node) : JString :=
  bfsLoop { builder := [], queue := [root], curLevelCnt := 1, nextLevelCnt := 0 }

end Trie

end AndroidDemo.Util
