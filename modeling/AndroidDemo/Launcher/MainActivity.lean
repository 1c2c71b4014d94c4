import AndroidDemo.Java.Split

/-! # MainActivity.java

`resolveInfos` is what `queryIntentActivities` returns. A click starts the intent
of the clicked row, and an intent for this class opens another screen of it.
-/

namespace AndroidDemo.Launcher

open AndroidDemo.Java

structure ActivityInfo where
  label : JString
  name : String
  deriving DecidableEq

/-- The class of an intent, and its extras. -/
structure Intent where
  className : String
  title : JString
  path : Option JString
  deriving DecidableEq

structure ItemInfo where
  title : JString
  className : String
  label : JString
  intent : Intent
  deriving DecidableEq

namespace MainActivity

/-- `getClass().getName()` -/
def name : String := "com.wujingchao.android.demo.MainActivity"

def isEmpty : Option JString → Bool
  | none => true
  | some path => path.isEmpty

def subPathNames (path : Option JString) : Option (List JString) :=
  if isEmpty path then none else path.map split

def pathWithSlash (path : Option JString) : JString :=
  if isEmpty path then [] else path.getD []

def titleOf (path : Option JString) (label : JString) : Except RuntimeException JString :=
  let fullSubPath := split label
  if label = pathWithSlash path then elementAt fullSubPath (fullSubPath.length - 1)
  else
    match subPathNames path with
    | none => elementAt fullSubPath 0
    | some names => elementAt fullSubPath names.length

def dest (path : Option JString) (ri : ActivityInfo) (title : JString) : Intent :=
  if ri.label = pathWithSlash path ++ slash :: title then
    { className := ri.name, title, path := none }
  else
    match subPathNames path with
    | none => { className := name, title, path := some title }
    | some _ => { className := name, title, path := some (pathWithSlash path ++ slash :: title) }

def itemInfoMap (path : Option JString) (ri : ActivityInfo) (title : JString) : ItemInfo :=
  { title, className := ri.name, label := ri.label, intent := dest path ri title }

/-- One turn of the loop of `getData`, with the lists `titles` and `data`. -/
def visit (path : Option JString) :
    List JString × List ItemInfo → ActivityInfo → Except RuntimeException (List JString × List ItemInfo)
  | (titles, data), ri =>
    if (pathWithSlash path).isPrefixOf ri.label then do
      let title ← titleOf path ri.label
      if titles.contains title then pure (titles, data)
      else pure (titles ++ [title], data ++ [itemInfoMap path ri title])
    else pure (titles, data)

def getData (cm : CaseMapping) (resolveInfos : List ActivityInfo) (path : Option JString) :
    Except RuntimeException (List ItemInfo) := do
  let (_, data) ← resolveInfos.foldlM (visit path) ([], [])
  return data.mergeSort fun lhs rhs => compareToIgnoreCase cm lhs.title rhs.title ≤ 0

def onCreate (cm : CaseMapping) (resolveInfos : List ActivityInfo) (intent : Intent) :
    Except RuntimeException (List ItemInfo) :=
  getData cm resolveInfos intent.path

def onItemClick (data : List ItemInfo) (position : Nat) : Option Intent :=
  data[position]?.map (·.intent)

end MainActivity

end AndroidDemo.Launcher
