import L4ertl.Lib.Intrusive

/-!
The wait lists of pthread_list.h. A node belongs to one thread and is named by
it, so a list is the head pointer and the links of one node field; `none` is NULL.
-/
namespace L4ertl
open Intrusive
variable {T : Type} [DecidableEq T]

def insertPthreadList (m : Links T) (h : Option T) (p : T) : Links T × Option T :=
  let m := patchPrev m h (some p)
  (setNext m p h, some p)

def removePthreadList (m : Links T) (h : Option T) (p : T) : Links T × Option T :=
  let m := patchPrev m (m p).next (m p).prev
  let m := patchNext m (m p).prev (m p).next
  let h := if h = some p then (m p).next else h
  (Function.update m p detached, h)

/-- The links and the head afterwards, and the thread taken off. -/
def removeHeadPthreadList (m : Links T) (h : Option T) : Links T × Option T × Option T :=
  let rest := h.bind fun p => (m p).next
  let m := patchPrev m rest none
  match h with
  | some p => (Function.update m p detached, rest, some p)
  | none => (m, rest, none)

end L4ertl
