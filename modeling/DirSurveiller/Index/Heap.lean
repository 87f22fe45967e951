/-
  DirSurveiller.Index.Heap — the objects the daemon passes around by pointer.

  `execCall` and `openCall` objects are reached by their address.  A destroyed object leaves a hole
  behind, so that using it again is a fault, and no address is given out twice.  Five components are
  history: what has been destroyed, which open call has been stored in whose buffer, which call has
  been made the parent of which, and what each `execCall` was when it was made, a parsed call or a
  dummy for an unknown pid.
-/
import Mathlib.Logic.Function.Basic
import DirSurveiller.Calls

namespace DirSurveiller

open CMachine Outcome

/-! ## §1. The objects. -/

/-- The memory of call objects.  The components from `freedExecs` on are history variables; `links`
has pairs of a child and its parent, `births` one entry for each address given out, marked if it
was a dummy. -/
structure Heap where
  execs : ExecRef → Option ExecCall
  opens : OpenRef → Option OpenCall
  nextExec : ExecRef
  nextOpen : OpenRef
  freedExecs : List ExecRef
  freedOpens : List OpenRef
  attached : List (ExecRef × OpenRef)
  links : List (ExecRef × ExecRef)
  births : List (Bool × Identity)

/-- `realloc(callBuff, size*sizeof(*callBuff))`, granted -/
def ExecCall.enlarge (c : ExecCall) (size : Nat) : ExecCall :=
  { c with
    callBuff := c.callBuff.take size ++ List.replicate (size - c.callBuff.length) none
    callBuffSize := size }

/-- `callBuff[call_num++] = ocall;` -/
def ExecCall.push (c : ExecCall) (ocall : OpenRef) : ExecCall :=
  { c with callBuff := c.callBuff.set c.callNum (some ocall), callNum := c.callNum + 1 }

namespace Heap

def empty : Heap :=
  { execs := fun _ => none, opens := fun _ => none, nextExec := 0, nextOpen := 0
    freedExecs := [], freedOpens := [], attached := [], links := [], births := [] }

/-- `*eCall` -/
def exec (h : Heap) (r : ExecRef) : Except Fault ExecCall :=
  match h.execs r with
  | some c => .ok c
  | none => .error .useAfterFree

/-- `*oCall` -/
def openCall (h : Heap) (o : OpenRef) : Except Fault OpenCall :=
  match h.opens o with
  | some c => .ok c
  | none => .error .useAfterFree

/-- `*eCall = c` -/
def setExec (h : Heap) (r : ExecRef) (c : ExecCall) : Heap :=
  { h with execs := Function.update h.execs r (some c) }

/-- The history entry of a stored pointer. -/
def noteAttached (h : Heap) (r : ExecRef) (o : OpenRef) : Heap :=
  { h with attached := h.attached ++ [(r, o)] }

/-- The history entry of a parent. -/
def link (h : Heap) (child parent : ExecRef) : Heap :=
  { h with links := h.links ++ [(child, parent)] }

/-- A new `execCall` object, at an address of its own. -/
def mallocExec (h : Heap) (dummy : Bool) (c : ExecCall) : Heap :=
  { h with
    execs := Function.update h.execs h.nextExec (some c), nextExec := h.nextExec + 1
    births := h.births ++ [(dummy, c.identity)] }

/-- A new `openCall` object. -/
def mallocOpen (h : Heap) (c : OpenCall) : Heap :=
  { h with opens := Function.update h.opens h.nextOpen (some c), nextOpen := h.nextOpen + 1 }

/-- `openCall_destroy(callBuff[i]); zfree(&callBuff[i]);` -/
def openCallDestroy (h : Heap) (o : OpenRef) : Except Fault Heap := do
  let _ ← h.openCall o
  return { h with opens := Function.update h.opens o none, freedOpens := h.freedOpens ++ [o] }

/-- `callBuff[i]`: a slot never written to holds no pointer. -/
def callBuffAt (c : ExecCall) (i : Nat) : Except Fault OpenRef :=
  match c.callBuff[i]? with
  | none => .error .outOfRange
  | some none => .error .uninitRead
  | some (some o) => .ok o

/-- `execCall_destroy(eCall); zfree(&eCall);` -/
def execCallDestroy (h : Heap) (r : ExecRef) : Except Fault Heap := do
  let c ← h.exec r
  -- the open calls go first, in the order in which they were attached
  let h ← (List.range c.callNum).foldlM (fun h i => do
    let o ← callBuffAt c i
    h.openCallDestroy o) h
  return { h with execs := Function.update h.execs r none, freedExecs := h.freedExecs ++ [r] }

/-! ## §2. What the operations do to each object. -/

variable {h : Heap} {r x : ExecRef} {o y : OpenRef}

@[simp] theorem setExec_execs (h : Heap) (r : ExecRef) (c : ExecCall) :
    (h.setExec r c).execs = Function.update h.execs r (some c) := rfl
@[simp] theorem setExec_opens (h : Heap) (r : ExecRef) (c : ExecCall) :
    (h.setExec r c).opens = h.opens := rfl
@[simp] theorem setExec_nextExec (h : Heap) (r : ExecRef) (c : ExecCall) :
    (h.setExec r c).nextExec = h.nextExec := rfl
@[simp] theorem setExec_nextOpen (h : Heap) (r : ExecRef) (c : ExecCall) :
    (h.setExec r c).nextOpen = h.nextOpen := rfl
@[simp] theorem setExec_freedExecs (h : Heap) (r : ExecRef) (c : ExecCall) :
    (h.setExec r c).freedExecs = h.freedExecs := rfl
@[simp] theorem setExec_freedOpens (h : Heap) (r : ExecRef) (c : ExecCall) :
    (h.setExec r c).freedOpens = h.freedOpens := rfl
@[simp] theorem setExec_attached (h : Heap) (r : ExecRef) (c : ExecCall) :
    (h.setExec r c).attached = h.attached := rfl
@[simp] theorem setExec_links (h : Heap) (r : ExecRef) (c : ExecCall) :
    (h.setExec r c).links = h.links := rfl
@[simp] theorem setExec_births (h : Heap) (r : ExecRef) (c : ExecCall) :
    (h.setExec r c).births = h.births := rfl

@[simp] theorem noteAttached_execs (h : Heap) (r : ExecRef) (o : OpenRef) :
    (h.noteAttached r o).execs = h.execs := rfl
@[simp] theorem noteAttached_nextExec (h : Heap) (r : ExecRef) (o : OpenRef) :
    (h.noteAttached r o).nextExec = h.nextExec := rfl
@[simp] theorem noteAttached_freedExecs (h : Heap) (r : ExecRef) (o : OpenRef) :
    (h.noteAttached r o).freedExecs = h.freedExecs := rfl
@[simp] theorem noteAttached_attached (h : Heap) (r : ExecRef) (o : OpenRef) :
    (h.noteAttached r o).attached = h.attached ++ [(r, o)] := rfl

@[simp] theorem mallocExec_execs (h : Heap) (d : Bool) (c : ExecCall) :
    (h.mallocExec d c).execs = Function.update h.execs h.nextExec (some c) := rfl
@[simp] theorem mallocOpen_opens (h : Heap) (c : OpenCall) :
    (h.mallocOpen c).opens = Function.update h.opens h.nextOpen (some c) := rfl

/-- What an updated address holds: the new contents, or what it held before. -/
theorem update_eq_some {β : Type} {f : Nat → Option β} {a x : Nat} {v : Option β} {b : β}
    (h : Function.update f a v x = some b) : (x = a ∧ v = some b) ∨ (x ≠ a ∧ f x = some b) := by
  by_cases hx : x = a
  · rw [hx, Function.update_self] at h
    exact Or.inl ⟨hx, h⟩
  · rw [Function.update_of_ne hx] at h
    exact Or.inr ⟨hx, h⟩

theorem exec_ok {c : ExecCall} : h.exec r = .ok c ↔ h.execs r = some c := by
  unfold exec
  split <;> simp_all

theorem exec_some {c : ExecCall} (hc : h.execs r = some c) : h.exec r = .ok c := exec_ok.mpr hc

theorem openCall_some {c : OpenCall} (hc : h.opens o = some c) : h.openCall o = .ok c := by
  rw [openCall, hc]

/-- The heap once `r` and the open calls of its buffer are gone. -/
def release (h : Heap) (r : ExecRef) (os : List OpenRef) : Heap :=
  { h with
    execs := Function.update h.execs r none
    opens := fun o => if o ∈ os then none else h.opens o
    freedExecs := h.freedExecs ++ [r]
    freedOpens := h.freedOpens ++ os }

@[simp] theorem release_execs (h : Heap) (r : ExecRef) (os : List OpenRef) :
    (h.release r os).execs = Function.update h.execs r none := rfl

/-- What a call's buffer holds: `callBuff[0..call_num)`. -/
def Buffer (c : ExecCall) (os : List OpenRef) : Prop :=
  c.callBuff.take c.callNum = os.map some ∧ c.callNum ≤ c.callBuff.length

theorem Buffer.length {c : ExecCall} {os : List OpenRef} (hb : Buffer c os) :
    os.length = c.callNum := by
  have := congrArg List.length hb.1
  rw [List.length_take, List.length_map, Nat.min_eq_left hb.2] at this
  exact this.symm

theorem Buffer.at {c : ExecCall} {os : List OpenRef} (hb : Buffer c os) {i : Nat} {o : OpenRef}
    (hi : os[i]? = some o) : callBuffAt c i = .ok o := by
  have hlt : i < c.callNum := by
    rw [← hb.length]
    exact (List.getElem?_eq_some_iff.mp hi).1
  have hget : c.callBuff[i]? = some (some o) := by
    rw [← List.getElem?_take_of_lt hlt, hb.1, List.getElem?_map, hi]
    rfl
  rw [callBuffAt, hget]

/-- The loop over the indices of the buffer is a loop over what the buffer holds. -/
theorem buffer_loop {c : ExecCall} {os : List OpenRef} (hb : Buffer c os) :
    ∀ (rest pre : List OpenRef) (h : Heap), os = pre ++ rest →
      (List.range' pre.length rest.length).foldlM (fun h i => do
          let o ← callBuffAt c i
          openCallDestroy h o) h
        = rest.foldlM openCallDestroy h := by
  intro rest
  induction rest with
  | nil => intro pre h _; rfl
  | cons o rest ih =>
      intro pre h hos
      have hat : callBuffAt c pre.length = .ok o := hb.at (by simp [hos])
      rw [List.length_cons, List.range'_succ, List.foldlM_cons, hat, ok_bind, List.foldlM_cons]
      refine congrArg (h.openCallDestroy o >>= ·) (funext fun h' => ?_)
      rw [show pre.length + 1 = (pre ++ [o]).length by simp]
      exact ih (pre ++ [o]) h' (by simp [hos])

/-- Destroying live open calls, no two of them the same. -/
theorem destroy_opens : ∀ (os : List OpenRef) (h : Heap), os.Nodup →
    (∀ o ∈ os, (h.opens o).isSome) →
    os.foldlM openCallDestroy h = .ok { h with
      opens := fun o => if o ∈ os then none else h.opens o
      freedOpens := h.freedOpens ++ os } := by
  intro os
  induction os with
  | nil => intro h _ _; simp [pure, Except.pure]
  | cons o os ih =>
      intro h hnodup hlive
      obtain ⟨hnot, hrest⟩ := List.nodup_cons.mp hnodup
      obtain ⟨c, hc⟩ := Option.isSome_iff_exists.mp (hlive o (by simp))
      rw [List.foldlM_cons, openCallDestroy, openCall_some hc, ok_bind, pure_eq_ok, ok_bind, ih _ hrest]
      · refine congrArg Except.ok ?_
        simp only [Heap.mk.injEq, true_and, List.append_assoc, List.singleton_append, and_true]
        funext x
        by_cases hx : x = o
        · simp [hx]
        · simp [hx]
      · intro x hx
        have hne : x ≠ o := fun e => hnot (e ▸ hx)
        show (Function.update h.opens o none x).isSome = true
        rw [Function.update_of_ne hne]
        exact hlive x (by simp [hx])

/-- **`execCall_destroy`** of a live call whose buffer holds live open calls. -/
theorem execCallDestroy_ok {c : ExecCall} {os : List OpenRef} (hc : h.execs r = some c)
    (hb : Buffer c os) (hnodup : os.Nodup) (hlive : ∀ o ∈ os, (h.opens o).isSome) :
    h.execCallDestroy r = .ok (h.release r os) := by
  have hloop := buffer_loop hb os [] h rfl
  rw [hb.length, List.length_nil, ← List.range_eq_range', destroy_opens os h hnodup hlive] at hloop
  rw [execCallDestroy, exec_some hc, ok_bind, hloop, ok_bind]
  rfl

end Heap

end DirSurveiller
