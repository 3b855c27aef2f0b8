import Comms.Lib.DoublyLinked
import Comms.Lib.Run
import Mathlib.Logic.Function.Basic

/-!
# The handlers of a channel

`channel_pipeline.cpp`: the contexts of a channel's handlers, in a doubly linked list and in a map
by their names. A context is an address in the heap, which the program frees itself, and which it
may get again.

* `Pipeline`, `Pipeline.step` — from the source; `none` is a null pointer or a freed one that is
  used;
* `Chain.step` — what the functions are for: a list of handlers with names;
* `Pipeline.Holds` — the contexts of a list, their links, and the map;
* `Holds.insert`, `Holds.unlink` — a context comes in between two others, or is taken out;
* `holds_step`, `run_chain` — whatever is called, no freed context is used, and the results are
  those of the list.
-/

namespace Comms
namespace Channel

open DoublyLinked

/-- What `ChannelHandler` says about a handler, and its context keeps. -/
class ChannelHandler (H : Type) where
  canHandleUpstream : H → Bool
  canHandleDownstream : H → Bool

/-- An address. -/
abbrev Ptr := ℕ

/-- `ChannelHandlerContext`. -/
structure HandlerContext (H : Type) where
  prev : Option Ptr
  next : Option Ptr
  name : String
  handler : H
  canHandleUpstream : Bool
  canHandleDownstream : Bool

/-- `ChannelPipeline`, and the contexts that live. -/
structure Pipeline (H : Type) where
  heap : Ptr → Option (HandlerContext H)
  head : Option Ptr
  tail : Option Ptr
  name2ctx : List (String × Ptr)

variable {H : Type}

/-- The constructor of a context. -/
def newContext [ChannelHandler H] (prev next : Option Ptr) (name : String) (handler : H) :
    HandlerContext H where
  prev := prev
  next := next
  name := name
  handler := handler
  canHandleUpstream := ChannelHandler.canHandleUpstream handler
  canHandleDownstream := ChannelHandler.canHandleDownstream handler

@[simp] theorem newContext_prev [ChannelHandler H] (prev next : Option Ptr) (name : String)
    (handler : H) : (newContext prev next name handler).prev = prev := rfl

@[simp] theorem newContext_next [ChannelHandler H] (prev next : Option Ptr) (name : String)
    (handler : H) : (newContext prev next name handler).next = next := rfl

namespace Pipeline

def empty : Pipeline H where
  heap _ := none
  head := none
  tail := none
  name2ctx := []

/-- What is at the address from now on. -/
def write (s : Pipeline H) (p : Ptr) (c : Option (HandlerContext H)) : Pipeline H :=
  { s with heap := Function.update s.heap p c }

@[simp] theorem write_heap_self (s : Pipeline H) (p : Ptr) (c : Option (HandlerContext H)) :
    (s.write p c).heap p = c := by simp [write]

theorem write_heap_of_ne (s : Pipeline H) {p q : Ptr} (hq : q ≠ p) (c : Option (HandlerContext H)) :
    (s.write p c).heap q = s.heap q := by simp [write, hq]

def setPrev (s : Pipeline H) (p : Ptr) (prev : Option Ptr) : Option (Pipeline H) :=
  (s.heap p).map fun c => s.write p (some { c with prev := prev })

def setNext (s : Pipeline H) (p : Ptr) (next : Option Ptr) : Option (Pipeline H) :=
  (s.heap p).map fun c => s.write p (some { c with next := next })

/-- `DELETE`. -/
def delete (s : Pipeline H) (p : Ptr) : Option (Pipeline H) :=
  (s.heap p).map fun _ => s.write p none

/-- `m_name2ctx[name] = ctx`. -/
def bindName (s : Pipeline H) (name : String) (p : Ptr) : Pipeline H :=
  { s with name2ctx := (name, p) :: s.name2ctx.filter (·.1 ≠ name) }

def eraseName (s : Pipeline H) (name : String) : Pipeline H :=
  { s with name2ctx := s.name2ctx.filter (·.1 ≠ name) }

/-- `m_name2ctx.count(name) > 0`. -/
def hasName (s : Pipeline H) (name : String) : Bool := s.name2ctx.any (·.1 = name)

def getContext (s : Pipeline H) (name : String) : Option Ptr :=
  (s.name2ctx.find? (·.1 = name)).map Prod.snd

/-! ### New contexts

`mem` is what `new` returns, `none` if there is no memory. -/

def init [ChannelHandler H] (s : Pipeline H) (name : String) (handler : H) (mem : Option Ptr) :
    Pipeline H × Option Ptr :=
  match mem with
  | none => (s, none)
  | some ctx =>
    ({ (s.write ctx (some (newContext none none name handler))).bindName name ctx with
        head := some ctx, tail := some ctx }, some ctx)

def priAddFirst [ChannelHandler H] (s : Pipeline H) (name : String) (handler : H) (mem : Option Ptr) :
    Option (Pipeline H × Option Ptr) :=
  if s.name2ctx.isEmpty then some (s.init name handler mem)
  else if s.hasName name then some (s, none)
  else match mem with
    | none => some (s, none)
    | some newHead => do
      let s₁ := s.write newHead (some (newContext none s.head name handler))
      let s₂ ← s₁.setPrev (← s.head) (some newHead)
      some ({ s₂ with head := some newHead }.bindName name newHead, some newHead)

def priAddLast [ChannelHandler H] (s : Pipeline H) (name : String) (handler : H) (mem : Option Ptr) :
    Option (Pipeline H × Option Ptr) :=
  if s.name2ctx.isEmpty then some (s.init name handler mem)
  else if s.hasName name then some (s, none)
  else match mem with
    | none => some (s, none)
    | some newTail => do
      let s₁ := s.write newTail (some (newContext s.tail none name handler))
      let s₂ ← s₁.setNext (← s.tail) (some newTail)
      some ({ s₂ with tail := some newTail }.bindName name newTail, some newTail)

def priAddBefore [ChannelHandler H] (s : Pipeline H) (baseName name : String) (handler : H)
    (mem : Option Ptr) : Option (Pipeline H × Option Ptr) :=
  match s.getContext baseName with
  | none => some (s, none)
  | some ctx =>
    if s.head = some ctx then s.priAddFirst name handler mem
    else if s.hasName name then some (s, none)
    else match mem with
      | none => some (s, none)
      | some newCtx => do
        let c ← s.heap ctx
        let s₁ := s.write newCtx (some (newContext c.prev (some ctx) name handler))
        let s₂ ← s₁.setNext (← (← s₁.heap ctx).prev) (some newCtx)
        let s₃ ← s₂.setPrev ctx (some newCtx)
        some (s₃.bindName name newCtx, some newCtx)

def priAddAfter [ChannelHandler H] (s : Pipeline H) (baseName name : String) (handler : H)
    (mem : Option Ptr) : Option (Pipeline H × Option Ptr) :=
  match s.getContext baseName with
  | none => some (s, none)
  | some ctx =>
    if s.tail = some ctx then s.priAddLast name handler mem
    else if s.hasName name then some (s, none)
    else match mem with
      | none => some (s, none)
      | some newCtx => do
        let c ← s.heap ctx
        let s₁ := s.write newCtx (some (newContext (some ctx) c.next name handler))
        let s₂ ← s₁.setPrev (← (← s₁.heap ctx).next) (some newCtx)
        let s₃ ← s₂.setNext ctx (some newCtx)
        some (s₃.bindName name newCtx, some newCtx)

/-! ### Contexts go -/

def deleteAll (s : Pipeline H) : List (String × Ptr) → Option (Pipeline H)
  | [] => some s
  | (_, ctx) :: table => (s.delete ctx).bind fun s' => s'.deleteAll table

def clear (s : Pipeline H) : Option (Pipeline H) :=
  ({ s with head := none, tail := none }.deleteAll s.name2ctx).map fun s' : Pipeline H =>
    { s' with name2ctx := [] }

def removeFirst (s : Pipeline H) : Option (Pipeline H × Option H) :=
  match s.head with
  | none => some (s, none)
  | some oldHead => do
    let c ← s.heap oldHead
    match c.next with
    | none =>
      let s' ← { s with head := none, tail := none, name2ctx := [] }.delete oldHead
      some (s', some c.handler)
    | some next =>
      let s₁ ← s.setPrev next none
      let s₂ ← ({ s₁ with head := some next }.eraseName c.name).delete oldHead
      some (s₂, some c.handler)

/-- In the first branch `oldTail` is deleted, which makes it null, and then deleted again. -/
def removeLast (s : Pipeline H) : Option (Pipeline H × Option H) :=
  match s.tail with
  | none => some (s, none)
  | some oldTail => do
    let c ← s.heap oldTail
    match c.prev with
    | none =>
      let s' ← { s with head := none, tail := none, name2ctx := [] }.delete oldTail
      some (s', some c.handler)
    | some prev =>
      let s₁ ← s.setNext prev none
      let s₂ ← ({ s₁ with tail := some prev }.eraseName c.name).delete oldTail
      some (s₂, some c.handler)

/-- `Remove` of a context. -/
def remove (s : Pipeline H) : Option Ptr → Option (Pipeline H × Option H)
  | none => some (s, none)
  | some ctx => do
    let c ← s.heap ctx
    if s.head = s.tail then
      let s' ← { s with head := none, tail := none, name2ctx := [] }.delete ctx
      some (s', some c.handler)
    else if s.head = some ctx then s.removeFirst
    else if s.tail = some ctx then s.removeLast
    else
      let s₁ ← s.setNext (← c.prev) c.next
      let s₂ ← s₁.setPrev (← c.next) c.prev
      let s₃ ← (s₂.eraseName c.name).delete ctx
      some (s₃, some c.handler)

def get (s : Pipeline H) (name : String) : Option (Option H) :=
  match s.getContext name with
  | none => some none
  | some ctx => (s.heap ctx).map fun c => some c.handler

end Pipeline

/-! ### What is called, and what it returns -/

inductive PipelineAct (H : Type)
  | addFirst (name : String) (handler : H) (mem : Option Ptr)
  | addLast (name : String) (handler : H) (mem : Option Ptr)
  | addBefore (baseName name : String) (handler : H) (mem : Option Ptr)
  | addAfter (baseName name : String) (handler : H) (mem : Option Ptr)
  | remove (name : String)
  | removeFirst
  | removeLast
  | get (name : String)
  | clear

/-- What `new` returns, if it is called. -/
def PipelineAct.mem : PipelineAct H → Option Ptr
  | addFirst _ _ mem | addLast _ _ mem | addBefore _ _ _ mem | addAfter _ _ _ mem => mem
  | _ => none

inductive PipelineOut (H : Type)
  | context (ctx : Option Ptr)
  | handler (handler : Option H)
  | cleared

/-- One call, and its result behind those before. -/
def Pipeline.step [ChannelHandler H] (s : Pipeline H × List (PipelineOut H)) (a : PipelineAct H) :
    Option (Pipeline H × List (PipelineOut H)) :=
  let added := Option.map fun (r : Pipeline H × Option Ptr) => (r.1, s.2 ++ [.context r.2])
  let removed := Option.map fun (r : Pipeline H × Option H) => (r.1, s.2 ++ [.handler r.2])
  match a with
  | .addFirst name handler mem => added (s.1.priAddFirst name handler mem)
  | .addLast name handler mem => added (s.1.priAddLast name handler mem)
  | .addBefore baseName name handler mem => added (s.1.priAddBefore baseName name handler mem)
  | .addAfter baseName name handler mem => added (s.1.priAddAfter baseName name handler mem)
  | .remove name => removed (s.1.remove (s.1.getContext name))
  | .removeFirst => removed s.1.removeFirst
  | .removeLast => removed s.1.removeLast
  | .get name => removed ((s.1.get name).map fun handler => (s.1, handler))
  | .clear => s.1.clear.map fun s' => (s', s.2 ++ [.cleared])

/-! ### The list of handlers -/

namespace Chain

/-- The first one with the name. -/
def lookup (xs : List (String × H)) (name : String) : Option H :=
  (xs.find? (·.1 = name)).map Prod.snd

/-- A name that is taken is not added, and nothing is without memory. -/
def add (s : List (String × H) × List (PipelineOut H)) (name : String) (mem : Option Ptr)
    (xs : List (String × H)) : List (String × H) × List (PipelineOut H) :=
  if name ∈ s.1.map Prod.fst ∨ mem = none then (s.1, s.2 ++ [.context none])
  else (xs, s.2 ++ [.context mem])

/-- **What the functions are for**: handlers in a row, under names. -/
def step (s : List (String × H) × List (PipelineOut H)) (a : PipelineAct H) :
    List (String × H) × List (PipelineOut H) :=
  match a with
  | .addFirst name handler mem => add s name mem ((name, handler) :: s.1)
  | .addLast name handler mem => add s name mem (s.1 ++ [(name, handler)])
  | .addBefore baseName name handler mem =>
    if baseName ∈ s.1.map Prod.fst then
      add s name mem (s.1.flatMap fun x => if x.1 = baseName then [(name, handler), x] else [x])
    else (s.1, s.2 ++ [.context none])
  | .addAfter baseName name handler mem =>
    if baseName ∈ s.1.map Prod.fst then
      add s name mem (s.1.flatMap fun x => if x.1 = baseName then [x, (name, handler)] else [x])
    else (s.1, s.2 ++ [.context none])
  | .remove name => (s.1.filter (·.1 ≠ name), s.2 ++ [.handler (lookup s.1 name)])
  | .removeFirst => (s.1.tail, s.2 ++ [.handler (s.1.head?.map Prod.snd)])
  | .removeLast => (s.1.dropLast, s.2 ++ [.handler (s.1.getLast?.map Prod.snd)])
  | .get name => (s.1, s.2 ++ [.handler (lookup s.1 name)])
  | .clear => ([], s.2 ++ [.cleared])

theorem lookup_of_notMem {xs : List (String × H)} {name : String} (h : name ∉ xs.map Prod.fst) :
    lookup xs name = none := by
  rw [lookup, Option.map_eq_none_iff, List.find?_eq_none]
  exact fun x hx heq => h (List.mem_map.mpr ⟨x, hx, of_decide_eq_true heq⟩)

theorem filter_of_notMem {xs : List (String × H)} {name : String} (h : name ∉ xs.map Prod.fst) :
    xs.filter (·.1 ≠ name) = xs :=
  List.filter_eq_self.mpr fun x hx => decide_eq_true fun heq => h (List.mem_map.mpr ⟨x, hx, heq⟩)

section

variable {ls rs : List (String × H)} {name : String} {handler : H}
  (hne : ∀ x ∈ ls ++ rs, x.1 ≠ name)

include hne

theorem lookup_middle : lookup (ls ++ (name, handler) :: rs) name = some handler := by
  have hls : ls.find? (·.1 = name) = none :=
    List.find?_eq_none.mpr fun x hx => by simpa using hne x (List.mem_append_left rs hx)
  rw [lookup, List.find?_append, hls, Option.none_or, List.find?_cons_of_pos (by simp), Option.map_some]

theorem filter_middle : (ls ++ (name, handler) :: rs).filter (·.1 ≠ name) = ls ++ rs := by
  have hself : (ls ++ rs).filter (·.1 ≠ name) = ls ++ rs :=
    List.filter_eq_self.mpr fun x hx => decide_eq_true (hne x hx)
  rw [List.filter_append, List.filter_cons_of_neg (by simp), ← List.filter_append, hself]

theorem flatMap_middle (f : String × H → List (String × H)) :
    (ls ++ (name, handler) :: rs).flatMap (fun x => if x.1 = name then f x else [x]) =
      ls ++ (f (name, handler) ++ rs) := by
  have hself (zs : List (String × H)) (hzs : ∀ x ∈ zs, x.1 ≠ name) :
      zs.flatMap (fun x => if x.1 = name then f x else [x]) = zs := by
    induction zs with
    | nil => rfl
    | cons z zs ih =>
      rw [List.flatMap_cons, if_neg (hzs z List.mem_cons_self),
        ih fun x hx => hzs x (List.mem_cons_of_mem z hx), List.singleton_append]
  rw [List.flatMap_append, List.flatMap_cons, if_pos rfl,
    hself ls fun x hx => hne x (List.mem_append_left rs hx),
    hself rs fun x hx => hne x (List.mem_append_right ls hx)]

end

end Chain

namespace Pipeline

/-! ### Links -/

def prevOf (s : Pipeline H) (p : Ptr) : Option Ptr := (s.heap p).bind (·.prev)

def nextOf (s : Pipeline H) (p : Ptr) : Option Ptr := (s.heap p).bind (·.next)

/-- The heap in which the node `left` leads on to `v`, and `right` back to `w`. -/
def relinked (heap : Ptr → Option (HandlerContext H)) (left right v w : Option Ptr) (q : Ptr) :
    Option (HandlerContext H) :=
  (heap q).map fun c =>
    { c with next := if left = some q then v else c.next
             prev := if right = some q then w else c.prev }

variable {s s' : Pipeline H} {cs l r : List (Ptr × String × H)} {p q : Ptr} {name : String}
  {handler : H} {left right v w : Option Ptr}

theorem relinked_eq_none {heap : Ptr → Option (HandlerContext H)} :
    relinked heap left right v w q = none ↔ heap q = none := Option.map_eq_none_iff

theorem relinked_none (heap : Ptr → Option (HandlerContext H)) : relinked heap none none v w = heap :=
  funext fun _ => Option.map_id'

theorem relinked_relinked (heap : Ptr → Option (HandlerContext H)) (v' w' : Option Ptr) :
    relinked (relinked heap left none v w') none right v' w = relinked heap left right v w := by
  funext q
  rw [relinked, relinked, relinked, Option.map_map]
  rfl

theorem relinked_relinked' (heap : Ptr → Option (HandlerContext H)) (v' w' : Option Ptr) :
    relinked (relinked heap none right v' w) left none v w' = relinked heap left right v w := by
  funext q
  rw [relinked, relinked, relinked, Option.map_map]
  rfl

/-- A context that is not linked to is written before or after the links. -/
theorem relinked_update {heap : Ptr → Option (HandlerContext H)} {c : Option (HandlerContext H)}
    (hleft : left ≠ some p) (hright : right ≠ some p) :
    relinked (Function.update heap p c) left right v w =
      Function.update (relinked heap left right v w) p c := by
  funext q
  by_cases hq : q = p
  · obtain rfl := hq
    rw [relinked, Function.update_self, Function.update_self]
    simp only [if_neg hleft, if_neg hright]
    exact Option.map_id'
  · rw [relinked, Function.update_of_ne hq, Function.update_of_ne hq, relinked]

theorem update_next {heap : Ptr → Option (HandlerContext H)} {c : HandlerContext H}
    (hq : heap q = some c) (v w : Option Ptr) :
    Function.update heap q (some { c with next := v }) = relinked heap (some q) none v w := by
  funext x
  by_cases hx : x = q
  · obtain rfl := hx
    rw [Function.update_self, relinked, hq]
    simp
  · rw [Function.update_of_ne hx, relinked]
    simp [Ne.symm hx]

theorem update_prev {heap : Ptr → Option (HandlerContext H)} {c : HandlerContext H}
    (hq : heap q = some c) (v w : Option Ptr) :
    Function.update heap q (some { c with prev := w }) = relinked heap none (some q) v w := by
  funext x
  by_cases hx : x = q
  · obtain rfl := hx
    rw [Function.update_self, relinked, hq]
    simp
  · rw [Function.update_of_ne hx, relinked]
    simp [Ne.symm hx]

theorem setNext_eq (hq : s.heap q ≠ none) (v w : Option Ptr) :
    s.setNext q v = some { s with heap := relinked s.heap (some q) none v w } := by
  obtain ⟨c, hc⟩ := Option.ne_none_iff_exists'.mp hq
  rw [setNext, hc, Option.map_some, write, update_next hc v w]

theorem setPrev_eq (hq : s.heap q ≠ none) (v w : Option Ptr) :
    s.setPrev q w = some { s with heap := relinked s.heap none (some q) v w } := by
  obtain ⟨c, hc⟩ := Option.ne_none_iff_exists'.mp hq
  rw [setPrev, hc, Option.map_some, write, update_prev hc v w]

/-- What `a` leads on to and `b` back to. -/
def setLinks (s : Pipeline H) (a b : Ptr) (v w : Option Ptr) : Pipeline H :=
  { s with heap := relinked s.heap (some a) (some b) v w }

/-- Two links are changed, in this order or in the other one. -/
theorem setNext_setPrev {a b : Ptr} (ha : s.heap a ≠ none) (hb : s.heap b ≠ none) (v w : Option Ptr) :
    (s.setNext a v).bind (fun s₂ => s₂.setPrev b w) =
      some (s.setLinks a b v w) := by
  rw [setNext_eq ha v w, Option.bind_some, setPrev_eq (mt relinked_eq_none.mp hb) v w,
    relinked_relinked, setLinks]

theorem setPrev_setNext {a b : Ptr} (ha : s.heap a ≠ none) (hb : s.heap b ≠ none) (v w : Option Ptr) :
    (s.setPrev b w).bind (fun s₂ => s₂.setNext a v) =
      some (s.setLinks a b v w) := by
  rw [setPrev_eq hb v w, Option.bind_some, setNext_eq (mt relinked_eq_none.mp ha) v w,
    relinked_relinked', setLinks]

theorem delete_eq (hp : s.heap p ≠ none) : s.delete p = some (s.write p none) := by
  obtain ⟨c, hc⟩ := Option.ne_none_iff_exists'.mp hp
  rw [delete, hc, Option.map_some]

theorem deleteAll_eq {table : List (String × Ptr)} {s : Pipeline H}
    (hnodup : (table.map Prod.snd).Nodup) (h : ∀ p ∈ table.map Prod.snd, s.heap p ≠ none) :
    ∃ s', s.deleteAll table = some s' ∧ s'.head = s.head ∧ s'.tail = s.tail ∧
      (∀ q ∈ table.map Prod.snd, s'.heap q = none) ∧
      ∀ q, q ∉ table.map Prod.snd → s'.heap q = s.heap q := by
  induction table generalizing s with
  | nil => exact ⟨s, rfl, rfl, rfl, fun q hq => absurd hq List.not_mem_nil, fun q _ => rfl⟩
  | cons x table ih =>
    obtain ⟨hx, hnodup⟩ := List.nodup_cons.mp hnodup
    obtain ⟨s', heq, hhead, htail, hgone, hkept⟩ := @ih (s.write x.2 none) hnodup fun p hp => by
      have hne : p ≠ x.2 := fun heq => hx (heq ▸ hp)
      rw [s.write_heap_of_ne hne]
      exact h p (List.mem_cons_of_mem x.2 hp)
    refine ⟨s', ?_, hhead, htail, fun q hq => ?_, fun q hq => ?_⟩
    · rw [deleteAll, delete_eq (h x.2 List.mem_cons_self), Option.bind_some, heq]
    · obtain rfl | hq := List.mem_cons.mp hq
      · rw [hkept x.2 hx, write_heap_self]
      · exact hgone q hq
    · obtain ⟨hne, hq⟩ := not_or.mp (mt List.mem_cons.mpr hq)
      rw [hkept q hq, s.write_heap_of_ne hne]

/-! ### The contexts of a list -/

variable [ChannelHandler H]

/-- **The contexts `cs`**, each with its address: they are all that lives, they are linked in this
order, and the map has their names. -/
structure Holds [ChannelHandler H] (s : Pipeline H) (cs : List (Ptr × String × H)) : Prop where
  ptrs : (cs.map Prod.fst).Nodup
  names : (cs.map (·.2.1)).Nodup
  cell : ∀ c ∈ cs, ∃ prev next, s.heap c.1 = some (newContext prev next c.2.1 c.2.2)
  only : ∀ p, s.heap p ≠ none → p ∈ cs.map Prod.fst
  linked : Linked s.prevOf s.nextOf none (cs.map Prod.fst) none
  head : s.head = (cs.map Prod.fst).head?
  tail : s.tail = (cs.map Prod.fst).getLast?
  table : s.name2ctx.Perm (cs.map fun c => (c.2.1, c.1))

theorem holds_empty : Holds (empty : Pipeline H) [] where
  ptrs := List.nodup_nil
  names := List.nodup_nil
  cell _ h := absurd h List.not_mem_nil
  only _ h := absurd rfl h
  linked := trivial
  head := rfl
  tail := rfl
  table := .refl _

theorem Holds.exists_cell (h : s.Holds cs) (hq : q ∈ cs.map Prod.fst) :
    ∃ prev next name handler, s.heap q = some (newContext prev next name handler) := by
  obtain ⟨c, hc, rfl⟩ := List.mem_map.mp hq
  obtain ⟨prev, next, heq⟩ := h.cell c hc
  exact ⟨prev, next, _, _, heq⟩

/-- What a context of the list is. -/
theorem Holds.heap_eq (h : s.Holds (l ++ (p, name, handler) :: r)) :
    s.heap p = some (newContext (l.map Prod.fst).getLast? (r.map Prod.fst).head? name handler) := by
  obtain ⟨prev, next, heq⟩ := h.cell _ (List.mem_append_right l List.mem_cons_self)
  have hlinked := h.linked
  rw [List.map_append, List.map_cons, linked_append] at hlinked
  obtain ⟨-, hprev, hnext, -⟩ := hlinked
  rw [Option.or_none] at hprev hnext
  unfold prevOf at hprev
  unfold nextOf at hnext
  rw [heq] at hprev hnext
  rw [heq, ← hprev, ← hnext]
  rfl

theorem Holds.mem_of_heap (h : s.Holds cs) (hq : s.heap q = none) : q ∉ cs.map Prod.fst := by
  intro hmem
  obtain ⟨_, _, _, _, heq⟩ := h.exists_cell hmem
  rw [hq] at heq
  cases heq

/-- **A context comes in.** -/
theorem Holds.insert (h : s.Holds (l ++ r)) (hp : s.heap p = none)
    (hname : name ∉ (l ++ r).map (·.2.1)) (hleft : left = (l.map Prod.fst).getLast?)
    (hright : right = (r.map Prod.fst).head?)
    (hheap : s'.heap = Function.update (relinked s.heap left right (some p) (some p)) p
      (some (newContext left right name handler)))
    (hhead : s'.head = ((l ++ (p, name, handler) :: r).map Prod.fst).head?)
    (htail : s'.tail = ((l ++ (p, name, handler) :: r).map Prod.fst).getLast?)
    (htable : s'.name2ctx = (name, p) :: s.name2ctx.filter (·.1 ≠ name)) :
    s'.Holds (l ++ (p, name, handler) :: r) := by
  have hfresh := h.mem_of_heap hp
  have hcell (q : Ptr) (hq : q ≠ p) :
      s'.heap q = relinked s.heap left right (some p) (some p) q := by
    rw [hheap, Function.update_of_ne hq]
  have hperm : (l ++ (p, name, handler) :: r).Perm ((p, name, handler) :: (l ++ r)) :=
    List.perm_middle
  have hne {q : Ptr} (hq : q ∈ (l ++ r).map Prod.fst) : q ≠ p := fun heq => hfresh (heq ▸ hq)
  exact {
    ptrs := (hperm.map _).nodup_iff.mpr (List.nodup_cons.mpr ⟨hfresh, h.ptrs⟩)
    names := (hperm.map _).nodup_iff.mpr (List.nodup_cons.mpr ⟨hname, h.names⟩)
    cell := by
      intro c hc
      obtain rfl | hc := List.mem_cons.mp (hperm.mem_iff.mp hc)
      · exact ⟨left, right, by rw [hheap, Function.update_self]⟩
      · -- of the others only the links may be new
        obtain ⟨prev, next, heq⟩ := h.cell c hc
        rw [hcell c.1 (hne (List.mem_map_of_mem hc)), relinked, heq]
        exact ⟨_, _, rfl⟩
    only := by
      intro q hq
      refine (hperm.map Prod.fst).mem_iff.mpr ?_
      by_cases heq : q = p
      · exact heq ▸ List.mem_cons_self
      · rw [hcell q heq, Ne, relinked_eq_none] at hq
        exact List.mem_cons_of_mem p (h.only q hq)
    linked := by
      have hlinked := h.linked
      have hptrs := h.ptrs
      rw [List.map_append] at hlinked hptrs ⊢
      rw [hleft, hright] at hheap hcell
      refine hlinked.insert hptrs (fun q hq => ?_) (fun q hq => ?_) ?_ ?_
      · obtain ⟨_, _, _, _, heq⟩ := h.exists_cell (List.map_append ▸ hq)
        rw [prevOf, prevOf, hcell q (hne (List.map_append ▸ hq)), relinked, heq]
        rfl
      · obtain ⟨_, _, _, _, heq⟩ := h.exists_cell (List.map_append ▸ hq)
        rw [nextOf, nextOf, hcell q (hne (List.map_append ▸ hq)), relinked, heq]
        rfl
      · rw [prevOf, hheap, Function.update_self]
        rfl
      · rw [nextOf, hheap, Function.update_self]
        rfl
    head := hhead
    tail := htail
    table := by
      rw [htable]
      -- the name is new, so that nothing in the table is replaced
      have hkeys : s.name2ctx.filter (·.1 ≠ name) = s.name2ctx := by
        refine List.filter_eq_self.mpr fun x hx => decide_eq_true fun heq => hname ?_
        obtain ⟨c, hc, rfl⟩ := List.mem_map.mp (h.table.mem_iff.mp hx)
        exact heq ▸ List.mem_map_of_mem hc
      rw [hkeys]
      exact (h.table.cons _).trans (hperm.map fun c : Ptr × String × H => (c.2.1, c.1)).symm }

/-- **A context is taken out.** -/
theorem Holds.unlink (h : s.Holds (l ++ (p, name, handler) :: r))
    (hleft : left = (l.map Prod.fst).getLast?) (hright : right = (r.map Prod.fst).head?)
    (hheap : s'.heap = Function.update (relinked s.heap left right right left) p none)
    (hhead : s'.head = ((l ++ r).map Prod.fst).head?)
    (htail : s'.tail = ((l ++ r).map Prod.fst).getLast?)
    (htable : s'.name2ctx = s.name2ctx.filter (·.1 ≠ name)) : s'.Holds (l ++ r) := by
  have hperm : (l ++ (p, name, handler) :: r).Perm ((p, name, handler) :: (l ++ r)) :=
    List.perm_middle
  obtain ⟨hgone, hptrs⟩ := List.nodup_cons.mp ((hperm.map Prod.fst).nodup_iff.mp h.ptrs)
  obtain ⟨hname, hnames⟩ := List.nodup_cons.mp ((hperm.map (·.2.1)).nodup_iff.mp h.names)
  have hne {q : Ptr} (hq : q ∈ (l ++ r).map Prod.fst) : q ≠ p := fun heq => hgone (heq ▸ hq)
  have hmem {q : Ptr} (hq : q ∈ (l ++ r).map Prod.fst) :
      q ∈ (l ++ (p, name, handler) :: r).map Prod.fst :=
    (hperm.map Prod.fst).mem_iff.mpr (List.mem_cons_of_mem p hq)
  have hcell (q : Ptr) (hq : q ≠ p) : s'.heap q = relinked s.heap left right right left q := by
    rw [hheap, Function.update_of_ne hq]
  exact {
    ptrs := hptrs
    names := hnames
    cell := by
      intro c hc
      obtain ⟨prev, next, heq⟩ := h.cell c (hperm.mem_iff.mpr (List.mem_cons_of_mem _ hc))
      rw [hcell c.1 (hne (List.mem_map_of_mem hc)), relinked, heq]
      exact ⟨_, _, rfl⟩
    only := by
      intro q hq
      have hqp : q ≠ p := by
        rintro rfl
        exact hq (by rw [hheap, Function.update_self])
      rw [hcell q hqp, Ne, relinked_eq_none] at hq
      exact List.mem_of_ne_of_mem hqp ((hperm.map Prod.fst).mem_iff.mp (h.only q hq))
    linked := by
      have hlinked := h.linked
      rw [List.map_append, List.map_cons] at hlinked
      have hptrs' := hptrs
      rw [List.map_append] at hptrs' ⊢
      rw [hleft, hright] at hcell
      refine hlinked.unlink hptrs' (fun q hq => ?_) fun q hq => ?_
      · rw [← List.map_append] at hq
        obtain ⟨_, _, _, _, heq⟩ := h.exists_cell (hmem hq)
        rw [prevOf, prevOf, hcell q (hne hq), relinked, heq]
        rfl
      · rw [← List.map_append] at hq
        obtain ⟨_, _, _, _, heq⟩ := h.exists_cell (hmem hq)
        rw [nextOf, nextOf, hcell q (hne hq), relinked, heq]
        rfl
    head := hhead
    tail := htail
    table := by
      rw [htable]
      refine (h.table.filter _).trans ?_
      have hkeys : ∀ c ∈ l ++ r, c.2.1 ≠ name := fun c hc heq =>
        hname (List.mem_map.mpr ⟨c, hc, heq⟩)
      refine ((hperm.map fun c : Ptr × String × H => (c.2.1, c.1)).filter _).trans ?_
      rw [List.map_cons, List.filter_cons_of_neg (by simp), List.filter_eq_self.mpr]
      rintro x hx
      obtain ⟨c, hc, rfl⟩ := List.mem_map.mp hx
      exact decide_eq_true (hkeys c hc) }

/-! ### Names -/

theorem Holds.hasName_iff (h : s.Holds cs) : s.hasName name = true ↔ name ∈ cs.map (·.2.1) := by
  rw [hasName, List.any_eq_true, List.mem_map]
  constructor
  · rintro ⟨x, hx, hname⟩
    obtain ⟨c, hc, rfl⟩ := List.mem_map.mp (h.table.mem_iff.mp hx)
    exact ⟨c, hc, of_decide_eq_true hname⟩
  · rintro ⟨c, hc, hname⟩
    exact ⟨_, h.table.mem_iff.mpr (List.mem_map_of_mem hc), decide_eq_true hname⟩

theorem Holds.isEmpty_iff (h : s.Holds cs) : s.name2ctx.isEmpty = true ↔ cs = [] := by
  rw [List.isEmpty_iff_length_eq_zero, h.table.length_eq, List.length_map, List.length_eq_zero_iff]

/-- A name stands for one context. -/
theorem Holds.getContext_of_mem (h : s.Holds cs) (hc : (p, name, handler) ∈ cs) :
    s.getContext name = some p := by
  have hsome : (s.name2ctx.find? (·.1 = name)).isSome = true :=
    List.find?_isSome.mpr ⟨(name, p), h.table.mem_iff.mpr (List.mem_map.mpr ⟨_, hc, rfl⟩), by simp⟩
  obtain ⟨x, hx⟩ := Option.isSome_iff_exists.mp hsome
  obtain ⟨c, hmem, rfl⟩ := List.mem_map.mp (h.table.mem_iff.mp (List.mem_of_find?_eq_some hx))
  have hname : c.2.1 = name := by simpa using List.find?_some hx
  have heq : c = (p, name, handler) := List.inj_on_of_nodup_map h.names hmem hc hname
  rw [getContext, hx, heq]
  rfl

theorem Holds.getContext_of_notMem (h : s.Holds cs) (hname : name ∉ cs.map (·.2.1)) :
    s.getContext name = none := by
  rw [getContext, Option.map_eq_none_iff, List.find?_eq_none]
  intro x hx heq
  obtain ⟨c, hc, rfl⟩ := List.mem_map.mp (h.table.mem_iff.mp hx)
  exact hname (List.mem_map.mpr ⟨c, hc, of_decide_eq_true heq⟩)

/-! ### Adding -/

/-- What comes of a call that adds a handler: it is put between `l` and `r`, unless its name is
taken or there is no memory. -/
def Adds (s : Pipeline H) (l r : List (Ptr × String × H)) (name : String) (handler : H)
    (mem : Option Ptr) (res : Option (Pipeline H × Option Ptr)) : Prop :=
  ((name ∈ (l ++ r).map (·.2.1) ∨ mem = none) ∧ res = some (s, none)) ∨
  ∃ p s', mem = some p ∧ name ∉ (l ++ r).map (·.2.1) ∧ res = some (s', some p) ∧
    s'.Holds (l ++ (p, name, handler) :: r)

variable {mem : Option Ptr}

theorem adds_init (h : s.Holds []) (hmem : ∀ p ∈ mem, s.heap p = none) :
    Adds s [] [] name handler mem (some (s.init name handler mem)) := by
  cases mem with
  | none => exact .inl ⟨.inr rfl, rfl⟩
  | some p =>
    refine .inr ⟨p, _, rfl, List.not_mem_nil, rfl, ?_⟩
    exact Holds.insert (l := []) (r := []) h (hmem p rfl) List.not_mem_nil rfl rfl
      (congrArg (Function.update · p _) (relinked_none s.heap).symm) rfl rfl rfl

theorem Holds.heap_ne_none (h : s.Holds cs) (hq : q ∈ cs.map Prod.fst) : s.heap q ≠ none :=
  fun hnone => h.mem_of_heap hnone hq

/-- A new context is at none of the old addresses. -/
theorem Holds.heap_write (h : s.Holds cs) (hp : s.heap p = none) (hq : q ∈ cs.map Prod.fst)
    (c : Option (HandlerContext H)) : (s.write p c).heap q = s.heap q := by
  have hne : q ≠ p := fun heq => h.mem_of_heap hp (heq ▸ hq)
  exact s.write_heap_of_ne hne c

theorem Holds.write_ne_none (h : s.Holds cs) (hp : s.heap p = none) (hq : q ∈ cs.map Prod.fst)
    (c : Option (HandlerContext H)) : (s.write p c).heap q ≠ none :=
  (h.heap_write hp hq c).trans_ne (h.heap_ne_none hq)

/-- A handler is added, unless its name is taken or there is no memory. -/
theorem adds_of {res : Option (Pipeline H × Option Ptr)} (h : s.Holds (l ++ r))
    (hmem : ∀ p ∈ mem, s.heap p = none) (htaken : s.hasName name = true → res = some (s, none))
    (hnone : mem = none → res = some (s, none))
    (hnew : ∀ p, mem = some p → s.heap p = none → ¬s.hasName name = true →
      name ∉ (l ++ r).map (·.2.1) → ∃ s', res = some (s', some p) ∧ s'.Holds (l ++ (p, name, handler) :: r)) :
    Adds s l r name handler mem res := by
  by_cases hname : s.hasName name = true
  · exact .inl ⟨.inl (h.hasName_iff.mp hname), htaken hname⟩
  have hfree := mt h.hasName_iff.mpr hname
  cases mem with
  | none => exact .inl ⟨.inr rfl, hnone rfl⟩
  | some p =>
    obtain ⟨s', hres, hs'⟩ := hnew p rfl (hmem p rfl) hname hfree
    exact .inr ⟨p, s', rfl, hfree, hres, hs'⟩

/-- `PriAddFirst`. -/
theorem adds_priAddFirst (h : s.Holds cs) (hmem : ∀ p ∈ mem, s.heap p = none) :
    Adds s [] cs name handler mem (s.priAddFirst name handler mem) := by
  unfold priAddFirst
  cases cs with
  | nil =>
    rw [if_pos (h.isEmpty_iff.mpr rfl)]
    exact adds_init h hmem
  | cons c cs =>
    rw [if_neg fun hempty => List.cons_ne_nil c cs (h.isEmpty_iff.mp hempty)]
    refine adds_of (l := []) h hmem (fun hname => if_pos hname) (by rintro rfl; exact ite_self _) ?_
    rintro p rfl hp hname hfree
    have hne : some c.1 ≠ some p := fun heq =>
      h.mem_of_heap hp (Option.some.inj heq ▸ List.mem_cons_self)
    have hhead : s.head = some c.1 := h.head
    rw [if_neg hname, hhead]
    simp only [Option.bind_eq_bind, Option.bind_some,
      setPrev_eq (h.write_ne_none hp List.mem_cons_self _) (some p)]
    exact ⟨_, rfl, Holds.insert (l := []) h hp hfree rfl rfl (relinked_update nofun hne) rfl
      (h.tail.trans (List.getLast?_cons_cons).symm) rfl⟩

/-- `PriAddLast`. -/
theorem adds_priAddLast (h : s.Holds cs) (hmem : ∀ p ∈ mem, s.heap p = none) :
    Adds s cs [] name handler mem (s.priAddLast name handler mem) := by
  unfold priAddLast
  obtain rfl | ⟨ds, c, rfl⟩ := List.eq_nil_or_concat' cs
  · rw [if_pos (h.isEmpty_iff.mpr rfl)]
    exact adds_init h hmem
  · rw [if_neg fun hempty => List.append_ne_nil_of_right_ne_nil ds (List.cons_ne_nil c [])
      (h.isEmpty_iff.mp hempty)]
    have h' : s.Holds ((ds ++ [c]) ++ []) := by rwa [List.append_nil]
    refine adds_of h' hmem (fun hname => if_pos hname) (by rintro rfl; exact ite_self _) ?_
    rintro p rfl hp hname hfree
    have hc : c.1 ∈ (ds ++ [c]).map Prod.fst :=
      List.mem_map_of_mem (List.mem_append_right ds List.mem_cons_self)
    have hne : some c.1 ≠ some p := fun heq => h.mem_of_heap hp (Option.some.inj heq ▸ hc)
    have hlast : ((ds ++ [c]).map Prod.fst).getLast? = some c.1 := by simp
    rw [if_neg hname, h.tail.trans hlast]
    simp only [Option.bind_eq_bind, Option.bind_some,
      setNext_eq (h.write_ne_none hp hc _) _ (some p)]
    refine ⟨_, rfl, Holds.insert h' hp hfree hlast.symm rfl (relinked_update hne nofun) ?_ ?_ rfl⟩
    · exact h.head.trans (by simp [List.head?_append])
    · simp [bindName]

/-- The first context is the head. -/
theorem Holds.head_ne {c : Ptr × String × H} (h : s.Holds (c :: l ++ (q, name, handler) :: r)) :
    s.head ≠ some q := by
  intro heq
  have hc : some c.1 = some q := h.head.symm.trans heq
  have hptrs := h.ptrs
  rw [List.cons_append, List.map_cons, Option.some.inj hc] at hptrs
  exact (List.nodup_cons.mp hptrs).1 (by simp)

theorem Holds.tail_eq (h : s.Holds (l ++ [(q, name, handler)])) : s.tail = some q := by
  rw [h.tail, List.map_append]
  exact List.getLast?_concat

/-- The last context is the tail. -/
theorem Holds.tail_ne {c : Ptr × String × H} (h : s.Holds (l ++ (q, name, handler) :: (r ++ [c]))) :
    s.tail ≠ some q := by
  intro heq
  have hlast : s.tail = some c.1 :=
    Holds.tail_eq (l := l ++ (q, name, handler) :: r) (by rwa [List.append_assoc])
  have hc : c.1 = q := Option.some.inj (hlast.symm.trans heq)
  have hptrs := h.ptrs
  rw [List.map_append, List.map_cons, List.map_append, List.map_cons, hc] at hptrs
  have hq := (List.nodup_cons.mp (List.nodup_append.mp hptrs).2.1).1
  exact hq (List.mem_append_right _ List.mem_cons_self)

/-- A context between two others. -/
theorem Holds.insert_between {a b : Ptr} (h : s.Holds (l ++ r)) (hp : s.heap p = none)
    (hname : name ∉ (l ++ r).map (·.2.1)) (ha : (l.map Prod.fst).getLast? = some a)
    (hb : (r.map Prod.fst).head? = some b) :
    (((s.write p (some (newContext (some a) (some b) name handler))).setLinks a b (some p)
      (some p)).bindName name p).Holds (l ++ (p, name, handler) :: r) := by
  have hmem : a ∈ (l ++ r).map Prod.fst ∧ b ∈ (l ++ r).map Prod.fst := by
    rw [List.map_append]
    exact ⟨List.mem_append_left _ (List.mem_of_getLast? ha),
      List.mem_append_right _ (List.mem_of_head? hb)⟩
  have hap : some a ≠ some p := fun heq => h.mem_of_heap hp (Option.some.inj heq ▸ hmem.1)
  have hbp : some b ≠ some p := fun heq => h.mem_of_heap hp (Option.some.inj heq ▸ hmem.2)
  refine h.insert hp hname ha.symm hb.symm (relinked_update hap hbp) ?_ ?_ rfl
  · cases l with
    | nil => cases ha
    | cons c l => exact h.head
  · cases r with
    | nil => cases hb
    | cons c r =>
      refine h.tail.trans ?_
      rw [List.map_append, List.map_append, List.getLast?_append, List.getLast?_append, List.map_cons,
        List.map_cons, List.map_cons, List.getLast?_cons_cons]

/-- `PriAddBefore`, of a context that is there. -/
theorem adds_priAddBefore {base : H} {baseName : String} (h : s.Holds (l ++ (q, baseName, base) :: r))
    (hmem : ∀ p ∈ mem, s.heap p = none) :
    Adds s l ((q, baseName, base) :: r) name handler mem
      (s.priAddBefore baseName name handler mem) := by
  have hq := List.mem_append_right l (@List.mem_cons_self _ (q, baseName, base) r)
  unfold priAddBefore
  rw [h.getContext_of_mem hq]
  dsimp only
  cases l with
  | nil =>
    rw [if_pos (show s.head = some q from h.head)]
    exact adds_priAddFirst h hmem
  | cons c₀ l₀ =>
    rw [if_neg h.head_ne]
    refine adds_of h hmem (fun hname => if_pos hname) (by rintro rfl; exact ite_self _) ?_
    rintro p rfl hp hname hfree
    obtain ⟨a, ha⟩ := Option.ne_none_iff_exists'.mp
      (mt List.getLast?_eq_none_iff.mp (List.cons_ne_nil c₀.1 (l₀.map Prod.fst)))
    have hmema : a ∈ (c₀ :: l₀ ++ (q, baseName, base) :: r).map Prod.fst := by
      rw [List.map_append]
      exact List.mem_append_left _ (List.mem_of_getLast? ha)
    have hmemq : q ∈ (c₀ :: l₀ ++ (q, baseName, base) :: r).map Prod.fst := List.mem_map_of_mem hq
    have hcell := h.heap_eq
    rw [show (c₀ :: l₀).map Prod.fst = c₀.1 :: l₀.map Prod.fst from rfl, ha] at hcell
    rw [if_neg hname]
    -- the context before `ctx` is read behind the write of the new one, which is somewhere else
    simp only [Option.bind_eq_bind, Option.bind_some, hcell, newContext_prev, h.heap_write hp hmemq]
    rw [← Option.bind_assoc,
      setNext_setPrev (h.write_ne_none hp hmema _) (h.write_ne_none hp hmemq _)]
    exact ⟨_, rfl, h.insert_between hp hfree ha rfl⟩

/-- `PriAddAfter`, of a context that is there. -/
theorem adds_priAddAfter {base : H} {baseName : String} (h : s.Holds (l ++ (q, baseName, base) :: r))
    (hmem : ∀ p ∈ mem, s.heap p = none) :
    Adds s (l ++ [(q, baseName, base)]) r name handler mem
      (s.priAddAfter baseName name handler mem) := by
  have hq := List.mem_append_right l (@List.mem_cons_self _ (q, baseName, base) r)
  have hl : (((l ++ [(q, baseName, base)]).map Prod.fst).getLast?) = some q := by simp
  unfold priAddAfter
  rw [h.getContext_of_mem hq]
  dsimp only
  cases r with
  | nil =>
    rw [if_pos (show s.tail = some q from h.tail.trans hl)]
    exact adds_priAddLast h hmem
  | cons c₀ r₀ =>
    have h' : s.Holds ((l ++ [(q, baseName, base)]) ++ (c₀ :: r₀)) := by
      rwa [List.append_assoc]
    have htail : s.tail ≠ some q := by
      obtain hnil | ⟨r, c, heq⟩ := List.eq_nil_or_concat' (c₀ :: r₀)
      · cases hnil
      · exact Holds.tail_ne (heq ▸ h)
    rw [if_neg htail]
    refine adds_of h' hmem (fun hname => if_pos hname) (by rintro rfl; exact ite_self _) ?_
    rintro p rfl hp hname hfree
    have hmemq : q ∈ (l ++ (q, baseName, base) :: c₀ :: r₀).map Prod.fst := List.mem_map_of_mem hq
    have hmemb : c₀.1 ∈ (l ++ (q, baseName, base) :: c₀ :: r₀).map Prod.fst := by simp
    have hcell := h.heap_eq
    rw [show ((c₀ :: r₀).map Prod.fst).head? = some c₀.1 from rfl] at hcell
    rw [if_neg hname]
    simp only [Option.bind_eq_bind, Option.bind_some, hcell, newContext_next, h.heap_write hp hmemq]
    rw [← Option.bind_assoc,
      setPrev_setNext (h.write_ne_none hp hmemq _) (h.write_ne_none hp hmemb _)]
    exact ⟨_, rfl, h'.insert_between hp hfree hl rfl⟩

/-! ### Removing -/

theorem Holds.mem_middle (h : s.Holds (l ++ (p, name, handler) :: r)) : s.heap p ≠ none :=
  h.heap_ne_none (List.mem_map_of_mem (List.mem_append_right l List.mem_cons_self))

/-- The only context. -/
theorem Holds.unlink_only (h : s.Holds [(p, name, handler)]) :
    ∃ s', { s with head := none, tail := none, name2ctx := [] }.delete p = some s' ∧ s'.Holds [] := by
  have hp : s.heap p ≠ none := Holds.mem_middle (l := []) h
  have hheap : (s.write p none).heap =
      Function.update (relinked s.heap none none none none) p none := by
    rw [relinked_none]
    rfl
  refine ⟨_, delete_eq hp, Holds.unlink (l := []) h rfl rfl hheap rfl rfl ?_⟩
  rw [List.perm_singleton.mp h.table]
  simp [write]

theorem Holds.removeFirst_eq (h : s.Holds ((p, name, handler) :: r)) :
    ∃ s', s.removeFirst = some (s', some handler) ∧ s'.Holds r := by
  have hcell := Holds.heap_eq (l := []) h
  have hp : s.heap p ≠ none := Holds.mem_middle (l := []) h
  unfold removeFirst
  rw [show s.head = some p from h.head]
  simp only [Option.bind_eq_bind, hcell, Option.bind_some]
  cases r with
  | nil =>
    obtain ⟨s', hdelete, hs'⟩ := h.unlink_only
    refine ⟨s', ?_, hs'⟩
    simp only [List.map_nil, List.head?_nil, newContext_next, hdelete, Option.bind_some]
    rfl
  | cons c r =>
    have hc : s.heap c.1 ≠ none := h.heap_ne_none (by simp)
    simp only [List.map_cons, List.head?_cons, newContext_next, setPrev_eq hc (some c.1),
      Option.bind_some]
    rw [delete_eq (mt relinked_eq_none.mp hp), Option.bind_some]
    refine ⟨_, rfl, Holds.unlink (l := []) h rfl rfl rfl rfl ?_ rfl⟩
    exact h.tail.trans List.getLast?_cons_cons

theorem Holds.removeLast_eq (h : s.Holds (l ++ [(p, name, handler)])) :
    ∃ s', s.removeLast = some (s', some handler) ∧ s'.Holds l := by
  have hcell := h.heap_eq
  have hp := h.mem_middle
  unfold removeLast
  rw [h.tail_eq]
  simp only [Option.bind_eq_bind, hcell, Option.bind_some]
  obtain rfl | ⟨l, c, rfl⟩ := List.eq_nil_or_concat' l
  · -- the second `DELETE` is of a null pointer
    obtain ⟨s', hdelete, hs'⟩ := Holds.unlink_only h
    refine ⟨s', ?_, hs'⟩
    simp only [List.map_nil, List.getLast?_nil, newContext_prev, hdelete, Option.bind_some]
    rfl
  · have hc : s.heap c.1 ≠ none := h.heap_ne_none (by simp)
    have hlast : ((l ++ [c]).map Prod.fst).getLast? = some c.1 := by simp
    simp only [hlast, newContext_prev, setNext_eq hc none (some c.1), Option.bind_some]
    rw [delete_eq (mt relinked_eq_none.mp hp), Option.bind_some]
    refine ⟨_, rfl, ?_⟩
    rw [← List.append_nil (l ++ [c])]
    refine Holds.unlink h hlast.symm rfl rfl ?_ ?_ rfl
    · exact h.head.trans (by simp [List.head?_append])
    · rw [List.append_nil]
      exact hlast.symm

/-- The first of several contexts is not the last one. -/
theorem Holds.head_ne_tail {c : Ptr × String × H} (h : s.Holds (c :: l ++ [(q, name, handler)])) :
    s.head ≠ s.tail := by
  rw [h.tail_eq]
  exact h.head_ne

/-- `Remove`, of a context that is there. -/
theorem Holds.remove_eq (h : s.Holds (l ++ (p, name, handler) :: r)) :
    ∃ s', s.remove (some p) = some (s', some handler) ∧ s'.Holds (l ++ r) := by
  have hcell := h.heap_eq
  have hp := h.mem_middle
  unfold remove
  simp only [Option.bind_eq_bind, hcell, Option.bind_some]
  cases l with
  | nil =>
    have hhead : s.head = some p := h.head
    obtain rfl | ⟨r, c, rfl⟩ := List.eq_nil_or_concat' r
    · obtain ⟨s', hdelete, hs'⟩ := Holds.unlink_only h
      refine ⟨s', ?_, hs'⟩
      rw [if_pos (hhead.trans h.tail.symm), hdelete]
      rfl
    · rw [if_neg (Holds.head_ne_tail (l := r) (c := (p, name, handler)) h), if_pos hhead]
      exact Holds.removeFirst_eq h
  | cons c₀ l₀ =>
    rw [if_neg h.head_ne]
    obtain rfl | ⟨r, c, rfl⟩ := List.eq_nil_or_concat' r
    · rw [if_neg h.head_ne_tail, if_pos h.tail_eq, List.append_nil]
      exact Holds.removeLast_eq h
    · have h' : s.Holds (c₀ :: (l₀ ++ (p, name, handler) :: r) ++ [c]) := by
        rw [List.cons_append, List.append_assoc]
        exact h
      rw [if_neg h'.head_ne_tail, if_neg h.tail_ne]
      obtain ⟨a, ha⟩ := Option.ne_none_iff_exists'.mp
        (mt List.getLast?_eq_none_iff.mp (List.cons_ne_nil c₀.1 (l₀.map Prod.fst)))
      obtain ⟨b, hb⟩ := Option.ne_none_iff_exists'.mp (mt List.head?_eq_none_iff.mp
        (mt List.map_eq_nil_iff.mp (List.append_ne_nil_of_right_ne_nil r (List.cons_ne_nil c []))) :
          ((r ++ [c]).map Prod.fst).head? ≠ none)
      have hmema : s.heap a ≠ none := h.heap_ne_none (by
        rw [List.map_append]
        exact List.mem_append_left _ (List.mem_of_getLast? ha))
      have hmemb : s.heap b ≠ none := h.heap_ne_none (by
        rw [List.map_append, List.map_cons]
        exact List.mem_append_right _ (List.mem_cons_of_mem p (List.mem_of_head? hb)))
      simp only [newContext_prev, newContext_next, List.map_cons, ha, hb, Option.bind_some]
      rw [← Option.bind_assoc, setNext_setPrev hmema hmemb, Option.bind_some,
        delete_eq (mt relinked_eq_none.mp hp), Option.bind_some]
      refine ⟨_, rfl, Holds.unlink h ha.symm hb.symm rfl ?_ ?_ rfl⟩
      · exact h.head
      · rw [← List.append_assoc, List.map_append, List.map_singleton, List.getLast?_concat]
        exact (Holds.tail_eq h' : s.tail = some c.1)

theorem Holds.clear_eq (h : s.Holds cs) : ∃ s', s.clear = some s' ∧ s'.Holds [] := by
  have hptrs : (s.name2ctx.map Prod.snd).Perm (cs.map Prod.fst) := by
    have hperm := h.table.map Prod.snd
    rwa [List.map_map] at hperm
  obtain ⟨s', heq, hhead, htail, hgone, hkept⟩ := @deleteAll_eq H s.name2ctx
    { s with head := none, tail := none } (hptrs.nodup_iff.mpr h.ptrs)
    fun p hp => h.heap_ne_none (hptrs.mem_iff.mp hp)
  refine ⟨_, congrArg _ heq, ?_⟩
  exact {
    ptrs := List.nodup_nil
    names := List.nodup_nil
    cell := fun c hc => absurd hc List.not_mem_nil
    only := by
      intro p hp
      by_cases hmem : p ∈ s.name2ctx.map Prod.snd
      · exact absurd (hgone p hmem) hp
      · exact absurd (hptrs.mem_iff.mpr (h.only p ((hkept p hmem).symm.trans_ne hp))) hmem
    linked := trivial
    head := hhead
    tail := htail
    table := .refl _ }

/-! ### A whole call -/

variable {xs : List (String × H)} {outs : List (PipelineOut H)} {a : PipelineAct H}

/-- `new` gives an address that is free. -/
def Fresh (s : Pipeline H × List (PipelineOut H)) (a : PipelineAct H) : Prop :=
  ∀ p ∈ a.mem, s.1.heap p = none

/-- The pipeline has the contexts of the list, and has returned the same. -/
def Refines (s : Pipeline H × List (PipelineOut H)) (t : List (String × H) × List (PipelineOut H)) :
    Prop :=
  (∃ cs, s.1.Holds cs ∧ cs.map Prod.snd = t.1) ∧ s.2 = t.2

/-- Where the context of a name is. -/
theorem Holds.exists_split (h : s.Holds cs) (hname : name ∈ (cs.map Prod.snd).map Prod.fst) :
    ∃ l p handler r, cs = l ++ (p, name, handler) :: r ∧
      ∀ x ∈ l.map Prod.snd ++ r.map Prod.snd, x.1 ≠ name := by
  rw [List.map_map] at hname
  obtain ⟨c, hc, rfl⟩ := List.mem_map.mp hname
  obtain ⟨l, r, rfl⟩ := List.append_of_mem hc
  refine ⟨l, c.1, c.2.2, r, rfl, fun x hx heq => ?_⟩
  have hnames := (List.perm_middle.map _).nodup_iff.mp h.names
  rw [← List.map_append] at hx
  obtain ⟨d, hd, rfl⟩ := List.mem_map.mp hx
  exact (List.nodup_cons.mp hnames).1 (List.mem_map.mpr ⟨d, hd, heq⟩)

theorem refines_add {res : Option (Pipeline H × Option Ptr)} {ys : List (String × H)}
    (h : s.Holds (l ++ r)) (hxs : (l ++ r).map Prod.snd = xs)
    (hadds : Adds s l r name handler mem res)
    (hys : ys = l.map Prod.snd ++ (name, handler) :: r.map Prod.snd) :
    ∃ s', (res.map fun r => (r.1, outs ++ [PipelineOut.context r.2])) = some s' ∧
      Refines s' (Chain.add (xs, outs) name mem ys) := by
  subst hxs
  have hnames : ((l ++ r).map Prod.snd).map Prod.fst = (l ++ r).map (·.2.1) := by
    rw [List.map_map]
    rfl
  unfold Chain.add
  dsimp only
  rw [hnames]
  obtain ⟨hno, rfl⟩ | ⟨p, s', rfl, hname, rfl, hs'⟩ := hadds
  · rw [if_pos hno]
    exact ⟨_, rfl, ⟨_, h, rfl⟩, rfl⟩
  · rw [if_neg (not_or.mpr ⟨hname, Option.some_ne_none p⟩), hys]
    refine ⟨_, rfl, ⟨_, hs', ?_⟩, rfl⟩
    rw [List.map_append, List.map_cons]

/-- **One call** uses no freed context, and comes to what it does to the list. -/
theorem refines_step {s : Pipeline H × List (PipelineOut H)}
    {t : List (String × H) × List (PipelineOut H)} (h : Refines s t) (hfresh : Fresh s a) :
    ∃ s', step s a = some s' ∧ Refines s' (Chain.step t a) := by
  obtain ⟨s, outs⟩ := s
  obtain ⟨xs, outs'⟩ := t
  obtain ⟨⟨cs, hcs, rfl : cs.map Prod.snd = xs⟩, rfl : outs = outs'⟩ := h
  -- a name is found in the table exactly if it is in the list; what is not found changes nothing
  cases a with
  | addFirst name handler mem =>
    exact refines_add (l := []) hcs rfl (adds_priAddFirst hcs hfresh) rfl
  | addLast name handler mem =>
    exact refines_add (r := []) (by rwa [List.append_nil]) (by rw [List.append_nil])
      (adds_priAddLast hcs hfresh) rfl
  | addBefore baseName name handler mem =>
    dsimp only [step, Chain.step]
    by_cases hbase : baseName ∈ (cs.map Prod.snd).map Prod.fst
    · obtain ⟨l, p, base, r, rfl, hne⟩ := hcs.exists_split hbase
      rw [if_pos hbase]
      refine refines_add hcs rfl (adds_priAddBefore hcs hfresh) ?_
      rw [List.map_append, List.map_cons, Chain.flatMap_middle hne]
      rfl
    · rw [if_neg hbase, priAddBefore, hcs.getContext_of_notMem (by rwa [List.map_map] at hbase)]
      exact ⟨_, rfl, ⟨_, hcs, rfl⟩, rfl⟩
  | addAfter baseName name handler mem =>
    dsimp only [step, Chain.step]
    by_cases hbase : baseName ∈ (cs.map Prod.snd).map Prod.fst
    · obtain ⟨l, p, base, r, rfl, hne⟩ := hcs.exists_split hbase
      rw [if_pos hbase]
      refine refines_add (by rwa [List.append_assoc]) (by rw [List.append_assoc]; rfl)
        (adds_priAddAfter hcs hfresh) ?_
      rw [List.map_append, List.map_cons, Chain.flatMap_middle hne, List.map_append, List.append_assoc]
      rfl
    · rw [if_neg hbase, priAddAfter, hcs.getContext_of_notMem (by rwa [List.map_map] at hbase)]
      exact ⟨_, rfl, ⟨_, hcs, rfl⟩, rfl⟩
  | remove name =>
    dsimp only [step, Chain.step]
    by_cases hname : name ∈ (cs.map Prod.snd).map Prod.fst
    · obtain ⟨l, p, handler, r, rfl, hne⟩ := hcs.exists_split hname
      obtain ⟨s', heq, hs'⟩ := hcs.remove_eq
      rw [hcs.getContext_of_mem (List.mem_append_right l List.mem_cons_self), heq, List.map_append,
        List.map_cons, Chain.lookup_middle hne, Chain.filter_middle hne]
      exact ⟨_, rfl, ⟨_, hs', List.map_append⟩, rfl⟩
    · rw [hcs.getContext_of_notMem (by rwa [List.map_map] at hname), Chain.lookup_of_notMem hname,
        Chain.filter_of_notMem hname]
      exact ⟨_, rfl, ⟨_, hcs, rfl⟩, rfl⟩
  | removeFirst =>
    dsimp only [step, Chain.step]
    cases cs with
    | nil =>
      rw [removeFirst, hcs.head]
      exact ⟨_, rfl, ⟨_, hcs, rfl⟩, rfl⟩
    | cons c cs =>
      obtain ⟨s', heq, hs'⟩ := Holds.removeFirst_eq hcs
      rw [heq]
      exact ⟨_, rfl, ⟨_, hs', rfl⟩, rfl⟩
  | removeLast =>
    dsimp only [step, Chain.step]
    obtain rfl | ⟨ds, c, rfl⟩ := List.eq_nil_or_concat' cs
    · rw [removeLast, hcs.tail]
      exact ⟨_, rfl, ⟨_, hcs, rfl⟩, rfl⟩
    · obtain ⟨s', heq, hs'⟩ := Holds.removeLast_eq hcs
      rw [heq, List.map_append, List.map_singleton, List.dropLast_concat, List.getLast?_concat]
      exact ⟨_, rfl, ⟨_, hs', rfl⟩, rfl⟩
  | get name =>
    dsimp only [step, Chain.step]
    by_cases hname : name ∈ (cs.map Prod.snd).map Prod.fst
    · obtain ⟨l, p, handler, r, rfl, hne⟩ := hcs.exists_split hname
      have hlookup : Chain.lookup ((l ++ (p, name, handler) :: r).map Prod.snd) name = some handler := by
        rw [List.map_append, List.map_cons, Chain.lookup_middle hne]
      rw [get, hcs.getContext_of_mem (List.mem_append_right l List.mem_cons_self), hlookup]
      dsimp only
      rw [hcs.heap_eq]
      exact ⟨_, rfl, ⟨_, hcs, rfl⟩, rfl⟩
    · rw [get, hcs.getContext_of_notMem (by rwa [List.map_map] at hname), Chain.lookup_of_notMem hname]
      exact ⟨_, rfl, ⟨_, hcs, rfl⟩, rfl⟩
  | clear =>
    obtain ⟨s', heq, hs'⟩ := hcs.clear_eq
    dsimp only [step, Chain.step]
    rw [heq]
    exact ⟨_, rfl, ⟨[], hs', rfl⟩, rfl⟩

theorem run_refines {s : Pipeline H × List (PipelineOut H)} {as : List (PipelineAct H)}
    {t : List (String × H) × List (PipelineOut H)} (h : Refines s t)
    (hfresh : Run.Along step Fresh s as) :
    ∃ s', Run.steps step s as = some s' ∧ Refines s' (as.foldl Chain.step t) := by
  induction as generalizing s t with
  | nil => exact ⟨s, rfl, h⟩
  | cons a as ih =>
    obtain ⟨s', hstep, hs'⟩ := refines_step h hfresh.1
    obtain ⟨s'', hrun, hs''⟩ := ih hs' (hfresh.2 s' hstep)
    refine ⟨s'', ?_, hs''⟩
    rw [Run.steps_cons, hstep, Option.bind_some, hrun]

/-- **Whatever is called**, and wherever the contexts come to lie: no context is used that is freed
or was never there, those that live are the list, in its order and under names of their own, and the
calls return what they return for the list. -/
theorem run_chain {as : List (PipelineAct H)} (hfresh : Run.Along step Fresh (empty, []) as) :
    ∃ s cs, Run.steps step (empty, []) as = some s ∧ s.1.Holds cs ∧
      (cs.map Prod.snd, s.2) = as.foldl Chain.step ([], []) := by
  obtain ⟨s, hrun, ⟨cs, hcs, hxs⟩, houts⟩ :=
    run_refines (t := ([], [])) ⟨⟨[], holds_empty, rfl⟩, rfl⟩ hfresh
  exact ⟨s, cs, hrun, hcs, Prod.ext hxs houts⟩

instance decidableFresh (s : Pipeline H × List (PipelineOut H)) (a : PipelineAct H) :
    Decidable (Fresh s a) :=
  inferInstanceAs (Decidable (∀ p ∈ a.mem, s.1.heap p = none))

end Pipeline

/-- The handlers of `RedisRequestHandler::PipelineInit`. -/
inductive ServerHandler
  | decoder
  | encoder
  | handler
deriving DecidableEq

instance channelHandlerServer : ChannelHandler ServerHandler where
  canHandleUpstream h := h ≠ .encoder
  canHandleDownstream h := h = .encoder

/-- The pipeline of a connection is built, loses its encoder, and gets another one at the same
address. -/
def serverPipeline : List (PipelineAct ServerHandler) :=
  [.addLast "decoder" .decoder (some 1), .addLast "encoder" .encoder (some 2),
    .addLast "handler" .handler (some 3), .remove "encoder", .addLast "handler" .handler (some 2),
    .addAfter "decoder" "encoder" .encoder (some 2)]

theorem Pipeline.run_chain_server : ∃ s cs,
    Run.steps step (empty, []) serverPipeline = some s ∧ s.1.Holds cs ∧
    (cs.map Prod.snd, s.2) =
      ([("decoder", .decoder), ("encoder", .encoder), ("handler", .handler)],
        [.context (some 1), .context (some 2), .context (some 3), .handler (some .encoder),
          .context none, .context (some 2)]) := by
  obtain ⟨s, cs, hrun, hcs, heq⟩ := @run_chain _ _ serverPipeline (by decide)
  exact ⟨s, cs, hrun, hcs, heq⟩

end Channel
end Comms
