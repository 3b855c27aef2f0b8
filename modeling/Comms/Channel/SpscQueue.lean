import Comms.Channel.MpscQueue

/-!
# The queue of one producer

`SPSCQueue` of `common/util/concurrent_queue.hpp`, in which a thread leaves the channels it has
accepted for another. The nodes are never deleted while the queue is there: the producer takes those
again that the consumer is done with. As in `Comms.Channel.MpscQueue`, each access to what the two
threads share is a step of its own.

* `Spsc`, `Spsc.step`, `Spsc.destroy` — from the source; an access to a node that is not allocated,
  and to the node behind the last, sets `wild`;
* `Linked` — nodes in a row, of which the last has none behind it;
* `Spsc.Inv`, `Spsc.inv_step` — free nodes, nodes that are done with, the tail, and the nodes with
  values;
* `Spsc.run_inOrder` — what is taken are the first of the values that are pushed, in every run;
* `Spsc.look_eq_none_iff` — `Pop` finds nothing exactly if all is taken;
* `Spsc.destroy_all` — the destructor deletes each node once, and no other is left.
-/

namespace Comms
namespace Channel

variable {α : Type}

/-- Where the producer is in `Push`. -/
inductive Filling (α : Type)
  | idle
  /-- In `alloc_node`, with `tail_copy_` set. -/
  | refreshed (value : α)
  | made (node : ℕ) (value : α)
  | cleared (node : ℕ) (value : α)
  | filled (node : ℕ) (value : α)
  /-- Before `head_ = n`. -/
  | linked (node : ℕ)

/-- Where the consumer is in `Pop`. -/
inductive Taking (α : Type)
  | idle
  | found
  | read (value : α)

structure Spsc (α : Type) where
  heap : ℕ → Option (Node α)
  tail : ℕ
  head : ℕ
  first : ℕ
  tailCopy : ℕ
  filling : Filling α
  taking : Taking α
  pushed : List α
  popped : List α
  wild : Bool

inductive Move (α : Type)
  /-- A node from the cache: `n = first_; first_ = first_->next_`. -/
  | reuse (value : α)
  /-- `tail_copy_ = load_consume(&tail_)`. -/
  | refresh (value : α)
  /-- `new node`, which is not set. -/
  | fresh (node : ℕ) (unset : Node α)
  /-- `n->next_ = 0`. -/
  | clear
  /-- `n->value_ = v`. -/
  | fill
  /-- `store_release(&head_->next_, n)`. -/
  | link
  /-- `head_ = n`. -/
  | done
  /-- `load_consume(&tail_->next_)`; without one, `Pop` is over. -/
  | look
  /-- `v = tail_->next_->value_`. -/
  | read
  /-- `store_release(&tail_, tail_->next_)`. -/
  | advance

namespace Spsc

/-- `SPSCQueue()`. -/
def init (first : ℕ) (value : α) : Spsc α where
  heap := Function.update (fun _ => none) first (some ⟨none, value⟩)
  tail := first
  head := first
  first := first
  tailCopy := first
  filling := .idle
  taking := .idle
  pushed := []
  popped := []
  wild := false

/-- The value that `alloc_node` gets a node for, where that is from the cache. -/
def wanted (value : α) (s : Spsc α) : Option α :=
  match s.filling with
  | .idle => some value
  | .refreshed v => some v
  | _ => none

def reuse (value : α) (s : Spsc α) : Option (Spsc α) :=
  if s.first = s.tailCopy then none
  else (s.wanted value).map fun v =>
    match nextOf s.heap s.first with
    | some (some next) => { s with first := next, filling := .made s.first v }
    | _ => { s with wild := true }

def refresh (value : α) (s : Spsc α) : Option (Spsc α) :=
  match s.filling with
  | .idle =>
    if s.first = s.tailCopy then some { s with tailCopy := s.tail, filling := .refreshed value }
    else none
  | _ => none

def fresh (node : ℕ) (unset : Node α) (s : Spsc α) : Option (Spsc α) :=
  match s.filling, s.heap node with
  | .refreshed v, none =>
    if s.first = s.tailCopy then
      some { s with heap := Function.update s.heap node (some unset), filling := .made node v }
    else none
  | _, _ => none

/-- A store to a node. -/
def store (node : ℕ) (f : Node α → Node α) (s : Spsc α) : Spsc α :=
  match s.heap node with
  | some n => { s with heap := Function.update s.heap node (some (f n)) }
  | none => { s with wild := true }

def clear (s : Spsc α) : Option (Spsc α) :=
  match s.filling with
  | .made n v => some { s.store n fun c => { c with next := none } with filling := .cleared n v }
  | _ => none

def fill (s : Spsc α) : Option (Spsc α) :=
  match s.filling with
  | .cleared n v => some { s.store n fun c => { c with value := v } with filling := .filled n v }
  | _ => none

def link (s : Spsc α) : Option (Spsc α) :=
  match s.filling with
  | .filled n v => some { s.store s.head fun c => { c with next := some n } with
      filling := .linked n, pushed := s.pushed ++ [v] }
  | _ => none

def done (s : Spsc α) : Option (Spsc α) :=
  match s.filling with
  | .linked n => some { s with head := n, filling := .idle }
  | _ => none

def look (s : Spsc α) : Option (Spsc α) :=
  match s.taking with
  | .idle =>
    match nextOf s.heap s.tail with
    | some next => some { s with taking := next.elim .idle fun _ => .found }
    | none => some { s with wild := true }
  | _ => none

def read (s : Spsc α) : Option (Spsc α) :=
  match s.taking with
  | .found =>
    match (nextOf s.heap s.tail).bind fun next => next.bind (valueOf s.heap) with
    | some v => some { s with taking := .read v }
    | none => some { s with wild := true }
  | _ => none

def advance (s : Spsc α) : Option (Spsc α) :=
  match s.taking with
  | .read v =>
    match nextOf s.heap s.tail with
    | some (some next) => some { s with tail := next, taking := .idle, popped := s.popped ++ [v] }
    | _ => some { s with wild := true }
  | _ => none

/-- One access of one thread. -/
def step (s : Spsc α) : Move α → Option (Spsc α)
  | .reuse v => s.reuse v
  | .refresh v => s.refresh v
  | .fresh n unset => s.fresh n unset
  | .clear => s.clear
  | .fill => s.fill
  | .link => s.link
  | .done => s.done
  | .look => s.look
  | .read => s.read
  | .advance => s.advance

/-- `~SPSCQueue()`: `delete` from `first_` on, and `none` for one that is not allocated. -/
def destroyFrom : ℕ → ℕ → (ℕ → Option (Node α)) → Option (ℕ → Option (Node α))
  | 0, _, _ => none
  | fuel + 1, n, heap =>
    (nextOf heap n).bind fun next =>
      let heap := Function.update heap n none
      next.elim (some heap) fun next => destroyFrom fuel next heap

end Spsc

/-! ### Nodes in a row -/

/-- Each node is followed by the next of the list, and the last by none. -/
def Linked (heap : ℕ → Option (Node α)) : List ℕ → Prop
  | [] => True
  | [x] => nextOf heap x = some none
  | x :: y :: xs => nextOf heap x = some (some y) ∧ Linked heap (y :: xs)

section Linked

variable {heap heap' : ℕ → Option (Node α)} {xs ys : List ℕ} {x y : ℕ}

theorem Linked.congr (h : Linked heap xs) (hheap : ∀ x ∈ xs, nextOf heap' x =
    nextOf heap x) : Linked heap' xs := by
  induction xs with
  | nil => trivial
  | cons x xs ih =>
    have hx := hheap x List.mem_cons_self
    cases xs with
    | nil => exact hx.trans h
    | cons y xs => exact ⟨hx.trans h.1, ih h.2 fun z hz => hheap z (List.mem_cons_of_mem x hz)⟩

theorem Linked.tail (h : Linked heap (x :: xs)) : Linked heap xs := by
  cases xs with
  | nil => trivial
  | cons y xs => exact h.2

theorem Linked.right (h : Linked heap (xs ++ ys)) : Linked heap ys := by
  induction xs with
  | nil => exact h
  | cons x xs ih => exact ih h.tail

theorem Linked.allocated (h : Linked heap xs) (hx : x ∈ xs) : ∃ next, nextOf heap x = some next := by
  induction xs with
  | nil => cases hx
  | cons y xs ih =>
    rcases List.mem_cons.mp hx with rfl | hmem
    · cases xs with
      | nil => exact ⟨none, h⟩
      | cons y xs => exact ⟨some y, h.1⟩
    · exact ih h.tail hmem

/-- A node that follows another. -/
theorem Linked.next (h : Linked heap (xs ++ x :: y :: ys)) : nextOf heap x = some (some y) := h.right.1

theorem Linked.last (h : Linked heap (xs ++ [x])) : nextOf heap x = some none := h.right

/-- One node more. -/
theorem Linked.concat {n : Node α} (h : Linked heap (xs ++ [x])) (hnodup : (xs ++ [x, y]).Nodup)
    (hx : heap x = some n) (hy : nextOf heap y = some none) :
    Linked (Function.update heap x (some { n with next := some y })) (xs ++ [x, y]) := by
  induction xs with
  | nil =>
    have hne : y ≠ x := fun heq => (List.nodup_cons.mp hnodup).1 (heq ▸ List.mem_singleton_self y)
    refine ⟨?_, ?_⟩
    · rw [nextOf, Function.update_self]
      rfl
    · change Option.map Node.next _ = _
      rw [Function.update_of_ne hne]
      exact hy
  | cons z zs ih =>
    obtain ⟨hz, hnodup'⟩ := List.nodup_cons.mp hnodup
    have hne : z ≠ x := by
      rintro rfl
      exact hz (List.mem_append_right zs List.mem_cons_self)
    have hrest := ih h.tail hnodup'
    cases zs with
    | nil =>
      refine ⟨?_, hrest⟩
      rw [nextOf, Function.update_of_ne hne]
      exact h.1
    | cons w ws =>
      refine ⟨?_, hrest⟩
      rw [nextOf, Function.update_of_ne hne]
      exact h.1

end Linked

/-! ### The invariant -/

namespace Spsc

/-- A node that the producer has for itself, and what is known of it. -/
def Filling.Own (heap : ℕ → Option (Node α)) (nodes : List ℕ) : Filling α → Prop
  | .made n _ => n ∉ nodes ∧ ∃ c, heap n = some c
  | .cleared n _ => n ∉ nodes ∧ ∃ c, heap n = some c ∧ c.next = none
  | .filled n v => n ∉ nodes ∧ heap n = some ⟨none, v⟩
  | _ => True

def Filling.node : Filling α → Option ℕ
  | .made n _ | .cleared n _ | .filled n _ => some n
  | _ => none

/-- The head is the last node, or the one before, where the producer has still to move it. -/
def Filling.Last (head : ℕ) (nodes : List ℕ) : Filling α → Prop
  | .linked n => ∃ pre, nodes = pre ++ [head, n]
  | _ => ∃ pre, nodes = pre ++ [head]

/-- What the consumer has seen of the values. -/
def Taking.Sees (values : List α) : Taking α → Prop
  | .idle => True
  | .found => values ≠ []
  | .read v => values.head? = some v

/-- **The invariant.** The nodes are in a row: free ones from `first_` on, those that are done with
from `tail_copy_` on, the tail, and those with the values that are pushed and not popped. -/
structure Inv (s : Spsc α) (free gone live : List ℕ) (values : List α) : Prop where
  row : Linked s.heap (free ++ gone ++ s.tail :: live)
  nodup : (free ++ gone ++ s.tail :: live).Nodup
  first : (free ++ gone ++ s.tail :: live).head? = some s.first
  copy : (gone ++ s.tail :: live).head? = some s.tailCopy
  carry : live.map (valueOf s.heap) = values.map some
  log : s.pushed = s.popped ++ values
  last : Filling.Last s.head (free ++ gone ++ s.tail :: live) s.filling
  own : Filling.Own s.heap (free ++ gone ++ s.tail :: live) s.filling
  all : ∀ a c, s.heap a = some c → a ∈ free ++ gone ++ s.tail :: live ∨ Filling.node s.filling = some a
  sees : Taking.Sees values s.taking
  safe : s.wild = false

theorem inv_init (first : ℕ) (v : α) : Inv (init first v) [] [] [] [] where
  row := congrArg (Option.map Node.next)
    (@Function.update_self ℕ (fun _ => Option (Node α)) _ first (some ⟨none, v⟩) fun _ => none)
  nodup := List.nodup_singleton _
  first := rfl
  copy := rfl
  carry := rfl
  log := rfl
  last := ⟨[], rfl⟩
  own := trivial
  all a c h := by
    by_cases ha : a = first
    · exact .inl (ha ▸ List.mem_singleton_self a)
    · have hnone : (init first v).heap a = none := by
        simp only [init]
        rw [Function.update_of_ne ha]
      rw [hnone] at h
      cases h
  sees := trivial
  safe := rfl

section Steps

variable {s s' : Spsc α} {free gone live : List ℕ} {values : List α} {v : α}

/-- A store to a node that is allocated. -/
theorem store_eq {n : ℕ} {f : Node α → Node α} {c : Node α} (h : s.heap n = some c) :
    s.store n f = { s with heap := Function.update s.heap n (some (f c)) } := by
  rw [store]
  simp only [h]

/-- The producer takes a node from the cache. -/
theorem inv_reuse (h : Inv s free gone live values) (hs : s.reuse v = some s') :
    ∃ free', Inv s' free' gone live values := by
  rw [reuse] at hs
  split at hs
  · cases hs
  next hne =>
  obtain ⟨w, hw, hs'⟩ := Option.map_eq_some_iff.mp hs
  -- the first node is before the tail's copy
  obtain ⟨free', rfl⟩ : ∃ free', free = s.first :: free' := by
    cases free with
    | nil => exact absurd (Option.some.inj (h.first.symm.trans h.copy)) hne
    | cons x free' => exact ⟨free', by rw [Option.some.inj h.first]⟩
  obtain ⟨next, more, hmore⟩ : ∃ next more, free' ++ gone ++ s.tail :: live = next :: more :=
    List.exists_cons_of_ne_nil (List.append_ne_nil_of_right_ne_nil _ (List.cons_ne_nil _ _))
  have hrow : Linked s.heap (s.first :: next :: more) := hmore ▸ h.row
  have hnodup : (s.first :: next :: more).Nodup := hmore ▸ h.nodup
  rw [hrow.1] at hs'
  subst hs'
  have hlast : ∃ pre, next :: more = pre ++ [s.head] := by
    have hidle : ∃ pre, s.first :: next :: more = pre ++ [s.head] := by
      have hlast := h.last
      rw [wanted] at hw
      cases hf : s.filling <;> rw [hf] at hw hlast <;> cases hw
      · exact hmore ▸ hlast
      · exact hmore ▸ hlast
    obtain ⟨pre, hpre⟩ := hidle
    cases pre with
    | nil => exact absurd (List.cons.inj hpre).2 (List.cons_ne_nil _ _)
    | cons x pre => exact ⟨pre, (List.cons.inj hpre).2⟩
  refine ⟨free', {
    row := ?row
    nodup := ?nodup
    first := ?first
    copy := h.copy
    carry := h.carry
    log := h.log
    last := ?last
    own := ?own
    all := ?all
    sees := h.sees
    safe := h.safe }⟩
  case row =>
    exact hmore ▸ hrow.2
  case nodup =>
    exact hmore ▸ (List.nodup_cons.mp hnodup).2
  case first =>
    exact hmore ▸ rfl
  case last =>
    exact hmore ▸ hlast
  case own =>
    refine ⟨hmore ▸ (List.nodup_cons.mp hnodup).1, ?_⟩
    obtain ⟨c, hc, -⟩ := Option.map_eq_some_iff.mp hrow.1
    exact ⟨c, hc⟩
  case all =>
    intro a c ha
    rcases h.all a c ha with hmem | hnode
    · rcases List.mem_cons.mp hmem with rfl | hin
      · exact .inr rfl
      · exact .inl hin
    · rw [wanted] at hw
      cases hf : s.filling <;> rw [hf] at hw hnode <;> cases hw
      · cases hnode
      · cases hnode

/-- The producer looks how far the consumer is. -/
theorem inv_refresh (h : Inv s free gone live values) (hs : s.refresh v = some s') :
    Inv s' (free ++ gone) [] live values := by
  rw [refresh] at hs
  split at hs
  swap
  · cases hs
  next hidle =>
  split at hs
  swap
  · cases hs
  obtain rfl := Option.some.inj hs
  have hlast := h.last
  have hall := h.all
  rw [hidle] at hlast hall
  refine {
    row := ?row
    nodup := ?nodup
    first := ?first
    copy := rfl
    carry := h.carry
    log := h.log
    last := ?last
    own := trivial
    all := ?all
    sees := h.sees
    safe := h.safe }
  case row =>
    rw [List.append_nil]
    exact h.row
  case nodup =>
    rw [List.append_nil]
    exact h.nodup
  case first =>
    rw [List.append_nil]
    exact h.first
  case last =>
    rw [List.append_nil]
    exact hlast
  case all =>
    rw [List.append_nil]
    exact hall

/-- What a store to a node outside of the row leaves alone. -/
theorem keeps {n : ℕ} {x : Option (Node α)} (hn : n ∉ free ++ gone ++ s.tail :: live) :
    (∀ a ∈ free ++ gone ++ s.tail :: live, nextOf (Function.update s.heap n x) a = nextOf s.heap a) ∧
      live.map (valueOf (Function.update s.heap n x)) = live.map (valueOf s.heap) := by
  have hne : ∀ a ∈ free ++ gone ++ s.tail :: live, Function.update s.heap n x a = s.heap a := by
    intro a ha
    refine Function.update_of_ne ?_ _ _
    rintro rfl
    exact hn ha
  refine ⟨fun a ha => congrArg (Option.map Node.next) (hne a ha), List.map_congr_left fun a ha => ?_⟩
  exact congrArg (Option.map Node.value) (hne a (List.mem_append_right _ (List.mem_cons_of_mem _ ha)))

/-- The producer gets a new node. -/
theorem inv_fresh {n : ℕ} {unset : Node α} (h : Inv s free gone live values) (hs : s.fresh n unset =
    some s') :
    Inv s' free gone live values := by
  rw [fresh] at hs
  split at hs
  swap
  · cases hs
  next w hrefreshed hnone =>
  split at hs
  swap
  · cases hs
  obtain rfl := Option.some.inj hs
  have hn : n ∉ free ++ gone ++ s.tail :: live := by
    intro hmem
    obtain ⟨next, hnext⟩ := h.row.allocated hmem
    rw [nextOf, hnone] at hnext
    cases hnext
  obtain ⟨hnexts, hvals⟩ := keeps (s := s) (x := some unset) hn
  have hlast := h.last
  have hall := h.all
  rw [hrefreshed] at hlast hall
  refine ⟨h.row.congr hnexts, h.nodup, h.first, h.copy, hvals.trans h.carry, h.log, hlast,
    ⟨hn, unset, Function.update_self _ _ _⟩, ?_, h.sees, h.safe⟩
  intro a c ha
  by_cases han : a = n
  · exact .inr (congrArg some han.symm)
  · rcases hall a c ((Function.update_of_ne han _ _).symm.trans ha) with hmem | hnode
    · exact .inl hmem
    · cases hnode

/-- A store to the node that the producer has for itself. -/
theorem inv_store {n : ℕ} {c : Node α} {f : Node α →
    Node α} {filling : Filling α} (h : Inv s free gone live values)
    (hn : n ∉ free ++ gone ++ s.tail :: live) (hc : s.heap n = some c)
    (hlast : Filling.Last s.head (free ++ gone ++ s.tail :: live) filling)
    (hown : Filling.Own (Function.update s.heap n (some (f c))) (free ++ gone ++ s.tail :: live) filling)
    (hnode : Filling.node filling = Filling.node s.filling) :
    Inv { s.store n f with filling } free gone live values := by
  rw [store_eq hc]
  obtain ⟨hnexts, hvals⟩ := keeps (s := s) (x := some (f c)) hn
  refine ⟨h.row.congr hnexts, h.nodup, h.first, h.copy, hvals.trans h.carry, h.log, hlast, hown, ?_,
    h.sees, h.safe⟩
  intro a d ha
  change _ ∨ Filling.node filling = some a
  rw [hnode]
  by_cases han : a = n
  · exact h.all a c (han ▸ hc)
  · exact h.all a d ((Function.update_of_ne han _ _).symm.trans ha)

theorem inv_clear (h : Inv s free gone live values) (hs : s.clear =
    some s') : Inv s' free gone live values := by
  rw [clear] at hs
  split at hs
  swap
  · cases hs
  next n w hmade =>
  obtain rfl := Option.some.inj hs
  have hown := h.own
  have hlast := h.last
  rw [hmade] at hown hlast
  obtain ⟨hn, c, hc⟩ := hown
  exact inv_store h hn hc hlast ⟨hn, _, Function.update_self _ _ _, rfl⟩ (by rw [hmade]; rfl)

theorem inv_fill (h : Inv s free gone live values) (hs : s.fill =
    some s') : Inv s' free gone live values := by
  rw [fill] at hs
  split at hs
  swap
  · cases hs
  next n w hcleared =>
  obtain rfl := Option.some.inj hs
  have hown := h.own
  have hlast := h.last
  rw [hcleared] at hown hlast
  obtain ⟨hn, c, hc, hnone⟩ := hown
  refine inv_store h hn hc hlast ⟨hn, ?_⟩ (by rw [hcleared]; rfl)
  rw [Function.update_self, ← hnone]

/-- **The producer links its node**, and with it its value. -/
theorem inv_link (h : Inv s free gone live values) (hs : s.link = some s') :
    ∃ n w, Inv s' free gone (live ++ [n]) (values ++ [w]) := by
  rw [link] at hs
  split at hs
  swap
  · cases hs
  next n w hfilled =>
  obtain rfl := Option.some.inj hs
  have hown := h.own
  have hlast := h.last
  have hall := h.all
  rw [hfilled] at hown hlast hall
  obtain ⟨hn, hc⟩ := hown
  obtain ⟨pre, hpre⟩ := hlast
  have hrow := h.row
  rw [hpre] at hrow
  obtain ⟨c, hhead, -⟩ := Option.map_eq_some_iff.mp hrow.last
  have hnodes : free ++ gone ++ s.tail :: (live ++ [n]) = pre ++ [s.head, n] := by
    rw [← List.cons_append, ← List.append_assoc, hpre, List.append_assoc]
    rfl
  have hnodup : (pre ++ [s.head, n]).Nodup := by
    rw [← hnodes, ← List.cons_append, ← List.append_assoc]
    refine List.nodup_append.mpr ⟨h.nodup, List.nodup_singleton n, fun a ha b hb => ?_⟩
    rw [List.mem_singleton.mp hb]
    rintro rfl
    exact hn ha
  -- the store to the head is to `next`, and all values stay
  have hvalue : ∀ a, valueOf (Function.update s.heap s.head (some { c with next := some n })) a =
    valueOf s.heap a := by
    intro a
    by_cases ha : a = s.head
    · rw [ha, valueOf, Function.update_self, valueOf, hhead]
      rfl
    · exact congrArg (Option.map Node.value) (Function.update_of_ne ha _ _)
  have hhead' : (free ++ gone ++ s.tail :: (live ++ [n])).head? = some s.first := by
    rw [← List.cons_append, ← List.append_assoc, List.head?_append, h.first]
    rfl
  rw [store_eq hhead]
  refine ⟨n, w, {
    row := ?row
    nodup := hnodes ▸ hnodup
    first := hhead'
    copy := ?copy
    carry := ?carry
    log := ?log
    last := ⟨pre, hnodes⟩
    own := trivial
    all := ?all
    sees := ?sees
    safe := h.safe }⟩
  case row =>
    rw [hnodes]
    exact hrow.concat hnodup hhead (congrArg (Option.map Node.next) hc)
  case copy =>
    rw [← List.cons_append, ← List.append_assoc, List.head?_append, h.copy]
    rfl
  case carry =>
    rw [List.map_append, List.map_append, List.map_congr_left fun a _ => hvalue a, h.carry]
    exact congrArg (_ ++ [·]) ((hvalue n).trans (congrArg (Option.map Node.value) hc))
  case log =>
    change s.pushed ++ [w] = _
    rw [h.log, List.append_assoc]
  case all =>
    intro a d ha
    refine .inl ?_
    rw [hnodes]
    by_cases hah : a = s.head
    · rw [hah]
      exact List.mem_append_right pre List.mem_cons_self
    · rcases hall a d ((Function.update_of_ne hah _ _).symm.trans ha) with hmem | hnode
      · rw [hpre] at hmem
        rcases List.mem_append.mp hmem with hin | hin
        · exact List.mem_append_left _ hin
        · exact absurd (List.mem_singleton.mp hin) hah
      · rw [← Option.some.inj hnode]
        exact List.mem_append_right pre (List.mem_cons_of_mem _ (List.mem_singleton_self _))
  case sees =>
    -- the consumer may have looked already: what it has seen is still the first value
    have hsees := h.sees
    change Taking.Sees (values ++ [w]) s.taking
    cases htaking : s.taking with
    | idle => trivial
    | found => exact List.append_ne_nil_of_right_ne_nil _ (List.cons_ne_nil _ _)
    | read v =>
      rw [htaking] at hsees
      change (values ++ [w]).head? = some v
      rw [List.head?_append, show values.head? = some v from hsees]
      rfl

theorem inv_done (h : Inv s free gone live values) (hs : s.done =
    some s') : Inv s' free gone live values := by
  rw [done] at hs
  split at hs
  swap
  · cases hs
  next n hlinked =>
  obtain rfl := Option.some.inj hs
  have hlast := h.last
  have hall := h.all
  rw [hlinked] at hlast hall
  obtain ⟨pre, hpre⟩ := hlast
  refine ⟨h.row, h.nodup, h.first, h.copy, h.carry, h.log, ⟨pre ++ [s.head], ?_⟩, trivial, hall,
    h.sees, h.safe⟩
  rw [hpre, List.append_assoc]
  rfl

/-- What is behind the tail. -/
theorem Inv.behind (h : Inv s free gone live values) : nextOf s.heap s.tail = some live.head? := by
  cases live with
  | nil => exact h.row.last
  | cons b live => exact h.row.next

/-- The consumer looks for a value. -/
theorem look_eq (h : Inv s free gone live values) (hidle : s.taking = .idle) :
    s.look = some { s with taking := live.head?.elim .idle fun _ => .found } := by
  rw [look, hidle, h.behind]

theorem inv_look (h : Inv s free gone live values) (hs : s.look =
    some s') : Inv s' free gone live values := by
  have hidle : s.taking = .idle := by
    rw [look] at hs
    cases htaking : s.taking <;> rw [htaking] at hs
    · cases hs
    · cases hs
  rw [look_eq h hidle] at hs
  obtain rfl := Option.some.inj hs
  refine ⟨h.row, h.nodup, h.first, h.copy, h.carry, h.log, h.last, h.own, h.all, ?_, h.safe⟩
  cases live with
  | nil => trivial
  | cons b live =>
    rintro rfl
    exact List.cons_ne_nil _ _ h.carry

/-- The consumer reads the value of the node behind the tail. -/
theorem inv_read (h : Inv s free gone live values) (hs : s.read =
    some s') : Inv s' free gone live values := by
  rw [read] at hs
  split at hs
  swap
  · cases hs
  next hfound =>
  have hsees := h.sees
  rw [hfound] at hsees
  obtain ⟨v, values, rfl⟩ := List.exists_cons_of_ne_nil hsees
  have hcarry := h.carry
  cases live with
  | nil => cases hcarry
  | cons b live =>
    have hb : valueOf s.heap b = some v := (List.cons.inj hcarry).1
    rw [h.behind, Option.bind_some, List.head?_cons, Option.bind_some, hb] at hs
    obtain rfl := Option.some.inj hs
    exact ⟨h.row, h.nodup, h.first, h.copy, h.carry, h.log, h.last, h.own, h.all, rfl, h.safe⟩

/-- **The consumer goes on to the next node.** -/
theorem inv_advance (h : Inv s free gone live values) (hs : s.advance = some s') :
    ∃ gone' live' values', Inv s' free gone' live' values' := by
  rw [advance] at hs
  split at hs
  swap
  · cases hs
  next v hread =>
  have hsees := h.sees
  rw [hread] at hsees
  obtain ⟨values', rfl⟩ : ∃ values', values = v :: values' := List.head?_eq_some_iff.mp hsees
  have hcarry := h.carry
  cases live with
  | nil => cases hcarry
  | cons b live =>
    rw [h.behind] at hs
    obtain rfl := Option.some.inj hs
    have hnodes : free ++ (gone ++ [s.tail]) ++ b :: live = free ++ gone ++ s.tail :: b :: live := by
      rw [← List.append_assoc, List.append_assoc _ [s.tail]]
      rfl
    refine ⟨gone ++ [s.tail], live, values', {
      row := ?row
      nodup := ?nodup
      first := ?first
      copy := ?copy
      carry := (List.cons.inj hcarry).2
      log := ?log
      last := ?last
      own := ?own
      all := ?all
      sees := trivial
      safe := h.safe }⟩
    case row =>
      exact hnodes ▸ h.row
    case nodup =>
      exact hnodes ▸ h.nodup
    case first =>
      exact hnodes ▸ h.first
    case copy =>
      rw [List.append_assoc]
      exact h.copy
    case log =>
      change s.pushed = s.popped ++ [v] ++ values'
      rw [h.log, List.append_assoc]
      rfl
    case last =>
      exact hnodes ▸ h.last
    case own =>
      exact hnodes ▸ h.own
    case all =>
      exact hnodes ▸ h.all

end Steps

/-- **Every step** keeps the invariant. -/
theorem inv_step {s s' : Spsc α} {move : Move α} (h : ∃ free gone live values,
    Inv s free gone live values)
    (hs : s.step move = some s') : ∃ free gone live values, Inv s' free gone live values := by
  obtain ⟨free, gone, live, values, h⟩ := h
  cases move with
  | reuse v =>
    obtain ⟨free', h'⟩ := inv_reuse h hs
    exact ⟨free', gone, live, values, h'⟩
  | refresh v => exact ⟨_, _, _, _, inv_refresh h hs⟩
  | fresh n unset => exact ⟨_, _, _, _, inv_fresh h hs⟩
  | clear => exact ⟨_, _, _, _, inv_clear h hs⟩
  | fill => exact ⟨_, _, _, _, inv_fill h hs⟩
  | link =>
    obtain ⟨n, w, h'⟩ := inv_link h hs
    exact ⟨_, _, _, _, h'⟩
  | done => exact ⟨_, _, _, _, inv_done h hs⟩
  | look => exact ⟨_, _, _, _, inv_look h hs⟩
  | read => exact ⟨_, _, _, _, inv_read h hs⟩
  | advance =>
    obtain ⟨gone', live', values', h'⟩ := inv_advance h hs
    exact ⟨free, gone', live', values', h'⟩

/-! ### Runs -/

section Runs

variable {first : ℕ} {value : α} {moves : List (Move α)} {s : Spsc α}

theorem inv_run (hrun : Run.steps step (init first value) moves = some s) :
    ∃ free gone live values, Inv s free gone live values :=
  Run.preserved (fun _ _ _ => inv_step) ⟨[], [], [], [], inv_init first value⟩ hrun

/-- **First in, first out.** In every run, where the producer uses nodes again that the consumer is
done with, no access is to a node that is not allocated or not there. What the consumer has are the
first of the values that are pushed, and `Pop` finds nothing exactly if these are all. -/
theorem run_inOrder (hrun : Run.steps step (init first value) moves = some s) :
    s.wild = false ∧ s.popped <+: s.pushed ∧
      (s.taking = .idle → ∃ s', s.look = some s' ∧ (s'.taking = .idle ↔ s.popped = s.pushed)) := by
  obtain ⟨free, gone, live, values, h⟩ := inv_run hrun
  refine ⟨h.safe, ⟨values, h.log.symm⟩, fun hidle => ⟨_, look_eq h hidle, ?_⟩⟩
  have hcarry := h.carry
  rw [h.log, List.self_eq_append_right]
  cases live with
  | nil => exact ⟨fun _ => List.map_eq_nil_iff.mp hcarry.symm, fun _ => rfl⟩
  | cons b live =>
    refine ⟨fun heq => (by cases heq), ?_⟩
    rintro rfl
    cases hcarry

/-- The destructor, on nodes in a row. -/
theorem destroyFrom_linked {x : ℕ} {xs : List ℕ} {heap : ℕ → Option (Node α)} (h : Linked heap (x :: xs))
    (hnodup : (x :: xs).Nodup) :
    ∃ heap', destroyFrom (x :: xs).length x heap = some heap' ∧ ∀ a, heap' a =
      if a ∈ x :: xs then none else heap a := by
  induction xs generalizing x heap with
  | nil =>
    refine ⟨Function.update heap x none, ?_, fun a => ?_⟩
    · change (nextOf heap x).bind _ = _
      rw [show nextOf heap x = some none from h]
      rfl
    · by_cases ha : a = x
      · rw [ha, Function.update_self, if_pos (List.mem_singleton_self x)]
      · rw [Function.update_of_ne ha, if_neg fun hmem => ha (List.mem_singleton.mp hmem)]
  | cons y xs ih =>
    obtain ⟨hx, hnodup'⟩ := List.nodup_cons.mp hnodup
    have hrest : Linked (Function.update heap x none) (y :: xs) := by
      refine h.2.congr fun z hz => congrArg (Option.map Node.next) (Function.update_of_ne ?_ _ _)
      rintro rfl
      exact hx hz
    obtain ⟨heap', hrun, hgone⟩ := ih hrest hnodup'
    refine ⟨heap', ?_, fun a => ?_⟩
    · change (nextOf heap x).bind _ = _
      rw [h.1]
      exact hrun
    · rw [hgone a]
      by_cases ha : a = x
      · subst ha
        rw [if_neg hx, Function.update_self, if_pos List.mem_cons_self]
      · rw [Function.update_of_ne ha]
        by_cases hmem : a ∈ y :: xs
        · rw [if_pos hmem, if_pos (List.mem_cons_of_mem x hmem)]
        · rw [if_neg hmem, if_neg fun h => (List.mem_cons.mp h).elim ha hmem]

/-- **The destructor.** Where no call of `Push` is under way, it deletes each node once, and there
is no other. -/
theorem destroy_all (hrun : Run.steps step (init first value) moves = some s) (hidle : s.filling =
    .idle) :
    ∃ nodes : List ℕ, nodes.Nodup ∧ (∀ a, s.heap a ≠ none ↔ a ∈ nodes) ∧
      destroyFrom nodes.length s.first s.heap = some fun _ => none := by
  obtain ⟨free, gone, live, values, h⟩ := inv_run hrun
  obtain ⟨rest, hrest⟩ := List.head?_eq_some_iff.mp h.first
  have hrow := h.row
  have hnodup := h.nodup
  have hall := h.all
  rw [hrest] at hrow hnodup hall
  have hmem : ∀ a, s.heap a ≠ none → a ∈ s.first :: rest := by
    intro a ha
    obtain ⟨c, hc⟩ := Option.ne_none_iff_exists'.mp ha
    rcases hall a c hc with hin | hnode
    · exact hin
    · rw [hidle] at hnode
      cases hnode
  obtain ⟨heap', hdestroy, hgone⟩ := destroyFrom_linked hrow hnodup
  refine ⟨s.first :: rest, hnodup, fun a => ⟨hmem a, fun ha hnone => ?_⟩, ?_⟩
  · obtain ⟨next, hnext⟩ := hrow.allocated ha
    rw [nextOf, hnone] at hnext
    cases hnext
  · rw [hdestroy]
    refine congrArg some (funext fun a => ?_)
    rw [hgone a]
    by_cases ha : a ∈ s.first :: rest
    · exact if_pos ha
    · exact (if_neg ha).trans (by_contra fun hne => ha (hmem a hne))

/-- Two values, of which the second is in a node of the cache. -/
def twoValues : List (Move ℕ) :=
  [.refresh 7, .fresh 1 ⟨some 9, 9⟩, .clear, .fill, .link, .look, .done, .read, .advance,
    .refresh 8, .reuse 8, .clear, .fill, .link, .look, .done]

theorem twoValues_possible : ∃ s, Run.steps step (init 0 0) twoValues = some s ∧ s.filling = .idle :=
  ⟨_, rfl, rfl⟩

theorem run_inOrder_twoValues : ∃ s, Run.steps step (init 0 0) twoValues = some s ∧ s.wild = false ∧
    s.popped <+: s.pushed ∧ (s.taking = .idle → ∃ s', s.look = some s' ∧ (s'.taking = .idle ↔ s.popped = s.pushed)) :=
  twoValues_possible.imp fun _ h => ⟨h.1, run_inOrder h.1⟩

theorem destroy_all_twoValues : ∃ s, Run.steps step (init 0 0) twoValues = some s ∧
    ∃ nodes : List ℕ, nodes.Nodup ∧ (∀ a, s.heap a ≠ none ↔ a ∈ nodes) ∧
      destroyFrom nodes.length s.first s.heap = some fun _ => none :=
  twoValues_possible.imp fun _ h => ⟨h.1, destroy_all h.1 h.2⟩

end Runs

end Spsc

end Channel
end Comms
