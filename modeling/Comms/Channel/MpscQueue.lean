import Comms.Lib.Run
import Mathlib.Data.List.Nodup
import Mathlib.Logic.Function.Basic

/-!
# The queue of many producers

`MPSCQueue` of `common/util/concurrent_queue.hpp`, with which one thread hands callbacks to another:
a list of nodes, to whose head any thread adds with an exchange, and from whose tail one thread
takes. Each access to memory that the threads share is a step of its own, the steps come in any
order, and memory is sequentially consistent. A node that is deleted may be allocated again at once.

* `Mpsc`, `Mpsc.step` — from the source; an access to a node that is not allocated sets `wild`;
* `Chained`, `Inv` — the nodes from the tail to the head, of which some are not linked yet;
* `inv_step` — every step keeps them;
* `run_fifo` — in every run no node is used that is deleted, and what is taken are the first of the
  values, in the order of the exchanges;
* `look_eq_none_iff` — `Pop` finds nothing if all is taken, or the producer whose turn it is has
  still to link.
-/

namespace Comms
namespace Channel

variable {P α : Type}

/-- `Node`. -/
structure Node (α : Type) where
  next : Option ℕ
  value : α

/-- Where a producer is in `Push`: not there, with a new node that has its value, and behind the
exchange. -/
inductive Pushing (α : Type)
  | idle
  | made (node : ℕ) (value : α)
  | swapped (prev node : ℕ)

/-- Where the consumer is in `Pop`: not there, with `next`, and before it deletes the old tail. -/
inductive Popping
  | idle
  | found (tail next : ℕ)
  | moved (tail : ℕ)

/-- The queue, the threads, and what they have done: the calls of `Push`, the exchanges, and the
values that `Pop` has given. -/
structure Mpsc (P α : Type) where
  heap : ℕ → Option (Node α)
  head : ℕ
  tail : ℕ
  pushing : P → Pushing α
  popping : Popping
  called : List (P × α)
  pushed : List (P × α)
  popped : List α
  wild : Bool

inductive Access (P α : Type)
  /-- `new Node`, at some address, and `node->value = value`. -/
  | make (p : P) (node : ℕ) (value : α)
  /-- `atomic_get_and_set_vptr_t(&m_head, node)`. -/
  | swap (p : P)
  /-- `prev->next = node`. -/
  | link (p : P)
  /-- `tail->next`; without one, `Pop` is over. -/
  | look
  /-- `m_tail = next; value = next->value`. -/
  | move
  /-- `delete tail`. -/
  | free

namespace Mpsc

/-- `MPSCQueue()`: one node, with some value. -/
def init (first : ℕ) (value : α) : Mpsc P α where
  heap := Function.update (fun _ => none) first (some ⟨none, value⟩)
  head := first
  tail := first
  pushing _ := .idle
  popping := .idle
  called := []
  pushed := []
  popped := []
  wild := false

variable [DecidableEq P]

def make (p : P) (node : ℕ) (value : α) (s : Mpsc P α) : Option (Mpsc P α) :=
  match s.pushing p, s.heap node with
  | .idle, none => some { s with
      heap := Function.update s.heap node (some ⟨none, value⟩)
      pushing := Function.update s.pushing p (.made node value)
      called := s.called ++ [(p, value)] }
  | _, _ => none

def swap (p : P) (s : Mpsc P α) : Option (Mpsc P α) :=
  match s.pushing p with
  | .made node value => some { s with
      head := node
      pushing := Function.update s.pushing p (.swapped s.head node)
      pushed := s.pushed ++ [(p, value)] }
  | _ => none

def link (p : P) (s : Mpsc P α) : Option (Mpsc P α) :=
  match s.pushing p with
  | .swapped prev node =>
    match s.heap prev with
    | some n => some { s with
        heap := Function.update s.heap prev (some { n with next := some node })
        pushing := Function.update s.pushing p .idle }
    | none => some { s with wild := true }
  | _ => none

omit [DecidableEq P] in
def look (s : Mpsc P α) : Option (Mpsc P α) :=
  match s.popping with
  | .idle =>
    match s.heap s.tail with
    | some n => some { s with popping := n.next.elim .idle (.found s.tail) }
    | none => some { s with wild := true }
  | _ => none

omit [DecidableEq P] in
def move (s : Mpsc P α) : Option (Mpsc P α) :=
  match s.popping with
  | .found tail next =>
    match s.heap next with
    | some n => some { s with tail := next, popping := .moved tail, popped := s.popped ++ [n.value] }
    | none => some { s with wild := true }
  | _ => none

omit [DecidableEq P] in
def free (s : Mpsc P α) : Option (Mpsc P α) :=
  match s.popping with
  | .moved tail =>
    match s.heap tail with
    | some _ => some { s with heap := Function.update s.heap tail none, popping := .idle }
    | none => some { s with wild := true }
  | _ => none

/-- One access of one thread. -/
def step (s : Mpsc P α) : Access P α → Option (Mpsc P α)
  | .make p node value => s.make p node value
  | .swap p => s.swap p
  | .link p => s.link p
  | .look => s.look
  | .move => s.move
  | .free => s.free

end Mpsc

/-! ### The nodes of the queue -/

/-- A value between the tail and the head, and whether the node before has been linked to its node.
-/
structure Entry (P α : Type) where
  owner : P
  value : α
  node : ℕ
  linked : Bool

/-- `next` of a node that is allocated. -/
def nextOf (heap : ℕ → Option (Node α)) (a : ℕ) : Option (Option ℕ) := (heap a).map Node.next

def valueOf (heap : ℕ → Option (Node α)) (a : ℕ) : Option α := (heap a).map Node.value

/-- From the node `x` on, the nodes are those of the entries, up to the head. Where there is no
link, the owner of the entry is about to make it. -/
def Chained (heap : ℕ → Option (Node α)) (pushing : P → Pushing α) (head : ℕ) : ℕ → List (Entry P α) →
    Prop
  | x, [] => nextOf heap x = some none ∧ x = head
  | x, e :: es => nextOf heap x = some (if e.linked then some e.node else none) ∧
      (e.linked = false → pushing e.owner = .swapped x e.node) ∧ Chained heap pushing head e.node es

section Chained

variable {heap heap' : ℕ → Option (Node α)} {pushing pushing' : P → Pushing α} {head x : ℕ}
  {es : List (Entry P α)}

/-- What the nodes and the owners do not see. -/
theorem Chained.congr (h : Chained heap pushing head x es) (hheap : ∀ y ∈ x :: es.map Entry.node,
    heap' y = heap y)
    (hpushing : ∀ e ∈ es, e.linked = false → pushing' e.owner = pushing e.owner) :
    Chained heap' pushing' head x es := by
  induction es generalizing x with
  | nil =>
    refine ⟨?_, h.2⟩
    rw [nextOf, hheap x List.mem_cons_self]
    exact h.1
  | cons e es ih =>
    obtain ⟨hnext, howner, hrest⟩ := h
    refine ⟨?_, fun hl => (hpushing e List.mem_cons_self hl).trans (howner hl), ih hrest ?_ ?_⟩
    · rw [nextOf, hheap x List.mem_cons_self]
      exact hnext
    · exact fun y hy => hheap y (List.mem_cons_of_mem x hy)
    · exact fun e' he' => hpushing e' (List.mem_cons_of_mem e he')

/-- The nodes are allocated. -/
theorem Chained.allocated (h : Chained heap pushing head x es) {y : ℕ} (hy : y ∈ x :: es.map Entry.node) :
    ∃ n, heap y = some n := by
  induction es generalizing x with
  | nil =>
    obtain rfl := List.mem_singleton.mp hy
    obtain ⟨n, hn, -⟩ := Option.map_eq_some_iff.mp h.1
    exact ⟨n, hn⟩
  | cons e es ih =>
    rcases List.mem_cons.mp hy with rfl | hmem
    · obtain ⟨n, hn, -⟩ := Option.map_eq_some_iff.mp h.1
      exact ⟨n, hn⟩
    · exact ih h.2.2 hmem

/-- A node that is not linked is behind the one its owner knows. -/
theorem Chained.owner_swapped (h : Chained heap pushing head x es) {e : Entry P α} (he : e ∈ es)
    (hlinked : e.linked = false) : ∃ y ∈ x :: es.map Entry.node, pushing e.owner = .swapped y e.node ∧
      nextOf heap y = some none := by
  induction es generalizing x with
  | nil => cases he
  | cons e' es ih =>
    obtain ⟨hnext, howner, hrest⟩ := h
    rcases List.mem_cons.mp he with rfl | hmem
    · refine ⟨x, List.mem_cons_self, howner hlinked, ?_⟩
      rw [hnext, hlinked]
      rfl
    · obtain ⟨y, hy, hrest⟩ := ih hrest hmem
      exact ⟨y, List.mem_cons_of_mem x hy, hrest⟩

/-- **An exchange**: one node more, which is not linked. -/
theorem Chained.concat [DecidableEq P] (h : Chained heap pushing head x es) {p : P} {a : ℕ} {v : α}
    (hnext : nextOf heap a = some none) (hp : ∀ e ∈ es, e.linked = false → e.owner ≠ p) :
    Chained heap (Function.update pushing p (.swapped head a)) a x (es ++ [⟨p, v, a, false⟩]) := by
  induction es generalizing x with
  | nil =>
    obtain ⟨hnone, rfl⟩ := h
    exact ⟨hnone, fun _ => Function.update_self _ _ _, hnext, rfl⟩
  | cons e es ih =>
    obtain ⟨hlink, howner, hrest⟩ := h
    refine ⟨hlink, fun hl => ?_, ih hrest fun e' he' => hp e' (List.mem_cons_of_mem e he')⟩
    rw [Function.update_of_ne (hp e List.mem_cons_self hl)]
    exact howner hl

/-- The entry of a node is linked. -/
def Entry.link (a : ℕ) (e : Entry P α) : Entry P α := { e with linked := e.linked || e.node == a }

theorem Entry.link_of_ne {a : ℕ} {e : Entry P α} (h : e.node ≠ a) : e.link a = e := by
  rw [Entry.link, beq_eq_false_iff_ne.mpr h, Bool.or_false]

theorem map_link_of_notMem {a : ℕ} (h : a ∉ es.map Entry.node) : es.map (Entry.link a) = es := by
  refine (List.map_congr_left fun e he => ?_).trans (List.map_id es)
  exact Entry.link_of_ne fun heq => h (heq ▸ List.mem_map_of_mem he)

@[simp] theorem map_link_node (a : ℕ) : (es.map (Entry.link a)).map Entry.node = es.map Entry.node := by
  rw [List.map_map]
  rfl

/-- **A link.** -/
theorem Chained.link [DecidableEq P] (h : Chained heap pushing head x es)
    (hnodup : (x :: es.map Entry.node).Nodup)
    {p : P} {y a : ℕ} {n : Node α} (hp : pushing p = .swapped y a)
    (hmem : ∃ e ∈ es, e.node = a ∧ e.linked = false ∧ e.owner = p) :
    Chained (Function.update heap y (some { n with next := some a }))
        (Function.update pushing p .idle) head x
      (es.map (Entry.link a)) := by
  -- an owner has one entry that is not linked, since it knows its node
  have hone : ∀ e ∈ es, e.linked = false → e.owner = p → e.node = a := by
    intro e he hl ho
    obtain ⟨y', -, hswapped, -⟩ := h.owner_swapped he hl
    rw [ho, hp] at hswapped
    exact (Pushing.swapped.inj hswapped).2.symm
  induction es generalizing x with
  | nil =>
    obtain ⟨e, he, -⟩ := hmem
    cases he
  | cons e es ih =>
    obtain ⟨hlink, howner, hrest⟩ := h
    obtain ⟨hx, hnodup'⟩ := List.nodup_cons.mp hnodup
    obtain ⟨hnode, -⟩ := List.nodup_cons.mp hnodup'
    by_cases hea : e.node = a
    · -- the node before the entry is `y`
      obtain ⟨e', he', hnode', hl', ho'⟩ := hmem
      obtain rfl : e' = e := by
        rcases List.mem_cons.mp he' with rfl | hin
        · rfl
        · have hin' : e'.node ∈ es.map Entry.node := List.mem_map_of_mem hin
          rw [hnode', ← hea] at hin'
          exact absurd hin' hnode
      have hyx : y = x := by
        have hswapped := howner hl'
        rw [ho', hp] at hswapped
        exact (Pushing.swapped.inj hswapped).1
      subst hyx hnode'
      refine ⟨?_, fun hfalse => ?_, ?_⟩
      · rw [nextOf, Function.update_self]
        simp [Entry.link]
      · simp [Entry.link] at hfalse
      · change Chained _ _ _ e'.node _
        rw [map_link_of_notMem hnode]
        refine hrest.congr (fun z hz => Function.update_of_ne ?_ _ _) fun e hin hl =>
          Function.update_of_ne ?_ _ _
        · rintro rfl
          exact hx hz
        · intro ho
          have hin' : e.node ∈ es.map Entry.node := List.mem_map_of_mem hin
          rw [hone e (List.mem_cons_of_mem _ hin) hl ho] at hin'
          exact hnode hin'
    · have hmem' : ∃ e ∈ es, e.node = a ∧ e.linked = false ∧ e.owner = p := by
        obtain ⟨e', he', hrest'⟩ := hmem
        rcases List.mem_cons.mp he' with rfl | hin
        · exact absurd hrest'.1 hea
        · exact ⟨e', hin, hrest'⟩
      have hxy : x ≠ y := by
        obtain ⟨e', hin, hnode', hl', ho'⟩ := hmem'
        obtain ⟨y', hy', hswapped, -⟩ := hrest.owner_swapped hin hl'
        rw [ho', hp] at hswapped
        obtain rfl := (Pushing.swapped.inj hswapped).1
        rintro rfl
        exact hx hy'
      rw [List.map_cons, Entry.link_of_ne hea]
      refine ⟨?_, fun hl => ?_, ih hrest hnodup' hmem' fun e' he' => hone e' (List.mem_cons_of_mem e he')⟩
      · rw [nextOf, Function.update_of_ne hxy]
        exact hlink
      · rw [Function.update_of_ne fun heq => hea (hone e List.mem_cons_self hl heq)]
        exact howner hl

end Chained

/-! ### The invariant -/

/-- The values whose calls have come to the exchange, for one producer, and the one that has not. -/
def inHand : Pushing α → List α
  | .made _ v => [v]
  | _ => []

def of [DecidableEq P] (p : P) (log : List (P × α)) : List α := (log.filter fun c => c.1 = p).map Prod.snd

namespace Mpsc

variable [DecidableEq P]

/-- **The invariant.** The queue is a chain of nodes from the tail to the head. It holds what is
pushed and not popped. No node that a thread has for itself is one of it. -/
structure Inv (s : Mpsc P α) (es : List (Entry P α)) : Prop where
  chained : Chained s.heap s.pushing s.head s.tail es
  nodup : (s.tail :: es.map Entry.node).Nodup
  values : ∀ e ∈ es, valueOf s.heap e.node = some e.value
  log : ∃ gone, s.pushed = gone ++ es.map (fun e => (e.owner, e.value)) ∧ gone.map Prod.snd = s.popped
  made : ∀ p a v, s.pushing p = .made a v → a ∉ s.tail :: es.map Entry.node ∧ s.heap a = some ⟨none, v⟩
  own : ∀ p q a v w, s.pushing p = .made a v → s.pushing q = .made a w → p = q
  swapped : ∀ p y a, s.pushing p = .swapped y a → ∃ e ∈ es, e.node = a ∧ e.linked = false ∧ e.owner = p
  found : ∀ t n, s.popping = .found t n → t = s.tail ∧ ∃ e es', es = e :: es' ∧ e.node = n ∧ e.linked =
      true
  moved : ∀ t, s.popping = .moved t → t ∉ s.tail :: es.map Entry.node ∧ (∃ n, s.heap t = some n) ∧
    ∀ p v, s.pushing p ≠ .made t v
  calls : ∀ p, of p s.called = of p s.pushed ++ inHand (s.pushing p)
  safe : s.wild = false

theorem inv_init (first : ℕ) (v : α) : Inv (init first v : Mpsc P α) [] where
  chained := ⟨congrArg (Option.map Node.next)
    (@Function.update_self ℕ (fun _ => Option (Node α)) _ first (some ⟨none, v⟩) fun _ => none), rfl⟩
  nodup := List.nodup_singleton _
  values e he := by cases he
  log := ⟨[], rfl, rfl⟩
  made p a v h := by cases h
  own p q a v w h := by cases h
  swapped p y a h := by cases h
  found t n h := by cases h
  moved t h := by cases h
  calls p := rfl
  safe := rfl

section Steps

variable {s s' : Mpsc P α} {es : List (Entry P α)} {p : P}

/-- The owner of a node that is not linked is behind its exchange. -/
theorem Inv.owner (h : Inv s es) {e : Entry P α} (he : e ∈ es) (hl : e.linked = false) :
    ∃ y, s.pushing e.owner = .swapped y e.node := by
  obtain ⟨y, -, hy, -⟩ := h.chained.owner_swapped he hl
  exact ⟨y, hy⟩

theorem of_concat (log : List (P × α)) (p q : P) (v : α) :
    of q (log ++ [(p, v)]) = of q log ++ if p = q then [v] else [] := by
  rw [of, List.filter_append, List.map_append]
  by_cases h : p = q
  · rw [if_pos h, List.filter_singleton, decide_eq_true h]
    rfl
  · rw [if_neg h, List.filter_singleton, decide_eq_false h]
    rfl

omit [DecidableEq P] in
theorem update_cases [DecidableEq P] {f : P → Pushing α} {p q : P} {x y : Pushing α}
    (h : Function.update f p x q = y) : q = p ∧ x = y ∨ q ≠ p ∧ f q = y := by
  by_cases hq : q = p
  · subst hq
    rw [Function.update_self] at h
    exact .inl ⟨rfl, h⟩
  · rw [Function.update_of_ne hq] at h
    exact .inr ⟨hq, h⟩

/-- The log of calls, where one thread goes on. -/
theorem calls_update {called pushed called' pushed' : List (P × α)} {pushing : P →
    Pushing α} {x : Pushing α}
    (h : ∀ q, of q called = of q pushed ++ inHand (pushing q))
    (hother : ∀ q, q ≠ p → of q called' = of q called ∧ of q pushed' = of q pushed)
    (hself : of p called' = of p pushed' ++ inHand x) (q : P) :
    of q called' = of q pushed' ++ inHand (Function.update pushing p x q) := by
  by_cases hq : q = p
  · subst hq
    rw [Function.update_self]
    exact hself
  · rw [Function.update_of_ne hq, (hother q hq).1, (hother q hq).2]
    exact h q

theorem inv_make {a : ℕ} {v : α} (h : Inv s es) (hs : s.make p a v = some s') : Inv s' es := by
  rw [make] at hs
  split at hs
  swap
  · cases hs
  next hidle hfree =>
  obtain rfl := Option.some.inj hs
  -- the address is that of no node
  have hnot : a ∉ s.tail :: es.map Entry.node := by
    intro hmem
    obtain ⟨n, hn⟩ := h.chained.allocated hmem
    rw [hfree] at hn
    cases hn
  have hmade : ∀ q b w, s.pushing q = .made b w → b ≠ a := by
    rintro q b w hq rfl
    rw [(h.made q b w hq).2] at hfree
    cases hfree
  refine {
    chained := ?chained
    nodup := h.nodup
    values := ?values
    log := h.log
    made := ?made
    own := ?own
    swapped := ?swapped
    found := h.found
    moved := ?moved
    calls := ?calls
    safe := h.safe }
  case chained =>
    refine h.chained.congr (fun y hy => Function.update_of_ne ?_ _ _) fun e he hl =>
      Function.update_of_ne ?_ _ _
    · rintro rfl
      exact hnot hy
    · intro heq
      obtain ⟨y, hy⟩ := h.owner he hl
      rw [heq, hidle] at hy
      cases hy
  case values =>
    intro e he
    have hne : e.node ≠ a := by
      rintro rfl
      exact hnot (List.mem_cons_of_mem _ (List.mem_map_of_mem he))
    exact (congrArg (Option.map Node.value) (Function.update_of_ne hne _ _)).trans (h.values e he)
  case made =>
    intro q b w hq
    rcases update_cases hq with ⟨rfl, heq⟩ | ⟨-, hq⟩
    · cases heq
      exact ⟨hnot, Function.update_self _ _ _⟩
    · exact ⟨(h.made q b w hq).1, (Function.update_of_ne (hmade q b w hq) _ _).trans (h.made q b w hq).2⟩
  case own =>
    -- a node that another producer has is older than `a`
    intro q r b w w' hq hr
    rcases update_cases hq with ⟨hqp, heq⟩ | ⟨-, hqb⟩ <;> rcases update_cases hr with ⟨hrp, heq'⟩ | ⟨-,
      hrb⟩
    · rw [hqp, hrp]
    · cases heq
      exact absurd rfl (hmade r _ w' hrb)
    · cases heq'
      exact absurd rfl (hmade q _ w hqb)
    · exact h.own q r b w w' hqb hrb
  case swapped =>
    intro q y b hq
    rcases update_cases hq with ⟨-, heq⟩ | ⟨-, hq⟩
    · cases heq
    · exact h.swapped q y b hq
  case moved =>
    intro t ht
    obtain ⟨hnt, ⟨n, hn⟩, hkept⟩ := h.moved t ht
    have hta : t ≠ a := by
      rintro rfl
      rw [hfree] at hn
      cases hn
    refine ⟨hnt, ⟨n, (Function.update_of_ne hta _ _).trans hn⟩, fun q w hq => ?_⟩
    rcases update_cases hq with ⟨-, heq⟩ | ⟨-, hq⟩
    · cases heq
      exact hta rfl
    · exact hkept q w hq
  case calls =>
    refine calls_update h.calls (fun q hq => ⟨?_, rfl⟩) ?_
    · rw [of_concat, if_neg (Ne.symm hq), List.append_nil]
    · rw [of_concat, if_pos rfl, h.calls p, hidle]
      exact congrArg (· ++ [v]) (List.append_nil _)

theorem inv_swap (h : Inv s es) (hs : s.swap p = some s') : ∃ e, Inv s' (es ++ [e]) := by
  rw [swap] at hs
  split at hs
  swap
  · cases hs
  next a v hmade =>
  obtain rfl := Option.some.inj hs
  obtain ⟨hnot, hnode⟩ := h.made p a v hmade
  -- a node that is not linked belongs to a producer that has still to link it; `p` has not come so far
  have howner : ∀ e ∈ es, e.linked = false → e.owner ≠ p := by
    rintro e he hl rfl
    obtain ⟨y, hy⟩ := h.owner he hl
    rw [hmade] at hy
    cases hy
  have hnodes : s.tail :: (es ++ [(⟨p, v, a, false⟩ : Entry P α)]).map Entry.node =
      (s.tail :: es.map Entry.node) ++ [a] := by
    rw [List.map_append]
    rfl
  refine ⟨⟨p, v, a, false⟩, {
    chained := h.chained.concat (congrArg (Option.map Node.next) hnode) howner
    nodup := ?nodup
    values := ?values
    log := ?log
    made := ?made
    own := ?own
    swapped := ?swapped
    found := ?found
    moved := ?moved
    calls := ?calls
    safe := h.safe }⟩
  case nodup =>
    change (s.tail :: (es ++ [_]).map Entry.node).Nodup
    rw [hnodes]
    exact List.nodup_append.mpr ⟨h.nodup, List.nodup_singleton a, fun y hy z hz => by
      rw [List.mem_singleton.mp hz]
      rintro rfl
      exact hnot hy⟩
  case values =>
    intro e he
    rcases List.mem_append.mp he with hold | hnew
    · exact h.values e hold
    · rw [List.mem_singleton.mp hnew]
      exact congrArg (Option.map Node.value) hnode
  case log =>
    obtain ⟨gone, hpushed, hgone⟩ := h.log
    refine ⟨gone, ?_, hgone⟩
    change s.pushed ++ [(p, v)] = _
    rw [hpushed, List.map_append, List.append_assoc]
    rfl
  case made =>
    intro q b w hq
    rcases update_cases hq with ⟨-, heq⟩ | ⟨hqp, hq⟩
    · cases heq
    refine ⟨?_, (h.made q b w hq).2⟩
    change b ∉ s.tail :: (es ++ [_]).map Entry.node
    rw [hnodes]
    intro hmem
    rcases List.mem_append.mp hmem with hold | hnew
    · exact (h.made q b w hq).1 hold
    · rw [List.mem_singleton.mp hnew] at hq
      exact hqp (h.own q p a w v hq hmade)
  case own =>
    intro q r b w w' hq hr
    rcases update_cases hq with ⟨-, heq⟩ | ⟨-, hq⟩
    · cases heq
    rcases update_cases hr with ⟨-, heq⟩ | ⟨-, hr⟩
    · cases heq
    exact h.own q r b w w' hq hr
  case swapped =>
    intro q y b hq
    rcases update_cases hq with ⟨rfl, heq⟩ | ⟨-, hq⟩
    · cases heq
      exact ⟨_, List.mem_append_right es (List.mem_singleton_self _), rfl, rfl, rfl⟩
    · obtain ⟨e, he, hrest⟩ := h.swapped q y b hq
      exact ⟨e, List.mem_append_left _ he, hrest⟩
  case found =>
    intro t n ht
    obtain ⟨htail, e, es', rfl, hrest⟩ := h.found t n ht
    exact ⟨htail, e, es' ++ [_], rfl, hrest⟩
  case moved =>
    intro t ht
    obtain ⟨hnt, hn, hkept⟩ := h.moved t ht
    refine ⟨?_, hn, fun q w hq => ?_⟩
    · -- what is about to be deleted is not the node of `p`, which nobody has deleted
      change t ∉ s.tail :: (es ++ [_]).map Entry.node
      rw [hnodes]
      intro hmem
      rcases List.mem_append.mp hmem with hold | hnew
      · exact hnt hold
      · exact hkept p v (List.mem_singleton.mp hnew ▸ hmade)
    · rcases update_cases hq with ⟨-, heq⟩ | ⟨-, hq⟩
      · cases heq
      · exact hkept q w hq
  case calls =>
    refine calls_update h.calls (fun q hq => ⟨rfl, ?_⟩) ?_
    · rw [of_concat, if_neg (Ne.symm hq), List.append_nil]
    · rw [of_concat, if_pos rfl, h.calls p, hmade]
      exact (List.append_nil _).symm

theorem inv_link (h : Inv s es) (hs : s.link p = some s') : ∃ a, Inv s' (es.map (Entry.link a)) := by
  rw [link] at hs
  split at hs
  swap
  · cases hs
  next y a hswapped =>
  obtain ⟨e, he, hnode, hl, ho⟩ := h.swapped p y a hswapped
  obtain ⟨y', hy', hpushing, hnext⟩ := h.chained.owner_swapped he hl
  rw [ho, hswapped] at hpushing
  obtain ⟨rfl, -⟩ := Pushing.swapped.inj hpushing
  split at hs
  swap
  · next hnone =>
    rw [nextOf, hnone] at hnext
    cases hnext
  next n hn =>
  obtain rfl := Option.some.inj hs
  have hvalue : ∀ b, valueOf (Function.update s.heap y (some { n with next := some a })) b =
    valueOf s.heap b := by
    intro b
    by_cases hb : b = y
    · subst hb
      rw [valueOf, Function.update_self, valueOf, hn]
      rfl
    · exact congrArg (Option.map Node.value) (Function.update_of_ne hb _ _)
  refine ⟨a, {
    chained := h.chained.link h.nodup hswapped ⟨e, he, hnode, hl, ho⟩
    nodup := ?nodup
    values := ?values
    log := ?log
    made := ?made
    own := ?own
    swapped := ?swapped
    found := ?found
    moved := ?moved
    calls := ?calls
    safe := h.safe }⟩
  case nodup =>
    rw [map_link_node]
    exact h.nodup
  case values =>
    intro e' he'
    obtain ⟨e₀, he₀, rfl⟩ := List.mem_map.mp he'
    exact (hvalue _).trans (h.values e₀ he₀)
  case log =>
    obtain ⟨gone, hpushed, hgone⟩ := h.log
    refine ⟨gone, ?_, hgone⟩
    rw [List.map_map]
    exact hpushed
  case made =>
    intro q b w hq
    rcases update_cases hq with ⟨-, heq⟩ | ⟨-, hq⟩
    · cases heq
    obtain ⟨hnot, hheap⟩ := h.made q b w hq
    refine ⟨by rw [map_link_node]; exact hnot, (Function.update_of_ne ?_ _ _).trans hheap⟩
    rintro rfl
    exact hnot hy'
  case own =>
    intro q r b w w' hq hr
    rcases update_cases hq with ⟨-, heq⟩ | ⟨-, hq⟩
    · cases heq
    rcases update_cases hr with ⟨-, heq⟩ | ⟨-, hr⟩
    · cases heq
    exact h.own q r b w w' hq hr
  case swapped =>
    intro q z b hq
    rcases update_cases hq with ⟨-, heq⟩ | ⟨hqp, hq⟩
    · cases heq
    obtain ⟨e', he', hnode', hl', ho'⟩ := h.swapped q z b hq
    refine ⟨e', ?_, hnode', hl', ho'⟩
    -- its node is not the one that is linked now
    have hne : e'.node ≠ a := by
      intro heq
      have hsame := List.inj_on_of_nodup_map (List.nodup_cons.mp h.nodup).2 he' he (heq.trans hnode.symm)
      rw [hsame, ho] at ho'
      exact hqp ho'.symm
    exact Entry.link_of_ne hne ▸ List.mem_map_of_mem he'
  case found =>
    intro t n' ht
    obtain ⟨htail, e', es', rfl, hnode', hl'⟩ := h.found t n' ht
    refine ⟨htail, e'.link a, es'.map (Entry.link a), rfl, hnode', ?_⟩
    rw [Entry.link, hl']
    rfl
  case moved =>
    intro t ht
    obtain ⟨hnt, ⟨m, hm⟩, hkept⟩ := h.moved t ht
    refine ⟨by rw [map_link_node]; exact hnt, ⟨m, (Function.update_of_ne ?_ _ _).trans hm⟩,
      fun q w hq => ?_⟩
    · rintro rfl
      exact hnt hy'
    · rcases update_cases hq with ⟨-, heq⟩ | ⟨-, hq⟩
      · cases heq
      · exact hkept q w hq
  case calls =>
    refine calls_update h.calls (fun q _ => ⟨rfl, rfl⟩) ?_
    rw [h.calls p, hswapped]
    rfl

theorem inv_look (h : Inv s es) (hs : s.look = some s') : Inv s' es := by
  rw [look] at hs
  split at hs
  swap
  · cases hs
  next hidle =>
  obtain ⟨n, hn⟩ := h.chained.allocated List.mem_cons_self
  rw [hn] at hs
  obtain rfl := Option.some.inj hs
  refine ⟨h.chained, h.nodup, h.values, h.log, h.made, h.own, h.swapped, fun t b ht => ?_, fun t ht => ?_,
    h.calls, h.safe⟩
  · change n.next.elim _ _ = _ at ht
    cases hnext : n.next with
    | none =>
      rw [hnext] at ht
      cases ht
    | some c =>
      rw [hnext] at ht
      obtain ⟨rfl, rfl⟩ := Popping.found.inj ht
      refine ⟨rfl, ?_⟩
      have hchained := h.chained
      cases es with
      | nil =>
        have hnone := hchained.1
        rw [nextOf, hn, Option.map_some, hnext] at hnone
        cases hnone
      | cons e es =>
        have hsome := hchained.1
        rw [nextOf, hn, Option.map_some, hnext] at hsome
        cases hl : e.linked with
        | false =>
          rw [hl] at hsome
          cases hsome
        | true =>
          rw [hl] at hsome
          exact ⟨e, es, rfl, (Option.some.inj (Option.some.inj hsome)).symm, hl⟩
  · change n.next.elim _ _ = _ at ht
    cases hnext : n.next <;> rw [hnext] at ht <;> cases ht

theorem inv_move (h : Inv s es) (hs : s.move = some s') : ∃ e es', es = e :: es' ∧ Inv s' es' := by
  rw [move] at hs
  split at hs
  swap
  · cases hs
  next t b hfound =>
  obtain ⟨rfl, e, es', rfl, rfl, hl⟩ := h.found t b hfound
  obtain ⟨-, -, hrest⟩ := h.chained
  obtain ⟨htail, hnodup⟩ := List.nodup_cons.mp h.nodup
  obtain ⟨n, hn⟩ := hrest.allocated List.mem_cons_self
  rw [hn] at hs
  obtain rfl := Option.some.inj hs
  have hvalue : n.value = e.value := by
    have hvalue := h.values e List.mem_cons_self
    rw [valueOf, hn] at hvalue
    exact Option.some.inj hvalue
  refine ⟨e, es', rfl, {
    chained := hrest
    nodup := hnodup
    values := fun e' he' => h.values e' (List.mem_cons_of_mem e he')
    log := ?log
    made := ?made
    own := h.own
    swapped := ?swapped
    found := ?found
    moved := ?moved
    calls := h.calls
    safe := h.safe }⟩
  case log =>
    obtain ⟨gone, hpushed, hgone⟩ := h.log
    refine ⟨gone ++ [(e.owner, e.value)], ?_, ?_⟩
    · rw [List.append_assoc]
      exact hpushed
    · rw [List.map_append, hgone, hvalue]
      rfl
  case made =>
    intro p a v hp
    obtain ⟨hnot, hheap⟩ := h.made p a v hp
    exact ⟨fun hmem => hnot (List.mem_cons_of_mem _ hmem), hheap⟩
  case swapped =>
    intro p y a hp
    obtain ⟨e', he', hnode, hl', ho⟩ := h.swapped p y a hp
    refine ⟨e', ?_, hnode, hl', ho⟩
    rcases List.mem_cons.mp he' with rfl | hmem
    · rw [hl] at hl'
      cases hl'
    · exact hmem
  case found =>
    intro t n' ht
    cases ht
  case moved =>
    intro t ht
    cases ht
    refine ⟨htail, h.chained.allocated List.mem_cons_self, fun p v hp => ?_⟩
    exact (h.made p _ v hp).1 List.mem_cons_self

theorem inv_free (h : Inv s es) (hs : s.free = some s') : Inv s' es := by
  rw [free] at hs
  split at hs
  swap
  · cases hs
  next t hmoved =>
  obtain ⟨hnot, ⟨n, hn⟩, hmade⟩ := h.moved t hmoved
  rw [hn] at hs
  obtain rfl := Option.some.inj hs
  have hkept : ∀ y ∈ s.tail :: es.map Entry.node, Function.update s.heap t none y = s.heap y := by
    intro y hy
    refine Function.update_of_ne ?_ _ _
    rintro rfl
    exact hnot hy
  refine ⟨h.chained.congr hkept fun _ _ _ => rfl, h.nodup, fun e he => ?_, h.log, fun p a v hp => ?_,
    h.own,
    h.swapped, fun t' n' ht => ?_, fun t' ht => ?_, h.calls, h.safe⟩
  · rw [← h.values e he]
    exact congrArg (Option.map Node.value) (hkept _ (List.mem_cons_of_mem _ (List.mem_map_of_mem he)))
  · obtain ⟨hout, hheap⟩ := h.made p a v hp
    refine ⟨hout, (Function.update_of_ne ?_ _ _).trans hheap⟩
    rintro rfl
    exact hmade p v hp
  · cases ht
  · cases ht

end Steps

/-- **Every step** keeps the invariant. -/
theorem inv_step {s s' : Mpsc P α} {access : Access P α} (h : ∃ es, Inv s es) (hs : s.step access =
    some s') :
    ∃ es, Inv s' es := by
  obtain ⟨es, h⟩ := h
  cases access with
  | make p node value => exact ⟨es, inv_make h hs⟩
  | swap p =>
    obtain ⟨e, h'⟩ := inv_swap h hs
    exact ⟨_, h'⟩
  | link p =>
    obtain ⟨a, h'⟩ := inv_link h hs
    exact ⟨_, h'⟩
  | look => exact ⟨es, inv_look h hs⟩
  | move =>
    obtain ⟨e, es', -, h'⟩ := inv_move h hs
    exact ⟨es', h'⟩
  | free => exact ⟨es, inv_free h hs⟩

/-! ### Runs -/

section Runs

variable {first : ℕ} {value : α} {accesses : List (Access P α)} {s : Mpsc P α}

theorem inv_run (hrun : Run.steps step (init first value) accesses = some s) : ∃ es, Inv s es :=
  Run.preserved (fun _ _ _ => inv_step) ⟨[], inv_init first value⟩ hrun

/-- **First in, first out.** In every run of any number of producers and a consumer, no node is used
that is deleted. What the consumer has are the first values, in the order of the exchanges; and each
producer comes to the exchange with its values in the order of its calls. -/
theorem run_fifo (hrun : Run.steps step (init first value) accesses = some s) :
    s.wild = false ∧ s.popped <+: s.pushed.map Prod.snd ∧
      ∀ p, of p s.called = of p s.pushed ++ inHand (s.pushing p) := by
  obtain ⟨es, h⟩ := inv_run hrun
  obtain ⟨gone, hpushed, hgone⟩ := h.log
  refine ⟨h.safe, ⟨es.map Entry.value, ?_⟩, h.calls⟩
  rw [hpushed, List.map_append, hgone, List.map_map]
  rfl

omit [DecidableEq P] in
theorem look_eq {n : Node α} (hidle : s.popping = .idle) (hn : s.heap s.tail = some n) :
    s.look = some { s with popping := n.next.elim .idle (.found s.tail) } := by
  rw [look, hidle, hn]

omit [DecidableEq P] in
theorem move_eq {t b : ℕ} {n : Node α} (hfound : s.popping = .found t b) (hn : s.heap b = some n) :
    s.move = some { s with tail := b, popping := .moved t, popped := s.popped ++ [n.value] } := by
  rw [move, hfound]
  simp only [hn]

omit [DecidableEq P] in
theorem free_eq {t : ℕ} {n : Node α} (hmoved : s.popping = .moved t) (hn : s.heap t = some n) :
    s.free = some { s with heap := Function.update s.heap t none, popping := .idle } := by
  rw [free, hmoved]
  simp only [hn]

/-- **What an empty answer means.** `Pop` gives nothing exactly if all that is pushed is popped, or
the producer of the next value is behind its exchange and has still to link its node to the tail. -/
theorem look_eq_none_iff (hrun : Run.steps step (init first value) accesses = some s)
    (hidle : s.popping = .idle) :
    ∃ s', s.look = some s' ∧ (s'.popping = .idle ↔ s.popped = s.pushed.map Prod.snd ∨
      ∃ p v a, s.pushed[s.popped.length]? = some (p, v) ∧ s.pushing p = .swapped s.tail a) := by
  obtain ⟨es, h⟩ := inv_run hrun
  obtain ⟨n, hn⟩ := h.chained.allocated List.mem_cons_self
  obtain ⟨gone, hpushed, hgone⟩ := h.log
  refine ⟨_, look_eq hidle hn, ?_⟩
  change n.next.elim Popping.idle (Popping.found s.tail) = .idle ↔ _
  have hlen : s.popped.length = gone.length := by rw [← hgone, List.length_map]
  have hnext : nextOf s.heap s.tail = some n.next := by rw [nextOf, hn, Option.map_some]
  have hchained := h.chained
  cases es with
  | nil =>
    rw [hchained.1] at hnext
    rw [← Option.some.inj hnext, hpushed, List.map_nil, List.append_nil]
    exact ⟨fun _ => .inl hgone.symm, fun _ => rfl⟩
  | cons e es =>
    have hall : s.popped ≠ s.pushed.map Prod.snd := by
      rw [hpushed, List.map_append, hgone, ne_eq, List.self_eq_append_right]
      exact List.cons_ne_nil _ _
    have hat : s.pushed[s.popped.length]? = some (e.owner, e.value) := by
      rw [hpushed, hlen, List.getElem?_append_right (Nat.le_refl _), Nat.sub_self]
      rfl
    rw [hchained.1] at hnext
    cases hl : e.linked with
    | false =>
      rw [hl] at hnext
      rw [← Option.some.inj hnext]
      exact ⟨fun _ => .inr ⟨e.owner, e.value, e.node, hat, hchained.2.1 hl⟩, fun _ => rfl⟩
    | true =>
      rw [hl] at hnext
      rw [← Option.some.inj hnext]
      refine ⟨fun heq => (by cases heq), fun hor => ?_⟩
      obtain hdone | ⟨p, v, a, hp, hswapped⟩ := hor
      · exact absurd hdone hall
      · -- the owner of a node that is linked is not about to link it
        obtain ⟨e', he', -, hl', ho⟩ := h.swapped p s.tail a hswapped
        obtain ⟨y, -, hy, hnone⟩ := h.chained.owner_swapped he' hl'
        rw [ho, hswapped] at hy
        obtain rfl := (Pushing.swapped.inj hy).1
        have hsome := hchained.1
        rw [hnone, hl] at hsome
        cases hsome

/-- One `Pop`, of a node that is linked. -/
theorem pop_one {e : Entry P α} {es : List (Entry P α)} (h : Inv s (e :: es)) (hidle : s.popping = .idle)
    (hl : e.linked = true) :
    ∃ s', Run.steps step s [.look, .move, .free] = some s' ∧ Inv s' es ∧ s'.popping = .idle ∧
      s'.pushing = s.pushing ∧ s'.pushed = s.pushed ∧ s'.popped = s.popped ++ [e.value] := by
  obtain ⟨n, hn⟩ := h.chained.allocated List.mem_cons_self
  obtain ⟨m, hm⟩ := h.chained.2.2.allocated List.mem_cons_self
  have hnext : n.next = some e.node := by
    have hnext := h.chained.1
    rw [nextOf, hn, hl] at hnext
    exact Option.some.inj hnext
  have hvalue : m.value = e.value := by
    have hvalue := h.values e List.mem_cons_self
    rw [valueOf, hm] at hvalue
    exact Option.some.inj hvalue
  have hlook := look_eq hidle hn
  rw [hnext] at hlook
  have hinv₁ := inv_look h hlook
  have hmove := @move_eq P α { s with popping := .found s.tail e.node } s.tail e.node m rfl hm
  obtain ⟨e', es', heq, hinv₂⟩ := inv_move hinv₁ hmove
  obtain ⟨rfl, rfl⟩ := List.cons.inj heq
  have hfree := @free_eq P α { s with
    tail := e.node, popping := .moved s.tail, popped := s.popped ++ [m.value] } s.tail n rfl hn
  refine ⟨_, ?_, inv_free hinv₂ hfree, rfl, rfl, rfl, by rw [hvalue]⟩
  have hcompose : ∀ {a b c d : Mpsc P α}, a.look = some b → b.move = some c → c.free = some d →
      Run.steps step a [.look, .move, .free] = some d := by
    intro a b c d hab hbc hcd
    change (a.look.bind fun s => s.move.bind fun s => s.free.bind some) = _
    rw [hab, Option.bind_some, hbc, Option.bind_some, hcd, Option.bind_some]
  exact hcompose hlook hmove hfree

/-- **Nothing is lost.** Where no producer is between its exchange and its link, as many calls of
`Pop` as there are values give them all, one after the other. -/
theorem pop_all (hrun : Run.steps step (init first value) accesses = some s) (hidle : s.popping = .idle)
    (hlinked : ∀ p y a, s.pushing p ≠ .swapped y a) :
    ∃ s', Run.steps step s (List.replicate (s.pushed.length - s.popped.length) [.look, .move,
      .free]).flatten =
      some s' ∧ s'.pushed = s.pushed ∧ s'.popped = s.pushed.map Prod.snd := by
  obtain ⟨es, h⟩ := inv_run hrun
  have hlen : s.pushed.length - s.popped.length = es.length := by
    obtain ⟨gone, hpushed, hgone⟩ := h.log
    rw [hpushed, ← hgone, List.length_append, List.length_map, List.length_map, Nat.add_sub_cancel_left]
  rw [hlen]
  clear hlen hrun
  induction es generalizing s with
  | nil =>
    obtain ⟨gone, hpushed, hgone⟩ := h.log
    exact ⟨s, rfl, rfl, by rw [hpushed, List.map_nil, List.append_nil, hgone]⟩
  | cons e es ih =>
    have hl : e.linked = true := by
      by_contra hne
      obtain ⟨y, hy⟩ := h.owner List.mem_cons_self (Bool.not_eq_true _ ▸ hne)
      exact hlinked _ _ _ hy
    obtain ⟨s₁, hsteps, hinv, hidle₁, hpushing, hpushed, -⟩ := pop_one h hidle hl
    obtain ⟨s', hmore, hpushed', hpopped'⟩ := ih hidle₁ (by rwa [hpushing]) hinv
    refine ⟨s', ?_, hpushed'.trans hpushed, by rw [hpopped', hpushed]⟩
    rw [List.length_cons, List.replicate_succ, List.flatten_cons, Run.steps_append, hsteps]
    exact hmore

/-- Two threads, of which the second links first, and one `Pop`. -/
def twoThreads : List (Access Bool ℕ) :=
  [.make true 1 7, .make false 2 8, .swap true, .swap false, .link false, .look, .link true, .look, .move, .free]

theorem twoThreads_possible : ∃ s, Run.steps step (init 0 0) twoThreads = some s ∧ s.popping = .idle ∧
    s.pushing true = .idle ∧ s.pushing false = .idle :=
  ⟨_, rfl, rfl, rfl, rfl⟩

theorem run_fifo_twoThreads : ∃ s, Run.steps step (init 0 0) twoThreads = some s ∧ s.wild = false ∧
    s.popped <+: s.pushed.map Prod.snd ∧ ∀ p, of p s.called = of p s.pushed ++ inHand (s.pushing p) :=
  twoThreads_possible.imp fun _ h => ⟨h.1, run_fifo h.1⟩

theorem pop_all_twoThreads : ∃ s s', Run.steps step (init 0 0) twoThreads = some s ∧
    Run.steps step s (List.replicate (s.pushed.length - s.popped.length) [.look, .move, .free]).flatten = some s' ∧
      s'.pushed = s.pushed ∧ s'.popped = s.pushed.map Prod.snd := by
  obtain ⟨s, hs, hidle, htrue, hfalse⟩ := twoThreads_possible
  have hlinked : ∀ p y a, s.pushing p ≠ .swapped y a := by
    intro p y a hp
    cases p with
    | true =>
      rw [htrue] at hp
      cases hp
    | false =>
      rw [hfalse] at hp
      cases hp
  obtain ⟨s', h⟩ := pop_all hs hidle hlinked
  exact ⟨s, s', hs, h⟩

end Runs

end Mpsc

end Channel
end Comms
