import Comms.Channel.Pipeline
import Comms.Lib.Prog

/-!
# Events in a pipeline

`SendUpstream` and `SendDownstream` of `all_includes.hpp` and `channel_pipeline.cpp`: an event goes
from context to context until a handler takes it, and that handler may send others, up or down from
where it stands, or from an end of the pipeline. What is sent down past the first context falls to
`EventSunk`.

* `Pipeline.send` — from the source, over the contexts in the heap;
* `deliver` — the same over the list of handlers, of which some are passed and some ahead;
* `At` — a context of the pipeline and its place in the list;
* `send_eq` — handlers that do anything get the same events, in the same order, and the same
  results;
* `run_sent` — so it is after every run of the calls that build a pipeline.
-/

namespace Comms
namespace Channel

inductive Direction
  | upstream
  | downstream
deriving DecidableEq

/-- What the body of a handler calls: `ctx.SendUpstream`, `ctx.SendDownstream`, the functions of
`channel_helper.hpp` that send from the ends of the pipeline, and anything else. -/
inductive Call (E O : Type)
  | sendUpstream (e : E)
  | sendDownstream (e : E)
  | fire (e : E)
  | write (e : E)
  | other (o : O)

/-- What a call returns. -/
def Call.Res {E O : Type} (R : O → Type) : Call E O → Type
  | other o => R o
  | _ => Bool

/-- A handler. It takes the events of states and errors, and the messages of its type. -/
structure EventHandler (E O : Type) (R : O → Type) where
  canHandle : Direction → Bool
  accepts : Direction → E → Bool
  handleStreamEvent : Direction → E → Prog (Call E O) (Call.Res R) Bool

/-- All that is outside of the pipeline. -/
structure Outside (E O : Type) (R : O → Type) (σ : Type) where
  other : (o : O) → σ → R o × σ
  eventSunk : E → σ → Bool × σ

variable {E O : Type} {R : O → Type} {σ : Type}

instance channelHandlerEvents : ChannelHandler (EventHandler E O R) where
  canHandleUpstream h := h.canHandle .upstream
  canHandleDownstream h := h.canHandle .downstream

/-- Why there is no result: a null or freed context is used, or the calls are too deep. -/
inductive Stop
  | dangling
  | deep
deriving DecidableEq

namespace HandlerContext

variable {H : Type}

def canHandle (c : HandlerContext H) : Direction → Bool
  | .upstream => c.canHandleUpstream
  | .downstream => c.canHandleDownstream

/-- `GetNext` on the way up, `GetPrev` on the way down. -/
def link (c : HandlerContext H) : Direction → Option Ptr
  | .upstream => c.next
  | .downstream => c.prev

end HandlerContext

namespace Pipeline

/-- `GetActualUpstreamContext` and `GetActualDownstreamContext`. -/
def getActualContext {H : Type} (s : Pipeline H) (d : Direction) :
    ℕ → Option Ptr → Except Stop (Option Ptr)
  | 0, _ => .error .deep
  | _ + 1, none => .ok none
  | n + 1, some p =>
    match s.heap p with
    | none => .error .dangling
    | some c => if c.canHandle d then .ok (some p) else s.getActualContext d n (c.link d)

/-- The context that takes an event: one whose handler is of another type sends it on. -/
def receiver (s : Pipeline (EventHandler E O R)) (d : Direction) (e : E) (walk : ℕ) :
    ℕ → Option Ptr → Except Stop (Option (HandlerContext (EventHandler E O R)))
  | 0, _ => .error .deep
  | n + 1, start =>
    (s.getActualContext d walk start).bind fun
      | none => .ok none
      | some p =>
        match s.heap p with
        | none => .error .dangling
        | some c =>
          if c.handler.accepts d e then .ok (some c) else s.receiver d e walk n (c.link d)

/-- Nobody takes the event. -/
def unhandled (w : Outside E O R σ) : Direction → E → σ → Bool × σ
  | .upstream, _, x => (false, x)
  | .downstream, e, x => w.eventSunk e x

/-- `SendUpstream` and `SendDownstream`, from the context `start`. Handlers may call each other for
ever, hence `depth`. -/
def send (s : Pipeline (EventHandler E O R)) (w : Outside E O R σ) (walk : ℕ) :
    ℕ → Direction → Option Ptr → E → σ → Except Stop (Bool × σ)
  | 0, _, _, _, _ => .error .deep
  | depth + 1, d, start, e, x =>
    (s.receiver d e walk walk start).bind fun
      | none => .ok (unhandled w d e x)
      | some c =>
        (c.handler.handleStreamEvent d e).exec (fun
          | .sendUpstream e', x => s.send w walk depth .upstream c.next e' x
          | .sendDownstream e', x => s.send w walk depth .downstream c.prev e' x
          | .fire e', x => s.send w walk depth .upstream s.head e' x
          | .write e', x => s.send w walk depth .downstream s.tail e' x
          | .other o, x => .ok (w.other o x)) x

end Pipeline

/-! ### The list of handlers -/

/-- The first handler ahead that takes the event, what is behind it then and what is ahead of it. -/
def firstOf (d : Direction) (e : E) : List (EventHandler E O R) → List (EventHandler E O R) →
    Option (List (EventHandler E O R) × EventHandler E O R × List (EventHandler E O R))
  | _, [] => none
  | passed, h :: ahead =>
    if h.canHandle d && h.accepts d e then some (passed, h, ahead) else firstOf d e (h :: passed) ahead

/-- **What becomes of an event** that has the handlers `ahead` before it and has come past those of
`passed`, the last one first. -/
def deliver (w : Outside E O R σ) (hs : List (EventHandler E O R)) :
    ℕ → Direction → List (EventHandler E O R) → List (EventHandler E O R) → E → σ →
      Except Stop (Bool × σ)
  | 0, _, _, _, _, _ => .error .deep
  | depth + 1, d, passed, ahead, e, x =>
    match firstOf d e passed ahead with
    | none => .ok (Pipeline.unhandled w d e x)
    | some (passed, h, ahead) =>
      let go (d' : Direction) (e' : E) (x : σ) :=
        if d' = d then deliver w hs depth d' (h :: passed) ahead e' x
        else deliver w hs depth d' (h :: ahead) passed e' x
      (h.handleStreamEvent d e).exec (fun
        | .sendUpstream e', x => go .upstream e' x
        | .sendDownstream e', x => go .downstream e' x
        | .fire e', x => deliver w hs depth .upstream [] hs e' x
        | .write e', x => deliver w hs depth .downstream [] hs.reverse e' x
        | .other o, x => .ok (w.other o x)) x

/-! ### Contexts and places -/

namespace Pipeline

variable {s : Pipeline (EventHandler E O R)} {cs : List (Ptr × String × EventHandler E O R)}
  {d : Direction} {start : Option Ptr} {passed ahead : List (EventHandler E O R)} {e : E} {x : σ}
  {h : EventHandler E O R} {w : Outside E O R σ} {n m walk depth : ℕ}

/-- **The place** between two contexts, or at an end: the next one from here on is `start`. -/
def At (cs : List (Ptr × String × EventHandler E O R)) (d : Direction) (start : Option Ptr)
    (passed ahead : List (EventHandler E O R)) : Prop :=
  ∃ l r, cs = l ++ r ∧ match d with
    | .upstream => start = (r.map Prod.fst).head? ∧ passed = (l.map (·.2.2)).reverse ∧
        ahead = r.map (·.2.2)
    | .downstream => start = (l.map Prod.fst).getLast? ∧ passed = r.map (·.2.2) ∧
        ahead = (l.map (·.2.2)).reverse

theorem at_head (hs : s.Holds cs) : At cs .upstream s.head [] (cs.map (·.2.2)) :=
  ⟨[], cs, rfl, hs.head, rfl, rfl⟩

theorem at_tail (hs : s.Holds cs) : At cs .downstream s.tail [] (cs.map (·.2.2)).reverse :=
  ⟨cs, [], (List.append_nil cs).symm, hs.tail, rfl, rfl⟩

theorem At.length_le (hat : At cs d start passed ahead) : ahead.length ≤ cs.length := by
  obtain ⟨l, r, rfl, hplace⟩ := hat
  cases d with
  | upstream =>
    obtain ⟨-, -, rfl⟩ := hplace
    simp
  | downstream =>
    obtain ⟨-, -, rfl⟩ := hplace
    simp

theorem At.nil (hat : At cs d start passed []) : start = none := by
  obtain ⟨l, r, rfl, hplace⟩ := hat
  cases d with
  | upstream =>
    obtain ⟨rfl, -, hr⟩ := hplace
    rw [List.map_eq_nil_iff.mp hr.symm]
    rfl
  | downstream =>
    obtain ⟨rfl, -, hl⟩ := hplace
    rw [List.map_eq_nil_iff.mp (List.reverse_eq_nil_iff.mp hl.symm)]
    rfl

/-- What is behind and ahead of a handler, for an event that it sends itself. -/
def Beside (cs : List (Ptr × String × EventHandler E O R)) (d : Direction)
    (c : HandlerContext (EventHandler E O R)) (passed ahead : List (EventHandler E O R)) : Prop :=
  ∀ d', if d' = d then At cs d' (c.link d') (c.handler :: passed) ahead
    else At cs d' (c.link d') (c.handler :: ahead) passed

theorem beside_of_at {c : HandlerContext (EventHandler E O R)}
    (hup : At cs .upstream c.next (c.handler :: passed) ahead)
    (hdown : At cs .downstream c.prev (c.handler :: ahead) passed) :
    Beside cs .upstream c passed ahead ∧ Beside cs .downstream c ahead passed := by
  constructor
  all_goals
    intro d'
    cases d' with
    | upstream => exact hup
    | downstream => exact hdown

/-- The next context. -/
theorem At.cons (hs : s.Holds cs) (hat : At cs d start passed (h :: ahead)) :
    ∃ p c, start = some p ∧ s.heap p = some c ∧ c.handler = h ∧ c.canHandle d = h.canHandle d ∧
      Beside cs d c passed ahead := by
  obtain ⟨l, r, rfl, hplace⟩ := hat
  cases d with
  | upstream =>
    obtain ⟨rfl, rfl, hr⟩ := hplace
    cases r with
    | nil => cases hr
    | cons c r =>
      obtain ⟨rfl, rfl⟩ := List.cons.inj hr
      refine ⟨c.1, _, rfl, hs.heap_eq, rfl, rfl, (beside_of_at ⟨l ++ [c], r, ?_, rfl, ?_, rfl⟩
        ⟨l, c :: r, rfl, rfl, rfl, rfl⟩).1⟩
      · rw [List.append_assoc, List.singleton_append]
      · rw [List.map_append, List.reverse_append]
        rfl
  | downstream =>
    obtain ⟨rfl, rfl, hl⟩ := hplace
    obtain rfl | ⟨l, c, rfl⟩ := List.eq_nil_or_concat' l
    · cases hl
    · rw [List.map_append, List.reverse_append] at hl
      obtain ⟨rfl, rfl⟩ := List.cons.inj hl
      rw [List.append_assoc] at hs
      refine ⟨c.1, _, ?_, hs.heap_eq, rfl, rfl, (beside_of_at ⟨l ++ [c], r, rfl, rfl, ?_, rfl⟩
        ⟨l, c :: r, ?_, rfl, rfl, rfl⟩).2⟩
      · rw [List.map_append]
        exact List.getLast?_concat
      · rw [List.map_append, List.reverse_append]
        rfl
      · rw [List.append_assoc, List.singleton_append]

theorem getActualContext_some {p : Ptr} {c : HandlerContext (EventHandler E O R)}
    (hp : s.heap p = some c) : s.getActualContext d (n + 1) (some p) =
      if c.canHandle d then .ok (some p) else s.getActualContext d n (c.link d) := by
  rw [getActualContext, hp]

/-- The loop comes to its end within the list. -/
theorem getActualContext_congr (hs : s.Holds cs) (hat : At cs d start passed ahead)
    (hn : ahead.length < n) (hm : ahead.length < m) :
    s.getActualContext d n start = s.getActualContext d m start := by
  -- each round of the loop goes past one handler
  induction ahead generalizing start passed n m with
  | nil =>
    obtain ⟨n, rfl⟩ := Nat.exists_eq_succ_of_ne_zero (Nat.ne_zero_of_lt hn)
    obtain ⟨m, rfl⟩ := Nat.exists_eq_succ_of_ne_zero (Nat.ne_zero_of_lt hm)
    rw [hat.nil]
    rfl
  | cons h ahead ih =>
    obtain ⟨n, rfl⟩ := Nat.exists_eq_succ_of_ne_zero (Nat.ne_zero_of_lt hn)
    obtain ⟨m, rfl⟩ := Nat.exists_eq_succ_of_ne_zero (Nat.ne_zero_of_lt hm)
    obtain ⟨p, c, rfl, hp, -, -, hbeside⟩ := hat.cons hs
    rw [getActualContext_some hp, getActualContext_some hp,
      ih ((if_pos rfl).mp (hbeside d)) (Nat.lt_of_succ_lt_succ hn) (Nat.lt_of_succ_lt_succ hm)]

/-- The context that takes the event, and the handler that takes it. -/
def Receives (cs : List (Ptr × String × EventHandler E O R)) (d : Direction) :
    Option (HandlerContext (EventHandler E O R)) →
    Option (List (EventHandler E O R) × EventHandler E O R × List (EventHandler E O R)) → Prop
  | none, none => True
  | some c, some (passed, h, ahead) => c.handler = h ∧ Beside cs d c passed ahead
  | _, _ => False

theorem receiver_eq (hs : s.Holds cs) (hat : At cs d start passed ahead) (hn : ahead.length < n)
    (hwalk : ahead.length < walk) : ∃ oc, s.receiver d e walk n start = .ok oc ∧
      Receives cs d oc (firstOf d e passed ahead) := by
  induction ahead generalizing start passed n with
  | nil =>
    obtain ⟨n, rfl⟩ := Nat.exists_eq_succ_of_ne_zero (Nat.ne_zero_of_lt hn)
    obtain ⟨walk, rfl⟩ := Nat.exists_eq_succ_of_ne_zero (Nat.ne_zero_of_lt hwalk)
    rw [hat.nil]
    exact ⟨none, rfl, trivial⟩
  | cons h ahead ih =>
    obtain ⟨n, rfl⟩ := Nat.exists_eq_succ_of_ne_zero (Nat.ne_zero_of_lt hn)
    obtain ⟨p, c, rfl, hp, rfl, hcan, hbeside⟩ := hat.cons hs
    have hat' := (if_pos rfl).mp (hbeside d)
    have hlt : ahead.length < walk := Nat.lt_of_succ_lt hwalk
    obtain ⟨walk, rfl⟩ := Nat.exists_eq_succ_of_ne_zero (Nat.ne_zero_of_lt hwalk)
    by_cases hh : c.handler.canHandle d = true
    · have hactual : s.getActualContext d (walk + 1) (some p) = .ok (some p) := by
        rw [getActualContext_some hp, hcan, if_pos hh]
      rw [receiver, hactual]
      dsimp only [Except.bind]
      rw [hp]
      dsimp only
      cases haccepts : c.handler.accepts d e with
      | true =>
        rw [if_pos rfl, firstOf, if_pos (by rw [hh, haccepts]; rfl)]
        exact ⟨some c, rfl, rfl, hbeside⟩
      | false =>
        rw [if_neg Bool.false_ne_true, firstOf, if_neg (by rw [haccepts, Bool.and_false]; decide)]
        exact ih hat' (Nat.lt_of_succ_lt_succ hn) hlt
    · -- it is no handler for this direction: the loop of `getActualContext` goes past it
      have hactual : s.getActualContext d (walk + 1) (some p) =
          s.getActualContext d (walk + 1) (c.link d) := by
        rw [getActualContext_some hp, hcan, if_neg hh]
        exact getActualContext_congr hs hat' (Nat.lt_of_succ_lt_succ hwalk) hlt
      have hsame : s.receiver d e (walk + 1) (n + 1) (some p) =
          s.receiver d e (walk + 1) (n + 1) (c.link d) := by
        rw [receiver, receiver, hactual]
      rw [hsame, firstOf, if_neg (by simp [hh])]
      exact ih hat' (Nat.lt_of_succ_lt hn) hlt

/-- **The contexts and the list.** Whatever the handlers are and do with an event, they get the same
events, one after the other, and what comes back is the same. -/
theorem send_eq (hs : s.Holds cs) (hwalk : cs.length < walk) (hat : At cs d start passed ahead) :
    s.send w walk depth d start e x = deliver w (cs.map (·.2.2)) depth d passed ahead e x := by
  -- an event that a handler sends is one call deeper, at the place of this handler
  induction depth generalizing d start passed ahead e x with
  | zero => rfl
  | succ depth ih =>
    have hlt := Nat.lt_of_le_of_lt hat.length_le hwalk
    obtain ⟨oc, hoc, hreceives⟩ := receiver_eq (e := e) hs hat hlt hlt
    rw [send, deliver, hoc]
    dsimp only [Except.bind]
    generalize hfirst : firstOf d e passed ahead = first at hreceives
    cases oc with
    | none =>
      cases first with
      | none => rfl
      | some f => exact hreceives.elim
    | some c =>
      cases first with
      | none => exact hreceives.elim
      | some f =>
        obtain ⟨passed', h, ahead'⟩ := f
        obtain ⟨rfl, hbeside⟩ := hreceives
        refine congrArg (fun calls => (c.handler.handleStreamEvent d e).exec calls x) ?_
        funext call x
        cases call with
        | sendUpstream e' =>
          have hup := hbeside .upstream
          dsimp only
          split_ifs at hup ⊢ with hd
          · exact ih hup
          · exact ih hup
        | sendDownstream e' =>
          have hdown := hbeside .downstream
          dsimp only
          split_ifs at hdown ⊢ with hd
          · exact ih hdown
          · exact ih hdown
        | fire e' => exact ih (at_head hs)
        | write e' => exact ih (at_tail hs)
        | other o => rfl

/-- The list has no context that could be gone. -/
theorem deliver_ne_dangling (w : Outside E O R σ) (hs : List (EventHandler E O R)) :
    deliver w hs depth d passed ahead e x ≠ .error .dangling := by
  induction depth generalizing d passed ahead e x with
  | zero => exact nofun
  | succ depth ih =>
    rw [deliver]
    cases firstOf d e passed ahead with
    | none => exact nofun
    | some f =>
      refine Prog.exec_ne_error (fun call x => ?_) _ x
      cases call with
      | sendUpstream e' =>
        dsimp only
        split_ifs
        · exact ih
        · exact ih
      | sendDownstream e' =>
        dsimp only
        split_ifs
        · exact ih
        · exact ih
      | fire e' => exact ih
      | write e' => exact ih
      | other o => exact nofun

/-- **After every run** of the calls that build a pipeline, an event from either end goes through
the handlers that the list has then, in its order or backwards, and no context that it meets is
gone. -/
theorem run_sent {as : List (PipelineAct (EventHandler E O R))} {hs : List (EventHandler E O R)}
    (hfresh : Run.Along step Fresh (empty, []) as)
    (hhs : (as.foldl Chain.step ([], [])).1.map Prod.snd = hs) (w : Outside E O R σ)
    (hwalk : hs.length < walk) : ∃ s, Run.steps step (empty, []) as = some s ∧ ∀ depth e x,
      s.1.send w walk depth .upstream s.1.head e x = deliver w hs depth .upstream [] hs e x ∧
      s.1.send w walk depth .downstream s.1.tail e x =
        deliver w hs depth .downstream [] hs.reverse e x ∧
      s.1.send w walk depth .upstream s.1.head e x ≠ .error .dangling ∧
      s.1.send w walk depth .downstream s.1.tail e x ≠ .error .dangling := by
  obtain ⟨s, hrun, ⟨cs, hholds, hchain⟩, -⟩ :=
    run_refines (t := ([], [])) ⟨⟨[], holds_empty, rfl⟩, rfl⟩ hfresh
  have hcs : cs.map (·.2.2) = hs := by
    rw [← hhs, ← hchain, List.map_map]
    rfl
  have hlength : cs.length < walk := by rwa [← hcs, List.length_map] at hwalk
  refine ⟨s, hrun, fun depth e x => ?_⟩
  have hup : s.1.send w walk depth .upstream s.1.head e x =
      deliver w (cs.map (·.2.2)) depth .upstream [] (cs.map (·.2.2)) e x :=
    send_eq hholds hlength (at_head hholds)
  have hdown : s.1.send w walk depth .downstream s.1.tail e x =
      deliver w (cs.map (·.2.2)) depth .downstream [] (cs.map (·.2.2)).reverse e x :=
    send_eq hholds hlength (at_tail hholds)
  rw [hcs] at hup hdown
  rw [hup, hdown]
  exact ⟨rfl, rfl, deliver_ne_dangling w hs, deliver_ne_dangling w hs⟩

end Pipeline

/-! ### The pipeline of a connection -/

inductive ServerEvent
  | bytes
  | command
  | reply
deriving DecidableEq

/-- Two commands in what was received. -/
def decoder : EventHandler ServerEvent Empty fun _ => Unit where
  canHandle d := d = .upstream
  accepts d e := d = .upstream ∧ e = .bytes
  handleStreamEvent _ _ :=
    .call (.sendUpstream .command) fun _ => .call (.sendUpstream .command) fun _ => .pure true

def encoder : EventHandler ServerEvent Empty fun _ => Unit where
  canHandle d := d = .downstream
  accepts d e := d = .downstream ∧ e = .reply
  handleStreamEvent _ _ := .call (.sendDownstream .bytes) .pure

def requestHandler : EventHandler ServerEvent Empty fun _ => Unit where
  canHandle d := d = .upstream
  accepts d e := d = .upstream ∧ e = .command
  handleStreamEvent _ _ := .call (.write .reply) fun _ => .pure true

/-- What is written to the socket. -/
def socket : Outside ServerEvent Empty (fun _ => Unit) (List ServerEvent) where
  other o _ := o.elim
  eventSunk e written := (true, written ++ [e])

def connection : List (PipelineAct (EventHandler ServerEvent Empty fun _ => Unit)) :=
  [.addLast "decoder" decoder (some 1), .addLast "encoder" encoder (some 2),
    .addLast "handler" requestHandler (some 3)]

/-- Both replies go out through the encoder. -/
theorem Pipeline.run_sent_connection : ∃ s, Run.steps step (empty, []) connection = some s ∧
    s.1.send socket 4 4 .upstream s.1.head .bytes [] = .ok (true, [.bytes, .bytes]) := by
  obtain ⟨s, hrun, hsent⟩ := @run_sent _ _ _ _ 4 connection [decoder, encoder, requestHandler]
    (by decide) rfl socket (by decide)
  exact ⟨s, hrun, (hsent 4 .bytes []).1.trans rfl⟩

end Channel
end Comms
