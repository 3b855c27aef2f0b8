import Comms.Channel.MpscQueue

/-!
# Callbacks from other threads

`AsyncIO` of `channel_service.cpp`: any thread leaves a callback in the queue of a loop, and writes
a soft signal into its pipe; the loop reads the signals, and for one of this kind it runs the
callbacks until the queue gives no more. The pipe does not block: a signal that it has no room for
is lost.

* `Service`, `Service.step` — from the source, over the queue of `Comms.Channel.MpscQueue`;
* `Service.Inv`, `Service.inv_step` — a callback that the queue could give has a signal on its way,
  unless that was lost where there was no other;
* `Service.ran_prefix` — callbacks are run once, in the order they came to the queue;
* `Service.all_run` — where the threads have come to rest, all have been run.
-/

namespace Comms
namespace Channel

/-- `ChannelAsyncIOContext`; the channel is found by its id when the callback runs. -/
structure IoContext (Callback Data : Type) where
  channelId : UInt32
  cb : Option Callback
  data : Data

/-- What is written to the pipe of a loop. -/
inductive Signal
  | channelRemove (id : UInt32)
  | wakeup
  | userDefined (ev : UInt32)
  | channelAsyncIo
deriving DecidableEq

variable {P Callback Data : Type}

/-- A loop, its queue and its pipe. `pending` are signals that are read and not handled, `draining`
is the `while` loop over the queue, `firing` a thread between `Push` and `FireSoftSignal`. -/
structure Service (P Callback Data : Type) where
  queue : Mpsc P (IoContext Callback Data)
  firing : P → Bool
  capacity : ℕ
  pipe : List Signal
  pending : List Signal
  draining : Bool
  ran : List (IoContext Callback Data)

inductive Act (P Callback Data : Type)
  | make (p : P) (node : ℕ) (ctx : IoContext Callback Data)
  | swap (p : P)
  | link (p : P)
  /-- `FireSoftSignal(CHANNEL_ASNC_IO, 1)`. -/
  | fire (p : P)
  /-- Any thread, any signal. -/
  | signal (sig : Signal)
  /-- The loop reads `n` signals. -/
  | receive (n : ℕ)
  /-- `OnSoftSignal`. -/
  | handle
  | look
  | move
  /-- `Pop` ends, and the callback runs. -/
  | free

namespace Service

/-- `::write` of a signal: all of it, or nothing. -/
def write (sig : Signal) (s : Service P Callback Data) : Service P Callback Data :=
  if s.pipe.length < s.capacity then { s with pipe := s.pipe ++ [sig] } else s

def init (first : ℕ) (unset : IoContext Callback Data) (capacity : ℕ) : Service P Callback Data where
  queue := .init first unset
  firing _ := false
  capacity := capacity
  pipe := []
  pending := []
  draining := false
  ran := []

variable [DecidableEq P]

/-- One step of one thread. -/
def step (s : Service P Callback Data) : Act P Callback Data → Option (Service P Callback Data)
  | .make p node ctx =>
    if s.firing p then none else (s.queue.make p node ctx).map fun queue => { s with queue }
  | .swap p => (s.queue.swap p).map fun queue => { s with queue }
  | .link p =>
    (s.queue.link p).map fun queue => { s with queue, firing := Function.update s.firing p true }
  | .fire p =>
    if s.firing p then some { s.write .channelAsyncIo with firing := Function.update s.firing p false }
    else none
  | .signal sig => some (s.write sig)
  | .receive n => some { s with pipe := s.pipe.drop n, pending := s.pending ++ s.pipe.take n }
  | .handle =>
    if s.draining then none
    else match s.pending with
      | [] => none
      | sig :: pending => some { s with pending, draining := sig = .channelAsyncIo }
  | .look =>
    if s.draining then (s.queue.look).map fun queue => { s with
      queue, draining := match queue.popping with
        | .idle => false
        | _ => true }
    else none
  | .move => if s.draining then (s.queue.move).map fun queue => { s with queue } else none
  | .free =>
    if s.draining then (s.queue.free).map fun queue => { s with
      queue, ran := s.ran ++ queue.popped.getLast?.toList.filter (·.cb.isSome) }
    else none

/-- A signal that the loop has still to come to. -/
def Signalled (s : Service P Callback Data) : Prop := .channelAsyncIo ∈ s.pending ++ s.pipe

/-- A signal for the queue is only lost where another is on its way. -/
def Harmless (s : Service P Callback Data) : Act P Callback Data → Prop
  | .fire _ => s.pipe.length < s.capacity ∨ s.Signalled ∨ s.draining = true
  | _ => True

/-! ### The invariant -/

/-- The callbacks of the values that `Pop` has given; one that it is about to give has still to run.
-/
def Ran (popped ran : List (IoContext Callback Data)) : Popping → Prop
  | .moved _ => ∃ vs v, popped = vs ++ [v] ∧ ran = vs.filter (·.cb.isSome)
  | _ => ran = popped.filter (·.cb.isSome)

/-- The queue is sound, `Pop` is only called by the loop, and the callbacks are those of what it has
given. -/
structure Inv (s : Service P Callback Data) (es : List (Entry P (IoContext Callback Data))) : Prop where
  queue : s.queue.Inv es
  rest : s.draining = false → s.queue.popping = .idle
  ran : Ran s.queue.popped s.ran s.queue.popping

/-- **Awake.** If the queue could give a callback, the loop is about to look, or a thread is about
to send a signal. -/
def Awake (s : Service P Callback Data) (es : List (Entry P (IoContext Callback Data))) : Prop :=
  (∃ e es', es = e :: es' ∧ e.linked = true) →
    s.draining = true ∨ s.Signalled ∨ (∃ p, s.firing p = true) ∨ ∃ p y a, s.queue.pushing p = .swapped y a

section Queue

omit [DecidableEq P] in
theorem signalled_write {s : Service P Callback Data} (sig : Signal) (h : s.Signalled) :
    (s.write sig).Signalled := by
  rw [write]
  split
  · obtain hin | hin := List.mem_append.mp h
    · exact List.mem_append_left _ hin
    · exact List.mem_append_right _ (List.mem_append_left _ hin)
  · exact h

variable {q q' : Mpsc P (IoContext Callback Data)} {p : P} {es : List (Entry P (IoContext Callback Data))}

/-- What a call of `Push` leaves alone. -/
theorem make_keeps {node : ℕ} {ctx : IoContext Callback Data} (h : q.make p node ctx = some q') :
    q'.popping = q.popping ∧ q'.popped = q.popped ∧
      ∀ r y a, q.pushing r = .swapped y a → q'.pushing r = .swapped y a := by
  rw [Mpsc.make] at h
  split at h
  swap
  · cases h
  next hidle hfree =>
  obtain rfl := Option.some.inj h
  refine ⟨rfl, rfl, fun r y a hr => (Function.update_of_ne ?_ _ _).trans hr⟩
  rintro rfl
  rw [hidle] at hr
  cases hr

theorem swap_keeps (h : q.swap p = some q') :
    q'.popping = q.popping ∧ q'.popped = q.popped ∧ ∃ y a, q'.pushing p = .swapped y a := by
  rw [Mpsc.swap] at h
  split at h
  swap
  · cases h
  next a v hmade =>
  obtain rfl := Option.some.inj h
  exact ⟨rfl, rfl, q.head, a, Function.update_self _ _ _⟩

theorem link_keeps (h : q.link p = some q') : q'.popping = q.popping ∧ q'.popped = q.popped := by
  rw [Mpsc.link] at h
  split at h
  swap
  · cases h
  split at h <;> obtain rfl := Option.some.inj h <;> exact ⟨rfl, rfl⟩

theorem look_keeps (hinv : q.Inv es) (h : q.look = some q') :
    q.popping = .idle ∧ q'.popped = q.popped ∧ q'.pushing = q.pushing ∧ (∀ t, q'.popping ≠ .moved t) ∧
      ∀ e es', es = e :: es' → e.linked = true → q'.popping ≠ .idle := by
  have hidle : q.popping = .idle := by
    rw [Mpsc.look] at h
    cases hp : q.popping <;> rw [hp] at h
    · cases h
    · cases h
  obtain ⟨n, hn⟩ := hinv.chained.allocated List.mem_cons_self
  rw [Mpsc.look_eq hidle hn] at h
  obtain rfl := Option.some.inj h
  refine ⟨hidle, rfl, rfl, fun t ht => ?_, ?_⟩
  · change n.next.elim _ _ = _ at ht
    cases hnext : n.next <;> rw [hnext] at ht <;> cases ht
  · rintro e es' rfl hl ht
    have hnext := hinv.chained.1
    rw [nextOf, hn, hl, Option.map_some] at hnext
    change n.next.elim _ _ = _ at ht
    rw [Option.some.inj hnext] at ht
    cases ht

omit [DecidableEq P] in
theorem move_keeps (h : q.move = some q') (hsafe : q'.wild = false) :
    (∃ t b, q.popping = .found t b) ∧ (∃ t, q'.popping = .moved t) ∧ ∃ v, q'.popped =
      q.popped ++ [v] := by
  rw [Mpsc.move] at h
  split at h
  swap
  · cases h
  next t b hfound =>
  split at h <;> obtain rfl := Option.some.inj h
  · exact ⟨⟨t, b, hfound⟩, ⟨t, rfl⟩, _, rfl⟩
  · cases hsafe

omit [DecidableEq P] in
theorem free_keeps (h : q.free = some q') (hsafe : q'.wild = false) :
    (∃ t, q.popping = .moved t) ∧ q'.popping = .idle ∧ q'.popped = q.popped := by
  rw [Mpsc.free] at h
  split at h
  swap
  · cases h
  next t hmoved =>
  split at h <;> obtain rfl := Option.some.inj h
  · exact ⟨⟨t, hmoved⟩, rfl, rfl⟩
  · cases hsafe

end Queue

section Steps

variable {s s' : Service P Callback Data} {es : List (Entry P (IoContext Callback Data))} {p : P}

/-- An access of a producer. -/
theorem Inv.push {es' : List (Entry P (IoContext Callback Data))} {q : Mpsc P (IoContext Callback Data)}
    (h : s.Inv es) (hq : q.Inv es') (hpopping : q.popping = s.queue.popping) (hpopped : q.popped =
      s.queue.popped)
    (firing : P → Bool) : Inv { s with queue := q, firing } es' where
  queue := hq
  rest hd := hpopping.trans (h.rest hd)
  ran := by
    change Ran q.popped s.ran q.popping
    rw [hpopping, hpopped]
    exact h.ran

omit [DecidableEq P] in
/-- A write only changes the pipe. -/
theorem write_same (sig : Signal) (s : Service P Callback Data) :
    ∃ pipe, s.write sig = { s with pipe } := by
  rw [write]
  split
  · exact ⟨_, rfl⟩
  · exact ⟨s.pipe, rfl⟩

theorem inv_fire (h : s.Inv es) (hs : s.step (.fire p) = some s') :
    s'.Inv es ∧ (s.Harmless (.fire p) → s'.Awake es) := by
  rw [step] at hs
  split at hs
  swap
  · cases hs
  obtain rfl := Option.some.inj hs
  obtain ⟨pipe, hpipe⟩ := write_same .channelAsyncIo s
  have hsig : s.pipe.length < s.capacity ∨ s.Signalled → (s.write .channelAsyncIo).Signalled := by
    rintro (hroom | hsig)
    · rw [write, if_pos hroom]
      exact List.mem_append_right _ (List.mem_append_right _ (List.mem_singleton_self _))
    · exact signalled_write .channelAsyncIo hsig
  rw [hpipe] at hsig ⊢
  refine ⟨⟨h.queue, h.rest, h.ran⟩, fun hharmless _ => ?_⟩
  rcases hharmless with hroom | hin | hd
  · exact .inr (.inl (hsig (.inl hroom)))
  · exact .inr (.inl (hsig (.inr hin)))
  · exact .inl hd

omit [DecidableEq P] in
/-- A change of the pipe, or of what is read from it, that loses no signal. -/
theorem Awake.mono (h : s.Awake es) (hq : s'.queue = s.queue) (hf : s'.firing = s.firing)
    (hsig : s.draining = true ∨ s.Signalled → s'.draining = true ∨ s'.Signalled) : s'.Awake es := by
  intro hfirst
  rw [hq, hf, ← or_assoc]
  rcases h hfirst with hd | hin | hrest
  · exact .inl (hsig (.inl hd))
  · exact .inl (hsig (.inr hin))
  · exact .inr hrest

theorem inv_handle (h : s.Inv es) (hs : s.step .handle = some s') :
    s'.Inv es ∧ (s.Awake es → s'.Awake es) := by
  rw [step] at hs
  split at hs
  · cases hs
  next hdraining =>
  split at hs
  · cases hs
  next sig pending hpending =>
  obtain rfl := Option.some.inj hs
  refine ⟨⟨h.queue, fun _ => h.rest (Bool.not_eq_true _ ▸ hdraining), h.ran⟩, fun hawake => ?_⟩
  refine hawake.mono rfl rfl ?_
  rintro (hd | hsig)
  · exact absurd hd hdraining
  · rw [Signalled, hpending] at hsig
    rcases List.mem_cons.mp hsig with heq | hin
    · exact .inl (decide_eq_true heq.symm)
    · exact .inr hin

theorem inv_look (h : s.Inv es) (hs : s.step .look = some s') : s'.Inv es ∧ (s.Awake es →
    s'.Awake es) := by
  rw [step] at hs
  split at hs
  swap
  · cases hs
  next hdraining =>
  obtain ⟨q, hq, rfl⟩ := Option.map_eq_some_iff.mp hs
  obtain ⟨hidle, hpopped, hpushing, hmoved, hfound⟩ := look_keeps h.queue hq
  have hran := h.ran
  rw [hidle] at hran
  refine ⟨⟨Mpsc.inv_look h.queue hq, fun hd => ?_, ?_⟩, fun _ hfirst => ?_⟩
  · change q.popping = .idle
    cases hp : q.popping with
    | idle => rfl
    | found t b | moved t =>
      dsimp only at hd
      rw [hp] at hd
      cases hd
  · change Ran q.popped s.ran q.popping
    rw [hpopped]
    cases hp : q.popping with
    | idle | found t b => exact hran
    | moved t => exact absurd hp (hmoved t)
  · -- a value that is linked is found
    obtain ⟨e, es', heq, hl⟩ := hfirst
    refine .inl ?_
    dsimp only
    cases hp : q.popping with
    | idle => exact absurd hp (hfound e es' heq hl)
    | found t b | moved t => rfl

theorem inv_move (h : s.Inv es) (hs : s.step .move = some s') : ∃ es', s'.Inv es' ∧ s'.Awake es' := by
  rw [step] at hs
  split at hs
  swap
  · cases hs
  next hdraining =>
  obtain ⟨q, hq, rfl⟩ := Option.map_eq_some_iff.mp hs
  obtain ⟨e, es', -, hinv⟩ := Mpsc.inv_move h.queue hq
  obtain ⟨⟨t, b, hfound⟩, ⟨t', hmoved⟩, v, hpopped⟩ := move_keeps hq hinv.safe
  have hran := h.ran
  rw [hfound] at hran
  refine ⟨es', ⟨hinv, fun hd => absurd hdraining (Bool.eq_false_iff.mp hd), ?_⟩, fun _ => .inl hdraining⟩
  change Ran q.popped s.ran q.popping
  rw [hmoved]
  exact ⟨s.queue.popped, v, hpopped, hran⟩

theorem inv_free (h : s.Inv es) (hs : s.step .free = some s') : s'.Inv es ∧ s'.Awake es := by
  rw [step] at hs
  split at hs
  swap
  · cases hs
  next hdraining =>
  obtain ⟨q, hq, rfl⟩ := Option.map_eq_some_iff.mp hs
  have hinv := Mpsc.inv_free h.queue hq
  obtain ⟨⟨t, hmoved⟩, hidle, hpopped⟩ := free_keeps hq hinv.safe
  have hran := h.ran
  rw [hmoved] at hran
  obtain ⟨vs, v, hvs, hran⟩ := hran
  refine ⟨⟨hinv, fun _ => hidle, ?_⟩, fun _ => .inl hdraining⟩
  change Ran q.popped (s.ran ++ q.popped.getLast?.toList.filter (·.cb.isSome)) q.popping
  rw [hidle, hpopped, hvs, hran, List.getLast?_concat]
  exact (List.filter_append _ _).symm

/-- **Every step** keeps the invariant, and no callback is left behind by a step that is harmless.
-/
theorem inv_step {act : Act P Callback Data} (h : s.Inv es) (hs : s.step act = some s') :
    ∃ es', s'.Inv es' ∧ (s.Harmless act → s.Awake es → s'.Awake es') := by
  cases act with
  | make p node ctx =>
    rw [step] at hs
    split at hs
    · cases hs
    obtain ⟨q, hq, rfl⟩ := Option.map_eq_some_iff.mp hs
    obtain ⟨hpopping, hpopped, hswapped⟩ := make_keeps hq
    refine ⟨es, h.push (Mpsc.inv_make h.queue hq) hpopping hpopped s.firing, fun _ hawake hfirst => ?_⟩
    rcases hawake hfirst with hd | hsig | hf | ⟨r, y, a, hr⟩
    · exact .inl hd
    · exact .inr (.inl hsig)
    · exact .inr (.inr (.inl hf))
    · exact .inr (.inr (.inr ⟨r, y, a, hswapped r y a hr⟩))
  | swap p =>
    obtain ⟨q, hq, rfl⟩ := Option.map_eq_some_iff.mp hs
    obtain ⟨hpopping, hpopped, y, a, hswapped⟩ := swap_keeps hq
    obtain ⟨e, hinv⟩ := Mpsc.inv_swap h.queue hq
    exact ⟨_, h.push hinv hpopping hpopped s.firing, fun _ _ _ => .inr (.inr (.inr ⟨p, y, a, hswapped⟩))⟩
  | link p =>
    obtain ⟨q, hq, rfl⟩ := Option.map_eq_some_iff.mp hs
    obtain ⟨hpopping, hpopped⟩ := link_keeps hq
    obtain ⟨a, hinv⟩ := Mpsc.inv_link h.queue hq
    refine ⟨_, h.push hinv hpopping hpopped (Function.update s.firing p true), fun _ _ _ => ?_⟩
    exact .inr (.inr (.inl ⟨p, Function.update_self _ _ _⟩))
  | fire p =>
    obtain ⟨hinv, hawake⟩ := inv_fire h hs
    exact ⟨es, hinv, fun hharmless _ => hawake hharmless⟩
  | signal sig =>
    obtain rfl := Option.some.inj hs
    obtain ⟨pipe, hpipe⟩ := write_same sig s
    have hsig := @signalled_write P Callback Data s sig
    rw [hpipe] at hsig ⊢
    exact ⟨es, ⟨h.queue, h.rest, h.ran⟩, fun _ hawake => hawake.mono rfl rfl (Or.imp_right hsig)⟩
  | receive n =>
    obtain rfl := Option.some.inj hs
    refine ⟨es, ⟨h.queue, h.rest, h.ran⟩,
      fun _ hawake => hawake.mono rfl rfl (Or.imp_right fun hsig => ?_)⟩
    rw [Signalled, List.append_assoc, List.take_append_drop]
    exact hsig
  | handle =>
    obtain ⟨hinv, hawake⟩ := inv_handle h hs
    exact ⟨es, hinv, fun _ => hawake⟩
  | look =>
    obtain ⟨hinv, hawake⟩ := inv_look h hs
    exact ⟨es, hinv, fun _ => hawake⟩
  | move =>
    obtain ⟨es', hinv, hawake⟩ := inv_move h hs
    exact ⟨es', hinv, fun _ _ => hawake⟩
  | free =>
    obtain ⟨hinv, hawake⟩ := inv_free h hs
    exact ⟨es, hinv, fun _ _ => hawake⟩

end Steps

/-! ### Runs -/

section Runs

variable {first capacity : ℕ} {unset : IoContext Callback Data} {acts : List (Act P Callback Data)}
  {s : Service P Callback Data}

theorem inv_init : Inv (init first unset capacity : Service P Callback Data) [] where
  queue := Mpsc.inv_init first unset
  rest _ := rfl
  ran := rfl

/-- **Once, and in order.** In every run, the callbacks that have run are the first of those that
came to the queue, in the order of the exchanges. -/
theorem ran_prefix (hrun : Run.steps step (init first unset capacity) acts = some s) :
    s.ran <+: (s.queue.pushed.map Prod.snd).filter (·.cb.isSome) := by
  have hinv := @Run.preserved _ _ (step (P := P)) (fun s : Service P Callback Data => ∃ es, Inv s es)
    (fun s act s' ⟨es, h⟩ hs => (inv_step h hs).imp fun _ h => h.1) _ _ _ ⟨[], inv_init⟩ hrun
  obtain ⟨es, h⟩ := hinv
  obtain ⟨gone, hpushed, hgone⟩ := h.queue.log
  have hpopped : s.queue.popped <+: s.queue.pushed.map Prod.snd := by
    rw [hpushed, List.map_append, hgone]
    exact List.prefix_append _ _
  have hran := h.ran
  cases hp : s.queue.popping with
  | idle | found t b =>
    rw [hp] at hran
    rw [show s.ran = s.queue.popped.filter (·.cb.isSome) from hran]
    exact hpopped.filter _
  | moved t =>
    rw [hp] at hran
    obtain ⟨vs, v, hvs, hran⟩ := hran
    rw [hran]
    exact ((List.prefix_append vs [v]).trans (hvs ▸ hpopped)).filter _

/-- **No callback is left behind.** In every run in which a signal for the queue is only lost where
another is on its way, when no thread is in `AsyncIO`, and the loop has no signal to read or to
handle and is not at the queue, the callbacks of all calls have run, and those of each thread in the
order of its calls. -/
theorem all_run (hrun : Run.steps step (init first unset capacity) acts = some s)
    (hharmless : Run.Along step Harmless (init first unset capacity) acts)
    (hthreads : ∀ p, s.queue.pushing p = .idle ∧ s.firing p = false)
    (hloop : s.pipe = [] ∧ s.pending = [] ∧ s.draining = false) :
    s.ran = (s.queue.pushed.map Prod.snd).filter (·.cb.isSome) ∧ ∀ p, of p s.queue.pushed =
        of p s.queue.called := by
  have hinv := @Run.invariant _ _ (step (P := P)) (fun s : Service P Callback Data => ∃ es, Inv s es ∧
    Awake s es)
    Harmless (fun s act s' ⟨es, h, hawake⟩ hok hs => (inv_step h hs).imp fun _ h => ⟨h.1,
        h.2 hok hawake⟩) _ _ _
    ⟨[], inv_init, fun ⟨e, es', heq, _⟩ => by cases heq⟩ hharmless hrun
  obtain ⟨es, h, hawake⟩ := hinv
  obtain ⟨hpipe, hpending, hdraining⟩ := hloop
  -- a value in the queue would be linked, and a signal on its way
  have hempty : es = [] := by
    cases hes : es with
    | nil => rfl
    | cons e es' =>
      subst hes
      have hl : e.linked = true := by
        by_contra hne
        obtain ⟨y, hy⟩ := h.queue.owner List.mem_cons_self (Bool.not_eq_true _ ▸ hne)
        rw [(hthreads e.owner).1] at hy
        cases hy
      rcases hawake ⟨e, es', rfl, hl⟩ with hd | hsig | ⟨p, hp⟩ | ⟨p, y, a, hp⟩
      · rw [hdraining] at hd
        cases hd
      · rw [Signalled, hpipe, hpending] at hsig
        cases hsig
      · rw [(hthreads p).2] at hp
        cases hp
      · rw [(hthreads p).1] at hp
        cases hp
  subst hempty
  obtain ⟨gone, hpushed, hgone⟩ := h.queue.log
  have hran := h.ran
  rw [h.rest hdraining] at hran
  refine ⟨?_, fun p => ?_⟩
  · rw [hpushed, List.map_nil, List.append_nil, hgone]
    exact hran
  · rw [h.queue.calls p, (hthreads p).1]
    exact (List.append_nil _).symm

omit [DecidableEq P] in
/-- Whether a step is harmless can be seen. -/
instance decidableHarmless (s : Service P Callback Data)
    (act : Act P Callback Data) : Decidable (Harmless s act) :=
  match act with
  | .fire _ => inferInstanceAs (Decidable (_ < _ ∨ Signal.channelAsyncIo ∈ _ ∨ _ = true))
  | .make _ _ _ | .swap _ | .link _ | .signal _ | .receive _ | .handle | .look | .move | .free => isTrue trivial

/-- One thread calls `AsyncIO`, and the loop does what it is told. -/
def oneCall : List (Act Unit ℕ ℕ) :=
  [.make () 1 ⟨5, some 7, 9⟩, .swap (), .link (), .fire (), .receive 1, .handle, .look, .move, .free,
      .look]

theorem all_run_oneCall :
    ∃ s, Run.steps step (init 0 ⟨0, none, 0⟩ 1) oneCall = some s ∧
      s.ran = (s.queue.pushed.map Prod.snd).filter (·.cb.isSome) ∧ ∀ p, of p s.queue.pushed =
          of p s.queue.called := by
  obtain ⟨s, hs⟩ : ∃ s, Run.steps step (init 0 ⟨0, none, 0⟩ 1) oneCall = some s :=
    Option.isSome_iff_exists.mp (by decide)
  have hrest : (Run.steps step (init 0 ⟨0, none, 0⟩ 1) oneCall).map
      (fun s => (s.queue.pushing (), s.firing (), s.pipe, s.pending, s.draining)) =
      some (.idle, false, [], [], false) := rfl
  rw [hs, Option.map_some] at hrest
  simp only [Option.some.injEq, Prod.mk.injEq] at hrest
  obtain ⟨hpushing, hfiring, hloop⟩ := hrest
  exact ⟨s, hs, all_run hs (by decide) (fun _ => ⟨hpushing, hfiring⟩) hloop⟩

/-- The pipe is full of another signal, and that for the queue is lost: the callback does not run.
-/
example : (Run.steps step (init 0 ⟨0, none, 0⟩ 1) (.signal .wakeup :: oneCall.take 6)).map
    (fun s => (s.ran.length, s.queue.pushed.length, s.pipe, s.pending, s.draining)) =
    some (0, 1, [], [], false) := by decide

end Runs

end Service

end Channel
end Comms
