import Comms.Client.BlockedClients

/-!
# One reply to a blocking command

A push queues a callback for every client that waits, and nothing takes a callback back: it may run when
its client has been answered, or waits for something else, or is gone. This module says when each
blocking command is still answered once, and by its own element.

* `Answered` — a history in which each command is answered before the next one is issued;
* `OneReply` — the histories of the clients are of this kind, and whoever has no answer waits for it;
* `Quiet` — a callback for a client that is not blocked on the key does nothing;
* `Orderly` — what a step needs for both;
* `Client.Stage` — what is known of a client by how far it has got;
* `oneReply_of_orderly` — every run of orderly steps has both.
-/

namespace Comms
namespace Blocking

variable {V Num C : Type}

/-! ### Answers -/

namespace BlockCall

def keys : BlockCall → List Bytes
  | .pop _ keys => keys
  | .move source _ => [source]

def lpop : BlockCall → Bool
  | .pop lpop _ => lpop
  | .move _ _ => false

def dest : BlockCall → Option Bytes
  | .pop _ _ => none
  | .move _ dest => some dest

/-- The command is answered by an element of one of its keys, from its end, that has gone to its
destination; or by nil, or by an error. -/
def AnsweredBy (call : BlockCall) : Option Popped → Reply Num → Prop
  | some p, reply => p.key ∈ call.keys ∧ p.lpop = call.lpop ∧ p.dest = call.dest ∧
    reply = match p.dest with
      | none => .array [.str p.key, .str p.value]
      | some _ => .str p.value
  | none, reply => reply = .nil ∨ ∃ text, reply = .error text

end BlockCall

/-- A history: each blocking command is answered once, before the next one is issued. The last one may
not have been answered yet. -/
inductive Answered : List (LogEntry Num) → Option BlockCall → Prop
  | nil : Answered [] none
  | issued {log : List (LogEntry Num)} (call : BlockCall) (h : Answered log none) :
    Answered (log ++ [.issued call]) (some call)
  | replied {log : List (LogEntry Num)} {call : BlockCall} {popped : Option Popped} {reply : Reply Num}
    (h : Answered log (some call)) (hreply : call.AnsweredBy popped reply) :
    Answered (log ++ [.replied popped reply]) none

namespace Client

variable (x : Client Num)

/-- The blocking command that has not been answered. -/
def pending : Option BlockCall :=
  match x.log.getLast? with
  | some (.issued call) => some call
  | _ => none

/-- The command is the frame itself, and does not come from an `EXEC` or a script. -/
def called : Bool :=
  match x.via with
  | some .call => true
  | _ => false

/-- The context is that of the call: whatever is popped for one of its keys answers the call. -/
structure Serves (call : BlockCall) : Prop where
  keys : ∀ p ∈ x.keys, p.2 ∈ call.keys
  lpop : x.getBlockContext.lpop = call.lpop
  pushKey : x.getBlockContext.pushKey = call.dest.getD []
  dest : call.dest ≠ some []

end Client

namespace Server

variable [DecidableEq C] (cfg : HandlerConfig) (kv : Kv V Num) (members : Option V → Option (List Bytes))

/-- **One reply.** Whoever has been answered is not blocked, and whoever has not is. -/
def OneReply (s : Server V Num C) : Prop :=
  s.fault = false ∧ ∀ c x, s.client c = some x → Answered x.log x.pending ∧
    (x.idle = true → (x.pending = none → x.keys = ∅) ∧ ∀ call, x.pending = some call → x.Serves call)

/-- The client is blocked on the key. -/
def BlockedOn (s : Server V Num C) (c : C) (key : Bytes) : Prop :=
  ∃ x ∈ s.client c, (x.currentDB, key) ∈ x.keys

instance (s : Server V Num C) (c : C) (key : Bytes) : Decidable (s.BlockedOn c key) :=
  inferInstanceAs (Decidable (∃ x ∈ s.client c, (x.currentDB, key) ∈ x.keys))

/-- **Nothing for others.** A callback that comes too late pops nothing and writes nothing. -/
def Quiet (s : Server V Num C) (ev : Event Num C) : Prop :=
  ∀ c key t, ev = .callback c key → s.step cfg kv ev = some t → ¬s.BlockedOn c key →
    t.store = s.store ∧ t.fault = false ∧
      (t.client c).map Client.log = (s.client c).map Client.log

/-- A blocking command is about to run: the one before it has been answered, and a `BRPOPLPUSH` that
blocks has a destination. -/
def OrderlyStart (s : Server V Num C) (x : Client Num) : Option (BlockCall × Bool) → Prop
  | some (.pop _ _, _) => x.pending = none
  | some (.move source dest, _) => x.pending = none ∧
    (s.lists members (x.currentDB, source) = some [] → dest ≠ [] ∧ x.called = true)
  | none => True

/-- A client goes on. A command that blocks has been called by the client itself. -/
def OrderlyRun (s : Server V Num C) (x : Client Num) : Phase → List (DataCommand × List Bytes) → Prop
  | .ready, (cmd, args) :: _ => s.OrderlyStart members x (BlockCall.of cmd args)
  | .popping _ _ _ [], _ => x.called = true
  | _, _ => True

/-- **When it works.** Blocking commands are not issued while another one waits for its answer, nor do they
block from within `EXEC` or a script. The context of a callback is there; if there is an element, the
client is blocked on the key, and nothing is left in its reply. -/
def Orderly (s : Server V Num C) : Event Num C → Prop
  | .run c => ∀ x ∈ s.client c, s.OrderlyRun members x x.phase x.todo
  | .callback c key => ∃ x ∈ s.client c,
    (s.lists members (x.currentDB, key)).getD [] = [] ∨
      (x.currentDB, key) ∈ x.keys ∧ (x.getBlockContext.pushKey = [] → x.elements.isEmpty = true)
  | _ => True

end Server

/-! ### What is known of a client -/

namespace Client

variable {x y : Client Num}

/-- The context is as new. -/
def Free (x : Client Num) : Prop := x.getBlockContext = .init

/-- Nothing is blocked, or the context is that of the command that has not been answered. -/
def Settled (x : Client Num) : Prop :=
  (x.pending = none ∧ x.Free) ∨ ∃ call, x.pending = some call ∧ x.Serves call

/-- What is known of a client by how far it has got. -/
def Stage (x : Client Num) : Prop :=
  match x.phase with
  | .ready | .waking _ => x.Settled
  | .popping lpop _ keys rest => x.pending = some (.pop lpop keys) ∧ x.Free ∧ rest ⊆ keys
  | .registering rest => ∃ call, x.pending = some call ∧ x.Serves call ∧ rest ⊆ call.keys ∧ x.called = true
  | .pushing key _ => ∃ call, x.pending = some call ∧ x.Serves call ∧ key ∈ call.keys ∧
    x.getBlockContext.pushKey ≠ []
  | .puttingBack _ _ err => err = .invalidType ∧ ∃ call, x.pending = some call ∧ x.Serves call

theorem pending_issued {log : List (LogEntry Num)} {call : BlockCall} (h : x.log = log ++ [.issued call]) :
    x.pending = some call := by
  rw [pending, h, List.getLast?_concat]

theorem pending_replied {log : List (LogEntry Num)} {popped : Option Popped} {reply : Reply Num}
    (h : x.log = log ++ [.replied popped reply]) : x.pending = none := by
  rw [pending, h, List.getLast?_concat]

theorem pending_congr (h : y.log = x.log) : y.pending = x.pending := by
  rw [pending, pending, h]

theorem Answered.pending_eq {p : Option BlockCall} (h : Answered x.log p) : x.pending = p := by
  generalize hlog : x.log = log at h
  cases h with
  | nil =>
    rw [pending, hlog]
    rfl
  | issued call _ => exact pending_issued hlog
  | replied _ _ => exact pending_replied hlog

theorem Serves.congr {call : BlockCall} (h : x.Serves call) (hblock : y.getBlockContext = x.getBlockContext) :
    y.Serves call where
  keys p hp := h.keys p (by rwa [Client.keys, ← hblock])
  lpop := hblock ▸ h.lpop
  pushKey := hblock ▸ h.pushKey
  dest := h.dest

theorem Settled.congr (h : x.Settled) (hlog : y.log = x.log)
    (hblock : y.getBlockContext = x.getBlockContext) : y.Settled := by
  obtain ⟨hpending, hfree⟩ | ⟨call, hpending, hserves⟩ := h
  · exact .inl ⟨(pending_congr hlog).trans hpending, hblock.trans hfree⟩
  · exact .inr ⟨call, (pending_congr hlog).trans hpending, hserves.congr hblock⟩

theorem Settled.free (h : x.Settled) (hpending : x.pending = none) : x.Free := by
  obtain ⟨-, hfree⟩ | ⟨call, hsome, -⟩ := h
  · exact hfree
  · exact nomatch hpending.symm.trans hsome

theorem keys_of_free (h : x.Free) : x.keys = ∅ := by
  rw [keys, show x.getBlockContext = .init from h]
  rfl

/-- Whoever is blocked waits for an answer. -/
theorem Settled.serves (h : x.Settled) {p : DBID × Bytes} (hp : p ∈ x.keys) :
    ∃ call, x.pending = some call ∧ x.Serves call := by
  obtain ⟨-, hfree⟩ | h := h
  · rw [keys_of_free hfree] at hp
    exact absurd hp (ListSet.notMem_empty p)
  · exact h

theorem phase_of_idle (h : x.idle = true) : x.phase = .ready :=
  of_decide_eq_true (Bool.and_eq_true_iff.mp h).2

theorem inExec_of_called (h : x.called = true) : x.inExec = false := by
  unfold called at h
  unfold inExec
  split at h
  next hvia => rw [hvia]; rfl
  next => cases h

/-- What is known of a client. -/
structure Good (x : Client Num) : Prop where
  answered : Answered x.log x.pending
  stage : x.Stage

theorem Good.settled (h : x.Good) (hphase : x.phase = .ready) : x.Settled := by
  have hstage := h.stage
  rw [Stage, hphase] at hstage
  exact hstage

/-- The history is the same, and so is the context. -/
theorem Good.of_settled (h : x.Good) (hx : x.Settled) (hlog : y.log = x.log)
    (hblock : y.getBlockContext = x.getBlockContext) (hphase : y.phase = .ready ∨ ∃ rest, y.phase = .waking rest) :
    y.Good where
  answered := by
    rw [pending_congr hlog, hlog]
    exact h.answered
  stage := by
    have hy := hx.congr hlog hblock
    unfold Stage
    obtain hphase | ⟨rest, hphase⟩ := hphase
    · rw [hphase]
      exact hy
    · rw [hphase]
      exact hy

theorem answered_issued {call : BlockCall} (h : Answered x.log x.pending) (hpending : x.pending = none)
    (hlog : y.log = x.log ++ [.issued call]) : Answered y.log y.pending := by
  rw [hpending] at h
  rw [pending_issued hlog, hlog]
  exact .issued call h

theorem answered_replied {call : BlockCall} {popped : Option Popped} {reply : Reply Num}
    (h : Answered x.log x.pending) (hpending : x.pending = some call)
    (hlog : y.log = x.log ++ [.replied popped reply]) (hreply : call.AnsweredBy popped reply) :
    Answered y.log y.pending := by
  rw [hpending] at h
  rw [pending_replied hlog, hlog]
  exact .replied h hreply

/-- A command that has not blocked is answered. -/
theorem Good.replied (h : x.Good) {call : BlockCall} (hpending : x.pending = some call) (hfree : y.Free)
    {popped : Option Popped} {reply : Reply Num} (hlog : y.log = x.log ++ [.replied popped reply])
    (hreply : call.AnsweredBy popped reply) (hphase : y.phase = .ready) : y.Good where
  answered := answered_replied h.answered hpending hlog hreply
  stage := by
    unfold Stage
    rw [hphase]
    exact .inl ⟨pending_replied hlog, hfree⟩

/-- A command is issued. -/
theorem Good.issued (h : x.Good) {call : BlockCall} (hpending : x.pending = none)
    (hlog : y.log = x.log ++ [.issued call]) (hstage : y.Stage) : y.Good where
  answered := answered_issued h.answered hpending hlog
  stage := hstage

/-- The history is the same. -/
theorem Good.of_stage (h : x.Good) (hlog : y.log = x.log) (hstage : y.Stage) : y.Good where
  answered := by
    rw [pending_congr hlog, hlog]
    exact h.answered
  stage := hstage

end Client

/-! ### The invariant -/

namespace Server

variable [DecidableEq C] {cfg : HandlerConfig} {kv : Kv V Num} {members : Option V → Option (List Bytes)}

/-- The contexts are good, and a timer is that of its client. -/
structure AnswerInv (s : Server V Num C) : Prop where
  fault : s.fault = false
  execKeys : s.execKeys = []
  good : ∀ c x, s.client c = some x → x.Good
  timer : ∀ id c, (id, c) ∈ s.timers → ∃ x, s.client c = some x ∧ x.getBlockContext.timer = some id

omit [DecidableEq C] in
theorem answerInv_init (store : Keyspace V) : AnswerInv (Server.init store : Server V Num C) where
  fault := rfl
  execKeys := rfl
  good _ _ h := nomatch h
  timer _ _ h := nomatch h

variable {s u : Server V Num C} {c : C} {x y : Client Num}

/-- The rest of the server is the same, as far as the invariant goes. -/
structure Rest (s u : Server V Num C) : Prop where
  client : u.client = s.client
  fault : u.fault = s.fault
  execKeys : u.execKeys = s.execKeys
  timers : ∀ t ∈ u.timers, t ∈ s.timers

theorem AnswerInv.put (h : s.AnswerInv) (hrest : s.Rest u) (hx : s.client c = some x) (hy : y.Good)
    (htimer : y.getBlockContext.timer = x.getBlockContext.timer) : (u.put c y).AnswerInv where
  fault := hrest.fault.trans h.fault
  execKeys := hrest.execKeys.trans h.execKeys
  good d z hz := by
    by_cases hd : d = c
    · subst hd
      obtain rfl := Option.some.inj (client_put.symm.trans hz)
      exact hy
    · rw [client_put_ne hd, hrest.client] at hz
      exact h.good d z hz
  timer id d hmem := by
    obtain ⟨z, hz, hid⟩ := h.timer id d (hrest.timers _ hmem)
    by_cases hd : d = c
    · subst hd
      obtain rfl := Option.some.inj (hx.symm.trans hz)
      exact ⟨y, client_put, htimer.trans hid⟩
    · exact ⟨z, by rw [client_put_ne hd, hrest.client, hz], hid⟩

/-- `ClearBlockKeys` cancels the timer. -/
theorem AnswerInv.timers_clear (h : s.AnswerInv) (hrest : s.Rest u) (hx : s.client c = some x)
    (hblock : y.getBlockContext = x.getBlockContext) {id : ℕ} {d : C}
    (hmem : (id, d) ∈ (u.clearBlockKeys c y).timers) : d ≠ c ∧ (id, d) ∈ s.timers := by
  have hid (hmem : (id, c) ∈ u.timers) : y.getBlockContext.timer = some id := by
    obtain ⟨z, hz, hid⟩ := h.timer id c (hrest.timers _ hmem)
    obtain rfl := Option.some.inj (hx.symm.trans hz)
    rw [hblock, hid]
  unfold clearBlockKeys at hmem
  split at hmem
  next hnone =>
    refine ⟨?_, hrest.timers _ hmem⟩
    rintro rfl
    have hid := hid hmem
    rw [Client.getBlockContext, hnone] at hid
    cases hid
  next b hb =>
    obtain ⟨hmem', hne⟩ := List.mem_filter.mp hmem
    refine ⟨?_, hrest.timers _ hmem'⟩
    rintro rfl
    have hid := hid hmem'
    rw [Client.getBlockContext, hb] at hid
    exact of_decide_eq_true hne hid

/-- A client that has been answered is not blocked any more. -/
theorem AnswerInv.clear (h : s.AnswerInv) (hrest : s.Rest u) (hx : s.client c = some x)
    (hblock : y.getBlockContext = x.getBlockContext) (hy : ({ y with block := none } : Client Num).Good) :
    (u.clearBlockKeys c y).AnswerInv where
  fault := fault_clearBlockKeys.trans (hrest.fault.trans h.fault)
  execKeys := execKeys_clearBlockKeys.trans (hrest.execKeys.trans h.execKeys)
  good d z hz := by
    by_cases hd : d = c
    · subst hd
      obtain rfl := Option.some.inj (client_clearBlockKeys.symm.trans hz)
      exact hy
    · rw [client_clearBlockKeys_ne hd, hrest.client] at hz
      exact h.good d z hz
  timer id d hmem := by
    obtain ⟨hd, hmem⟩ := h.timers_clear hrest hx hblock hmem
    obtain ⟨z, hz, hid⟩ := h.timer id d hmem
    exact ⟨z, by rw [client_clearBlockKeys_ne hd, hrest.client, hz], hid⟩

theorem AnswerInv.free (h : s.AnswerInv) (hx : s.client c = some x) : (s.free c x).AnswerInv where
  fault := fault_clearBlockKeys.trans h.fault
  execKeys := execKeys_clearBlockKeys.trans h.execKeys
  good d z hz := by
    by_cases hd : d = c
    · subst hd
      exact nomatch (Function.update_self ..).symm.trans hz
    · exact h.good d z ((onlyClient_free d hd).symm.trans hz)
  timer id d hmem := by
    obtain ⟨hd, hmem⟩ := h.timers_clear ⟨rfl, rfl, rfl, fun _ ht => ht⟩ hx rfl hmem
    obtain ⟨z, hz, hid⟩ := h.timer id d hmem
    exact ⟨z, (onlyClient_free d hd).trans hz, hid⟩

omit [DecidableEq C] in
/-- The store is another one. -/
theorem rest_store (st : Keyspace V) : s.Rest { s with store := st } where
  client := rfl
  fault := rfl
  execKeys := rfl
  timers _ h := h

omit [DecidableEq C] in
theorem rest_queue (h : s.Rest u) (queue : List (C × Bytes)) : s.Rest { u with queue := queue } where
  client := h.client
  fault := h.fault
  execKeys := h.execKeys
  timers := h.timers

/-! ### Steps -/

/-- `BLPop` and `BRPopLPush` block. -/
theorem AnswerInv.blockClient (h : s.AnswerInv) (hx : s.client c = some x) (hfree : x.Free) (hy : Answered y.log y.pending)
    (hblock : y.getBlockContext = x.getBlockContext) (hcalled : y.called = true) {call : BlockCall}
    (hpending : y.pending = some call) (hdest : call.dest ≠ some []) (timed : Bool) {pushKey : Option Bytes}
    (hpush : pushKey = call.dest) : (s.blockClient c y call.lpop timed pushKey call.keys).AnswerInv := by
  subst hpush
  have hinit : y.getBlockContext = .init := hblock.trans hfree
  unfold Server.blockClient
  rw [Client.inExec_of_called hcalled]
  dsimp only
  have hgood : ({ y with
      phase := .registering call.keys
      block := some { y.getBlockContext with
        lpop := call.lpop
        pushKey := call.dest.getD y.getBlockContext.pushKey
        timer := if timed then some s.nextTimer else y.getBlockContext.timer } } : Client Num).Good := by
    refine ⟨hy, call, hpending, ?_, List.Subset.refl _, hcalled⟩
    rw [hinit]
    exact ⟨fun p hp => absurd hp (ListSet.notMem_empty p), rfl, rfl, hdest⟩
  refine ⟨h.fault, h.execKeys, fun d z hz => ?_, fun id d hmem => ?_⟩
  · by_cases hd : d = c
    · subst hd
      obtain rfl := Option.some.inj (client_put.symm.trans hz)
      exact hgood
    · exact h.good d z ((client_put_ne hd).symm.trans hz)
  · by_cases hd : d = c
    · subst hd
      refine ⟨_, client_put, ?_⟩
      have hnone (hmem : (id, d) ∈ s.timers) : False := by
        obtain ⟨z, hz, hid⟩ := h.timer id d hmem
        obtain rfl := Option.some.inj (hx.symm.trans hz)
        rw [show x.getBlockContext = .init from hfree] at hid
        cases hid
      change (if timed then some s.nextTimer else y.getBlockContext.timer) = some id
      cases timed with
      | true =>
        obtain heq | hmem := List.mem_cons.mp hmem
        · exact congrArg some (Prod.mk.inj heq).1.symm
        · exact (hnone hmem).elim
      | false => exact (hnone hmem).elim
    · have hmem' : (id, d) ∈ s.timers := by
        cases timed with
        | true =>
          obtain heq | hmem := List.mem_cons.mp hmem
          · exact absurd (Prod.mk.inj heq).2 hd
          · exact hmem
        | false => exact hmem
      obtain ⟨z, hz, hid⟩ := h.timer id d hmem'
      exact ⟨z, (client_put_ne hd).trans hz, hid⟩

theorem AnswerInv.nextPop {t : Server V Num C} {lpop timed : Bool} {keys : List Bytes} {key : Bytes}
    {rest : List Bytes} (h : s.AnswerInv) (hx : s.client c = some x)
    (hphase : x.phase = .popping lpop timed keys (key :: rest))
    (hnext : NextPop members s c x lpop timed keys key rest t) : t.AnswerInv := by
  have hgood := h.good c x hx
  have hstage := hgood.stage
  rw [Client.Stage, hphase] at hstage
  obtain ⟨hpending, hfree, hrest⟩ := hstage
  have hkey : key ∈ keys := hrest List.mem_cons_self
  have hgo (y : Client Num) (hlog : y.log = x.log) (hblock : y.getBlockContext = x.getBlockContext)
      (hy : y.phase = .popping lpop timed keys rest) : y.Good := by
    refine hgood.of_stage hlog ?_
    rw [Client.Stage, hy]
    exact ⟨(Client.pending_congr hlog).trans hpending, hblock.trans hfree,
      fun k hk => hrest (List.mem_cons_of_mem _ hk)⟩
  cases hnext with
  | answered value l st hne before after =>
    refine h.put (rest_store st) hx ?_ rfl
    exact hgood.replied hpending hfree rfl ⟨hkey, rfl, rfl, rfl⟩ rfl
  | dropped l st before after => exact h.put (rest_store st) hx (hgo _ rfl rfl rfl) rfl
  | missing before => exact h.put (rest_store s.store) hx (hgo _ rfl rfl rfl) rfl
  | wrongType before =>
    refine h.put (rest_store s.store) hx ?_ rfl
    exact hgood.replied hpending hfree rfl (.inr ⟨_, rfl⟩) rfl

theorem AnswerInv.nextMove {t : Server V Num C} {timed : Bool} {source dest : Bytes} (h : s.AnswerInv)
    (hx : s.client c = some x) (hphase : x.phase = .ready) (hpending : x.pending = none)
    (hblock : y.getBlockContext = x.getBlockContext)
    (hlog : y.log = x.log ++ [.issued (.move source dest)])
    (hmissing : s.lists members (y.currentDB, source) = some [] → dest ≠ [] ∧ y.called = true)
    (hnext : NextMove members s c y timed source dest t) : t.AnswerInv := by
  have hgood := h.good c x hx
  have hfree := (hgood.settled hphase).free hpending
  have hissued : Answered y.log y.pending :=
    Client.answered_issued hgood.answered hpending hlog
  have hy := Client.pending_issued hlog
  have hreplied {z : Client Num} {popped : Option Popped} {reply : Reply Num}
      (hz : z.log = y.log ++ [.replied popped reply])
      (hreply : (BlockCall.move source dest).AnsweredBy popped reply) (hready : z.phase = .ready)
      (hblock' : z.getBlockContext = y.getBlockContext) : z.Good := by
    refine ⟨Client.answered_replied hissued hy hz hreply, ?_⟩
    rw [Client.Stage, hready]
    exact .inl ⟨Client.pending_replied hz, hblock'.trans (hblock.trans hfree)⟩
  cases hnext with
  | moved value l m st before dest_before after =>
    refine h.put (rest_store st) hx ?_ (congrArg BlockContext.timer hblock)
    exact hreplied rfl ⟨List.mem_singleton.mpr rfl, rfl, rfl, rfl⟩ rfl rfl
  | missing before =>
    obtain ⟨hdest, hcalled⟩ := hmissing before
    exact h.blockClient hx hfree hissued hblock hcalled hy (fun heq => hdest (Option.some.inj heq)) timed rfl
  | wrongType =>
    refine h.put (rest_store s.store) hx ?_ (congrArg BlockContext.timer hblock)
    exact hreplied rfl (.inr ⟨_, rfl⟩) rfl rfl

/-- The end of `WakeBlockedList`. -/
theorem AnswerInv.answerBlocked (h : s.AnswerInv) (hrest : s.Rest u) (hx : s.client c = some x) {call : BlockCall}
    (hpending : x.pending = some call) (hlog : y.log = x.log)
    (hblock : y.getBlockContext = x.getBlockContext) {popped : Option Popped} {reply : Reply Num}
    (hreply : call.AnsweredBy popped reply) : (u.answerBlocked c y popped reply).AnswerInv := by
  refine h.clear hrest hx hblock ?_
  refine (h.good c x hx).replied hpending rfl ?_ hreply rfl
  change y.log ++ _ = _
  rw [hlog]

theorem AnswerInv.nextPush {t : Server V Num C} {key value : Bytes} (h : s.AnswerInv) (hx : s.client c = some x)
    (hphase : x.phase = .pushing key value) (hnext : NextPush members s c x key value t) : t.AnswerInv := by
  have hgood := h.good c x hx
  have hstage := hgood.stage
  rw [Client.Stage, hphase] at hstage
  obtain ⟨call, hpending, hserves, hkey, hpush⟩ := hstage
  cases hnext with
  | pushed m st before after =>
    refine h.answerBlocked (rest_store st) hx hpending rfl rfl ⟨hkey, hserves.lpop, ?_, rfl⟩
    have hdest := hserves.pushKey
    cases hcall : call.dest with
    | none =>
      rw [hcall] at hdest
      exact absurd hdest hpush
    | some dest =>
      rw [hcall] at hdest
      exact congrArg some hdest
  | refused before =>
    refine h.put (rest_store s.store) hx (hgood.of_stage rfl ⟨rfl, call, hpending, ?_⟩) rfl
    exact hserves.congr rfl

theorem AnswerInv.nextBack {t : Server V Num C} {key value : Bytes} {err : KvErr} (h : s.AnswerInv)
    (hx : s.client c = some x) (hphase : x.phase = .puttingBack key value err)
    (hnext : NextBack members s c x key value err t) : t.AnswerInv := by
  have hstage := (h.good c x hx).stage
  rw [Client.Stage, hphase] at hstage
  obtain ⟨rfl, call, hpending, -⟩ := hstage
  cases hnext with
  | back l st before after =>
    exact h.answerBlocked (rest_store st) hx hpending rfl rfl (.inr ⟨_, rfl⟩)
  | lost before => exact h.answerBlocked (rest_store s.store) hx hpending rfl rfl (.inr ⟨_, rfl⟩)

theorem AnswerInv.nextWoken {t : Server V Num C} {queue : List (C × Bytes)} {key : Bytes} (h : s.AnswerInv)
    (hx : s.client c = some x) (hidle : x.idle = true)
    (horderly : (s.lists members (x.currentDB, key)).getD [] = [] ∨
      (x.currentDB, key) ∈ x.keys ∧ (x.getBlockContext.pushKey = [] → x.elements.isEmpty = true))
    (hnext : NextWoken members { s with queue := queue } c x key t) : t.AnswerInv := by
  have hgood := h.good c x hx
  have hphase := Client.phase_of_idle hidle
  have hsettled := hgood.settled hphase
  -- if there is an element, the client waits for it
  have hserves {value : Bytes} {left : Bool} {l : List Bytes}
      (before : s.lists members (x.currentDB, key) = some (atEnd left value l)) :
      (∃ call, x.pending = some call ∧ x.Serves call ∧ key ∈ call.keys) ∧
        (x.getBlockContext.pushKey = [] → x.elements = []) := by
    obtain hnil | ⟨hmem, helements⟩ := horderly
    · rw [before] at hnil
      exact (atEnd_ne_nil left value l hnil).elim
    · obtain ⟨call, hpending, hcall⟩ := hsettled.serves hmem
      exact ⟨⟨call, hpending, hcall, hcall.keys _ hmem⟩,
        fun hpush => List.isEmpty_iff.mp (helements hpush)⟩
  have hrest (st : Keyspace V) : s.Rest { s with store := st, queue := queue } :=
    rest_queue (rest_store st) queue
  have hsame (y : Client Num) (hlog : y.log = x.log) (hblock : y.getBlockContext = x.getBlockContext)
      (hy : y.phase = x.phase) : y.Good :=
    hgood.of_settled hsettled hlog hblock (.inl (hy.trans hphase))
  cases hnext with
  | answered value l st hne hpush before after =>
    obtain ⟨⟨call, hpending, hcall, hkey⟩, helements⟩ := hserves before
    -- without `push_key` the command is no `BRPOPLPUSH`
    have hdest : none = call.dest := by
      have hdest := hcall.pushKey
      cases hcases : call.dest with
      | none => rfl
      | some dest =>
        rw [hcases, hpush] at hdest
        exact absurd (hcases.trans (congrArg some hdest.symm)) hcall.dest
    have hreply : call.AnsweredBy (some ⟨key, value, x.getBlockContext.lpop, none⟩)
        (.array (x.elements ++ [Reply.str key, Reply.str value])) := by
      rw [helements hpush]
      exact ⟨hkey, hcall.lpop, hdest, rfl⟩
    refine h.answerBlocked (hrest st) hx hpending ?_ ?_ hreply
    · rfl
    · rfl
  | taken value l st hne hpush before after =>
    obtain ⟨⟨call, hpending, hcall, hkey⟩, -⟩ := hserves before
    refine h.put (hrest st) hx (hgood.of_stage rfl ?_) rfl
    exact ⟨call, hpending, hcall.congr rfl, hkey, hpush⟩
  | dropped l st before after => exact h.put (hrest st) hx (hsame _ rfl rfl rfl) rfl
  | nothing before => exact h.put (hrest s.store) hx (hsame _ rfl rfl rfl) rfl

theorem AnswerInv.run (hk : kv.Lawful) (hl : kv.ListLaws members) (h : s.AnswerInv) (hx : s.client c = some x)
    (horderly : s.OrderlyRun members x x.phase x.todo) : (s.run cfg kv c x).AnswerInv := by
  have hgood := h.good c x hx
  have hstage := hgood.stage
  unfold Server.run
  cases hphase : x.phase with
  | ready =>
    rw [hphase] at horderly
    have hsettled := hgood.settled hphase
    dsimp only
    cases htodo : x.todo with
    | nil =>
      refine h.put (rest_store s.store) hx ?_ rfl
      exact hgood.of_settled hsettled rfl rfl (.inl hphase)
    | cons head todo =>
      obtain ⟨cmd, args⟩ := head
      rw [htodo] at horderly
      change s.OrderlyStart members x (BlockCall.of cmd args) at horderly
      dsimp only
      cases hcall : BlockCall.of cmd args with
      | none =>
        refine h.put (rest_store _) hx ?_ rfl
        exact hgood.of_settled hsettled rfl rfl (.inr ⟨_, rfl⟩)
      | some start =>
        obtain ⟨call, timed⟩ := start
        rw [hcall] at horderly
        cases call with
        | pop lpop keys =>
          have hfree := hsettled.free horderly
          refine h.put (rest_store s.store) hx (hgood.issued horderly rfl ?_) rfl
          exact ⟨Client.pending_issued rfl, hfree, List.Subset.refl _⟩
        | move source dest =>
          change (s.popPush kv c _ timed source dest).AnswerInv
          refine h.nextMove hx hphase horderly.1 ?_ ?_ ?_ (Server.nextMove hk hl timed source dest)
          · rfl
          · rfl
          · exact horderly.2
  | popping lpop timed keys rest =>
    cases rest with
    | nil =>
      rw [Client.Stage, hphase] at hstage
      rw [hphase] at horderly
      exact h.blockClient hx hstage.2.1 hgood.answered rfl horderly hstage.1 (Option.some_ne_none _ ·.symm)
        timed rfl
    | cons key rest => exact h.nextPop hx hphase (Server.nextPop hk hl lpop timed keys key rest)
  | registering rest =>
    rw [Client.Stage, hphase] at hstage
    obtain ⟨call, hpending, hserves, hrest, hcalled⟩ := hstage
    cases rest with
    | nil =>
      refine h.put (rest_store s.store) hx ?_ rfl
      exact hgood.of_settled (.inr ⟨call, hpending, hserves⟩) rfl rfl (.inl rfl)
    | cons key rest =>
      dsimp only
      unfold addBlockKey
      rw [Client.inExec_of_called hcalled]
      refine h.put (u := { s with table := _ }) ⟨rfl, rfl, rfl, fun _ ht => ht⟩ hx (hgood.of_stage rfl ?_) rfl
      refine ⟨call, hpending, ⟨fun p hp => ?_, hserves.lpop, hserves.pushKey, hserves.dest⟩,
        fun k hk => hrest (List.mem_cons_of_mem _ hk), hcalled⟩
      obtain rfl | hp := ListSet.mem_insert.mp hp
      · exact hrest List.mem_cons_self
      · exact hserves.keys p hp
  | waking rest =>
    have hsettled : x.Settled := by
      rw [Client.Stage, hphase] at hstage
      exact hstage
    cases rest with
    | nil =>
      refine h.put (rest_store s.store) hx ?_ rfl
      exact hgood.of_settled hsettled rfl rfl (.inl rfl)
    | cons key rest =>
      dsimp only
      unfold wakeBlockingListsByKey
      rw [if_neg (by rw [h.execKeys]; exact List.not_mem_nil)]
      refine h.put (rest_queue (rest_store s.store) _) hx ?_ rfl
      exact hgood.of_settled hsettled rfl rfl (.inr ⟨_, rfl⟩)
  | pushing key value => exact h.nextPush hx hphase (Server.nextPush hk hl key value)
  | puttingBack key value err => exact h.nextBack hx hphase (Server.nextBack hk hl key value err)

theorem AnswerInv.step (hk : kv.Lawful) (hl : kv.ListLaws members) {t : Server V Num C} {ev : Event Num C}
    (h : s.AnswerInv) (horderly : s.Orderly members ev) (hstep : s.step cfg kv ev = some t) : t.AnswerInv := by
  cases (move_of_step hstep).2 with
  | connect c hc ht =>
    subst ht
    refine ⟨h.fault, h.execKeys, fun d z hz => ?_, fun id d hmem => ?_⟩
    · by_cases hd : d = c
      · subst hd
        obtain rfl := Option.some.inj (client_put.symm.trans hz)
        exact ⟨.nil, .inl ⟨rfl, rfl⟩⟩
      · exact h.good d z ((client_put_ne hd).symm.trans hz)
    · obtain ⟨z, hz, hid⟩ := h.timer id d hmem
      have hd : d ≠ c := by
        rintro rfl
        exact nomatch hc.symm.trans hz
      exact ⟨z, (client_put_ne hd).trans hz, hid⟩
  | disconnect c x hx hidle ht =>
    subst ht
    exact h.free hx
  | request c r x hx hidle ht =>
    subst ht
    have hphase := Client.phase_of_idle hidle
    refine h.put (rest_store s.store) hx ?_ rfl
    exact (h.good c x hx).of_settled ((h.good c x hx).settled hphase) rfl rfl (.inl hphase)
  | run c x hx hbusy ht =>
    subst ht
    exact h.run hk hl hx (horderly x hx)
  | callback c key x hqueue hx hidle ht =>
    subst ht
    obtain ⟨y, hy, horderly⟩ := horderly
    obtain rfl := Option.some.inj (hx.symm.trans hy)
    exact h.nextWoken hx hidle horderly (Server.nextWoken hk hl key)
  | timeout id c x htimer hx hidle ht =>
    subst ht
    have hgood := h.good c x hx
    have hphase := Client.phase_of_idle hidle
    obtain ⟨call, hpending⟩ : ∃ call, x.pending = some call := by
      obtain ⟨-, hfree⟩ | ⟨call, hpending, -⟩ := hgood.settled hphase
      · obtain ⟨z, hz, hid⟩ := h.timer id c htimer
        obtain rfl := Option.some.inj (hx.symm.trans hz)
        rw [show x.getBlockContext = .init from hfree] at hid
        cases hid
      · exact ⟨call, hpending⟩
    refine h.clear (u := { s with timers := _ }) ⟨rfl, rfl, rfl, fun _ ht => List.mem_of_mem_erase ht⟩ hx rfl ?_
    exact hgood.replied hpending rfl rfl (.inl rfl) hphase
  | lateCallback c key hqueue hc ht =>
    obtain ⟨x, hx, -⟩ := horderly
    exact nomatch hc.symm.trans hx
  | lateTimeout id c htimer hc ht =>
    obtain ⟨x, hx, -⟩ := h.timer id c htimer
    exact nomatch hc.symm.trans hx

omit [DecidableEq C] in
theorem AnswerInv.oneReply (h : s.AnswerInv) : s.OneReply := by
  refine ⟨h.fault, fun c x hx => ⟨(h.good c x hx).answered, fun hidle => ?_⟩⟩
  obtain ⟨hpending, hfree⟩ | ⟨call, hpending, hserves⟩ :=
    (h.good c x hx).settled (Client.phase_of_idle hidle)
  · exact ⟨fun _ => Client.keys_of_free hfree, fun call hcall => nomatch hpending.symm.trans hcall⟩
  · refine ⟨fun hnone => (nomatch hpending.symm.trans hnone), fun call' hcall => ?_⟩
    obtain rfl := Option.some.inj (hpending.symm.trans hcall)
    exact hserves

theorem quiet_of_orderly (hk : kv.Lawful) (hl : kv.ListLaws members) {ev : Event Num C}
    (h : s.Orderly members ev) : Quiet cfg kv s ev := by
  rintro c key t rfl hstep hblocked
  obtain ⟨x, hx, hnil | ⟨hmem, -⟩⟩ := h
  · obtain ⟨hfault, hmove⟩ := move_of_step hstep
    cases hmove with
    | callback _ _ y hqueue hy hidle ht =>
      obtain rfl := Option.some.inj (Eq.trans (Eq.symm hx) hy)
      subst ht
      have hnext := Server.nextWoken (s := { s with queue := s.queue.erase (c, key) }) (c := c) (x := x) hk hl
        key
      have hno {left : Bool} {value : Bytes} {l : List Bytes} : s.lists members (x.currentDB, key) ≠
          some (atEnd left value l) := by
        intro heq
        rw [heq] at hnil
        exact atEnd_ne_nil left value l hnil
      generalize Server.wakeBlockedList kv { s with queue := s.queue.erase (c, key) } c x key = t at hnext
      cases hnext with
      | answered value l st hne hpush before after => exact absurd before hno
      | taken value l st hne hpush before after => exact absurd before hno
      | dropped l st before after => exact absurd before hno
      | nothing before =>
        refine ⟨rfl, hfault, ?_⟩
        rw [client_put, hy]
        rfl
    | lateCallback _ _ hqueue hc ht => exact nomatch hc.symm.trans hx
  · exact (hblocked ⟨x, hx, hmem⟩).elim

end Server

/-! ### Runs -/

section Runs

variable [DecidableEq C] {cfg : HandlerConfig} {kv : Kv V Num} {members : Option V → Option (List Bytes)}

/-- **One reply.** Along a run of orderly steps every blocking command is answered once, by an element that
was popped for it, and a callback that comes too late does nothing. -/
theorem oneReply_of_orderly (hk : kv.Lawful) (hl : kv.ListLaws members) (store : Keyspace V)
    {evs : List (Server.Event Num C)}
    (h : Run.Along (Server.step cfg kv) (Server.Orderly members) (Server.init store) evs) :
    Run.Always (Server.step cfg kv) Server.OneReply (Server.init store) evs ∧
      Run.Along (Server.step cfg kv) (Server.Quiet cfg kv) (Server.init store) evs :=
  ⟨Run.always_of_invariant (fun _ _ _ hinv horderly hstep => hinv.step hk hl horderly hstep)
    (fun _ hinv => hinv.oneReply) (Server.answerInv_init store) h,
    h.mono fun _ _ horderly => Server.quiet_of_orderly hk hl horderly⟩

end Runs

/-! ### Two pushes -/

namespace Server

variable [DecidableEq C] (members : Option V → Option (List Bytes)) (s : Server V Num C)

instance decidableOrderlyStart (x : Client Num) :
    ∀ start, Decidable (s.OrderlyStart members x start)
  | some (.pop _ _, _) => inferInstanceAs (Decidable (x.pending = none))
  | some (.move source dest, _) => inferInstanceAs (Decidable (x.pending = none ∧
    (s.lists members (x.currentDB, source) = some [] → dest ≠ [] ∧ x.called = true)))
  | none => isTrue trivial

instance decidableOrderlyRun (x : Client Num) : ∀ phase todo, Decidable (s.OrderlyRun members x phase todo)
  | .ready, (cmd, args) :: _ => inferInstanceAs (Decidable (s.OrderlyStart members x (BlockCall.of cmd args)))
  | .popping _ _ _ [], _ => inferInstanceAs (Decidable (x.called = true))
  | .ready, [] | .popping _ _ _ (_ :: _), _ | .registering _, _ | .waking _, _ | .pushing _ _, _
  | .puttingBack _ _ _, _ => isTrue trivial

instance decidableOrderly : ∀ ev, Decidable (s.Orderly members ev)
  | .run c => inferInstanceAs (Decidable (∀ x ∈ s.client c, s.OrderlyRun members x x.phase x.todo))
  | .callback c key => inferInstanceAs (Decidable (∃ x ∈ s.client c,
    (s.lists members (x.currentDB, key)).getD [] = [] ∨
      (x.currentDB, key) ∈ x.keys ∧ (x.getBlockContext.pushKey = [] → x.elements.isEmpty = true)))
  | .connect _ | .disconnect _ | .request _ _ | .timeout _ _ => isTrue trivial

end Server

/-- `BLPOP a 0`, which blocks, two pushes by another client, and a callback for each. -/
def twoPushes (second : Bytes) : List (Server.Event ℤ Bool) :=
  [.connect true, .connect false, .request true (.command .blpop [[97], [48]])] ++
    List.replicate 6 (.run true) ++
    [.request false (.command .rpush [[97], [120]])] ++ List.replicate 4 (.run false) ++
    [.request false (.command .rpush [second, [121]])] ++ List.replicate 4 (.run false) ++
    [.callback true [97]]

/-- The second push is to another key. -/
theorem oneReply_of_orderly_other :
    Run.Always (Server.step ⟨16, []⟩ smallKv) Server.OneReply (Server.init fun _ _ => none) (twoPushes [98]) ∧
      Run.Along (Server.step ⟨16, []⟩ smallKv) (Server.Quiet ⟨16, []⟩ smallKv)
        (Server.init fun _ _ => none) (twoPushes [98]) :=
  oneReply_of_orderly smallKv_lawful smallKv_listLaws (fun _ _ => none) (by decide +kernel)

/-- Both pushes are to the key, and the second callback pops an element for a client that has been
answered. -/
theorem not_oneReply :
    ¬(Run.Always (Server.step ⟨16, []⟩ smallKv) Server.OneReply (Server.init fun _ _ => none)
        (twoPushes [97] ++ [.callback true [97]]) ∧
      Run.Along (Server.step ⟨16, []⟩ smallKv) (Server.Quiet ⟨16, []⟩ smallKv)
        (Server.init fun _ _ => none) (twoPushes [97] ++ [.callback true [97]])) := by
  rintro ⟨-, hquiet⟩
  have hlate := hquiet.of_steps (Option.some_get (by decide +kernel)).symm
  obtain ⟨hstore, -⟩ := hlate true [97] _ rfl (Option.some_get (by decide +kernel)).symm
    (by decide +kernel)
  have hlists := congrArg (fun st => Keyspace.lists SmallKv.members? st (0, [97])) hstore
  revert hlists
  decide +kernel

end Blocking
end Comms
