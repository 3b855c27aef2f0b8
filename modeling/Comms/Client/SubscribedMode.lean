import Comms.Client.PubSub
import Comms.Command.Transaction

/-!
# Subscribed mode

`Call` for one client, as far as subscriptions go. A client that subscribes may call a few commands
only, and `Call` takes a client for one that subscribes as soon as its context has a `PubSubContext`.
`GetPubsub` makes one, for `UNSUBSCRIBE` as for `SUBSCRIBE`, and it stays until the client leaves.

* `Session.answer` — the checks of `Call`, in the order of the source;
* `Session.step` — a frame that the client sends;
* `Session.Tracks` — the mode and the messages say what the client has subscribed to;
* `Session.Exact` — what the frame and the context must be for that;
* `subscribedMode_iff` — all along a run the first is the second.

`EXEC` runs its commands in a context of its own, which has no channel.
-/

namespace Comms
namespace PubSub

/-! ### Frames -/

/-- What the handler of another command does to the context it runs in: a script calls commands, and
there is no check of `Call` before these. -/
inductive ScriptCall
  | pubsub (cmd : Command)
  | auth (password : Bytes)
deriving DecidableEq

/-- A frame. -/
structure Request where
  name : Bytes
  args : List Bytes
  /-- What the script calls, if it runs one. -/
  calls : List ScriptCall
  /-- What `ctx.abort_exec` is by then. -/
  abortExec : Bool

/-- The arities of the settings table, for the commands that have a type. -/
def CommandType.arity : CommandType → Option (ℤ × ℤ)
  | .multi | .exec | .discard | .quit => some (0, 0)
  | .auth => some (1, 1)
  | .subscribe | .psubscribe => some (1, -1)
  | .unsubscribe | .punsubscribe => some (0, -1)
  | .other => none

/-- The settings table, and `requirepass`. -/
structure Settings where
  find : Bytes → Option HandlerSetting
  requirepass : Bytes
  arity_eq : ∀ name setting, find name = some setting →
    ∀ arity ∈ CommandType.arity setting.type, (setting.minArity, setting.maxArity) = arity

/-- What `Call` comes to. -/
inductive Answer
  | unknownCommand
  | noAuth
  | wrongArity
  | queued
  | subscribedContext
  /-- The handler runs. -/
  | handled
deriving DecidableEq

/-- The text of the reply; `%s` is the name of the command. -/
def Answer.text : Answer → Option String
  | .unknownCommand => some "ERR unknown command '%s'"
  | .noAuth => some "NOAUTH Authentication required"
  | .wrongArity => some "ERR wrong number of arguments for '%s' command"
  | .queued => some "QUEUED"
  | .subscribedContext => some "ERR only (P)SUBSCRIBE / (P)UNSUBSCRIBE / QUIT allowed in this context"
  | .handled => none

/-! ### Call -/

/-- The server, and the rest of the context of one client. -/
structure Session (C : Type) where
  server : Server C
  authenticated : Bool
  inTransc : Bool
  cachedCmds : List Request

namespace Session

variable {C : Type} [DecidableEq C] (cfg : Settings) (c : C) (s : Session C)

/-- `ctx.pubsub`. -/
def pubsub : Option PubSubContext := (s.server.client c).bind fun x => x.pubsub

/-- The number of subscriptions of the client. -/
def count : ℕ := s.server.count c

/-- What has been written to the client. -/
def written : List Notice := (s.server.client c).elim [] fun x => x.written

/-- The channel has not been closed. -/
def isOpen : Bool := (s.server.client c).any fun x => !x.closed

/-- The check of `ctx.authenticated`, and the one of the arity. -/
def passes (setting : HandlerSetting) (r : Request) : Bool :=
  (s.authenticated || setting.type = .auth || setting.type = .quit) && setting.validArity r.args.length

/-- The checks of `Call`. -/
def answer (r : Request) : Answer :=
  match cfg.find r.name with
  | none => .unknownCommand
  | some setting =>
    if s.authenticated = false ∧ setting.type ≠ .auth ∧ setting.type ≠ .quit then .noAuth
    else if setting.validArity r.args.length = false then .wrongArity
    else if s.inTransc then if Conn.notQueued setting.type then .handled else .queued
    else if (s.pubsub c).isSome ∧ Conn.pubsubOnly setting.type = false then .subscribedContext
    else .handled

/-- `Auth`. -/
def auth (password : Bytes) : Session C :=
  if cfg.requirepass = [] then s else { s with authenticated := password = cfg.requirepass }

/-- A call of a script, in the context of the client. -/
def callComms : ScriptCall → Option (Session C)
  | .pubsub cmd => (s.server.exec c cmd).map fun server => { s with server := server }
  | .auth password => some (s.auth cfg password)

/-- The calls of a script. -/
def callAll : List ScriptCall → Session C → Option (Session C)
  | [], s => some s
  | call :: calls, s => (s.callComms cfg c call).bind (callAll calls)

/-- `UnwatchKeys(ctx); ctx.ClearTransc()`. -/
def clearTransc : Session C := { s with inTransc := false, cachedCmds := [] }

/-- `Subscribe` and `PSubscribe` look at `ctx.client`, which is `NULL` in `EXEC`. -/
def crashes (r : Request) : Bool :=
  (cfg.find r.name).any fun setting =>
    setting.type = .subscribe || setting.type = .psubscribe || r.calls.any fun
      | .pubsub (.subscribe ..) => true
      | _ => false

/-- `Exec`. The context of the commands is not in any table. -/
def exec (abortExec : Bool) : Option (Session C) :=
  if s.inTransc = false then some s
  else if abortExec then some s.clearTransc
  else if s.cachedCmds.any (crashes cfg) then none
  else some s.clearTransc

/-- The handlers. A `QUIT` is followed by `Channel::Close`. -/
def handle (type : CommandType) (r : Request) : Option (Session C) :=
  match type with
  | .multi => some (if s.inTransc then s else { s with inTransc := true })
  | .discard => some (if s.inTransc then s.clearTransc else s)
  | .exec => s.exec cfg r.abortExec
  | .quit => some (if s.isOpen c then { s with server := s.server.doClose c } else s)
  | .auth => some (s.auth cfg (r.args.headD []))
  | .subscribe => s.callComms cfg c (.pubsub (.subscribe .channel r.args))
  | .psubscribe => s.callComms cfg c (.pubsub (.subscribe .pattern r.args))
  | .unsubscribe => s.callComms cfg c (.pubsub (.unsubscribe .channel r.args))
  | .punsubscribe => s.callComms cfg c (.pubsub (.unsubscribe .pattern r.args))
  | .other => callAll cfg c r.calls s

/-- A frame of the client: `MessageReceived`. An unknown command closes the channel. -/
def step (r : Request) : Option (Session C) :=
  match s.answer cfg c r with
  | .handled => (cfg.find r.name).bind fun setting => s.handle cfg c setting.type r
  | .queued => some { s with cachedCmds := s.cachedCmds ++ [r] }
  | .unknownCommand => some (if s.isOpen c then { s with server := s.server.doClose c } else s)
  | _ => some s

/-! ### The mode -/

/-- `UNSUBSCRIBE` and `PUNSUBSCRIBE`. -/
def unsubscribes : CommandType → Bool
  | .unsubscribe | .punsubscribe => true
  | _ => false

/-- **Subscribed mode.** A command that is not allowed to subscribers is refused for that reason exactly
if the client has subscribed to something, and `UNSUBSCRIBE` and `PUNSUBSCRIBE` write messages, the last
of which has the number of subscriptions. -/
def Tracks (r : Request) : Prop :=
  ∀ setting, cfg.find r.name = some setting →
    (Conn.pubsubOnly setting.type = false → (s.answer cfg c r = .subscribedContext ↔ 0 < s.count c)) ∧
    (unsubscribes setting.type = true → ∀ t, s.step cfg c r = some t → ∃ notices,
      t.written c = s.written c ++ notices ∧ notices.getLast?.map Notice.count = some (t.count c))

/-- **When it works.** There is no `PubSubContext`, or a subscription; then the checks that come before
let the command pass. With a `PubSubContext` and without subscriptions they stop it. To be answered,
`UNSUBSCRIBE` must be executed while the channel is open, with names or with a `PubSubContext`. -/
def Exact (r : Request) : Prop :=
  ∀ setting, cfg.find r.name = some setting →
    (Conn.pubsubOnly setting.type = false → (s.pubsub c).isSome = true →
      (s.passes setting r = true ↔ 0 < s.count c)) ∧
    (unsubscribes setting.type = true →
      s.authenticated = true ∧ s.inTransc = false ∧ s.isOpen c = true ∧
        (r.args ≠ [] ∨ (s.pubsub c).isSome = true))

end Session

/-! ### A socket that works -/

namespace Server

variable {C : Type} [DecidableEq C] {s t u : Server C} {kind : Kind} {c : C} {name : Bytes} {x : Client}
  {l m : List Notice}

/-- The socket of the client takes everything. -/
def SocketOk (s : Server C) (c : C) : Prop := ∃ x, s.client c = some x ∧ x.lost = none

/-- From `x` to `y` the messages `l` have been written, if the channel is open. -/
structure Grows (x y : Client) (l : List Notice) : Prop where
  closed : y.closed = x.closed
  lost : y.lost = none
  written : y.written = x.written ++ if x.closed then [] else l

/-- The same, for the client of a server. -/
def Writes (s t : Server C) (c : C) (l : List Notice) : Prop :=
  ∃ x y, s.client c = some x ∧ t.client c = some y ∧ Grows x y l

omit [DecidableEq C] in
theorem Writes.refl (h : s.SocketOk c) : Writes s s c [] := by
  obtain ⟨x, hx, hlost⟩ := h
  exact ⟨x, x, hx, hx, rfl, hlost, by simp⟩

omit [DecidableEq C] in
theorem Writes.trans (h : Writes s t c l) (h' : Writes t u c m) : Writes s u c (l ++ m) := by
  obtain ⟨x, y, hx, hy, hxy⟩ := h
  obtain ⟨y', z, hy', hz, hyz⟩ := h'
  obtain rfl := Option.some.inj (hy.symm.trans hy')
  refine ⟨x, z, hx, hz, hyz.closed.trans hxy.closed, hyz.lost, ?_⟩
  rw [hyz.written, hxy.written, hxy.closed]
  split <;> simp

omit [DecidableEq C] in
theorem Writes.socketOk (h : Writes s t c l) : t.SocketOk c := by
  obtain ⟨x, y, hx, hy, hxy⟩ := h
  exact ⟨y, hy, hxy.lost⟩

theorem writes_modify {f : Client → Client} (hx : s.client c = some x) (hf : Grows x (f x) l) :
    Writes s (s.modify c f) c l := by
  refine ⟨x, f x, hx, ?_, hf⟩
  rw [client_modify, if_pos rfl, hx]
  rfl

variable (kind name) in
theorem writes_register (h : s.SocketOk c) : Writes s (s.register kind c name) c [] := by
  obtain ⟨x, hx, hlost⟩ := h
  exact writes_modify (f := Client.insertName kind name) hx ⟨rfl, hlost, by simp [Client.insertName]⟩

variable (kind name) in
theorem writes_unregister (h : s.SocketOk c) : Writes s (s.unregister kind c name) c [] := by
  obtain ⟨x, hx, hlost⟩ := h
  exact writes_modify (f := Client.eraseName kind name) hx ⟨rfl, hlost, by simp [Client.eraseName]⟩

omit [DecidableEq C] in
theorem breaks_of_socketOk (h : s.SocketOk c) : s.breaks c = false := by
  obtain ⟨x, hx, hlost⟩ := h
  rw [breaks, hx]
  simp [hlost]

theorem writes_write (h : s.SocketOk c) (r : Notice) : Writes s (s.write c r) c [r] := by
  rw [write_eq (breaks_of_socketOk h)]
  obtain ⟨x, hx, hlost⟩ := h
  refine writes_modify hx ⟨Client.wrote_closed r x, ?_, ?_⟩
  · unfold Client.wrote
    split <;> simp [hlost]
  · unfold Client.wrote
    split
    next => exact (List.append_nil _).symm
    next => rfl

theorem count_write (h : s.SocketOk c) (r : Notice) : (s.write c r).count c = s.count c := by
  rw [write_eq (breaks_of_socketOk h), count, count, names_modify (.inr (Client.wrote_pubsub r)),
    names_modify (.inr (Client.wrote_pubsub r))]

/-! ### The messages of a command -/

variable (kind name) in
theorem writes_subscribeChannel (h : s.SocketOk c) :
    ∃ l, Writes s (s.subscribeChannel kind c name) c l :=
  have hreg := writes_register kind name h
  ⟨_, hreg.trans (writes_write hreg.socketOk _)⟩

variable (kind) in
theorem writes_subscribe (args : List Bytes) (h : s.SocketOk c) :
    ∃ l, Writes s (s.subscribe kind c args) c l := by
  unfold subscribe
  induction args generalizing s with
  | nil => exact ⟨[], .refl h⟩
  | cons name args ih =>
    obtain ⟨l, hone⟩ := writes_subscribeChannel kind name h
    obtain ⟨m, hrest⟩ := ih hone.socketOk
    exact ⟨l ++ m, hone.trans hrest⟩

theorem writeLocked_of_socketOk (h : s.SocketOk c) (r : Notice) : s.writeLocked c r = some (s.write c r) := by
  rw [writeLocked, if_neg (by rw [breaks_of_socketOk h]; simp)]

variable (kind name) in
/-- The message for a name has the number of subscriptions that is left. -/
theorem writes_unsubscribeChannel (h : s.SocketOk c) :
    ∃ t ret, s.unsubscribeChannel kind c name = some (t, ret) ∧
      Writes s t c [⟨kind.unsubscribe, some name, t.count c⟩] := by
  have hunreg := writes_unregister kind name h
  have hok := hunreg.socketOk
  generalize hu : s.unregister kind c name = u at hunreg hok
  refine ⟨u.write c ⟨kind.unsubscribe, some name, u.count c⟩,
    if ((s.table kind).lookup name).isSome then 1 else 0, ?_, ?_⟩
  · rw [unsubscribeChannel, hu, writeLocked_of_socketOk hok]
    rfl
  · rw [count_write hok]
    exact hunreg.trans (writes_write hok _)

variable (kind) in
/-- One message for each name, and the last has the number that is left at the end. -/
theorem writes_unsubscribeEach (args : List Bytes) (h : s.SocketOk c) (n : ℕ) :
    ∃ t k l, unsubscribeEach kind c args s n = some (t, k) ∧ Writes s t c l ∧
      l.length = args.length ∧ ∀ r ∈ l.getLast?, r.count = t.count c := by
  induction args generalizing s n with
  | nil => exact ⟨s, n, [], rfl, .refl h, rfl, fun r hr => by cases hr⟩
  | cons name args ih =>
    obtain ⟨u, ret, heq, hone⟩ := writes_unsubscribeChannel kind name h
    obtain ⟨t, k, l, heach, hrest, hlen, hlast⟩ := ih hone.socketOk (n + ret)
    refine ⟨t, k, _, ?_, hone.trans hrest, by simp [hlen], fun r hr => ?_⟩
    · rw [unsubscribeEach, heq]
      exact heach
    · cases l with
      | cons r' l => exact hlast r (by rwa [List.singleton_append, List.getLast?_cons_cons] at hr)
      | nil =>
        -- the name was the last one
        obtain rfl := List.length_eq_zero_iff.mp hlen.symm
        obtain ⟨rfl, -⟩ := Prod.mk.inj (Option.some.inj heach)
        obtain rfl := Option.some.inj hr
        rfl

theorem unsubscribeAll_of_none (h : ((s.client c).bind fun x => x.pubsub) = none) :
    s.unsubscribeAll kind c = some s := by
  rw [unsubscribeAll, if_pos (by rw [h]; rfl)]
  rfl

theorem writes_unsubscribeAll (h : s.SocketOk c)
    (hsome : ((s.client c).bind fun x => x.pubsub).isSome = true) :
    ∃ t l, s.unsubscribeAll kind c = some t ∧ Writes s t c l ∧
      l.getLast?.map Notice.count = some (t.count c) := by
  obtain ⟨u, k, l, heach, hwrites, hlen, hlast⟩ :=
    writes_unsubscribeEach kind (s.names c kind).toList h 0
  have heq : s.unsubscribeAll kind c =
      some (if k = 0 then u.write c ⟨kind.unsubscribe, none, u.count c⟩ else u) := by
    rw [unsubscribeAll, if_neg (by rw [Option.isNone_eq_false_iff.mpr hsome]; simp)]
    change (unsubscribeEach ..).bind _ = _
    rw [heach]
    change (if k = 0 then _ else _) = _
    split <;> rfl
  by_cases hk : k = 0
  · refine ⟨_, _, heq.trans (by rw [if_pos hk]), hwrites.trans (writes_write hwrites.socketOk _), ?_⟩
    rw [List.getLast?_concat, count_write hwrites.socketOk]
    rfl
  · refine ⟨u, l, heq.trans (by rw [if_neg hk]), hwrites, ?_⟩
    cases hl : l.getLast? with
    | some r => exact congrArg some (hlast r hl)
    | none =>
      -- without a name nothing is counted
      obtain rfl := List.getLast?_eq_none_iff.mp hl
      rw [List.length_eq_zero_iff.mp hlen.symm] at heach
      obtain ⟨-, rfl⟩ := Prod.mk.inj (Option.some.inj heach)
      exact absurd rfl hk

variable (kind) in
/-- **Unsubscribing.** Something is written, unless there is neither a name nor a `PubSubContext`. -/
theorem writes_unSubscribe {args : List Bytes} (h : s.SocketOk c)
    (hargs : args ≠ [] ∨ ((s.client c).bind fun x => x.pubsub).isSome = true) :
    ∃ t l, s.unSubscribe kind c args = some t ∧ Writes s t c l ∧
      l.getLast?.map Notice.count = some (t.count c) := by
  unfold unSubscribe
  split
  next hnil => exact writes_unsubscribeAll h (hargs.resolve_left fun hne => hne hnil)
  next hne =>
    obtain ⟨t, k, l, heach, hwrites, hlen, hlast⟩ := writes_unsubscribeEach kind args h 0
    refine ⟨t, l, by rw [heach]; rfl, hwrites, ?_⟩
    cases hl : l.getLast? with
    | some r => exact congrArg some (hlast r hl)
    | none =>
      obtain rfl := List.getLast?_eq_none_iff.mp hl
      exact absurd (List.length_eq_zero_iff.mp hlen.symm) hne

variable (kind) in
theorem unSubscribe_of_none (h : ((s.client c).bind fun x => x.pubsub) = none) :
    s.unSubscribe kind c [] = some s := by
  rw [unSubscribe, if_pos rfl]
  exact unsubscribeAll_of_none h

/-- A command of either kind comes to an end. -/
theorem writes_exec (h : s.SocketOk c) (cmd : Command) :
    ∃ t l, s.exec c cmd = some t ∧ Writes s t c l := by
  cases cmd with
  | subscribe kind args =>
    obtain ⟨l, hwrites⟩ := writes_subscribe kind args h
    exact ⟨_, l, rfl, hwrites⟩
  | unsubscribe kind args =>
    by_cases hargs : args ≠ [] ∨ ((s.client c).bind fun x => x.pubsub).isSome = true
    · obtain ⟨t, l, heq, hwrites, -⟩ := writes_unSubscribe kind h hargs
      exact ⟨t, l, heq, hwrites⟩
    · obtain ⟨hnil, hnone⟩ := not_or.mp hargs
      obtain rfl := not_not.mp hnil
      exact ⟨s, [], unSubscribe_of_none kind (Option.not_isSome_iff_eq_none.mp hnone), .refl h⟩

theorem writes_unsubscribeQuietly (h : s.SocketOk c) : Writes s (s.unsubscribeQuietly kind c) c [] := by
  unfold unsubscribeQuietly
  generalize (s.names c kind).toList = names
  induction names generalizing s with
  | nil => exact .refl h
  | cons name names ih =>
    have hunreg := writes_unregister kind name h
    exact hunreg.trans (ih hunreg.socketOk)

theorem socketOk_doClose (h : s.SocketOk c) : (s.doClose c).SocketOk c := by
  obtain ⟨x, hx, hlost⟩ := h
  have hmark : (s.modify c fun x => { x with closed := true }).SocketOk c := by
    refine ⟨{ x with closed := true }, ?_, hlost⟩
    rw [client_modify, if_pos rfl, hx]
    rfl
  exact (writes_unsubscribeQuietly (writes_unsubscribeQuietly hmark).socketOk).socketOk

theorem unsubscribeQuietly_of_none (h : ((s.client c).bind fun x => x.pubsub) = none) :
    s.unsubscribeQuietly kind c = s := by
  have hnames : (s.names c kind).toList = [] := by
    unfold names
    cases hx : s.client c with
    | none => rfl
    | some x =>
      rw [hx] at h
      change (x.getPubsub kind).toList = []
      rw [Client.getPubsub, show x.pubsub = none from h]
      rfl
  rw [unsubscribeQuietly, hnames]
  rfl

/-- Closing does not make a `PubSubContext`. -/
theorem pubsub_doClose (h : ((s.client c).bind fun x => x.pubsub) = none) :
    (((s.doClose c).client c).bind fun x => x.pubsub) = none := by
  have hmark : (((s.modify c fun x => { x with closed := true }).client c).bind fun x => x.pubsub) =
      none := by
    rw [client_modify, if_pos rfl]
    cases hx : s.client c with
    | none => rfl
    | some x =>
      rw [hx] at h
      exact h
  rw [doClose, freeClientContext, unsubscribeQuietly_of_none hmark, unsubscribeQuietly_of_none hmark]
  exact hmark

end Server

/-! ### Sessions -/

namespace Session

variable {C : Type} [DecidableEq C] {cfg : Settings} {c : C} {s t : Session C} {r : Request}
  {setting : HandlerSetting}

/-- **The invariant.** The socket works, and a transaction is not started with a `PubSubContext`. -/
structure Ok (c : C) (s : Session C) : Prop where
  socket : s.server.SocketOk c
  transc : s.inTransc = true → s.pubsub c = none

variable (cfg) in
/-- A call of a script leaves the transaction alone. -/
theorem callComms_eq (h : s.server.SocketOk c) (call : ScriptCall) :
    ∃ t, s.callComms cfg c call = some t ∧ t.server.SocketOk c ∧ t.inTransc = s.inTransc := by
  cases call with
  | pubsub cmd =>
    obtain ⟨server, l, heq, hwrites⟩ := Server.writes_exec h cmd
    exact ⟨{ s with server := server }, by rw [callComms, heq]; rfl, hwrites.socketOk, rfl⟩
  | auth password =>
    refine ⟨s.auth cfg password, rfl, ?_, ?_⟩ <;>
    · unfold auth
      split
      · first | exact h | rfl
      · first | exact h | rfl

variable (cfg) in
theorem callAll_eq (h : s.server.SocketOk c) (calls : List ScriptCall) :
    ∃ t, callAll cfg c calls s = some t ∧ t.server.SocketOk c ∧ t.inTransc = s.inTransc := by
  induction calls generalizing s with
  | nil => exact ⟨s, rfl, h, rfl⟩
  | cons call calls ih =>
    obtain ⟨u, hu, hsocket, htransc⟩ := callComms_eq cfg h call
    obtain ⟨t, ht, hsocket', htransc'⟩ := ih hsocket
    exact ⟨t, by rw [callAll, hu]; exact ht, hsocket', htransc'.trans htransc⟩

theorem Ok.closed (h : Ok c s) (isOpen : Bool) :
    Ok c (if isOpen then { s with server := s.server.doClose c } else s) := by
  cases isOpen with
  | false => exact h
  | true => exact ⟨Server.socketOk_doClose h.socket, fun htransc => Server.pubsub_doClose (h.transc htransc)⟩

omit [DecidableEq C] in
theorem Ok.clearTransc (h : Ok c s) : Ok c s.clearTransc := ⟨h.socket, fun htransc => by cases htransc⟩

omit [DecidableEq C] in
/-- Commands that are not exempt from being queued run outside of a transaction. -/
theorem inTransc_of_handled (h : s.answer cfg c r = .handled) (hfind : cfg.find r.name = some setting)
    (hqueued : Conn.notQueued setting.type = false) : s.inTransc = false := by
  unfold answer at h
  rw [hfind] at h
  dsimp only at h
  by_contra htransc
  rw [Bool.not_eq_false] at htransc
  rw [htransc, hqueued] at h
  split at h
  · cases h
  · split at h <;> cases h

omit [DecidableEq C] in
/-- Commands that subscribers may not call run without a `PubSubContext`. -/
theorem pubsub_of_handled (h : s.answer cfg c r = .handled) (hfind : cfg.find r.name = some setting)
    (honly : Conn.pubsubOnly setting.type = false) (hok : Ok c s) : s.pubsub c = none := by
  cases htransc : s.inTransc with
  | true => exact hok.transc htransc
  | false =>
    unfold answer at h
    rw [hfind] at h
    dsimp only at h
    rw [htransc, honly] at h
    by_contra hne
    rw [if_pos (c := (s.pubsub c).isSome = true ∧ false = false)
      ⟨Option.isSome_iff_ne_none.mpr hne, rfl⟩] at h
    split at h
    · cases h
    · split at h <;> cases h

omit [DecidableEq C] in
/-- The three ways to be refused or queued. -/
theorem answer_eq (hfind : cfg.find r.name = some setting) :
    s.answer cfg c r =
      if s.authenticated = false ∧ setting.type ≠ .auth ∧ setting.type ≠ .quit then .noAuth
      else if setting.validArity r.args.length = false then .wrongArity
      else if s.inTransc then if Conn.notQueued setting.type then .handled else .queued
      else if (s.pubsub c).isSome ∧ Conn.pubsubOnly setting.type = false then .subscribedContext
      else .handled := by
  rw [answer, hfind]

theorem Ok.handle (h : Ok c s) (hanswer : s.answer cfg c r = .handled)
    (hfind : cfg.find r.name = some setting) (heq : s.handle cfg c setting.type r = some t) : Ok c t := by
  have hcall (call : ScriptCall) (hqueued : Conn.notQueued setting.type = false)
      (hone : s.callComms cfg c call = some t) : Ok c t := by
    obtain ⟨u, hu, hsocket, htransc⟩ := callComms_eq cfg h.socket call
    obtain rfl := Option.some.inj (hu.symm.trans hone)
    refine ⟨hsocket, fun hin => ?_⟩
    rw [htransc, inTransc_of_handled hanswer hfind hqueued] at hin
    cases hin
  unfold Session.handle at heq
  cases htype : setting.type <;> rw [htype] at heq hcall <;> dsimp only at heq
  case multi =>
    obtain rfl := Option.some.inj heq
    have hnone := pubsub_of_handled hanswer hfind (by rw [htype]; rfl) h
    split
    · exact h
    · exact ⟨h.socket, fun _ => hnone⟩
  case discard =>
    obtain rfl := Option.some.inj heq
    split
    · exact h.clearTransc
    · exact h
  case exec =>
    unfold exec at heq
    split at heq
    · obtain rfl := Option.some.inj heq
      exact h
    · split at heq
      · obtain rfl := Option.some.inj heq
        exact h.clearTransc
      · split at heq
        · cases heq
        · obtain rfl := Option.some.inj heq
          exact h.clearTransc
  case quit =>
    obtain rfl := Option.some.inj heq
    exact h.closed _
  case auth => exact hcall (.auth (r.args.headD [])) rfl heq
  case other =>
    obtain ⟨u, hu, hsocket, htransc⟩ := callAll_eq cfg h.socket r.calls
    obtain rfl := Option.some.inj (hu.symm.trans heq)
    refine ⟨hsocket, fun hin => ?_⟩
    rw [htransc, inTransc_of_handled hanswer hfind (by rw [htype]; rfl)] at hin
    cases hin
  all_goals exact hcall _ rfl heq

theorem Ok.step (h : Ok c s) (heq : s.step cfg c r = some t) : Ok c t := by
  unfold Session.step at heq
  cases hanswer : s.answer cfg c r <;> rw [hanswer] at heq <;> dsimp only at heq
  case handled =>
    obtain ⟨setting, hfind, hhandle⟩ := Option.bind_eq_some_iff.mp heq
    exact h.handle hanswer hfind hhandle
  case unknownCommand =>
    obtain rfl := Option.some.inj heq
    exact h.closed _
  case queued =>
    obtain rfl := Option.some.inj heq
    exact ⟨h.socket, h.transc⟩
  all_goals
    obtain rfl := Option.some.inj heq
    exact h

/-! ### What is refused -/

omit [DecidableEq C] in
/-- **Refusing.** The command passes the checks that come before, and there is a `PubSubContext`. -/
theorem answer_subscribedContext (h : Ok c s) (hfind : cfg.find r.name = some setting)
    (honly : Conn.pubsubOnly setting.type = false) :
    s.answer cfg c r = .subscribedContext ↔ s.passes setting r = true ∧ (s.pubsub c).isSome = true := by
  have hne : ¬(s.pubsub c).isSome = true ∨ s.inTransc = false := by
    cases htransc : s.inTransc with
    | true => exact .inl (by rw [h.transc htransc]; simp)
    | false => exact .inr rfl
  rw [answer_eq hfind, passes]
  split
  next hauth => simp [hauth]
  next hauth =>
    have hauth' : (s.authenticated || decide (setting.type = .auth) || decide (setting.type = .quit)) = true := by
      by_contra hno
      simp only [Bool.or_eq_true, decide_eq_true_eq, not_or, Bool.not_eq_true] at hno
      exact hauth ⟨hno.1.1, hno.1.2, hno.2⟩
    rw [hauth', Bool.true_and]
    split
    next harity => simp [harity]
    next harity =>
      rw [Bool.not_eq_false] at harity
      rw [harity, eq_self_iff_true, true_and]
      split
      next htransc =>
        have hnone := hne.resolve_right (by rw [htransc]; simp)
        split <;> simp [hnone]
      next => simp [honly, Option.isSome_iff_ne_none]

omit [DecidableEq C] in
theorem isSome_of_count (h : 0 < s.count c) : (s.pubsub c).isSome = true := by
  by_contra hno
  rw [Option.not_isSome_iff_eq_none] at hno
  have hnames (kind : Kind) : s.server.names c kind = ∅ := by
    unfold Server.names
    cases hx : s.server.client c with
    | none => rfl
    | some x =>
      rw [pubsub, hx] at hno
      change x.getPubsub kind = ∅
      rw [Client.getPubsub, show x.pubsub = none from hno]
      rfl
  rw [count, Server.count, hnames, hnames] at h
  exact absurd h (by decide)

/-! ### What is answered -/

omit [DecidableEq C] in
theorem written_of_writes {l : List Notice} (h : Server.Writes s.server t.server c l) :
    t.written c = s.written c ++ if s.isOpen c then l else [] := by
  obtain ⟨x, y, hx, hy, hxy⟩ := h
  rw [written, written, isOpen, hx, hy]
  change y.written = x.written ++ if (!x.closed) = true then l else []
  rw [hxy.written]
  cases x.closed <;> rfl

omit [DecidableEq C] in
/-- `UNSUBSCRIBE` and `PUNSUBSCRIBE` take any arguments. -/
theorem answer_unsubscribes (hfind : cfg.find r.name = some setting)
    (hunsub : unsubscribes setting.type = true) :
    s.answer cfg c r = .handled ↔ s.authenticated = true ∧ s.inTransc = false := by
  have hvalid : setting.validArity r.args.length = true := by
    have harity : (setting.minArity, setting.maxArity) = (0, -1) := by
      refine cfg.arity_eq _ _ hfind _ ?_
      cases htype : setting.type <;> rw [htype] at hunsub <;> first | rfl | exact absurd hunsub (by decide)
    rw [HandlerSetting.validArity, harity]
    rfl
  have htypes : setting.type ≠ .auth ∧ setting.type ≠ .quit ∧ Conn.notQueued setting.type = false ∧
      Conn.pubsubOnly setting.type = true := by
    cases htype : setting.type <;> rw [htype] at hunsub <;> first | exact absurd hunsub (by decide) | decide
  obtain ⟨hauth, hquit, hqueued, honly⟩ := htypes
  rw [answer_eq hfind, hvalid, hqueued, honly]
  cases s.authenticated <;> cases s.inTransc <;> simp [hauth, hquit]

theorem step_unsubscribes (hfind : cfg.find r.name = some setting)
    (hunsub : unsubscribes setting.type = true) (hanswer : s.answer cfg c r = .handled) :
    ∃ kind, s.step cfg c r = s.callComms cfg c (.pubsub (.unsubscribe kind r.args)) := by
  have hstep : s.step cfg c r = s.handle cfg c setting.type r := by
    rw [Session.step, hanswer]
    dsimp only
    rw [hfind]
    rfl
  rw [hstep]
  cases htype : setting.type <;> rw [htype] at hunsub
  case unsubscribe => exact ⟨.channel, rfl⟩
  case punsubscribe => exact ⟨.pattern, rfl⟩
  all_goals exact absurd hunsub (by decide)

omit [DecidableEq C] in
/-- What has not been written does not end in a number. -/
theorem not_answered {notices : List Notice} {n : ℕ} (h : t.written c = s.written c)
    (hnotices : t.written c = s.written c ++ notices) : notices.getLast?.map Notice.count ≠ some n := by
  rw [h] at hnotices
  obtain rfl := List.self_eq_append_right.mp hnotices
  rintro ⟨⟩

/-- **Answering.** -/
theorem answered_iff (h : Ok c s) (hfind : cfg.find r.name = some setting)
    (hunsub : unsubscribes setting.type = true) :
    (∀ t, s.step cfg c r = some t → ∃ notices,
      t.written c = s.written c ++ notices ∧ notices.getLast?.map Notice.count = some (t.count c)) ↔
    s.authenticated = true ∧ s.inTransc = false ∧ s.isOpen c = true ∧
      (r.args ≠ [] ∨ (s.pubsub c).isSome = true) := by
  constructor
  · intro hanswered
    have hhandled : s.answer cfg c r = .handled := by
      by_contra hne
      have hsame : ∃ t, s.step cfg c r = some t ∧ t.written c = s.written c := by
        unfold Session.step
        cases hanswer : s.answer cfg c r <;> dsimp only
        case handled => exact absurd hanswer hne
        case unknownCommand =>
          rw [answer_eq hfind] at hanswer
          repeat' split at hanswer
          all_goals cases hanswer
        all_goals exact ⟨_, rfl, rfl⟩
      obtain ⟨t, ht, hwritten⟩ := hsame
      obtain ⟨notices, heq, hlast⟩ := hanswered t ht
      exact not_answered hwritten heq hlast
    obtain ⟨kind, hstep⟩ := step_unsubscribes hfind hunsub hhandled
    obtain ⟨server, l, hexec, hwrites⟩ := Server.writes_exec h.socket (.unsubscribe kind r.args)
    obtain ⟨notices, heq, hlast⟩ := hanswered { s with server := server } (by
      rw [hstep, callComms, hexec]
      rfl)
    obtain ⟨hauth, htransc⟩ := (answer_unsubscribes hfind hunsub).mp hhandled
    refine ⟨hauth, htransc, ?_, ?_⟩
    · by_contra hclosed
      refine not_answered ?_ heq hlast
      rw [written_of_writes (t := { s with server := server }) hwrites, if_neg hclosed, List.append_nil]
    · by_contra hnone
      obtain ⟨hnil, hnone⟩ := not_or.mp hnone
      have hsame := Server.unSubscribe_of_none kind (Option.not_isSome_iff_eq_none.mp hnone)
      rw [Server.exec, not_not.mp hnil, hsame] at hexec
      obtain rfl := Option.some.inj hexec
      exact not_answered rfl heq hlast
  · rintro ⟨hauth, htransc, hopen, hargs⟩ t ht
    obtain ⟨kind, hstep⟩ :=
      step_unsubscribes hfind hunsub ((answer_unsubscribes hfind hunsub).mpr ⟨hauth, htransc⟩)
    obtain ⟨server, l, hexec, hwrites, hlast⟩ := Server.writes_unSubscribe kind h.socket hargs
    rw [hstep, callComms, Server.exec, hexec] at ht
    obtain rfl := Option.some.inj ht
    refine ⟨l, ?_, hlast⟩
    rw [written_of_writes (t := { s with server := server }) hwrites, if_pos hopen]

theorem tracks_iff (h : Ok c s) : s.Tracks cfg c r ↔ s.Exact cfg c r := by
  refine forall_congr' fun setting => forall_congr' fun hfind => and_congr ?_ ?_
  · refine forall_congr' fun honly => ?_
    rw [answer_subscribedContext h hfind honly]
    have hsome := isSome_of_count (s := s) (c := c)
    tauto
  · exact forall_congr' fun hunsub => answered_iff h hfind hunsub

/-! ### Runs -/

/-- A client that has just connected. -/
def init (c : C) (authenticated : Bool) : Session C :=
  { server := { (Server.init : Server C) with client := Function.update (fun _ => none) c (some .init) }
    authenticated := authenticated, inTransc := false, cachedCmds := [] }

theorem Ok.init (authenticated : Bool) : Ok c (Session.init c authenticated) where
  socket := by
    refine ⟨.init, ?_, rfl⟩
    change (Function.update (fun _ => none) c (some Client.init) : C → Option Client) c = _
    exact Function.update_self ..
  transc := fun h => by cases h

end Session

variable {C : Type} [DecidableEq C]

/-- **Subscribed mode.** For every sequence of frames of a client: the mode and the messages say what it
has subscribed to all along, exactly if every frame meets `Exact`. -/
theorem subscribedMode_iff (cfg : Settings) (c : C) (authenticated : Bool) (frames : List Request) :
    Run.Along (Session.step cfg c) (Session.Tracks cfg c) (Session.init c authenticated) frames ↔
      Run.Along (Session.step cfg c) (Session.Exact cfg c) (Session.init c authenticated) frames := by
  constructor
  · exact Run.along_of_invariant (fun _ _ _ h _ heq => h.step heq)
      (fun _ _ h htracks => (Session.tracks_iff h).mp htracks) (Session.Ok.init authenticated)
  · exact Run.along_of_invariant (fun _ _ _ h _ heq => h.step heq)
      (fun _ _ h hexact => (Session.tracks_iff h).mpr hexact) (Session.Ok.init authenticated)

/-- Three commands of the table. -/
def threeSettings : Settings where
  find name :=
    if name = [115, 117, 98, 115, 99, 114, 105, 98, 101] then some ⟨.subscribe, 1, -1⟩
    else if name = [117, 110, 115, 117, 98, 115, 99, 114, 105, 98, 101] then some ⟨.unsubscribe, 0, -1⟩
    else if name = [103, 101, 116] then some ⟨.other, 1, 1⟩
    else none
  requirepass := []
  arity_eq := by
    intro name setting hfind arity harity
    split at hfind
    · cases hfind
      exact Option.some.inj harity
    · split at hfind
      · cases hfind
        exact Option.some.inj harity
      · split at hfind
        · cases hfind
          cases harity
        · cases hfind

/-- `SUBSCRIBE a`, `UNSUBSCRIBE a`. -/
def leftEverything : List Request :=
  [⟨[115, 117, 98, 115, 99, 114, 105, 98, 101], [[97]], [], false⟩,
    ⟨[117, 110, 115, 117, 98, 115, 99, 114, 105, 98, 101], [[97]], [], false⟩]

/-- `GET k`. -/
def getFrame : Request := ⟨[103, 101, 116], [[107]], [], false⟩

/-- The client has unsubscribed from all it had subscribed to, and is refused a `GET`. -/
theorem subscribedMode_stays :
    ¬∀ frames : List Request, Run.Along (Session.step threeSettings 0)
      (Session.Tracks threeSettings 0) (Session.init (0 : ℕ) true) frames := by
  intro hall
  have hrun : ((Run.steps (Session.step threeSettings 0) (Session.init 0 true) leftEverything).map
      fun s => (s.answer threeSettings 0 getFrame, s.count 0)) = some (.subscribedContext, 0) := by
    decide +kernel
  obtain ⟨s, hs, hboth⟩ := Option.map_eq_some_iff.mp hrun
  obtain ⟨hanswer, hcount⟩ := Prod.mk.inj hboth
  have htracks := (hall (leftEverything ++ [getFrame])).of_steps hs
  have hpos := (htracks ⟨.other, 1, 1⟩ rfl).1 rfl |>.mp hanswer
  rw [hcount] at hpos
  exact absurd hpos (by decide)

end PubSub
end Comms
