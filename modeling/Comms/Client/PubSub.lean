import Comms.Codec.Buffer
import Comms.Lib.Registry
import Comms.Lib.Run
import Mathlib.Logic.Function.Basic

/-!
# Subscriptions

`command/pubsub.cpp`, with what closes a connection around it. A subscription is kept twice: in the
context of the client, and in a table of the server that has the contexts for each name.

A reply is written while a command runs. When the socket turns out to be dead, `Channel::Write` closes
the channel there and then: `ChannelClosed` frees the context of the client, and the command goes on
with the context. The channel and the context are deleted later, by the event loop.

* `Server.subscribeChannel`, `Server.unsubscribeChannel`, `Server.unsubscribeAll` — from the source, for
  channels and for patterns;
* `Server.freeClientContext` — what is left of `FreeClientContext`;
* `Server.publishMessage` — what a `PUBLISH` queues;
* `Server.step` — commands, connections that come and go;
* `Ok.step` — the tables and the contexts agree after any step that subscribes for open connections;
* `pubSub_agrees` — so they do in every run, and a `PUBLISH` reaches the subscribers.
-/

namespace Comms
namespace PubSub

/-! ### Contexts -/

/-- What can be subscribed to. -/
inductive Kind
  | channel
  | pattern
deriving DecidableEq

/-- `PubSubContext`: `pubsub_channels` and `pubsub_patterns`. The sets of the source are in the order of
the names. -/
abbrev PubSubContext := Kind → ListSet Bytes

/-- A reply of three members: a word, a name or nil, and a number. -/
structure Notice where
  word : String
  name : Option Bytes
  count : ℕ
deriving DecidableEq

/-- The word in front of a name that has been subscribed to. -/
def Kind.subscribe : Kind → String
  | .channel => "subscribe"
  | .pattern => "psubscribe"

def Kind.unsubscribe : Kind → String
  | .channel => "unsubscribe"
  | .pattern => "punsubscribe"

/-- A context and its channel. -/
structure Client where
  /-- `ctx.pubsub`; `none` is `NULL`. -/
  pubsub : Option PubSubContext
  /-- `m_fd` is `-1`. -/
  closed : Bool
  /-- The peer is gone, and the socket takes so many more replies. -/
  lost : Option ℕ
  written : List Notice

/-- A connection that was just accepted. -/
def Client.init : Client := ⟨none, false, none, []⟩

/-- `GetPubsub`. -/
def Client.getPubsub (x : Client) : PubSubContext := x.pubsub.getD fun _ => ∅

/-- `GetPubsub().pubsub_channels.insert(channel)`. -/
def Client.insertName (kind : Kind) (name : Bytes) (x : Client) : Client :=
  { x with pubsub := some (Function.update x.getPubsub kind ((x.getPubsub kind).insert name)) }

/-- `GetPubsub().pubsub_channels.erase(channel)`. -/
def Client.eraseName (kind : Kind) (name : Bytes) (x : Client) : Client :=
  { x with pubsub := some (Function.update x.getPubsub kind ((x.getPubsub kind).erase name)) }

/-- The contexts there are, `m_pubsub_channels` and `m_pubsub_patterns`. -/
structure Server (C : Type) where
  client : C → Option Client
  table : Kind → Table Bytes C

/-- Nobody is connected. -/
def Server.init {C : Type} : Server C := ⟨fun _ => none, fun _ => ∅⟩

namespace Server

variable {C : Type} [DecidableEq C] (s : Server C)

/-- A change of a context. -/
def modify (c : C) (f : Client → Client) : Server C :=
  { s with client := Function.update s.client c ((s.client c).map f) }

/-- The names a client keeps. -/
def names (c : C) (kind : Kind) : ListSet Bytes := (s.client c).elim ∅ fun x => x.getPubsub kind

/-- `pubsub_channels.size() + pubsub_patterns.size()`. -/
def count (c : C) : ℕ := (s.names c .channel).size + (s.names c .pattern).size

/-! ### The functions -/

/-- `SubscribeChannel`, up to the reply. -/
def register (kind : Kind) (c : C) (name : Bytes) : Server C :=
  { s.modify c (Client.insertName kind name) with
    table := Function.update s.table kind ((s.table kind).add name c) }

/-- `UnsubscribeChannel`, up to the reply. -/
def unregister (kind : Kind) (c : C) (name : Bytes) : Server C :=
  { s.modify c (Client.eraseName kind name) with
    table := Function.update s.table kind ((s.table kind).remove name c) }

/-- `UnsubscribeAll(ctx, false)`. -/
def unsubscribeQuietly (kind : Kind) (c : C) : Server C :=
  (s.names c kind).toList.foldl (fun s name => s.unregister kind c name) s

/-- `FreeClientContext`. -/
def freeClientContext (c : C) : Server C :=
  (s.unsubscribeQuietly .channel c).unsubscribeQuietly .pattern c

/-- `Channel::DoClose`, and `ChannelClosed` of the handler. -/
def doClose (c : C) : Server C :=
  (s.modify c fun x => { x with closed := true }).freeClientContext c

/-- The next reply finds the socket dead. -/
def breaks (c : C) : Bool := (s.client c).any fun x => !x.closed && x.lost = some 0

/-- `ctx.client->Write(r)`. -/
def write (c : C) (r : Notice) : Server C :=
  if s.breaks c then s.doClose c
  else s.modify c fun x =>
    if x.closed then x else { x with lost := x.lost.map (· - 1), written := x.written ++ [r] }

/-- `ctx.client->Write(r)` with `m_pubsub_ctx_lock` taken. `FreeClientContext` takes it once more if
there is something to unsubscribe from, and waits for good. -/
def writeLocked (c : C) (r : Notice) : Option (Server C) :=
  if s.breaks c ∧ s.count c ≠ 0 then none else some (s.write c r)

/-- `SubscribeChannel(ctx, channel, true)` and `PSubscribeChannel`. -/
def subscribeChannel (kind : Kind) (c : C) (name : Bytes) : Server C :=
  let s := s.register kind c name
  s.write c ⟨kind.subscribe, some name, s.count c⟩

/-- `UnsubscribeChannel(ctx, channel, true)` and `PUnsubscribeChannel`, with the value returned. -/
def unsubscribeChannel (kind : Kind) (c : C) (name : Bytes) : Option (Server C × ℕ) :=
  let ret := if ((s.table kind).lookup name).isSome then 1 else 0
  let s := s.unregister kind c name
  (s.writeLocked c ⟨kind.unsubscribe, some name, s.count c⟩).map fun s => (s, ret)

/-- The loop of `UnsubscribeAll`. -/
def unsubscribeEach (kind : Kind) (c : C) : List Bytes → Server C → ℕ → Option (Server C × ℕ)
  | [], s, count => some (s, count)
  | name :: names, s, count => do
    let (s, ret) ← s.unsubscribeChannel kind c name
    unsubscribeEach kind c names s (count + ret)

/-- `UnsubscribeAll(ctx, true)` and `PUnsubscribeAll`. -/
def unsubscribeAll (kind : Kind) (c : C) : Option (Server C) := do
  if ((s.client c).bind fun x => x.pubsub).isNone then return s
  let (s, count) ← unsubscribeEach kind c (s.names c kind).toList s 0
  if count = 0 then return s.write c ⟨kind.unsubscribe, none, s.count c⟩
  return s

/-- `Subscribe` and `PSubscribe`. -/
def subscribe (kind : Kind) (c : C) (args : List Bytes) : Server C :=
  args.foldl (fun s name => s.subscribeChannel kind c name) s

/-- `UnSubscribe` and `PUnSubscribe`. -/
def unSubscribe (kind : Kind) (c : C) (args : List Bytes) : Option (Server C) :=
  if args = [] then s.unsubscribeAll kind c
  else (unsubscribeEach kind c args s 0).map fun p => p.1

end Server

/-! ### Messages -/

/-- The replies that a `PUBLISH` makes. -/
inductive Message
  | message (channel message : Bytes)
  | pmessage (pattern channel message : Bytes)
deriving DecidableEq

/-- `PublishMessage`: the number that is returned, and what is queued for whom. `stringmatchlen` is a
parameter. Every context in a table has a channel. -/
def Server.publishMessage {C : Type} (stringMatch : Bytes → Bytes → Bool) (s : Server C)
    (channel message : Bytes) : ℕ × List (C × Message) :=
  let toChannel := ((s.table .channel).members channel).toList.map fun c =>
    (c, Message.message channel message)
  let toPatterns := (s.table .pattern).send (fun pattern => stringMatch pattern channel) fun pattern =>
    Message.pmessage pattern channel message
  (toChannel.length + toPatterns.length, toChannel ++ toPatterns)

/-! ### Runs -/

inductive Command
  | subscribe (kind : Kind) (args : List Bytes)
  | unsubscribe (kind : Kind) (args : List Bytes)
deriving DecidableEq

/-- What happens. A context is deleted after its channel has been closed, and a new one may be where it
was; until then frames that have been received are executed. -/
inductive Event (C : Type)
  | accept (c : C)
  | command (c : C) (cmd : Command)
  /-- The peer is gone. The socket takes `n` more replies. -/
  | reset (c : C) (n : ℕ)
  | close (c : C)
  | delete (c : C)

/-- A command. -/
def Server.exec {C : Type} [DecidableEq C] (s : Server C) (c : C) : Command → Option (Server C)
  | .subscribe kind args => some (s.subscribe kind c args)
  | .unsubscribe kind args => s.unSubscribe kind c args

/-- The events that are possible. -/
def Server.can {C : Type} (s : Server C) : Event C → Bool
  | .accept c => (s.client c).isNone
  | .command c _ => (s.client c).isSome
  | .reset c _ => (s.client c).any fun x => x.lost.isNone
  | .close c => (s.client c).any fun x => !x.closed
  | .delete c => (s.client c).any fun x => x.closed

/-- What an event does. A command that waits for good has no end. -/
def Server.effect {C : Type} [DecidableEq C] (s : Server C) : Event C → Option (Server C)
  | .accept c => some { s with client := Function.update s.client c (some .init) }
  | .command c cmd => s.exec c cmd
  | .reset c n => some (s.modify c fun x => { x with lost := some n })
  | .close c => some (s.doClose c)
  | .delete c => some { s with client := Function.update s.client c none }

def Server.step {C : Type} [DecidableEq C] (s : Server C) (ev : Event C) : Option (Server C) :=
  if s.can ev then s.effect ev else none

/-! ### Names and connections -/

namespace Server

variable {C : Type} [DecidableEq C] {s : Server C} {kind k : Kind} {c d : C} {name m : Bytes}

theorem client_modify (f : Client → Client) (d : C) :
    (s.modify c f).client d = if d = c then (s.client c).map f else s.client d := by
  unfold modify
  by_cases h : d = c
  · subst h
    rw [if_pos rfl]
    exact Function.update_self ..
  · rw [if_neg h]
    exact Function.update_of_ne h ..

omit [DecidableEq C] in
theorem names_of_client {x : Client} (h : s.client c = some x) (kind : Kind) :
    s.names c kind = x.getPubsub kind := by
  rw [names, h]
  rfl

/-- The names of another client, or of one whose `pubsub` stays as it is. -/
theorem names_modify {f : Client → Client} (h : d ≠ c ∨ ∀ x, (f x).pubsub = x.pubsub) :
    (s.modify c f).names d k = s.names d k := by
  unfold names
  rw [client_modify]
  split
  next hd =>
    subst hd
    cases s.client d with
    | none => rfl
    | some x =>
      change (f x).getPubsub k = x.getPubsub k
      unfold Client.getPubsub
      rw [h.resolve_left fun hne => hne rfl]
  next => rfl

theorem mem_names_register (h : (s.client c).isSome) :
    m ∈ (s.register kind c name).names d k ↔ (d = c ∧ k = kind ∧ m = name) ∨ m ∈ s.names d k := by
  by_cases hd : d = c
  · subst hd
    obtain ⟨x, hx⟩ := Option.isSome_iff_exists.mp h
    have hnew : (s.register kind d name).client d = some (x.insertName kind name) := by
      change (s.modify d _).client d = _
      rw [client_modify, if_pos rfl, hx]
      rfl
    rw [names_of_client hnew, names_of_client hx]
    change m ∈ Function.update x.getPubsub kind _ k ↔ _
    by_cases hk : k = kind
    · subst hk
      simp [Function.update_self]
    · simp [hk]
  · change m ∈ (s.modify c _).names d k ↔ _
    rw [names_modify (.inl hd)]
    simp [hd]

theorem mem_names_unregister :
    m ∈ (s.unregister kind c name).names d k ↔ m ∈ s.names d k ∧ ¬(d = c ∧ k = kind ∧ m = name) := by
  by_cases hd : d = c
  · subst hd
    cases hx : s.client d with
    | none =>
      have hnew : (s.unregister kind d name).client d = none := by
        change (s.modify d _).client d = _
        rw [client_modify, if_pos rfl, hx]
        rfl
      rw [names, names, hnew, hx]
      simp
    | some x =>
      have hnew : (s.unregister kind d name).client d = some (x.eraseName kind name) := by
        change (s.modify d _).client d = _
        rw [client_modify, if_pos rfl, hx]
        rfl
      rw [names_of_client hnew, names_of_client hx]
      change m ∈ Function.update x.getPubsub kind _ k ↔ _
      by_cases hk : k = kind
      · subst hk
        simp [Function.update_self, and_comm]
      · simp [hk]
  · change m ∈ (s.modify c _).names d k ↔ _
    rw [names_modify (.inl hd)]
    simp [hd]

/-- The connection of a client has been closed. -/
def IsClosed (s : Server C) (c : C) : Prop := ∃ x, s.client c = some x ∧ x.closed = true

/-- The contexts and which of them have been closed are the same. -/
structure SameConns (s t : Server C) : Prop where
  isSome : ∀ d, (t.client d).isSome = (s.client d).isSome
  closed : ∀ d, t.IsClosed d ↔ s.IsClosed d

omit [DecidableEq C] in
theorem SameConns.refl (s : Server C) : SameConns s s := ⟨fun _ => rfl, fun _ => Iff.rfl⟩

omit [DecidableEq C] in
theorem SameConns.trans {t u : Server C} (h : SameConns s t) (h' : SameConns t u) : SameConns s u :=
  ⟨fun d => (h'.isSome d).trans (h.isSome d), fun d => (h'.closed d).trans (h.closed d)⟩

theorem sameConns_modify {f : Client → Client} (h : ∀ x, (f x).closed = x.closed) :
    SameConns s (s.modify c f) := by
  refine ⟨fun d => ?_, fun d => ?_⟩
  · rw [client_modify]
    split
    next hd =>
      subst hd
      exact Option.isSome_map
    next => rfl
  · unfold IsClosed
    rw [client_modify]
    split
    next hd =>
      subst hd
      cases s.client d with
      | none => simp
      | some x => simp [h]
    next => rfl

theorem sameConns_register : SameConns s (s.register kind c name) := by
  have h := sameConns_modify (s := s) (c := c) (f := Client.insertName kind name) fun _ => rfl
  exact ⟨h.isSome, h.closed⟩

theorem sameConns_unregister : SameConns s (s.unregister kind c name) := by
  have h := sameConns_modify (s := s) (c := c) (f := Client.eraseName kind name) fun _ => rfl
  exact ⟨h.isSome, h.closed⟩

end Server

/-! ### The invariant -/

variable {C : Type} [DecidableEq C] {s t : Server C} {kind k : Kind} {c d : C} {name m : Bytes}

/-- **The tables and the contexts.** A client is in a table for a name exactly if its context has the
name, and no table has a name for nobody. -/
structure TablesOk (s : Server C) : Prop where
  agrees : ∀ kind, (s.table kind).Agrees fun c => {n | n ∈ s.names c kind}
  noEmpty : ∀ kind, (s.table kind).NoEmpty

/-- The same, and a client whose connection has been closed has no names. -/
structure Ok (s : Server C) : Prop extends TablesOk s where
  closedEmpty : ∀ c, s.IsClosed c → ∀ kind m, m ∉ s.names c kind

omit [DecidableEq C] in
theorem Ok.init : Ok (Server.init : Server C) where
  agrees := fun kind n c => by simp [Server.init, Server.names]
  noEmpty := fun kind => Table.noEmpty_empty
  closedEmpty := by
    rintro c ⟨x, hx, -⟩
    cases hx

omit [DecidableEq C] in
/-- The tables and the names are all that it looks at. -/
theorem TablesOk.congr (h : TablesOk s) (htable : t.table = s.table)
    (hnames : ∀ d k, t.names d k = s.names d k) : TablesOk t where
  agrees := fun kind n c => by
    rw [htable, h.agrees kind n c]
    change _ ↔ n ∈ t.names c kind
    rw [hnames]
    rfl
  noEmpty := fun kind => by
    rw [htable]
    exact h.noEmpty kind

omit [DecidableEq C] in
theorem Ok.congr (h : Ok s) (htable : t.table = s.table) (hnames : ∀ d k, t.names d k = s.names d k)
    (hclosed : ∀ d, t.IsClosed d → s.IsClosed d) : Ok t where
  toTablesOk := h.toTablesOk.congr htable hnames
  closedEmpty := fun c hc kind m => by
    rw [hnames]
    exact h.closedEmpty c (hclosed c hc) kind m

theorem Ok.register (h : Ok s) (hsome : (s.client c).isSome) (hopen : ¬s.IsClosed c) :
    Ok (s.register kind c name) where
  agrees := fun k => by
    change (Function.update s.table kind _ k).Agrees _
    by_cases hk : k = kind
    · subst hk
      rw [Function.update_self]
      refine (h.agrees k).add name c (fun m => ?_) fun d hd => ?_
      · exact (Server.mem_names_register hsome).trans (by simp)
      · ext m
        exact (Server.mem_names_register hsome).trans (by simp [hd])
    · rw [Function.update_of_ne hk]
      intro n d
      refine (h.agrees k n d).trans ((Server.mem_names_register hsome).trans ?_).symm
      simp [hk]
  noEmpty := fun k => by
    change (Function.update s.table kind _ k).NoEmpty
    by_cases hk : k = kind
    · subst hk
      rw [Function.update_self]
      exact (h.noEmpty k).add name c
    · rw [Function.update_of_ne hk]
      exact h.noEmpty k
  closedEmpty := fun d hnew k m hm => by
    have hclosed := (Server.sameConns_register.closed d).mp hnew
    obtain ⟨rfl, -, -⟩ | hm := (Server.mem_names_register hsome).mp hm
    · exact hopen hclosed
    · exact h.closedEmpty d hclosed k m hm

theorem TablesOk.unregister (h : TablesOk s) : TablesOk (s.unregister kind c name) where
  agrees := fun k => by
    change (Function.update s.table kind _ k).Agrees _
    by_cases hk : k = kind
    · subst hk
      rw [Function.update_self]
      refine (h.agrees k).remove name c (fun m => ?_) fun d hd => ?_
      · exact Server.mem_names_unregister.trans (by simp [and_comm])
      · ext m
        exact Server.mem_names_unregister.trans (by simp [hd])
    · rw [Function.update_of_ne hk]
      intro n d
      refine (h.agrees k n d).trans (Server.mem_names_unregister.trans ?_).symm
      simp [hk]
  noEmpty := fun k => by
    change (Function.update s.table kind _ k).NoEmpty
    by_cases hk : k = kind
    · subst hk
      rw [Function.update_self]
      exact (h.noEmpty k).remove name c
    · rw [Function.update_of_ne hk]
      exact h.noEmpty k

theorem Ok.unregister (h : Ok s) : Ok (s.unregister kind c name) where
  toTablesOk := h.toTablesOk.unregister
  closedEmpty := fun d hd k m hm =>
    h.closedEmpty d ((Server.sameConns_unregister.closed d).mp hd) k m
      (Server.mem_names_unregister.mp hm).1

/-! ### Closing -/

theorem mem_names_foldl (l : List Bytes) :
    m ∈ (l.foldl (fun s name => s.unregister kind c name) s).names d k ↔
      m ∈ s.names d k ∧ ¬(d = c ∧ k = kind ∧ m ∈ l) := by
  induction l generalizing s with
  | nil => simp
  | cons name l ih =>
    rw [List.foldl_cons, ih, Server.mem_names_unregister, List.mem_cons]
    tauto

theorem mem_names_unsubscribeQuietly :
    m ∈ (s.unsubscribeQuietly kind c).names d k ↔ m ∈ s.names d k ∧ ¬(d = c ∧ k = kind) := by
  rw [Server.unsubscribeQuietly, mem_names_foldl]
  constructor
  · rintro ⟨hm, hnot⟩
    refine ⟨hm, ?_⟩
    rintro ⟨rfl, rfl⟩
    exact hnot ⟨rfl, rfl, hm⟩
  · rintro ⟨hm, hnot⟩
    exact ⟨hm, fun h => hnot ⟨h.1, h.2.1⟩⟩

theorem mem_names_freeClientContext :
    m ∈ (s.freeClientContext c).names d k ↔ m ∈ s.names d k ∧ d ≠ c := by
  rw [Server.freeClientContext, mem_names_unsubscribeQuietly, mem_names_unsubscribeQuietly]
  cases k <;> simp

theorem TablesOk.unsubscribeQuietly (h : TablesOk s) : TablesOk (s.unsubscribeQuietly kind c) := by
  unfold Server.unsubscribeQuietly
  generalize (s.names c kind).toList = l
  induction l generalizing s with
  | nil => exact h
  | cons name l ih => exact ih h.unregister

theorem sameConns_unsubscribeQuietly : s.SameConns (s.unsubscribeQuietly kind c) := by
  unfold Server.unsubscribeQuietly
  generalize (s.names c kind).toList = l
  induction l generalizing s with
  | nil => exact .refl s
  | cons name l ih => exact Server.sameConns_unregister.trans ih

theorem sameConns_freeClientContext : s.SameConns (s.freeClientContext c) :=
  sameConns_unsubscribeQuietly.trans sameConns_unsubscribeQuietly

/-- **Closing.** The client is left without names, wherever in a command this happens. -/
theorem Ok.doClose (h : Ok s) : Ok (s.doClose c) where
  toTablesOk := by
    have hmark : TablesOk (s.modify c fun x => { x with closed := true }) :=
      h.toTablesOk.congr rfl fun d k => Server.names_modify (.inr fun _ => rfl)
    exact hmark.unsubscribeQuietly.unsubscribeQuietly
  closedEmpty := fun d hd k m hm => by
    obtain ⟨hm, hne⟩ := mem_names_freeClientContext.mp hm
    rw [Server.names_modify (.inl hne)] at hm
    obtain ⟨x, hx, hclosed⟩ := (sameConns_freeClientContext.closed d).mp hd
    rw [Server.client_modify, if_neg hne] at hx
    exact h.closedEmpty d ⟨x, hx, hclosed⟩ k m hm

/-- A reply that is written, or that cannot be written any more. -/
def Client.wrote (r : Notice) (x : Client) : Client :=
  if x.closed then x else { x with lost := x.lost.map (· - 1), written := x.written ++ [r] }

theorem Client.wrote_pubsub (r : Notice) (x : Client) : (x.wrote r).pubsub = x.pubsub := by
  unfold wrote
  split <;> rfl

theorem Client.wrote_closed (r : Notice) (x : Client) : (x.wrote r).closed = x.closed := by
  unfold wrote
  split <;> rfl

theorem write_eq {r : Notice} (h : s.breaks c = false) : s.write c r = s.modify c (Client.wrote r) := by
  rw [Server.write, if_neg (by rw [h]; exact Bool.false_ne_true)]
  rfl

theorem Ok.write (h : Ok s) (r : Notice) : Ok (s.write c r) := by
  cases hbreaks : s.breaks c with
  | true =>
    rw [Server.write, if_pos hbreaks]
    exact h.doClose
  | false =>
    rw [write_eq hbreaks]
    exact h.congr rfl (fun d k => Server.names_modify (.inr (Client.wrote_pubsub r)))
      fun d => ((Server.sameConns_modify (Client.wrote_closed r)).closed d).mp

/-! ### Commands -/

/-- The connection is open, and its socket takes the replies of `n` names, but for the last one. -/
def Server.takes (s : Server C) (c : C) (n : ℕ) : Bool :=
  (s.client c).any fun x => !x.closed && x.lost.all fun k => n ≤ k + 1

omit [DecidableEq C] in
theorem takes_iff {n : ℕ} :
    s.takes c n = true ↔
      ∃ x, s.client c = some x ∧ x.closed = false ∧ ∀ k, x.lost = some k → n ≤ k + 1 := by
  simp [Server.takes, Option.any_eq_true, Option.all_eq_true]

/-- **Subscribing.** Behind a reply that closes the connection there is no name left. -/
theorem Ok.subscribe {args : List Bytes} (h : Ok s) (htakes : s.takes c args.length = true) :
    Ok (s.subscribe kind c args) := by
  unfold Server.subscribe
  induction args generalizing s with
  | nil => exact h
  | cons name args ih =>
    obtain ⟨x, hx, hopen, hlost⟩ := takes_iff.mp htakes
    have hreg : Ok (s.register kind c name) := by
      refine h.register (by rw [hx]; rfl) ?_
      rintro ⟨y, hy, hclosed⟩
      obtain rfl := Option.some.inj (hx.symm.trans hy)
      exact absurd hclosed (by rw [hopen]; exact Bool.false_ne_true)
    have hx' : (s.register kind c name).client c = some (x.insertName kind name) := by
      change (s.modify c _).client c = _
      rw [Server.client_modify, if_pos rfl, hx]
      rfl
    rw [List.foldl_cons]
    cases args with
    | nil => exact hreg.write _
    | cons name' args =>
      refine ih (hreg.write _) ?_
      have hbreaks : (s.register kind c name).breaks c = false := by
        rw [Server.breaks, hx']
        have hne : x.lost ≠ some 0 := fun hzero => by
          have hle := hlost 0 hzero
          rw [List.length_cons, List.length_cons] at hle
          omega
        simp [Client.insertName, hne]
      have hafter : (s.subscribeChannel kind c name).client c =
          some ((x.insertName kind name).wrote
            ⟨kind.subscribe, some name, (s.register kind c name).count c⟩) := by
        rw [Server.subscribeChannel, write_eq hbreaks, Server.client_modify, if_pos rfl, hx']
        rfl
      refine takes_iff.mpr ⟨_, hafter, ?_, fun k hk => ?_⟩
      · rw [Client.wrote_closed]
        exact hopen
      · -- one reply less
        rw [Client.wrote, if_neg (by rw [show (x.insertName kind name).closed = false from hopen]; simp)] at hk
        obtain ⟨n, hn, rfl⟩ := Option.map_eq_some_iff.mp hk
        have hle := hlost n hn
        rw [List.length_cons] at hle
        omega

theorem Ok.writeLocked (h : Ok s) {r : Notice} (heq : s.writeLocked c r = some t) : Ok t := by
  unfold Server.writeLocked at heq
  split at heq
  next => cases heq
  next =>
    obtain rfl := Option.some.inj heq
    exact h.write r

theorem Ok.unsubscribeEach {args : List Bytes} {count : ℕ} {p : Server C × ℕ} (h : Ok s)
    (heq : Server.unsubscribeEach kind c args s count = some p) : Ok p.1 := by
  induction args generalizing s count with
  | nil =>
    obtain rfl := Option.some.inj heq
    exact h
  | cons name args ih =>
    obtain ⟨⟨u, ret⟩, hone, hrest⟩ := Option.bind_eq_some_iff.mp heq
    obtain ⟨u', hwrite, heq'⟩ := Option.map_eq_some_iff.mp hone
    obtain ⟨rfl, -⟩ := Prod.mk.inj heq'
    exact ih (h.unregister.writeLocked hwrite) hrest

theorem Ok.unSubscribe {args : List Bytes} (h : Ok s) (heq : s.unSubscribe kind c args = some t) :
    Ok t := by
  unfold Server.unSubscribe at heq
  split at heq
  next =>
    unfold Server.unsubscribeAll at heq
    split at heq
    next =>
      obtain rfl := Option.some.inj heq
      exact h
    next =>
      obtain ⟨⟨u, count⟩, heach, hlast⟩ := Option.bind_eq_some_iff.mp heq
      have hu : Ok u := h.unsubscribeEach heach
      dsimp only at hlast
      split at hlast
      next =>
        obtain rfl := Option.some.inj hlast
        exact hu.write _
      next =>
        obtain rfl := Option.some.inj hlast
        exact hu
  next =>
    obtain ⟨p, heach, rfl⟩ := Option.map_eq_some_iff.mp heq
    exact h.unsubscribeEach heach

/-! ### Steps -/

/-- **Subscribing for the living.** A client subscribes while its connection is open, and if the peer
is gone the socket takes all the replies of the command, but for the last one. -/
def KeepsTables (s : Server C) : Event C → Prop
  | .command c (.subscribe _ args) => s.takes c args.length = true
  | _ => True

instance (s : Server C) (ev : Event C) : Decidable (KeepsTables s ev) := by
  unfold KeepsTables
  split <;> infer_instance

/-- Another set of contexts, where a client without names has come or gone. -/
theorem Ok.setClient (h : Ok s) {x : Option Client} (hold : ∀ k m, m ∉ s.names c k)
    (hnew : ∀ y ∈ x, y.pubsub = none ∧ y.closed = false) :
    Ok { s with client := Function.update s.client c x } := by
  have hclient : Function.update s.client c x c = x := Function.update_self ..
  have hnone : ∀ k m, m ∉ Server.names { s with client := Function.update s.client c x } c k := by
    intro k m hm
    change m ∈ (Function.update s.client c x c).elim ∅ _ at hm
    rw [hclient] at hm
    cases x with
    | none => exact ListSet.notMem_empty m hm
    | some y =>
      change m ∈ y.getPubsub k at hm
      rw [Client.getPubsub, (hnew y rfl).1] at hm
      exact ListSet.notMem_empty m hm
  refine h.congr rfl (fun d k => ?_) ?_
  · by_cases hd : d = c
    · subst hd
      rw [ListSet.eq_empty_of_forall (hnone k), ListSet.eq_empty_of_forall (hold k)]
    · change (Function.update s.client c x d).elim ∅ _ = _
      rw [Function.update_of_ne hd]
      rfl
  · rintro d ⟨y, hy, hclosed⟩
    by_cases hd : d = c
    · subst hd
      obtain rfl : x = some y := hclient.symm.trans hy
      rw [(hnew y rfl).2] at hclosed
      cases hclosed
    · refine ⟨y, ?_, hclosed⟩
      rw [← hy]
      exact (Function.update_of_ne hd ..).symm

theorem Ok.step (h : Ok s) {ev : Event C} (hev : KeepsTables s ev) (heq : s.step ev = some t) : Ok t := by
  unfold Server.step at heq
  split at heq
  case isFalse => cases heq
  case isTrue hcan =>
    cases ev with
    | accept c =>
      obtain rfl := Option.some.inj heq
      refine h.setClient (fun k m hm => ?_) ?_
      · have hnone : s.client c = none := Option.isNone_iff_eq_none.mp hcan
        rw [Server.names, hnone] at hm
        exact ListSet.notMem_empty m hm
      · rintro y ⟨rfl⟩
        exact ⟨rfl, rfl⟩
    | command c cmd =>
      cases cmd with
      | subscribe kind args =>
        obtain rfl := Option.some.inj heq
        exact h.subscribe hev
      | unsubscribe kind args => exact h.unSubscribe heq
    | reset c n =>
      obtain rfl := Option.some.inj heq
      have hsame : s.SameConns (s.modify c fun x => { x with lost := some n }) :=
        Server.sameConns_modify fun _ => rfl
      exact h.congr rfl (fun d k => Server.names_modify (.inr fun _ => rfl)) fun d => (hsame.closed d).mp
    | close c =>
      obtain rfl := Option.some.inj heq
      exact h.doClose
    | delete c =>
      obtain rfl := Option.some.inj heq
      obtain ⟨x, hx, hclosed⟩ := Option.any_eq_true .. |>.mp hcan
      exact h.setClient (h.closedEmpty c ⟨x, hx, hclosed⟩) (by rintro y ⟨⟩)

/-! ### What a command closes -/

namespace Server

/-- What a command of `c` leaves behind: the channel of `c` may have been closed, and no other one. -/
structure Closes (c : C) (s t : Server C) : Prop where
  isSome : ∀ d, (t.client d).isSome = (s.client d).isSome
  closed : ∀ d, d ≠ c → (t.IsClosed d ↔ s.IsClosed d)
  stays : s.IsClosed c → t.IsClosed c

variable {u : Server C}

omit [DecidableEq C] in
theorem Closes.of_same (h : s.SameConns t) : Closes c s t :=
  ⟨h.isSome, fun d _ => h.closed d, fun hc => (h.closed c).mpr hc⟩

omit [DecidableEq C] in
theorem Closes.trans (h : Closes c s t) (h' : Closes c t u) : Closes c s u :=
  ⟨fun d => (h'.isSome d).trans (h.isSome d), fun d hd => (h'.closed d hd).trans (h.closed d hd),
    fun hc => h'.stays (h.stays hc)⟩

theorem closes_doClose : Closes c s (s.doClose c) := by
  refine .trans (t := s.modify c fun x => { x with closed := true }) ⟨fun d => ?_, fun d hd => ?_, ?_⟩
    (.of_same sameConns_freeClientContext)
  · rw [client_modify]
    split
    next hd =>
      subst hd
      exact Option.isSome_map
    next => rfl
  · unfold IsClosed
    rw [client_modify, if_neg hd]
  · rintro ⟨x, hx, -⟩
    exact ⟨{ x with closed := true }, by rw [client_modify, if_pos rfl, hx]; rfl, rfl⟩

theorem closes_write (r : Notice) : Closes c s (s.write c r) := by
  cases hbreaks : s.breaks c with
  | true =>
    rw [write, if_pos hbreaks]
    exact closes_doClose
  | false =>
    rw [write_eq hbreaks]
    exact .of_same (sameConns_modify (Client.wrote_closed r))

theorem closes_subscribe (args : List Bytes) : Closes c s (s.subscribe kind c args) := by
  unfold subscribe
  induction args generalizing s with
  | nil => exact .of_same (.refl s)
  | cons name args ih => exact .trans (.trans (.of_same sameConns_register) (closes_write _)) ih

theorem closes_unsubscribeEach {args : List Bytes} {count : ℕ} {p : Server C × ℕ}
    (heq : unsubscribeEach kind c args s count = some p) : Closes c s p.1 := by
  induction args generalizing s count with
  | nil =>
    obtain rfl := Option.some.inj heq
    exact .of_same (.refl s)
  | cons name args ih =>
    obtain ⟨⟨u, ret⟩, hone, hrest⟩ := Option.bind_eq_some_iff.mp heq
    obtain ⟨v, hwrite, heq'⟩ := Option.map_eq_some_iff.mp hone
    obtain ⟨rfl, -⟩ := Prod.mk.inj heq'
    unfold writeLocked at hwrite
    split at hwrite
    next => cases hwrite
    next =>
      obtain rfl := Option.some.inj hwrite
      exact .trans (.trans (.of_same sameConns_unregister) (closes_write _)) (ih hrest)

theorem closes_exec {cmd : Command} (heq : s.exec c cmd = some t) : Closes c s t := by
  cases cmd with
  | subscribe kind args =>
    obtain rfl := Option.some.inj heq
    exact closes_subscribe args
  | unsubscribe kind args =>
    change s.unSubscribe kind c args = some t at heq
    unfold unSubscribe at heq
    split at heq
    next =>
      unfold unsubscribeAll at heq
      split at heq
      next =>
        obtain rfl := Option.some.inj heq
        exact .of_same (.refl s)
      next =>
        obtain ⟨⟨v, count⟩, heach, hlast⟩ := Option.bind_eq_some_iff.mp heq
        dsimp only at hlast
        split at hlast
        next =>
          obtain rfl := Option.some.inj hlast
          exact .trans (closes_unsubscribeEach heach) (closes_write _)
        next =>
          obtain rfl := Option.some.inj hlast
          exact closes_unsubscribeEach heach
    next =>
      obtain ⟨p, heach, rfl⟩ := Option.map_eq_some_iff.mp heq
      exact closes_unsubscribeEach heach

end Server

/-! ### Messages for the subscribers -/

/-- What a client is to get: a message for the channel if it has subscribed to it, and one for each of
its patterns that matches. -/
def Due (stringMatch : Bytes → Bytes → Bool) (s : Server C) (channel message : Bytes) (c : C) :
    Message → Prop
  | .message ch m => ch = channel ∧ m = message ∧ channel ∈ s.names c .channel
  | .pmessage p ch m =>
    ch = channel ∧ m = message ∧ stringMatch p channel = true ∧ p ∈ s.names c .pattern

/-- **Delivery.** A `PUBLISH` queues for each client, once each, what it is to get and nothing else, and
returns how many messages these are. -/
def Delivers (stringMatch : Bytes → Bytes → Bool) (s : Server C) : Prop :=
  ∀ channel message, ∃ queue, s.publishMessage stringMatch channel message = (queue.length, queue) ∧
    queue.Nodup ∧ ∀ c x, (c, x) ∈ queue ↔ Due stringMatch s channel message c x

omit [DecidableEq C] in
theorem TablesOk.delivers (stringMatch : Bytes → Bytes → Bool) (h : TablesOk s) :
    Delivers stringMatch s := by
  intro channel message
  have hmem (c : C) (x : Message) :
      (c, x) ∈ ((s.table .channel).members channel).toList.map (fun c => (c, Message.message channel message)) ↔
        c ∈ (s.table .channel).members channel ∧ x = .message channel message := by
    rw [List.mem_map]
    constructor
    · rintro ⟨d, hd, heq⟩
      obtain ⟨rfl, rfl⟩ := Prod.mk.inj heq
      exact ⟨hd, rfl⟩
    · rintro ⟨hc, rfl⟩
      exact ⟨c, hc, rfl⟩
  have hinj : Function.Injective fun pattern => Message.pmessage pattern channel message :=
    fun p q heq => (Message.pmessage.inj heq).1
  refine ⟨_, Prod.ext (List.length_append ..).symm rfl, ?_, fun c x => ?_⟩
  · refine List.nodup_append.mpr ⟨?_, Table.nodup_send hinj, fun y hy z hz heq => ?_⟩
    · exact ((s.table .channel).members channel).nodup.map fun c d heq => (Prod.mk.inj heq).1
    · -- a message is not one for a pattern
      obtain ⟨c, x⟩ := y
      subst heq
      obtain ⟨p, -, -, hx⟩ := Table.mem_send.mp hz
      rw [((hmem c x).mp hy).2] at hx
      cases hx
  · rw [List.mem_append, hmem, Table.mem_send, h.agrees .channel channel c]
    cases x with
    | message ch m =>
      simp only [Message.message.injEq, reduceCtorEq, and_false, exists_false, or_false, Set.mem_ofPred_eq,
        Due]
      tauto
    | pmessage p ch m =>
      simp only [reduceCtorEq, and_false, false_or, Message.pmessage.injEq, Due]
      constructor
      · rintro ⟨q, hq, hc, rfl, rfl, rfl⟩
        exact ⟨rfl, rfl, hq, (h.agrees .pattern p c).mp hc⟩
      · rintro ⟨rfl, rfl, hp, hc⟩
        exact ⟨p, hp, (h.agrees .pattern p c).mpr hc, rfl, rfl, rfl⟩

/-- **Subscriptions.** In every run in which clients subscribe while their connections are open, the
tables say what the contexts say, and a `PUBLISH` reaches the subscribers. -/
theorem pubSub_agrees (stringMatch : Bytes → Bytes → Bool) {events : List (Event C)}
    (h : Run.Along Server.step KeepsTables Server.init events) :
    Run.Always Server.step (fun s => TablesOk s ∧ Delivers stringMatch s) Server.init events :=
  Run.always_of_invariant (fun _ _ _ hs hev heq => hs.step hev heq)
    (fun _ hs => ⟨hs.toTablesOk, hs.toTablesOk.delivers stringMatch⟩) Ok.init h

/-- The subscriber of two names, whose connection is lost and whose context is deleted. -/
def brokenSubscribe : List (Event ℕ) :=
  [.accept 0, .reset 0 0, .command 0 (.subscribe .channel [[97], [98]]), .delete 0]

/-- The reply to the first name closes the connection, and the second name is put into the table for a
context that is deleted. -/
theorem pubSub_disagrees :
    ¬∀ events : List (Event ℕ), Run.Always Server.step (fun s => TablesOk s ∧ Delivers (fun _ _ => false) s)
      Server.init events := by
  intro hall
  have hrun : ((Run.steps Server.step Server.init brokenSubscribe).map fun s =>
      (decide (0 ∈ (s.table .channel).members [98]), (s.names 0 .channel).toList)) = some (true, []) := by
    decide +kernel
  obtain ⟨s, hs, hboth⟩ := Option.map_eq_some_iff.mp hrun
  obtain ⟨hmem, hnames⟩ := Prod.mk.inj hboth
  have hname := ((hall brokenSubscribe).of_steps hs).1.agrees .channel [98] 0 |>.mp (of_decide_eq_true hmem)
  rw [Set.mem_ofPred_eq, ListSet.toList_eq_nil_iff.mp hnames] at hname
  exact ListSet.notMem_empty _ hname

/-- Two clients, a channel and a pattern, and one of them leaves. -/
theorem pubSub_agrees_two :
    Run.Always Server.step (fun s => TablesOk s ∧ Delivers (fun _ _ => true) s) (Server.init : Server ℕ)
      [.accept 0, .accept 1, .command 0 (.subscribe .channel [[97], [98]]),
        .command 1 (.subscribe .pattern [[42]]), .command 0 (.unsubscribe .channel [[97], [99]]), .close 0,
        .delete 0, .command 1 (.unsubscribe .pattern [])] :=
  pubSub_agrees _ (by decide +kernel)

end PubSub
end Comms
