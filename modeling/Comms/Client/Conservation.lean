import Comms.Client.BlockedClients

/-!
# Where the elements go

A blocking command takes an element off a list and hands it to its client, or pushes it to another list.
In between it is held by a thread. This module says for every step what becomes of the elements.

* `Accounted` — nothing happens to the elements, or one of them is handed over, taken, delivered, put
  back, or moved;
* `Conserved` — a step of a blocking command, a callback or a timer is accounted for, and it uses no
  context that is not there;
* `Keeps` — the state in which the step is taken allows for that;
* `conserved_iff` — all along a run the first is the second.

What is passed to `Channel::Write` counts as written.
-/

namespace Comms
namespace Blocking

variable {V Num C : Type}

/-- The element that a thread has taken for the client and not delivered: the list, the end, the
element. -/
def Client.holds (x : Client Num) : Option ((DBID × Bytes) × Bool × Bytes) :=
  match x.phase with
  | .pushing key value | .puttingBack key value _ => some ((x.currentDB, key), x.getBlockContext.lpop, value)
  | _ => none

theorem Client.holds_ready {x : Client Num} (h : x.phase = .ready) : x.holds = none := by
  rw [holds, h]

/-- An element is in a reply. -/
def HasMember (reply : Reply Num) (value : Bytes) : Prop :=
  ∃ members, reply = .array members ∧ Reply.str value ∈ members

theorem hasMember_pair (elements : List (Reply Num)) (key value : Bytes) :
    HasMember (.array (elements ++ [Reply.str key, Reply.str value])) value :=
  ⟨_, rfl, List.mem_append_right _ (List.mem_cons_of_mem _ List.mem_cons_self)⟩

namespace Server

variable [DecidableEq C] (cfg : HandlerConfig) (kv : Kv V Num) (members : Option V → Option (List Bytes))
  (s t : Server V Num C)

def holds (c : C) : Option ((DBID × Bytes) × Bool × Bytes) := (s.client c).bind Client.holds

def log (c : C) : List (LogEntry Num) := (s.client c).elim [] Client.log

/-- The client runs `BLPOP`, which has come to the key, or it is blocked on the key. -/
def Wants (c : C) (p : DBID × Bytes) : Prop :=
  ∃ x, s.client c = some x ∧ p.1 = x.currentDB ∧
    ((∃ lpop timed keys rest, x.phase = .popping lpop timed keys (p.2 :: rest)) ∨
      x.idle = true ∧ p ∈ x.keys)

/-- **What becomes of the elements.** Every list but those that are mentioned has the same members. -/
inductive Accounted (c : C) : Prop
  | same (hlists : t.lists members = s.lists members) (holds : t.holds c = s.holds c)
  /-- An element is in the reply to the client that runs the command. -/
  | handed (p : DBID × Bytes) (left : Bool) (value : Bytes) (l : List Bytes) (reply : Reply Num)
    (hwants : s.Wants c p) (hholds : s.holds c = none) (hholds' : t.holds c = none)
    (before : s.lists members p = some (atEnd left value l))
    (after : t.lists members = Function.update (s.lists members) p (some l))
    (hlog : t.log c = s.log c ++ [.replied (some ⟨p.2, value, left, none⟩) reply])
    (hreply : HasMember reply value)
  /-- An element is taken, to be pushed to another list. -/
  | taken (p : DBID × Bytes) (left : Bool) (value : Bytes) (l : List Bytes)
    (hwants : s.Wants c p) (hholds : s.holds c = none) (hholds' : t.holds c = some (p, left, value))
    (before : s.lists members p = some (atEnd left value l))
    (after : t.lists members = Function.update (s.lists members) p (some l))
  /-- The element that was taken is at the destination, and in the reply. -/
  | delivered (p : DBID × Bytes) (left : Bool) (value dest : Bytes) (m : List Bytes)
    (hholds : s.holds c = some (p, left, value)) (hholds' : t.holds c = none)
    (before : s.lists members (p.1, dest) = some m)
    (after : t.lists members = Function.update (s.lists members) (p.1, dest) (some (atEnd false value m)))
    (hlog : t.log c = s.log c ++ [.replied (some ⟨p.2, value, left, some dest⟩) (.str value)])
  /-- The element that was taken is where it was. -/
  | putBack (p : DBID × Bytes) (left : Bool) (value : Bytes) (l : List Bytes)
    (hholds : s.holds c = some (p, left, value)) (hholds' : t.holds c = none)
    (before : s.lists members p = some l)
    (after : t.lists members = Function.update (s.lists members) p (some (atEnd left value l)))
  /-- `RPOPLPUSH`, all at once. -/
  | moved (call : BlockCall) (db : DBID) (source dest value : Bytes) (l m : List Bytes)
    (hholds : s.holds c = none) (hholds' : t.holds c = none)
    (before : s.lists members (db, source) = some (atEnd false value l))
    (dest_before : Function.update (s.lists members) (db, source) (some l) (db, dest) = some m)
    (after : t.lists members = Function.update
      (Function.update (s.lists members) (db, source) (some l)) (db, dest) (some (atEnd true value m)))
    (hlog : t.log c = s.log c ++
      [.issued call, .replied (some ⟨source, value, false, some dest⟩) (.str value)])

/-- A command that does not block is about to run. -/
def Ordinary : Event Num C → Prop
  | .run c => ∃ x cmd args todo, s.client c = some x ∧ x.phase = .ready ∧ x.todo = (cmd, args) :: todo ∧
    BlockCall.of cmd args = none
  | _ => False

/-- **Conservation**, for one step. -/
def Conserved (s : Server V Num C) (ev : Event Num C) : Prop :=
  ∀ t, s.step cfg kv ev = some t → t.fault = false ∧ OnlyClient s t ev.client ∧
    (s.Ordinary ev ∨ Accounted members s t ev.client)

/-- The element that a pop takes. -/
def next (left : Bool) (p : DBID × Bytes) : Option Bytes :=
  (s.lists members p).bind fun l => if left then l.head? else l.getLast?

/-- The same, for a client that goes on. -/
def KeepsRun (x : Client Num) : Phase → Prop
  | .popping lpop _ _ (key :: _) => s.next members lpop (x.currentDB, key) ≠ some []
  | .waking (key :: _) => (x.currentDB, key) ∉ s.execKeys
  | .puttingBack key _ _ => s.lists members (x.currentDB, key) ≠ none
  | _ => True

/-- **When it works.** `BLPOP` does not come to an empty string. Nobody is registered from within an
`EXEC` for a key that is announced. A callback or a timer finds its client; the callback finds no element,
or it finds one that is not the empty string, and the client is still blocked on the key. A list that an
element is to be put back to is still a list. -/
def Keeps (s : Server V Num C) : Event Num C → Prop
  | .run c => ∀ x ∈ s.client c, s.KeepsRun members x x.phase
  | .callback c key => ∃ x ∈ s.client c,
    ∀ value ∈ s.next members x.getBlockContext.lpop (x.currentDB, key),
      value ≠ [] ∧ (x.currentDB, key) ∈ x.keys
  | .timeout _ c => (s.client c).isSome
  | _ => True

/-! ### The element a pop takes -/

section Steps

variable {cfg kv members s t} {c : C} {x : Client Num} {p : DBID × Bytes}

omit [DecidableEq C] in
theorem next_atEnd {left : Bool} {value : Bytes} {l : List Bytes}
    (h : s.lists members p = some (atEnd left value l)) : s.next members left p = some value := by
  unfold next
  rw [h]
  cases left with
  | true => rfl
  | false => exact List.getLast?_concat ..

omit [DecidableEq C] in
theorem next_eq_none {left : Bool} (h : s.lists members p = some [] ∨ s.lists members p = none) :
    s.next members left p = none := by
  unfold next
  obtain h | h := h
  · rw [h]
    cases left <;> rfl
  · rw [h]
    rfl

/-! ### What a client holds -/

theorem holds_of_idle (h : x.idle = true) : x.holds = none := by
  unfold Client.idle at h
  unfold Client.holds
  rw [of_decide_eq_true (Bool.and_eq_true_iff.mp h).2]

omit [DecidableEq C] in
theorem holds_eq (hx : s.client c = some x) : s.holds c = x.holds := by
  rw [holds, hx]
  rfl

omit [DecidableEq C] in
theorem log_eq (hx : s.client c = some x) : s.log c = x.log := by
  rw [log, hx]
  rfl

theorem holds_put : (s.put c x).holds c = x.holds := holds_eq client_put

theorem log_put : (s.put c x).log c = x.log := log_eq client_put

theorem holds_clearBlockKeys (h : x.phase = .ready) : (s.clearBlockKeys c x).holds c = none := by
  rw [holds_eq client_clearBlockKeys]
  unfold Client.holds
  change (match x.phase with | .pushing _ _ | .puttingBack _ _ _ => _ | _ => none) = none
  rw [h]

theorem log_clearBlockKeys : (s.clearBlockKeys c x).log c = x.log := by
  rw [log_eq client_clearBlockKeys]

theorem blockClient_put (lpop timed : Bool) (pushKey : Option Bytes) (keys : List Bytes) :
    ∃ block, ∃ u : Server V Num C, s.blockClient c x lpop timed pushKey keys =
        u.put c { x with block := block, phase := .registering keys } ∧
      u.store = s.store ∧ u.fault = s.fault := by
  unfold blockClient
  dsimp only
  split
  · exact ⟨x.block, s, rfl, rfl, rfl⟩
  · exact ⟨_, _, rfl, rfl, rfl⟩

/-- Nothing happens to the elements. -/
theorem Accounted.of_put {u : Server V Num C} {y : Client Num} (hx : s.client c = some x)
    (hstore : u.store = s.store) (hholds : y.holds = x.holds) :
    Accounted members s (u.put c y) c :=
  .same (congrArg (Keyspace.lists members) hstore) (by rw [holds_put, hholds, holds_eq hx])

/-! ### Steps that go wrong -/

omit [DecidableEq C] in
/-- An element that is off its list is with a client that wants it, or held, or in a reply. -/
theorem Accounted.wants (h : Accounted members s t c) (hholds : s.holds c = none)
    (hlog : (t.log c).length < (s.log c).length + 2) {l : Option (List Bytes)}
    (hlists : t.lists members = Function.update (s.lists members) p l) (hne : s.lists members p ≠ l) :
    s.Wants c p ∧ (t.holds c ≠ none ∨ t.log c ≠ s.log c) := by
  -- the list that is mentioned is the one that has changed
  have hsame {q : DBID × Bytes} {m : Option (List Bytes)}
      (hafter : t.lists members = Function.update (s.lists members) q m) : q = p := by
    by_contra hq
    have heq := congrFun (hafter.symm.trans hlists) p
    rw [Function.update_self, Function.update_of_ne (Ne.symm hq)] at heq
    exact hne heq
  cases h with
  | same hsame' _ =>
    have heq := congrFun (hsame'.symm.trans hlists) p
    rw [Function.update_self] at heq
    exact absurd heq hne
  | handed q left value l' reply hwants _ _ _ hafter hlog' _ =>
    obtain rfl := hsame hafter
    refine ⟨hwants, .inr fun heq => ?_⟩
    have hlen := congrArg List.length (hlog'.symm.trans heq)
    simp at hlen
  | taken q left value l' hwants _ hholds' _ hafter =>
    obtain rfl := hsame hafter
    exact ⟨hwants, .inl (by rw [hholds']; exact Option.some_ne_none _)⟩
  | delivered q left value dest m hholds' =>
    rw [hholds] at hholds'
    cases hholds'
  | putBack q left value l' hholds' =>
    rw [hholds] at hholds'
    cases hholds'
  | moved call db source dest value l' m _ _ _ _ _ hlog' =>
    rw [hlog'] at hlog
    simp at hlog

omit [DecidableEq C] in
/-- An element that was held and is put nowhere. -/
theorem not_accounted_of_lost {left : Bool} {value : Bytes} {reply : Reply Num}
    (hholds : s.holds c = some (p, left, value)) (hholds' : t.holds c = none)
    (hlog : t.log c = s.log c ++ [.replied none reply]) (hlists : s.lists members p = none) :
    ¬Accounted members s t c := by
  intro h
  cases h with
  | same _ heq =>
    rw [hholds, hholds'] at heq
    cases heq
  | handed _ _ _ _ _ _ hnone => exact nomatch hholds.symm.trans hnone
  | taken _ _ _ _ _ hnone => exact nomatch hholds.symm.trans hnone
  | delivered _ _ _ _ _ _ _ _ _ hlog' =>
    have heq := List.append_cancel_left (hlog.symm.trans hlog')
    cases heq
  | putBack q left' value' l hheld _ hbefore _ =>
    obtain ⟨rfl, -⟩ := Prod.mk.inj (Option.some.inj (hholds.symm.trans hheld))
    exact nomatch hlists.symm.trans hbefore
  | moved _ _ _ _ _ _ _ hnone => exact nomatch hholds.symm.trans hnone

omit [DecidableEq C] in
theorem atEnd_ne {left : Bool} {value : Bytes} {l : List Bytes} : some (atEnd left value l) ≠ some l := by
  intro h
  have hlen := congrArg List.length (Option.some.inj h)
  rw [length_atEnd] at hlen
  omega

/-! ### One step -/

theorem NextPop.accounted_iff {lpop timed : Bool} {keys : List Bytes} {key : Bytes} {rest : List Bytes}
    (h : NextPop members s c x lpop timed keys key rest t) (hx : s.client c = some x)
    (hphase : x.phase = .popping lpop timed keys (key :: rest)) :
    Accounted members s t c ↔ s.next members lpop (x.currentDB, key) ≠ some [] := by
  have hholds : x.holds = none := by
    rw [Client.holds, hphase]
  have hwants : s.Wants c (x.currentDB, key) := ⟨x, hx, rfl, .inl ⟨lpop, timed, keys, rest, hphase⟩⟩
  cases h with
  | answered value l st hne before after =>
    refine iff_of_true ?_ ?_
    · refine .handed _ lpop value l _ hwants ((holds_eq hx).trans hholds) holds_put before after ?_
        (hasMember_pair [] key value)
      rw [log_put, log_eq hx]
      rfl
    · rw [next_atEnd before]
      exact fun heq => hne (Option.some.inj heq)
  | dropped l st before after =>
    refine iff_of_false (fun hacc => ?_) (fun hne => hne (next_atEnd before))
    have hlog : ({ s with store := st }.put c { x with phase := .popping lpop timed keys rest }).log c =
        s.log c := by
      rw [log_put, log_eq hx]
    obtain ⟨-, hheld | hlog'⟩ := hacc.wants ((holds_eq hx).trans hholds) (by rw [hlog]; omega) after
      (by rw [before]; exact atEnd_ne)
    · exact hheld holds_put
    · exact hlog' hlog
  | missing before =>
    refine iff_of_true (.of_put hx rfl hholds.symm) ?_
    rw [next_eq_none (.inl before)]
    exact Option.some_ne_none _ |>.symm
  | wrongType before =>
    refine iff_of_true (.of_put hx rfl hholds.symm) ?_
    rw [next_eq_none (.inr before)]
    exact Option.some_ne_none _ |>.symm

theorem NextMove.accounted {timed : Bool} {source dest : Bytes} {call : BlockCall} {y : Client Num}
    (h : NextMove members s c y timed source dest t) (hx : s.client c = some x) (hphase : x.phase = .ready)
    (hlog : y.log = x.log ++ [.issued call]) : Accounted members s t c := by
  have hholds : x.holds = none := by
    rw [Client.holds, hphase]
  cases h with
  | moved value l m st before dest_before after =>
    refine .moved call y.currentDB source dest value l m ((holds_eq hx).trans hholds) holds_put before
      dest_before after ?_
    rw [log_put, log_eq hx]
    change y.log ++ _ = _
    rw [hlog, List.append_assoc]
    rfl
  | missing before =>
    obtain ⟨block, u, heq, hstore, -⟩ := blockClient_put (s := s) (c := c) (x := y) false timed (some dest)
      [source]
    rw [heq]
    exact .of_put hx hstore hholds.symm
  | wrongType => exact .of_put hx rfl hholds.symm

theorem NextPush.accounted {key value : Bytes} (h : NextPush members s c x key value t)
    (hx : s.client c = some x) (hphase : x.phase = .pushing key value) : Accounted members s t c := by
  have hholds : x.holds = some ((x.currentDB, key), x.getBlockContext.lpop, value) := by
    rw [Client.holds, hphase]
  cases h with
  | pushed m st before after =>
    refine .delivered _ _ value _ m ((holds_eq hx).trans hholds) (holds_clearBlockKeys rfl) before
      ?_ ?_
    · unfold lists
      rw [answerBlocked, store_clearBlockKeys]
      exact after
    · rw [answerBlocked, log_clearBlockKeys, log_eq hx]
      rfl
  | refused before => exact .of_put hx rfl hholds.symm

theorem NextBack.accounted_iff {key value : Bytes} {err : KvErr}
    (h : NextBack members s c x key value err t) (hx : s.client c = some x)
    (hphase : x.phase = .puttingBack key value err) :
    Accounted members s t c ↔ s.lists members (x.currentDB, key) ≠ none := by
  have hholds : x.holds = some ((x.currentDB, key), x.getBlockContext.lpop, value) := by
    rw [Client.holds, hphase]
  cases h with
  | back l st before after =>
    refine iff_of_true ?_ ?_
    · refine .putBack _ _ value l ((holds_eq hx).trans hholds) (holds_clearBlockKeys rfl) before ?_
      unfold lists
      rw [answerBlocked, store_clearBlockKeys]
      exact after
    · rw [before]
      exact Option.some_ne_none _
  | lost before =>
    refine iff_of_false ?_ (fun hne => hne before)
    have hlog : (s.answerBlocked c x none (fillErrorReply err)).log c =
        s.log c ++ [.replied none (fillErrorReply err)] := by
      rw [answerBlocked, log_clearBlockKeys, log_eq hx]
      rfl
    exact not_accounted_of_lost ((holds_eq hx).trans hholds) (holds_clearBlockKeys rfl) hlog before

theorem NextWoken.accounted_iff {queue : List (C × Bytes)} {key : Bytes}
    (h : NextWoken members { s with queue := queue } c x key t) (hx : s.client c = some x)
    (hidle : x.idle = true) :
    Accounted members s t c ↔
      ∀ value ∈ s.next members x.getBlockContext.lpop (x.currentDB, key),
        value ≠ [] ∧ (x.currentDB, key) ∈ x.keys := by
  have hholds : x.holds = none := holds_of_idle hidle
  have hs : s.holds c = none := (holds_eq hx).trans hholds
  have hphase : x.phase = .ready := of_decide_eq_true (Bool.and_eq_true_iff.mp hidle).2
  -- whoever wants the element is blocked on the key
  have hkeys (hw : s.Wants c (x.currentDB, key)) : (x.currentDB, key) ∈ x.keys := by
    obtain ⟨y, hy, -, ⟨lpop, timed, keys, rest, hpop⟩ | ⟨-, hmem⟩⟩ := hw
    · obtain rfl := Option.some.inj (hx.symm.trans hy)
      cases hphase.symm.trans hpop
    · obtain rfl := Option.some.inj (hx.symm.trans hy)
      exact hmem
  cases h with
  | answered value l st hne hpush before after =>
    change s.lists members _ = _ at before
    have hlists : (({ s with store := st, queue := queue } : Server V Num C).answerBlocked c
        { x with
          block := some x.getBlockContext
          elements := x.elements ++ [Reply.str key, Reply.str value] }
        (some ⟨key, value, x.getBlockContext.lpop, none⟩)
        (.array (x.elements ++ [Reply.str key, Reply.str value]))).lists members =
        Function.update (s.lists members) (x.currentDB, key) (some l) := by
      unfold lists
      rw [answerBlocked, store_clearBlockKeys]
      exact after
    constructor
    · intro hacc v hv
      obtain rfl := Option.some.inj ((next_atEnd before).symm.trans hv)
      refine ⟨hne, hkeys (hacc.wants hs ?_ hlists (by rw [before]; exact atEnd_ne)).1⟩
      rw [answerBlocked, log_clearBlockKeys, log_eq hx]
      simp [Client.replied]
    · intro hall
      refine .handed _ _ value l _ ⟨x, hx, rfl, .inr ⟨hidle, (hall value (next_atEnd before)).2⟩⟩ hs
        (holds_clearBlockKeys rfl) before hlists ?_
        (hasMember_pair x.elements key value)
      rw [answerBlocked, log_clearBlockKeys, log_eq hx]
      rfl
  | taken value l st hne hpush before after =>
    change s.lists members _ = _ at before
    constructor
    · intro hacc v hv
      obtain rfl := Option.some.inj ((next_atEnd before).symm.trans hv)
      refine ⟨hne, hkeys (hacc.wants hs ?_ after (by rw [before]; exact atEnd_ne)).1⟩
      rw [log_put, log_eq hx]
      change x.log.length < _
      omega
    · intro hall
      exact .taken _ _ value l ⟨x, hx, rfl, .inr ⟨hidle, (hall value (next_atEnd before)).2⟩⟩ hs holds_put
        before after
  | dropped l st before after =>
    change s.lists members _ = _ at before
    refine iff_of_false (fun hacc => ?_) (fun hall => (hall [] (next_atEnd before)).1 rfl)
    have hlog : ({ s with store := st, queue := queue }.put c { x with block := some x.getBlockContext }).log c =
        s.log c := by
      rw [log_put, log_eq hx]
    obtain ⟨-, hheld | hlog'⟩ := hacc.wants hs (by rw [hlog]; omega) after
      (by rw [before]; exact atEnd_ne)
    · exact hheld (holds_put.trans (Client.holds_ready hphase))
    · exact hlog' hlog
  | nothing before =>
    change s.lists members _ = _ ∨ s.lists members _ = _ at before
    refine iff_of_true (.of_put hx rfl ?_) ?_
    · exact (Client.holds_ready hphase).trans hholds.symm
    · intro value hv
      cases (next_eq_none before).symm.trans hv

theorem clearBlockKeys_accounted {u : Server V Num C} {y : Client Num} (hx : s.client c = some x)
    (hstore : u.store = s.store) (hx' : x.holds = none) (hy : y.phase = .ready) :
    Accounted members s (u.clearBlockKeys c y) c := by
  refine .same ?_ ?_
  · unfold lists
    rw [store_clearBlockKeys, hstore]
  · rw [holds_clearBlockKeys hy, holds_eq hx, hx']

omit [DecidableEq C] in
theorem keeps_run (hx : s.client c = some x) :
    s.Keeps members (.run c : Event Num C) ↔ s.KeepsRun members x x.phase := by
  constructor
  · intro h
    exact h x hx
  · intro h y hy
    obtain rfl := Option.some.inj (hx.symm.trans hy)
    exact h

theorem fault_popNext (lpop timed : Bool) (keys rest : List Bytes) :
    (s.popNext kv c x lpop timed keys rest).fault = s.fault := by
  cases rest with
  | nil =>
    obtain ⟨block, u, heq, -, hfault⟩ := blockClient_put (s := s) (c := c) (x := x) lpop timed none keys
    rw [popNext, heq]
    exact hfault
  | cons key rest =>
    unfold popNext
    dsimp only
    split
    · split <;> rfl
    · rfl
    · split <;> rfl

theorem fault_popPush (timed : Bool) (source dest : Bytes) :
    (s.popPush kv c x timed source dest).fault = s.fault := by
  unfold popPush
  dsimp only
  split
  · rfl
  · split
    · obtain ⟨block, u, heq, -, hfault⟩ := blockClient_put
        (s := { s with store := (kv.exec s.store x.currentDB (.rpoplpush source dest)).store }) (c := c)
        (x := x) false timed (some dest) [source]
      rw [heq]
      exact hfault
    · rfl

theorem fault_wakeBlockedList (key : Bytes) : (s.wakeBlockedList kv c x key).fault = s.fault := by
  unfold wakeBlockedList answerBlocked
  dsimp only
  split
  · split
    · rw [fault_clearBlockKeys]
    · rfl
  · rfl

theorem run_accounted_iff (hk : kv.Lawful) (hl : kv.ListLaws members) (hfault : s.fault = false)
    (hx : s.client c = some x) :
    ((s.run cfg kv c x).fault = false ∧
        (s.Ordinary (.run c) ∨ Accounted members s (s.run cfg kv c x) c)) ↔
      s.Keeps members (.run c) := by
  rw [keeps_run hx]
  -- a step that is no ordinary command, and that no fault comes of
  have hplain {t : Server V Num C} {P : Prop} (hne : ¬s.Ordinary (.run c : Event Num C))
      (ht : t.fault = false) (h : Accounted members s t c ↔ P) :
      (t.fault = false ∧ (s.Ordinary (.run c : Event Num C) ∨ Accounted members s t c)) ↔ P := by
    rw [← h]
    exact ⟨fun hacc => hacc.2.resolve_left hne, fun hacc => ⟨ht, .inr hacc⟩⟩
  have hne (h : x.phase ≠ .ready) : ¬s.Ordinary (.run c : Event Num C) := by
    rintro ⟨y, cmd, args, todo, hy, hready, -⟩
    obtain rfl := Option.some.inj (hx.symm.trans hy)
    exact h hready
  unfold run
  cases hphase : x.phase with
  | ready =>
    have hholds : x.holds = none := by
      rw [Client.holds, hphase]
    dsimp only
    split
    next htodo =>
      refine iff_of_true ⟨hfault, .inr (.of_put hx rfl ?_)⟩ trivial
      exact (Client.holds_ready hphase).trans hholds.symm
    next cmd args todo htodo =>
      split
      next call timed hcall =>
        refine iff_of_true ?_ trivial
        cases call with
        | pop lpop keys => exact ⟨hfault, .inr (.of_put hx rfl hholds.symm)⟩
        | move source dest =>
          refine ⟨(fault_popPush ..).trans hfault, .inr ?_⟩
          exact (nextMove hk hl timed source dest).accounted hx hphase rfl
      next hcall =>
        exact iff_of_true ⟨hfault, .inl ⟨x, cmd, args, todo, hx, hphase, htodo, hcall⟩⟩ trivial
  | popping lpop timed keys rest =>
    refine hplain (hne fun h => by cases hphase.symm.trans h) ((fault_popNext ..).trans hfault) ?_
    cases rest with
    | nil =>
      obtain ⟨block, u, heq, hstore, -⟩ := blockClient_put (s := s) (c := c) (x := x) lpop timed none keys
      change Accounted members s (s.blockClient c x lpop timed none keys) c ↔ True
      rw [heq]
      refine iff_of_true (.of_put hx hstore ?_) trivial
      rw [Client.holds, Client.holds, hphase]
    | cons key rest => exact (nextPop hk hl lpop timed keys key rest).accounted_iff hx hphase
  | registering rest =>
    have hholds : x.holds = none := by
      rw [Client.holds, hphase]
    cases rest with
    | nil => exact iff_of_true ⟨hfault, .inr (.of_put hx rfl hholds.symm)⟩ trivial
    | cons key rest =>
      refine iff_of_true ?_ trivial
      dsimp only
      unfold addBlockKey
      dsimp only
      split
      · exact ⟨hfault, .inr (.of_put hx rfl hholds.symm)⟩
      · exact ⟨hfault, .inr (.of_put hx rfl hholds.symm)⟩
  | waking rest =>
    have hholds : x.holds = none := by
      rw [Client.holds, hphase]
    cases rest with
    | nil => exact iff_of_true ⟨hfault, .inr (.of_put hx rfl hholds.symm)⟩ trivial
    | cons key rest =>
      dsimp only
      unfold wakeBlockingListsByKey
      split
      next hmem => exact iff_of_false (fun h => by cases h.1) (fun h => h hmem)
      next hmem => exact iff_of_true ⟨hfault, .inr (.of_put hx rfl hholds.symm)⟩ hmem
  | pushing key value =>
    have hpush := nextPush (s := s) (c := c) (x := x) hk hl key value
    refine iff_of_true ⟨?_, .inr (hpush.accounted hx hphase)⟩ trivial
    dsimp only
    unfold pushWoken answerBlocked
    dsimp only
    split
    · rw [fault_clearBlockKeys]
      exact hfault
    · exact hfault
  | puttingBack key value err =>
    refine hplain (hne fun h => by cases hphase.symm.trans h) ?_ ((nextBack hk hl key value err).accounted_iff hx hphase)
    dsimp only
    unfold putBack answerBlocked
    rw [fault_clearBlockKeys]
    exact hfault

/-- **One step.** -/
theorem conserved_step_iff (hk : kv.Lawful) (hl : kv.ListLaws members) (ev : Event Num C)
    (h : s.step cfg kv ev = some t) : Conserved cfg kv members s ev ↔ s.Keeps members ev := by
  have hconserved : Conserved cfg kv members s ev ↔
      t.fault = false ∧ (s.Ordinary ev ∨ Accounted members s t ev.client) := by
    refine ⟨fun hall => ⟨(hall t h).1, (hall t h).2.2⟩, fun hacc u hu => ?_⟩
    obtain rfl := Option.some.inj (h.symm.trans hu)
    exact ⟨hacc.1, onlyClient_of_step h, hacc.2⟩
  rw [hconserved]
  obtain ⟨hfault, hmove⟩ := move_of_step h
  cases hmove with
  | connect c hc ht =>
    subst ht
    refine iff_of_true ⟨hfault, .inr (.same rfl ?_)⟩ trivial
    change (s.put c .init).holds c = s.holds c
    rw [holds_put, holds, hc]
    rfl
  | disconnect c x hx hidle ht =>
    subst ht
    refine iff_of_true ⟨?_, .inr (.same ?_ ?_)⟩ trivial
    · exact fault_clearBlockKeys.trans hfault
    · exact congrArg (Keyspace.lists members) store_clearBlockKeys
    · change (s.free c x).holds c = s.holds c
      rw [holds_eq hx, holds_of_idle hidle, holds, free]
      dsimp only
      rw [Function.update_self]
      rfl
  | request c r x hx hidle ht =>
    subst ht
    exact iff_of_true ⟨hfault, .inr (.of_put hx rfl rfl)⟩ trivial
  | run c x hx hbusy ht =>
    subst ht
    exact run_accounted_iff hk hl hfault hx
  | callback c key x hqueue hx hidle ht =>
    subst ht
    have hwoken := (nextWoken (s := { s with queue := s.queue.erase (c, key) }) (c := c) (x := x) hk hl
      key).accounted_iff hx hidle
    refine ⟨fun hacc => ⟨x, hx, hwoken.mp (hacc.2.resolve_left id)⟩, ?_⟩
    rintro ⟨y, hy, hkeeps⟩
    obtain rfl := Option.some.inj (hx.symm.trans hy)
    exact ⟨(fault_wakeBlockedList key).trans hfault, .inr (hwoken.mpr hkeeps)⟩
  | timeout id c x htimer hx hidle ht =>
    subst ht
    refine iff_of_true ⟨fault_clearBlockKeys.trans hfault, .inr ?_⟩
      (Option.isSome_iff_exists.mpr ⟨x, hx⟩)
    exact clearBlockKeys_accounted hx rfl (holds_of_idle hidle)
      (of_decide_eq_true (Bool.and_eq_true_iff.mp hidle).2)
  | lateCallback c key hqueue hc ht =>
    subst ht
    refine iff_of_false (fun hacc => nomatch hacc.1) ?_
    rintro ⟨x, hx, -⟩
    exact nomatch hc.symm.trans hx
  | lateTimeout id c htimer hc ht =>
    subst ht
    refine iff_of_false (fun hacc => nomatch hacc.1) (fun hsome => ?_)
    exact absurd hc (Option.isSome_iff_ne_none.mp hsome)

end Steps

end Server

/-! ### Runs -/

namespace Server

variable [DecidableEq C] (members : Option V → Option (List Bytes)) (s : Server V Num C)

instance decidableKeepsRun (x : Client Num) : ∀ phase, Decidable (s.KeepsRun members x phase)
  | .popping lpop _ _ (key :: _) =>
    inferInstanceAs (Decidable (s.next members lpop (x.currentDB, key) ≠ some []))
  | .waking (key :: _) => inferInstanceAs (Decidable ((x.currentDB, key) ∉ s.execKeys))
  | .puttingBack key _ _ => inferInstanceAs (Decidable (s.lists members (x.currentDB, key) ≠ none))
  | .ready | .popping _ _ _ [] | .registering _ | .waking [] | .pushing _ _ => isTrue trivial

instance decidableKeeps : ∀ ev, Decidable (s.Keeps members ev)
  | .run c => inferInstanceAs (Decidable (∀ x ∈ s.client c, s.KeepsRun members x x.phase))
  | .callback c key => inferInstanceAs (Decidable (∃ x ∈ s.client c,
    ∀ value ∈ s.next members x.getBlockContext.lpop (x.currentDB, key),
      value ≠ [] ∧ (x.currentDB, key) ∈ x.keys))
  | .timeout _ c => inferInstanceAs (Decidable ((s.client c).isSome = true))
  | .connect _ | .disconnect _ | .request _ _ => isTrue trivial

end Server

section Runs

variable [DecidableEq C] {cfg : HandlerConfig} {kv : Kv V Num} {members : Option V → Option (List Bytes)}

/-- **Conservation.** In a run, all steps are accounted for exactly if they are taken in states that allow
for that. -/
theorem conserved_iff (hk : kv.Lawful) (hl : kv.ListLaws members) {s t : Server V Num C}
    {evs : List (Server.Event Num C)} (hrun : Run.steps (Server.step cfg kv) s evs = some t) :
    Run.Along (Server.step cfg kv) (Server.Conserved cfg kv members) s evs ↔
      Run.Along (Server.step cfg kv) (Server.Keeps members) s evs :=
  Run.along_congr_of_steps (fun _ ev _ h => Server.conserved_step_iff hk hl ev h) hrun

end Runs

/-- `BLPOP a 0`, which blocks, and then `RPUSH a value` of another client, and the callback. -/
def wokenEvents (value : Bytes) : List (Server.Event ℤ Bool) :=
  [.connect true, .connect false, .request true (.command .blpop [[97], [48]])] ++
    List.replicate 6 (.run true) ++
    [.request false (.command .rpush [[97], value]), .run false, .run false, .callback true [97]]

/-- The element is in the reply. -/
theorem conserved_iff_woken :
    Run.Along (Server.step ⟨16, []⟩ smallKv) (Server.Conserved ⟨16, []⟩ smallKv SmallKv.members?)
      (Server.init fun _ _ => none) (wokenEvents [120]) :=
  (conserved_iff smallKv_lawful smallKv_listLaws (Option.some_get (by decide +kernel)).symm).mpr
    (by decide +kernel)

/-- An element that is the empty string is nowhere. -/
theorem not_conserved :
    ¬Run.Along (Server.step ⟨16, []⟩ smallKv) (Server.Conserved ⟨16, []⟩ smallKv SmallKv.members?)
      (Server.init fun _ _ => none) (wokenEvents []) :=
  (Run.along_congr_of_steps
    (fun _ ev _ h => Server.conserved_step_iff smallKv_lawful smallKv_listLaws ev h)
    (Option.some_get (by decide +kernel)).symm).not.mpr (by decide +kernel)

end Blocking
end Comms
