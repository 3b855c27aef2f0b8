import Comms.Client.Contexts
import Comms.Command.SmallKv

/-!
# The tables hold contexts of open connections

Whoever walks a table uses the contexts in it. A context that is registered has to be taken out before it
goes, and only `FreeClientContext` does that, for connections.

* `Sound` — every context in a table is that of an open connection, the tables and the contexts agree, and
  nothing has been used that is not there;
* `ProperCall` — a command registers the context of an open connection, and it has a channel if it needs one;
* `Proper` — the same, for everything that a step runs;
* `Ok` — the invariant: whoever has no open connection has no keys;
* `sound_of_proper` — every run of proper steps.
-/

namespace Comms
namespace Contexts

variable {V Num C : Type}

namespace Server

variable [DecidableEq C] (set : Settings) (kv : Kv V Num)

/-! ### The property -/

/-- **Live contexts only.** -/
structure Sound (s : Server V C) : Prop where
  /-- The contexts in the tables are those of open connections. -/
  live : ∀ r p q, q ∈ (s.table r).members p → s.connected q = true
  subscribers : ∀ kind name c, c ∈ (s.pubsub.table kind).members name → s.connected (.conn c) = true
  /-- The tables say what the contexts say. -/
  agrees : ∀ r, (s.table r).Agrees fun q => {p | p ∈ s.keys q r}
  names : ∀ kind, (s.pubsub.table kind).Agrees fun c => {name | name ∈ s.pubsub.names c kind}
  fault : s.fault = false

/-! ### What it needs -/

/-- A command registers a context of an open connection only, and has a channel if it needs one. If the peer
is gone, the socket takes the replies of a `SUBSCRIBE`, but for the last one. -/
def ProperCall (s : Server V C) (q : Place C) (aliased : Bool) : Call → Prop
  | .data cmd args => (s.outcome set kv q aliased cmd args).blocked.isSome = true → s.connected q = true
  | .watch keys => keys ≠ [] → s.connected q = true
  | .pubsub (.subscribe _ args) =>
    match q with
    | .conn c => s.pubsub.takes c args.length = true
    | _ => False
  | .save needs | .replconf needs => needs = true → q.hasClient = true
  | .import_ reads args => (reads = true → q.hasClient = true) ∧
    ((s.outcome set kv q aliased .import_ args).blocked.isSome = true → s.connected q = true)
  | .sync => q.hasClient = true
  | .pubsub (.unsubscribe _ _) | .unwatch | .publish _ _ | .other => True

def ProperFrame (s : Server V C) (q : Place C) : Frame → Prop
  | .call call => s.ProperCall set kv q true call
  | .script calls => Run.Along (fun s call => s.runInScript set kv q call)
    (fun s call => call.inScript = true → s.ProperCall set kv q false call) s calls

/-- What `EXEC` runs, is run in a context that has no channel. -/
def ProperRequest (s : Server V C) (q : Place C) (x : Context) : Request → Prop
  | .exec => x.inTransc = true → x.abortExec = false →
    Run.Along (fun t frame => t.runFrame set kv (.exec s.execs) frame)
      (fun t frame => t.ProperFrame set kv (.exec s.execs) frame) (s.beginExec x) x.cachedCmds
  | .frame frame => x.inTransc = false → s.ProperFrame set kv q frame
  | .multi | .discard | .quit => True

/-- **When it works.** Besides, a callback or a timer finds its context. -/
def Proper (s : Server V C) : Event C → Prop
  | .request c r => ∀ x ∈ s.ctx (.conn c), s.ProperRequest set kv (.conn c) x r
  | .master r => ∀ x ∈ s.ctx .slave, s.ProperRequest set kv .slave x r
  | .callback c _ | .timeout c => (s.ctx (.conn c)).isSome = true
  | .accept _ | .masterClosed | .reset _ _ | .close _ | .delete _ => True

/-! ### The invariant -/

/-- The tables and the contexts agree. -/
structure TablesOk (s : Server V C) : Prop where
  agrees : ∀ r, (s.table r).Agrees fun q => {p | p ∈ s.keys q r}
  pubsub : PubSub.Ok s.pubsub
  same : ∀ c, (s.ctx (.conn c)).isSome = (s.pubsub.client c).isSome
  fault : s.fault = false

/-- **The invariant.** -/
structure Ok (s : Server V C) : Prop extends TablesOk s where
  free : ∀ q, s.connected q = false → ∀ r p, p ∉ s.keys q r

/-! ### The keys of a context -/

variable {set kv} {s t : Server V C} {q d : Place C} {c : C} {r k : Reason} {p p' : DBID × Bytes}

theorem ctx_modify {f : Context → Context} :
    (s.modify q f).ctx d = if d = q then (s.ctx q).map f else s.ctx d := by
  unfold modify
  split
  next h =>
    subst h
    exact Function.update_self ..
  next h => exact Function.update_of_ne h ..

theorem isSome_modify {f : Context → Context} : ((s.modify q f).ctx d).isSome = (s.ctx d).isSome := by
  rw [ctx_modify]
  split
  next h =>
    subst h
    exact Option.isSome_map
  next => rfl

omit [DecidableEq C] in
theorem keys_of_ctx {x : Context} (h : s.ctx q = some x) : s.keys q r = x.keys r := by
  rw [keys, h]
  rfl

omit [DecidableEq C] in
theorem isSome_of_mem_keys (h : p ∈ s.keys q r) : (s.ctx q).isSome = true := by
  unfold keys at h
  cases hq : s.ctx q with
  | none =>
    rw [hq] at h
    exact absurd h (ListSet.notMem_empty p)
  | some x => rfl

theorem mem_keys_modify {f : Context → Context} (h : ∀ x, (f x).keys = x.keys) :
    p ∈ (s.modify q f).keys d k ↔ p ∈ s.keys d k := by
  unfold keys
  rw [ctx_modify]
  split
  next hd =>
    subst hd
    cases s.ctx d with
    | none => exact Iff.rfl
    | some x =>
      change p ∈ (f x).keys k ↔ p ∈ x.keys k
      rw [h x]
  next => exact Iff.rfl

theorem mem_keys_register (h : (s.ctx q).isSome = true) :
    p' ∈ (s.register q r p).keys d k ↔ (d = q ∧ k = r ∧ p' = p) ∨ p' ∈ s.keys d k := by
  obtain ⟨x, hx⟩ := Option.isSome_iff_exists.mp h
  by_cases hd : d = q
  · subst hd
    have hnew : (s.register d r p).ctx d =
        some { x with keys := Function.update x.keys r ((x.keys r).insert p) } := by
      change (s.modify d _).ctx d = _
      rw [ctx_modify, if_pos rfl, hx]
      rfl
    rw [keys_of_ctx hnew, keys_of_ctx hx]
    change p' ∈ Function.update x.keys r _ k ↔ _
    by_cases hk : k = r
    · subst hk
      simp [Function.update_self]
    · simp [hk]
  · have hsame : (s.register q r p).ctx d = s.ctx d := by
      change (s.modify q _).ctx d = _
      rw [ctx_modify, if_neg hd]
    rw [keys, hsame, ← keys]
    simp [hd]

theorem mem_keys_unregister : p' ∈ (s.unregister q r).keys d k ↔ p' ∈ s.keys d k ∧ ¬(d = q ∧ k = r) := by
  by_cases hd : d = q
  · subst hd
    cases hx : s.ctx d with
    | none =>
      have hnew : (s.unregister d r).ctx d = none := by
        change (s.modify d _).ctx d = _
        rw [ctx_modify, if_pos rfl, hx]
        rfl
      rw [keys, keys, hnew, hx]
      simp
    | some x =>
      have hnew : (s.unregister d r).ctx d = some { x with keys := Function.update x.keys r ∅ } := by
        change (s.modify d _).ctx d = _
        rw [ctx_modify, if_pos rfl, hx]
        rfl
      rw [keys_of_ctx hnew, keys_of_ctx hx]
      change p' ∈ Function.update x.keys r ∅ k ↔ _
      by_cases hk : k = r
      · subst hk
        simp [Function.update_self]
      · simp [hk]
  · have hsame : (s.unregister q r).ctx d = s.ctx d := by
      change (s.modify q _).ctx d = _
      rw [ctx_modify, if_neg hd]
    rw [keys, hsame, ← keys]
    simp [hd]

/-! ### Registering -/

omit [DecidableEq C] in
/-- The tables, the keys and the channels are all that it looks at. -/
theorem TablesOk.congr (h : s.TablesOk) (htable : t.table = s.table)
    (hkeys : ∀ d k p, p ∈ t.keys d k ↔ p ∈ s.keys d k) (hpubsub : t.pubsub = s.pubsub)
    (hsame : ∀ c, (t.ctx (.conn c)).isSome = (s.ctx (.conn c)).isSome) (hfault : t.fault = false) :
    t.TablesOk where
  agrees := fun r p q => by
    rw [htable, h.agrees r p q]
    exact (hkeys q r p).symm
  pubsub := by
    rw [hpubsub]
    exact h.pubsub
  same := fun c => by
    rw [hsame, hpubsub]
    exact h.same c
  fault := hfault

omit [DecidableEq C] in
theorem Ok.congr (h : s.Ok) (htable : t.table = s.table)
    (hkeys : ∀ d k p, p ∈ t.keys d k ↔ p ∈ s.keys d k) (hpubsub : t.pubsub = s.pubsub)
    (hsame : ∀ c, (t.ctx (.conn c)).isSome = (s.ctx (.conn c)).isSome) (hfault : t.fault = false) : t.Ok where
  toTablesOk := h.toTablesOk.congr htable hkeys hpubsub hsame hfault
  free := fun q hq r p hp => by
    refine h.free q ?_ r p ((hkeys q r p).mp hp)
    unfold connected at hq ⊢
    rwa [hpubsub] at hq

theorem Ok.modify (h : s.Ok) {f : Context → Context} (hf : ∀ x, (f x).keys = x.keys) : (s.modify q f).Ok :=
  h.congr rfl (fun _ _ _ => mem_keys_modify hf) rfl (fun _ => isSome_modify) h.fault

omit [DecidableEq C] in
/-- A context has a place for keys. -/
theorem TablesOk.isSome (h : s.TablesOk) (hq : s.connected q = true) : (s.ctx q).isSome = true := by
  cases q with
  | conn c =>
    rw [h.same c]
    obtain ⟨x, hx, -⟩ := Option.any_eq_true .. |>.mp hq
    rw [hx]
    rfl
  | exec n => cases hq
  | slave => cases hq

/-- **Registering** the context of an open connection. -/
theorem Ok.register (h : s.Ok) (hq : s.connected q = true) : (s.register q r p).Ok where
  agrees := fun k => by
    change (Function.update s.table r _ k).Agrees _
    by_cases hk : k = r
    · subst hk
      rw [Function.update_self]
      refine (h.agrees k).add p q (fun p' => ?_) fun d hd => ?_
      · exact (mem_keys_register (h.isSome hq)).trans (by simp)
      · ext p'
        exact (mem_keys_register (h.isSome hq)).trans (by simp [hd])
    · rw [Function.update_of_ne hk]
      intro p' d
      refine (h.agrees k p' d).trans ((mem_keys_register (h.isSome hq)).trans ?_).symm
      simp [hk]
  pubsub := h.pubsub
  same := fun c => by
    change ((s.modify q _).ctx (.conn c)).isSome = _
    rw [isSome_modify]
    exact h.same c
  fault := h.fault
  free := fun d hd k p' hp' => by
    obtain ⟨rfl, -⟩ | hp' := (mem_keys_register (h.isSome hq)).mp hp'
    · exact absurd (hq.symm.trans hd) (by decide)
    · exact h.free d hd k p' hp'

theorem TablesOk.unregister (h : s.TablesOk) : (s.unregister q r).TablesOk where
  agrees := fun k => by
    change (Function.update s.table r _ k).Agrees _
    by_cases hk : k = r
    · subst hk
      rw [Function.update_self]
      refine (h.agrees k).removeAll q (fun p' hp' => hp') (fun p' hp' => ?_) fun d hd => ?_
      · exact (mem_keys_unregister.mp hp').2 ⟨rfl, rfl⟩
      · ext p'
        exact mem_keys_unregister.trans (by simp [hd])
    · rw [Function.update_of_ne hk]
      intro p' d
      refine (h.agrees k p' d).trans (mem_keys_unregister.trans ?_).symm
      simp [hk]
  pubsub := h.pubsub
  same := fun c => by
    change ((s.modify q _).ctx (.conn c)).isSome = _
    rw [isSome_modify]
    exact h.same c
  fault := h.fault

/-! ### Taking out -/

/-- Taking a context out of a table does not make it less of an invariant. -/
theorem Ok.unregister (h : s.Ok) : (s.unregister q r).Ok where
  toTablesOk := h.toTablesOk.unregister
  free := fun d hd k p hp => h.free d hd k p (mem_keys_unregister.mp hp).1

theorem TablesOk.modify (h : s.TablesOk) {f : Context → Context} (hf : ∀ x, (f x).keys = x.keys) :
    (s.modify q f).TablesOk :=
  h.congr rfl (fun _ _ _ => mem_keys_modify hf) rfl (fun _ => isSome_modify) h.fault

theorem TablesOk.unwatchKeys (h : s.TablesOk) : (s.unwatchKeys q).TablesOk := by
  unfold Server.unwatchKeys
  split
  · exact h
  · exact h.unregister.modify fun _ => rfl

theorem TablesOk.clearBlockKeys (h : s.TablesOk) : (s.clearBlockKeys q).TablesOk :=
  h.unregister.modify fun _ => rfl

theorem mem_keys_unwatchKeys :
    p ∈ (s.unwatchKeys q).keys d k ↔ p ∈ s.keys d k ∧ ¬(d = q ∧ k = .watch) := by
  unfold unwatchKeys
  split
  next hnil =>
    refine (and_iff_left_of_imp ?_).symm
    rintro hp ⟨rfl, rfl⟩
    rw [← ListSet.mem_toList, hnil] at hp
    cases hp
  next => exact Iff.trans (mem_keys_modify fun _ => rfl) mem_keys_unregister

theorem mem_keys_clearBlockKeys :
    p ∈ (s.clearBlockKeys q).keys d k ↔ p ∈ s.keys d k ∧ ¬(d = q ∧ k = .block) :=
  Iff.trans (mem_keys_modify fun _ => rfl) mem_keys_unregister

/-- Nothing is left of the keys of a connection. -/
theorem mem_keys_freeKeys : p ∈ (s.freeKeys c).keys d k ↔ p ∈ s.keys d k ∧ d ≠ .conn c := by
  unfold freeKeys
  rw [mem_keys_clearBlockKeys, mem_keys_unwatchKeys]
  cases k <;> simp

theorem pubsub_unwatchKeys : (s.unwatchKeys q).pubsub = s.pubsub := by
  unfold unwatchKeys
  split <;> rfl

theorem pubsub_freeKeys : (s.freeKeys c).pubsub = s.pubsub := pubsub_unwatchKeys (s := s) (q := .conn c)

theorem Ok.unwatchKeys (h : s.Ok) : (s.unwatchKeys q).Ok where
  toTablesOk := h.toTablesOk.unwatchKeys
  free := fun d hd k p hp => by
    refine h.free d ?_ k p (mem_keys_unwatchKeys.mp hp).1
    unfold connected at hd ⊢
    rwa [pubsub_unwatchKeys] at hd

theorem Ok.clearBlockKeys (h : s.Ok) : (s.clearBlockKeys q).Ok where
  toTablesOk := h.toTablesOk.clearBlockKeys
  free := fun d hd k p hp => h.free d hd k p (mem_keys_clearBlockKeys.mp hp).1

/-- **Closing.** The connection may have been closed, which leaves it with keys, until they are taken out. -/
theorem TablesOk.freeKeys (h : s.TablesOk)
    (hfree : ∀ d, d ≠ .conn c → s.connected d = false → ∀ k p, p ∉ s.keys d k) : (s.freeKeys c).Ok where
  toTablesOk := h.unwatchKeys.clearBlockKeys
  free := fun d hd k p hp => by
    obtain ⟨hp, hne⟩ := mem_keys_freeKeys.mp hp
    refine hfree d hne ?_ k p hp
    unfold connected at hd ⊢
    rwa [pubsub_freeKeys] at hd

/-! ### Commands that work on keys -/

theorem Ok.fireKeyChangedEvent (h : s.Ok) : (s.fireKeyChangedEvent p).Ok := by
  unfold Server.fireKeyChangedEvent
  split
  next => exact h
  next =>
    have hctx (d : Place C) : (s.abortWatchKey p).ctx d = (s.ctx d).map fun x =>
        if d ∈ (s.table .watch).members p then { x with abortExec := true } else x := rfl
    refine h.congr rfl (fun d k p' => ?_) rfl (fun c => ?_) ?_
    · unfold keys
      rw [hctx]
      cases s.ctx d with
      | none => exact Iff.rfl
      | some x =>
        dsimp only [Option.map_some, Option.elim_some]
        split <;> exact Iff.rfl
    · rw [hctx]
      exact Option.isSome_map
    · -- those who watch the key are there
      change (s.fault || _) = false
      rw [h.fault, Bool.false_or, List.any_eq_false]
      intro d hd hnone
      have hsome := isSome_of_mem_keys ((h.agrees .watch p d).mp hd)
      rw [Option.isNone_iff_eq_none.mp hnone] at hsome
      cases hsome

omit [DecidableEq C] in
/-- A context that is registered has a channel. -/
theorem Ok.connected (h : s.Ok) (hq : q ∈ (s.table r).members p) : s.connected q = true := by
  by_contra hnot
  exact h.free q (Bool.eq_false_iff.mpr hnot) r p ((h.agrees r p q).mp hq)

omit [DecidableEq C] in
theorem hasClient_of_connected (h : s.connected q = true) : q.hasClient = true := by
  cases q with
  | conn c => rfl
  | exec n => cases h
  | slave => cases h

omit [DecidableEq C] in
theorem Ok.needs (h : s.Ok) {ok : Bool} (hok : ok = true) : (s.needs ok).Ok :=
  h.congr rfl (fun _ _ _ => Iff.rfl) rfl (fun _ => rfl) (by
    change (s.fault || !ok) = false
    rw [h.fault, hok]
    rfl)

omit [DecidableEq C] in
theorem Ok.wakeBlockingListsByKey (h : s.Ok) : (s.wakeBlockingListsByKey p).Ok := by
  refine h.needs (List.all_eq_true.mpr fun d hd => ?_)
  have hconnected := h.connected hd
  rw [hasClient_of_connected hconnected, h.isSome hconnected]
  rfl

omit [DecidableEq C] in
/-- A loop that keeps the invariant. -/
theorem foldl_ok {α : Type} {f : Server V C → α → Server V C} (hf : ∀ s a, s.Ok → (f s a).Ok) {l : List α}
    (h : s.Ok) : (l.foldl f s).Ok := by
  induction l generalizing s with
  | nil => exact h
  | cons a l ih => exact ih (hf s a h)

/-- A loop that registers a context for one key after the other. -/
theorem Ok.registerAll {α : Type} {l : List α} (h : s.Ok) (hq : s.connected q = true)
    (key : α → DBID × Bytes) : (l.foldl (fun s a => s.register q r (key a)) s).Ok := by
  induction l generalizing s with
  | nil => exact h
  | cons a l ih => exact ih (h.register hq) hq

omit [DecidableEq C] in
/-- Another store, and another number of `EXEC`s. -/
theorem Ok.setStore (h : s.Ok) (st : Keyspace V) (n : ℕ) : Ok { s with store := st, execs := n } :=
  h.congr rfl (fun _ _ _ => Iff.rfl) rfl (fun _ => rfl) h.fault

omit [DecidableEq C] in
theorem pubsub_foldl {α : Type} {f : Server V C → α → Server V C}
    (hf : ∀ s a, (f s a).pubsub = s.pubsub) {l : List α} (s : Server V C) :
    (l.foldl f s).pubsub = s.pubsub := by
  induction l generalizing s with
  | nil => rfl
  | cons a l ih => rw [List.foldl_cons, ih, hf]

/-- **A handler** blocks on open connections only. -/
theorem Ok.runData (h : s.Ok) {aliased : Bool} {cmd : DataCommand} {args : List Bytes}
    (hq : (s.outcome set kv q aliased cmd args).blocked.isSome = true → s.connected q = true) :
    (s.runData set kv q aliased cmd args).Ok := by
  unfold Server.runData
  dsimp only
  generalize s.outcome set kv q aliased cmd args = o at hq
  have hstore : Ok ({ s with store := o.store }.modify q fun x => { x with currentDB := o.db }) :=
    (h.setStore o.store s.execs).modify fun _ => rfl
  have hfired := foldl_ok (f := Server.fireKeyChangedEvent) (fun s p hs => hs.fireKeyChangedEvent) (l := o.fired)
    hstore
  have hpubsub : (o.fired.foldl Server.fireKeyChangedEvent
      ({ s with store := o.store }.modify q fun x => { x with currentDB := o.db })).pubsub = s.pubsub := by
    refine pubsub_foldl (fun s p => ?_) _
    unfold Server.fireKeyChangedEvent
    split <;> rfl
  generalize o.fired.foldl Server.fireKeyChangedEvent
    ({ s with store := o.store }.modify q fun x => { x with currentDB := o.db }) = u at hfired hpubsub
  generalize (s.ctx q).elim 0 Context.currentDB = db
  have hwoken := foldl_ok (f := fun s key => s.wakeBlockingListsByKey (db, key))
    (fun s key hs => hs.wakeBlockingListsByKey) (l := o.wakes) hfired
  have hpubsub' : (o.wakes.foldl (fun s key => s.wakeBlockingListsByKey (db, key)) u).pubsub = s.pubsub :=
    (pubsub_foldl (f := fun s key => s.wakeBlockingListsByKey (db, key)) (fun _ _ => rfl) u).trans hpubsub
  generalize o.wakes.foldl (fun s key => s.wakeBlockingListsByKey (db, key)) u = v at hwoken hpubsub'
  cases hblocked : o.blocked with
  | none => exact hwoken
  | some block =>
    rw [hblocked] at hq
    have hconnected : v.connected q = true := by
      have hconnected := hq rfl
      unfold Server.connected at hconnected ⊢
      rwa [hpubsub']
    exact (hwoken.registerAll hconnected id).modify fun _ => rfl

/-! ### Commands that work on channels -/

omit [DecidableEq C] in
theorem connected_iff : s.connected (.conn c) = true ↔
    (s.pubsub.client c).isSome = true ∧ ¬s.pubsub.IsClosed c := by
  change (s.pubsub.client c).any _ = true ↔ _
  unfold PubSub.Server.IsClosed
  cases s.pubsub.client c with
  | none => simp
  | some x => simp

omit [DecidableEq C] in
/-- Other channels than that of `c` are as open as they were. -/
theorem connected_of_closes {pubsub : PubSub.Server C} (h : PubSub.Server.Closes c s.pubsub pubsub)
    (hd : d ≠ .conn c) : Server.connected { s with pubsub := pubsub } d = s.connected d := by
  cases d with
  | conn d =>
    have hne : d ≠ c := fun heq => hd (congrArg Place.conn heq)
    rw [Bool.eq_iff_iff, connected_iff, connected_iff, h.isSome d, h.closed d hne]
  | exec n => rfl
  | slave => rfl

omit [DecidableEq C] in
theorem TablesOk.setPubsub (h : s.TablesOk) {pubsub : PubSub.Server C} (hok : PubSub.Ok pubsub)
    (hsame : ∀ d, (pubsub.client d).isSome = (s.pubsub.client d).isSome) :
    TablesOk { s with pubsub := pubsub } where
  agrees := h.agrees
  pubsub := hok
  same := fun d => (h.same d).trans (hsame d).symm
  fault := h.fault

/-- A command of `Comms.PubSub`. -/
theorem Ok.afterPubsub (h : s.Ok) {pubsub : PubSub.Server C} (hok : PubSub.Ok pubsub)
    (hcloses : PubSub.Server.Closes c s.pubsub pubsub) : (s.afterPubsub c pubsub).Ok := by
  have htables := h.toTablesOk.setPubsub hok hcloses.isSome
  have hfree (d : Place C) (hd : d ≠ .conn c) (hclosed : Server.connected { s with pubsub := pubsub } d = false)
      (k : Reason) (p : DBID × Bytes) : p ∉ Server.keys { s with pubsub := pubsub } d k := by
    rw [connected_of_closes hcloses hd] at hclosed
    exact h.free d hclosed k p
  unfold Server.afterPubsub
  dsimp only
  split
  next => exact htables.freeKeys hfree
  next hnot =>
    refine ⟨htables, fun d hclosed k p => ?_⟩
    by_cases hd : d = .conn c
    · subst hd
      refine h.free _ ?_ k p
      by_contra hopen
      exact hnot (Bool.and_eq_true_iff.mpr ⟨(Bool.not_eq_false _).mp hopen, by rw [hclosed]; rfl⟩)
    · exact hfree d hd hclosed k p

/-- What `FreeClientContext` and `DoClose` come to. -/
theorem Ok.freeAfter (h : s.Ok) {pubsub : PubSub.Server C} (hok : PubSub.Ok pubsub)
    (hcloses : PubSub.Server.Closes c s.pubsub pubsub) : (Server.freeKeys { s with pubsub := pubsub } c).Ok := by
  refine (h.toTablesOk.setPubsub hok hcloses.isSome).freeKeys fun d hd hclosed k p => ?_
  rw [connected_of_closes hcloses hd] at hclosed
  exact h.free d hclosed k p

theorem Ok.doClose (h : s.Ok) : (s.doClose c).Ok := by
  unfold Server.doClose
  split
  next => exact h.freeAfter h.pubsub.doClose PubSub.Server.closes_doClose
  next => exact h

/-- `FreeClientContext`, whatever has been closed. -/
theorem Ok.freeClientContext (h : s.Ok) : (s.freeClientContext c).Ok := by
  have hsame := PubSub.sameConns_freeClientContext (s := s.pubsub) (c := c)
  refine h.freeAfter ⟨h.pubsub.toTablesOk.unsubscribeQuietly.unsubscribeQuietly, ?_⟩ (.of_same hsame)
  intro d hclosed kind name hname
  exact h.pubsub.closedEmpty d ((hsame.closed d).mp hclosed) kind name
    (PubSub.mem_names_freeClientContext.mp hname).1

/-- A context without keys and names is deleted. -/
theorem Ok.delete (h : s.Ok) (hkeys : ∀ k p, p ∉ s.keys (.conn c) k)
    (hnames : ∀ kind name, name ∉ s.pubsub.names c kind) : (s.delete c).Ok := by
  have hctx (d : Place C) : (s.delete c).ctx d = if d = .conn c then none else s.ctx d := by
    split
    next hd =>
      subst hd
      exact Function.update_self ..
    next hd => exact Function.update_of_ne hd ..
  have hmem (d : Place C) (k : Reason) (p : DBID × Bytes) : p ∈ (s.delete c).keys d k ↔ p ∈ s.keys d k := by
    rw [keys, hctx]
    split
    next hd =>
      subst hd
      exact iff_of_false (ListSet.notMem_empty p) (hkeys k p)
    next => exact Iff.rfl
  have hclient (d : C) : (s.delete c).pubsub.client d = if d = c then none else s.pubsub.client d := by
    split
    next hd =>
      subst hd
      exact Function.update_self ..
    next hd => exact Function.update_of_ne hd ..
  refine ⟨⟨fun k p d => (h.agrees k p d).trans (hmem d k p).symm, ?_, fun d => ?_, h.fault⟩,
    fun d hclosed k p hp => ?_⟩
  · exact h.pubsub.setClient hnames (by rintro y ⟨⟩)
  · rw [hctx, hclient]
    by_cases hd : d = c
    · subst hd
      rw [if_pos rfl, if_pos rfl]
      rfl
    · rw [if_neg fun heq => hd (Place.conn.inj heq), if_neg hd]
      exact h.same d
  · rw [hmem] at hp
    by_cases hd : d = .conn c
    · subst hd
      exact hkeys k p hp
    · refine h.free d ?_ k p hp
      cases d with
      | conn d =>
        have hne : d ≠ c := fun heq => hd (congrArg Place.conn heq)
        unfold Server.connected at hclosed ⊢
        dsimp only at hclosed ⊢
        rwa [hclient, if_neg hne] at hclosed
      | exec n => rfl
      | slave => rfl

omit [DecidableEq C] in
/-- Who gets a message of a `PUBLISH` is there. -/
theorem Ok.receivers (h : s.Ok) (stringMatch : Bytes → Bytes → Bool) (channel message : Bytes) :
    ((s.pubsub.publishMessage stringMatch channel message).2.all fun m => (s.ctx (.conn m.1)).isSome) = true := by
  obtain ⟨queue, hqueue, -, hdue⟩ := h.pubsub.toTablesOk.delivers stringMatch channel message
  rw [hqueue, List.all_eq_true]
  rintro ⟨d, m⟩ hmem
  rw [h.same d]
  have hname : ∃ kind name, name ∈ s.pubsub.names d kind := by
    have hd := (hdue d m).mp hmem
    cases m with
    | message ch m => exact ⟨.channel, channel, hd.2.2⟩
    | pmessage p ch m => exact ⟨.pattern, p, hd.2.2.2⟩
  obtain ⟨kind, name, hname⟩ := hname
  unfold PubSub.Server.names at hname
  cases hd : s.pubsub.client d with
  | none =>
    rw [hd] at hname
    exact absurd hname (ListSet.notMem_empty name)
  | some x => rfl

/-- **Commands.** -/
theorem Ok.runCall (h : s.Ok) {aliased : Bool} {call : Call} (hproper : s.ProperCall set kv q aliased call)
    (heq : s.runCall set kv q aliased call = some t) : t.Ok := by
  cases call with
  | data cmd args =>
    obtain rfl := Option.some.inj heq
    exact h.runData hproper
  | watch keys =>
    obtain rfl := Option.some.inj heq
    cases keys with
    | nil => exact h
    | cons key keys =>
      exact h.registerAll (hproper (List.cons_ne_nil _ _)) fun key => (_, key)
  | unwatch =>
    obtain rfl := Option.some.inj heq
    exact h.unwatchKeys
  | pubsub cmd =>
    cases q with
    | conn c =>
      obtain ⟨pubsub, hexec, rfl⟩ := Option.map_eq_some_iff.mp heq
      refine h.afterPubsub ?_ (PubSub.Server.closes_exec hexec)
      cases cmd with
      | subscribe kind args =>
        obtain rfl := Option.some.inj hexec
        exact h.pubsub.subscribe hproper
      | unsubscribe kind args => exact h.pubsub.unSubscribe hexec
    | exec n =>
      cases cmd with
      | subscribe kind args => exact hproper.elim
      | unsubscribe kind args =>
        obtain rfl := Option.some.inj heq
        exact h
    | slave =>
      cases cmd with
      | subscribe kind args => exact hproper.elim
      | unsubscribe kind args =>
        obtain rfl := Option.some.inj heq
        exact h
  | publish channel message =>
    obtain rfl := Option.some.inj heq
    exact h.needs (h.receivers set.stringMatch channel message)
  | save writes =>
    obtain rfl := Option.some.inj heq
    refine h.needs ?_
    cases writes with
    | false => rfl
    | true => exact hproper rfl
  | import_ reads args =>
    obtain rfl := Option.some.inj heq
    refine (h.runData hproper.2).needs ?_
    cases reads with
    | false => rfl
    | true => exact hproper.1 rfl
  | replconf listeningPort =>
    obtain rfl := Option.some.inj heq
    refine h.needs ?_
    cases listeningPort with
    | false => rfl
    | true => exact hproper rfl
  | sync =>
    cases q with
    | conn c =>
      obtain rfl := Option.some.inj heq
      refine h.freeClientContext.delete (fun k p hp => ?_) fun kind name hname => ?_
      · exact (mem_keys_freeKeys.mp hp).2 rfl
      · unfold Server.freeClientContext at hname
        rw [pubsub_freeKeys] at hname
        exact (PubSub.mem_names_freeClientContext.mp hname).2 rfl
    | exec n => cases hproper
    | slave => cases hproper
  | other =>
    obtain rfl := Option.some.inj heq
    exact h

theorem Ok.runInScript (h : s.Ok) {call : Call}
    (hproper : call.inScript = true → s.ProperCall set kv q false call)
    (heq : s.runInScript set kv q call = some t) : t.Ok := by
  unfold Server.runInScript at heq
  split at heq
  next hin => exact h.runCall (hproper hin) heq
  next =>
    obtain rfl := Option.some.inj heq
    exact h

theorem Ok.runFrame (h : s.Ok) {frame : Frame} (hproper : s.ProperFrame set kv q frame)
    (heq : s.runFrame set kv q frame = some t) : t.Ok := by
  cases frame with
  | call call => exact h.runCall hproper heq
  | script calls =>
    exact Run.invariant (fun _ _ _ hs hcall hstep => hs.runInScript hcall hstep) h hproper heq

/-! ### `EXEC` -/

omit [DecidableEq C] in
theorem connected_eq_false (h : q.hasClient = false) : s.connected q = false := by
  by_contra hconnected
  rw [hasClient_of_connected ((Bool.not_eq_false _).mp hconnected)] at h
  cases h

/-- A context without a channel, and without keys, comes or goes. -/
theorem Ok.setCtx (h : s.Ok) (hq : q.hasClient = false) {x : Option Context}
    (hx : ∀ y ∈ x, ∀ k p, p ∉ y.keys k) : (s.setCtx q x).Ok := by
  have hctx (d : Place C) : (s.setCtx q x).ctx d = if d = q then x else s.ctx d := by
    split
    next hd =>
      subst hd
      exact Function.update_self ..
    next hd => exact Function.update_of_ne hd ..
  refine h.congr rfl (fun d k p => ?_) rfl (fun c => ?_) h.fault
  · rw [keys, hctx]
    split
    next hd =>
      subst hd
      refine iff_of_false (fun hp => ?_) (h.free d (connected_eq_false hq) k p)
      cases x with
      | none => exact ListSet.notMem_empty p hp
      | some y => exact hx y rfl k p hp
    next => exact Iff.rfl
  · rw [hctx, if_neg]
    rintro rfl
    cases hq

theorem Ok.beginExec (h : s.Ok) (x : Context) : (s.beginExec x).Ok := by
  refine (h.setStore s.store (s.execs + 1)).setCtx rfl ?_
  rintro y ⟨rfl⟩ k p
  exact ListSet.notMem_empty p

theorem mem_keys_clearTransc :
    p ∈ (s.clearTransc q).keys d k ↔ p ∈ s.keys d k ∧ ¬(d = q ∧ k = .watch) := by
  rw [← mem_keys_unwatchKeys]
  unfold clearTransc keys
  rw [ctx_modify]
  split
  next hd =>
    subst hd
    -- the keys that are dropped have been taken out before
    have hnone (p : DBID × Bytes) : p ∉ (s.unwatchKeys d).keys d .watch := fun hp =>
      (mem_keys_unwatchKeys.mp hp).2 ⟨rfl, rfl⟩
    unfold keys at hnone
    cases hx : (s.unwatchKeys d).ctx d with
    | none => exact Iff.rfl
    | some x =>
      rw [hx] at hnone
      cases k with
      | watch => exact iff_of_false (ListSet.notMem_empty p) (hnone p)
      | block => exact Iff.rfl
  next => exact Iff.rfl

theorem Ok.clearTransc (h : s.Ok) : (s.clearTransc q).Ok := by
  refine h.unwatchKeys.congr rfl (fun d k p => ?_) rfl (fun _ => isSome_modify) h.unwatchKeys.fault
  rw [mem_keys_clearTransc, mem_keys_unwatchKeys]

theorem Ok.endExec (h : s.Ok) (n : ℕ) : (s.endExec q n).Ok := by
  have hback : (s.modify q fun x => { x with currentDB := (s.ctx (.exec n)).elim 0 Context.currentDB }).Ok :=
    h.modify fun _ => rfl
  exact hback.clearTransc.setCtx rfl (by rintro y ⟨⟩)

/-- **`EXEC`.** Its context comes and goes without keys. -/
theorem Ok.exec (h : s.Ok) {x : Context} (hproper : s.ProperRequest set kv q x .exec)
    (heq : s.exec set kv q x = some t) : t.Ok := by
  unfold Server.exec at heq
  split at heq
  next =>
    obtain rfl := Option.some.inj heq
    exact h
  next htransc =>
    split at heq
    next =>
      obtain rfl := Option.some.inj heq
      exact h.clearTransc
    next habort =>
      obtain ⟨u, hrun, rfl⟩ := Option.map_eq_some_iff.mp heq
      have hframes := hproper ((Bool.not_eq_false _).mp htransc) ((Bool.not_eq_true _).mp habort)
      have hu : u.Ok :=
        Run.invariant (fun _ _ _ hs hframe hstep => hs.runFrame hframe hstep) (h.beginExec x) hframes hrun
      exact hu.endExec s.execs

/-! ### Steps -/

theorem Ok.request (h : s.Ok) {x : Context} {r : Request} (hproper : s.ProperRequest set kv q x r)
    (heq : s.request set kv q x r = some t) : t.Ok := by
  cases r with
  | multi =>
    obtain rfl := Option.some.inj heq
    exact h.modify fun _ => rfl
  | exec => exact h.exec hproper heq
  | discard =>
    obtain rfl := Option.some.inj heq
    split
    next => exact h.clearTransc
    next => exact h
  | quit =>
    cases q with
    | conn c =>
      obtain rfl := Option.some.inj heq
      exact h.doClose
    | exec n =>
      obtain rfl := Option.some.inj heq
      exact h
    | slave =>
      obtain rfl := Option.some.inj heq
      exact h
  | frame frame =>
    change (if x.inTransc = true then _ else _) = some t at heq
    split at heq
    next =>
      obtain rfl := Option.some.inj heq
      exact h.modify fun _ => rfl
    next htransc => exact h.runFrame (hproper ((Bool.not_eq_true _).mp htransc)) heq

theorem Ok.wakeBlockedList (h : s.Ok) (x : Context) (key : Bytes) : (s.wakeBlockedList set kv c x key).Ok := by
  unfold Server.wakeBlockedList
  dsimp only
  split
  next => exact h.setStore _ s.execs
  next => exact (h.setStore _ s.execs).clearBlockKeys

/-- **A new connection.** -/
theorem Ok.accept (h : s.Ok) (hctx : s.ctx (.conn c) = none) (hclient : s.pubsub.client c = none) :
    Ok ({ s with pubsub := { s.pubsub with
      client := Function.update s.pubsub.client c (some .init) } }.setCtx (.conn c) (some .init)) := by
  have hnew (d : Place C) : Function.update s.ctx (.conn c) (some .init) d =
      if d = .conn c then some .init else s.ctx d := by
    split
    next hd =>
      subst hd
      exact Function.update_self ..
    next hd => exact Function.update_of_ne hd ..
  have hmem (d : Place C) (k : Reason) (p : DBID × Bytes) :
      p ∈ (Function.update s.ctx (.conn c) (some .init) d).elim ∅ (fun x => x.keys k) ↔ p ∈ s.keys d k := by
    rw [hnew]
    split
    next hd =>
      subst hd
      rw [keys, hctx]
      exact Iff.rfl
    next => exact Iff.rfl
  refine ⟨⟨fun k p d => (h.agrees k p d).trans (hmem d k p).symm, ?_, fun d => ?_, h.fault⟩,
    fun d hclosed k p hp => ?_⟩
  · refine h.pubsub.setClient (fun kind name hname => ?_) ?_
    · rw [PubSub.Server.names, hclient] at hname
      exact ListSet.notMem_empty name hname
    · rintro y ⟨rfl⟩
      exact ⟨rfl, rfl⟩
  · change (Function.update s.ctx (.conn c) (some .init) (.conn d)).isSome =
      (Function.update s.pubsub.client c (some .init) d).isSome
    rw [hnew]
    by_cases hd : d = c
    · subst hd
      rw [if_pos rfl, Function.update_self]
      rfl
    · rw [if_neg fun heq => hd (Place.conn.inj heq), Function.update_of_ne hd]
      exact h.same d
  · have hp := (hmem d k p).mp hp
    by_cases hd : d = .conn c
    · subst hd
      rw [keys, hctx] at hp
      exact ListSet.notMem_empty p hp
    · refine h.free d ?_ k p hp
      cases d with
      | conn d =>
        have hne : d ≠ c := fun heq => hd (congrArg Place.conn heq)
        change (Function.update s.pubsub.client c (some .init) d).any _ = false at hclosed
        rwa [Function.update_of_ne hne] at hclosed
      | exec n => rfl
      | slave => rfl

/-- The peer is gone. -/
theorem Ok.reset (h : s.Ok) (n : ℕ) :
    Ok { s with pubsub := s.pubsub.modify c fun x => { x with lost := some n } } := by
  have hsame : s.pubsub.SameConns (s.pubsub.modify c fun x => { x with lost := some n }) :=
    PubSub.Server.sameConns_modify fun _ => rfl
  refine ⟨h.toTablesOk.setPubsub ?_ hsame.isSome, fun d hclosed k p => ?_⟩
  · exact h.pubsub.congr rfl (fun d k => PubSub.Server.names_modify (.inr fun _ => rfl))
      fun d => (hsame.closed d).mp
  · refine h.free d ?_ k p
    cases d with
    | conn d =>
      rw [Bool.eq_false_iff, Ne, connected_iff] at hclosed ⊢
      rwa [hsame.isSome d, hsame.closed d] at hclosed
    | exec n => rfl
    | slave => rfl

/-- The link to the master is closed. Its context had no keys. -/
theorem Ok.masterClosed (h : s.Ok) :
    (s.modify .slave fun x => { Context.init with currentDB := x.currentDB }).Ok := by
  refine h.congr rfl (fun d k p => ?_) rfl (fun _ => isSome_modify) h.fault
  rw [keys, ctx_modify]
  split
  next hd =>
    subst hd
    refine iff_of_false (fun hp => ?_) (h.free .slave rfl k p)
    cases hx : s.ctx (.slave : Place C) with
    | none =>
      rw [hx] at hp
      exact ListSet.notMem_empty p hp
    | some x =>
      rw [hx] at hp
      exact ListSet.notMem_empty p hp
  next => exact Iff.rfl

theorem Ok.step (h : s.Ok) {ev : Event C} (hproper : s.Proper set kv ev) (heq : s.step set kv ev = some t) :
    t.Ok := by
  cases ev with
  | accept c =>
    change (if _ then none else _) = some t at heq
    split at heq
    next => cases heq
    next hnone =>
      obtain rfl := Option.some.inj heq
      rw [Bool.or_eq_true, not_or, Bool.not_eq_true, Bool.not_eq_true, Option.isSome_eq_false_iff,
        Option.isSome_eq_false_iff, Option.isNone_iff_eq_none, Option.isNone_iff_eq_none] at hnone
      exact h.accept hnone.1 hnone.2
  | request c r =>
    obtain ⟨x, hx, hrun⟩ := Option.bind_eq_some_iff.mp heq
    exact h.request (hproper x hx) hrun
  | master r =>
    obtain ⟨x, hx, hrun⟩ := Option.bind_eq_some_iff.mp heq
    exact h.request (hproper x hx) hrun
  | masterClosed =>
    obtain rfl := Option.some.inj heq
    exact h.masterClosed
  | callback c key =>
    obtain ⟨x, hx⟩ := Option.isSome_iff_exists.mp hproper
    rw [Server.step, hx] at heq
    obtain rfl := Option.some.inj heq
    exact h.wakeBlockedList x key
  | timeout c =>
    obtain ⟨x, hx⟩ := Option.isSome_iff_exists.mp hproper
    rw [Server.step, hx] at heq
    obtain rfl := Option.some.inj heq
    exact h.clearBlockKeys
  | reset c n =>
    change (if _ then _ else none) = some t at heq
    split at heq
    next =>
      obtain rfl := Option.some.inj heq
      exact h.reset n
    next => cases heq
  | close c =>
    change (if _ then _ else none) = some t at heq
    split at heq
    next =>
      obtain rfl := Option.some.inj heq
      exact h.doClose
    next => cases heq
  | delete c =>
    change (if _ then _ else none) = some t at heq
    split at heq
    next hclosed =>
      obtain rfl := Option.some.inj heq
      obtain ⟨x, hx, hclosed⟩ := Option.any_eq_true .. |>.mp hclosed
      have hnot : s.connected (.conn c) = false := by
        change (s.pubsub.client c).any _ = false
        rw [hx, Option.any_some, hclosed]
        rfl
      exact h.delete (h.free _ hnot) (h.pubsub.closedEmpty c ⟨x, hx, hclosed⟩)
    next => cases heq

/-! ### Runs -/

theorem Ok.init (store : Keyspace V) : (init store : Server V C).Ok where
  agrees := fun r p q => by
    refine iff_of_false (ListSet.notMem_empty q) fun hp => ?_
    change p ∈ ((if q = .slave then some Context.init else none).elim ∅ fun x => x.keys r) at hp
    split at hp <;> exact ListSet.notMem_empty p hp
  pubsub := .init
  same := fun c => by
    change (if (.conn c : Place C) = .slave then some Context.init else none).isSome = false
    rw [if_neg (by rintro ⟨⟩)]
    rfl
  fault := rfl
  free := fun q _ r p hp => by
    change p ∈ ((if q = .slave then some Context.init else none).elim ∅ fun x => x.keys r) at hp
    split at hp <;> exact ListSet.notMem_empty p hp

omit [DecidableEq C] in
theorem Ok.sound (h : s.Ok) : s.Sound where
  live := fun _ _ _ => h.connected
  subscribers := fun kind name c hc => by
    have hname := (h.pubsub.agrees kind name c).mp hc
    refine connected_iff.mpr ⟨?_, fun hclosed => h.pubsub.closedEmpty c hclosed kind name hname⟩
    change name ∈ s.pubsub.names c kind at hname
    unfold PubSub.Server.names at hname
    cases hx : s.pubsub.client c with
    | none =>
      rw [hx] at hname
      exact absurd hname (ListSet.notMem_empty name)
    | some x => rfl
  agrees := h.agrees
  names := h.pubsub.agrees
  fault := h.fault

end Server

namespace Server

variable [DecidableEq C] (set : Settings) (kv : Kv V Num) (s : Server V C)

instance decidableProperCall (q : Place C) (aliased : Bool) : ∀ call, Decidable (s.ProperCall set kv q aliased call)
  | .data cmd args => inferInstanceAs (Decidable
    ((s.outcome set kv q aliased cmd args).blocked.isSome = true → s.connected q = true))
  | .watch keys => inferInstanceAs (Decidable (keys ≠ [] → s.connected q = true))
  | .pubsub (.subscribe _ args) =>
    match q with
    | .conn c => inferInstanceAs (Decidable (s.pubsub.takes c args.length = true))
    | .exec _ | .slave => isFalse fun h => h
  | .save needs | .replconf needs => inferInstanceAs (Decidable (needs = true → q.hasClient = true))
  | .import_ reads args => inferInstanceAs (Decidable ((reads = true → q.hasClient = true) ∧
    ((s.outcome set kv q aliased .import_ args).blocked.isSome = true → s.connected q = true)))
  | .sync => inferInstanceAs (Decidable (q.hasClient = true))
  | .pubsub (.unsubscribe _ _) | .unwatch | .publish _ _ | .other => isTrue trivial

instance decidableProperFrame (q : Place C) : ∀ frame, Decidable (s.ProperFrame set kv q frame)
  | .call call => decidableProperCall set kv s q true call
  | .script calls => inferInstanceAs (Decidable (Run.Along (fun s call => s.runInScript set kv q call)
    (fun s call => call.inScript = true → s.ProperCall set kv q false call) s calls))

instance decidableProperRequest (q : Place C) (x : Context) : ∀ r, Decidable (s.ProperRequest set kv q x r)
  | .exec => inferInstanceAs (Decidable (x.inTransc = true → x.abortExec = false →
    Run.Along (fun t frame => t.runFrame set kv (.exec s.execs) frame)
      (fun t frame => t.ProperFrame set kv (.exec s.execs) frame) (s.beginExec x) x.cachedCmds))
  | .frame frame => inferInstanceAs (Decidable (x.inTransc = false → s.ProperFrame set kv q frame))
  | .multi | .discard | .quit => isTrue trivial

instance decidableProper : ∀ ev, Decidable (s.Proper set kv ev)
  | .request c r => inferInstanceAs (Decidable (∀ x ∈ s.ctx (.conn c), s.ProperRequest set kv (.conn c) x r))
  | .master r => inferInstanceAs (Decidable (∀ x ∈ s.ctx .slave, s.ProperRequest set kv .slave x r))
  | .callback c _ | .timeout c => inferInstanceAs (Decidable ((s.ctx (.conn c)).isSome = true))
  | .accept _ | .masterClosed | .reset _ _ | .close _ | .delete _ => isTrue trivial

end Server

/-- No master, and no pattern matches. -/
def alone : Settings := ⟨⟨16, []⟩, false, fun _ _ => false⟩

/-- One client watches, subscribes and goes; the other one waits for a list, and pushes in a transaction. -/
def sharedEvents : List (Event Bool) :=
  [.accept true, .accept false, .request true (.frame (.call (.watch [[97], [98]]))),
    .request true (.frame (.call (.pubsub (.subscribe .channel [[99]])))),
    .request false (.frame (.call (.data .blpop [[97], [48]]))), .callback false [97], .timeout false,
    .request false .multi, .request false (.frame (.call (.data .rpush [[97], [49]]))),
    .request false (.frame (.script [.publish [99] [100], .data .lpop [[97]]])), .request false .exec,
    .close true, .delete true, .accept true]

end Contexts
end Comms
