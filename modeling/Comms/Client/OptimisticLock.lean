import Comms.Client.WatchedKeys
import Comms.Command.SmallKv
import Mathlib.Data.Fintype.Basic

/-!
# Optimistic locking

A client that watches a key wants its `EXEC` to do nothing if somebody else changes the key in between. The
change and its announcement are two steps of the one who makes it, and the look at `abort_exec` is a step in
front of the first command of the `EXEC`; this module says when that is good enough.

* `Locks` — what a transaction is to have done when it is over;
* `Optimistic` — a step that ends a transaction ends it that way;
* `Guarded` — what a step needs;
* `Inv` — whoever has missed a change will be told, and nobody is told without a change;
* `optimistic_of_guarded` — every run of guarded steps.
-/

namespace Comms
namespace Watching

variable {V Num C : Type}

namespace Server

/-! ### The property -/

/-- **What an `EXEC` comes to.** It answers nil and runs nothing if somebody else has changed a watched key
before its first command, and runs its queue otherwise. Nothing is watched afterwards, and there is no
transaction. -/
structure Locks (s t : Server V C) (x y : Client) (e : ExecEntry) : Prop where
  queue : e.queue = x.cachedCmds
  ran : e.ran = if e.changed then none else some x.cachedCmds
  store : e.ran = none → t.store = s.store
  unwatched : y.watchKeys = ∅ ∧ y.abortExec = false
  out : y.inTransc = false ∧ y.cachedCmds = [] ∧ y.stage = .out

variable [DecidableEq C] [DecidableEq V] (cfg : HandlerConfig) (kv : Kv V Num) (s : Server V C)

/-- **Optimistic locking**, for one step. -/
def Optimistic (s : Server V C) (ev : Event C) : Prop :=
  ∀ t, s.step cfg kv ev = some t → t.fault = false ∧
    ∀ c x y e, s.client c = some x → t.client c = some y → y.execs = x.execs ++ [e] → Locks s t x y e

/-! ### What it needs -/

/-- The thread of some client is about to call `FireKeyChangedEvent` for the key. -/
def Firing (p : DBID × Bytes) : Prop := ∃ d, ∃ y ∈ s.client d, Op.fire p ∈ y.work

/-- What a call of the store means to those who watch a key and have not missed a change yet. If it is the
call of somebody else and changes the key, this is announced, and the `EXEC` has not looked at
`abort_exec`. And it is announced then only. -/
def GuardedFor (c : C) (e : Effect V) (d : C) (y : Client) : Prop :=
  y.changed = false → ∀ p ∈ y.watchKeys.toList,
    (d ≠ c → e.store p.1 p.2 ≠ s.store p.1 p.2 →
      Op.fire p ∈ e.next ∧ p.2 ≠ [] ∧ y.committed = false) ∧
    (Op.fire p ∈ e.next → p.2 ≠ [] → d ≠ c ∧ e.store p.1 p.2 ≠ s.store p.1 p.2)

/-- The same, for a part of a handler of `c`. A key that is registered with the context of an `EXEC` that has
returned is not announced. A key is not watched while it is being announced. -/
def GuardedOp (c : C) (x : Client) : Op → Prop
  | .kv op => ∀ d, ∀ y ∈ s.client d, s.GuardedFor c (op.effect cfg kv s.store x.db x.hasClient) d y
  | .fire p => p.2 ≠ [] → p ∉ s.stack
  | .watch keys => x.stage = .out → x.changed = false →
    ∀ key ∈ keys, key ≠ [] → ¬s.Firing (x.currentDB, key)
  | .unwatch => True

end Server

namespace Client

/-- The part of a handler that the thread runs next. -/
def nextOp (x : Client) : Option Op :=
  match x.work, x.stage with
  | op :: _, _ => some op
  | [], .running r => r.rest.head?.bind fun frame => frame.ops.head?
  | [], _ => none

end Client

namespace Server

variable [DecidableEq C] [DecidableEq V] (cfg : HandlerConfig) (kv : Kv V Num)

/-- **When it works.** `EXEC` looks at `abort_exec` when no change of a watched key is still to be
announced. -/
def Guarded (s : Server V C) : Event C → Prop
  | .request c .exec => ∀ x ∈ s.client c, x.inTransc = true → x.abortExec = false →
    ∀ p ∈ x.watchKeys.toList, p.2 ≠ [] → ¬s.Firing p
  | .run c => ∀ x ∈ s.client c, ∀ op ∈ x.nextOp, s.GuardedOp cfg kv c x op
  | _ => True

end Server

/-! ### The invariant -/

/-- How far an `EXEC` has got, and what is known by then. -/
def Client.Ok (x : Client) : Prop :=
  match x.stage with
  | .out => True
  | .tested => x.inTransc = true ∧ x.work = [] ∧ x.changed = false
  | .running r => x.inTransc = true ∧ r.done ++ r.rest = x.cachedCmds ∧
    (r.done = [] → x.work = [] ∧ x.changed = false) ∧ (r.done ≠ [] → r.changed = false)

namespace Server

/-- The keys that a client watches. -/
def own (s : Server V C) (c : C) : Set (DBID × Bytes) := {p | ∃ x ∈ s.client c, p ∈ x.watchKeys}

/-- **The invariant.** Whoever has missed a change is aborted, or is about to be; nobody else is. -/
structure Inv [DecidableEq C] (s : Server V C) : Prop where
  fault : s.fault = false
  agrees : s.watched.Agrees s.own
  told : ∀ c x, s.client c = some x → x.changed = true →
    x.abortExec = true ∨ ∃ p ∈ x.watchKeys, p.2 ≠ [] ∧ s.Firing p
  apt : ∀ c x, s.client c = some x → x.abortExec = true → x.changed = true
  due : ∀ p, s.Firing p → p.2 ≠ [] → ∀ c x, s.client c = some x → p ∈ x.watchKeys → x.changed = true
  ok : ∀ c x, s.client c = some x → x.Ok

end Server

/-! ### Contexts -/

namespace Client

variable {x y : Client}

theorem idle_iff : x.idle = true ↔ x.stage = .out ∧ x.work = [] := by
  rw [idle, Bool.and_eq_true_iff, decide_eq_true_iff, List.isEmpty_iff]

theorem ok_of_out (h : x.stage = .out) : x.Ok := by
  unfold Ok
  rw [h]
  trivial

/-- A change that comes before `EXEC` looks, or behind its first command. -/
theorem Ok.change (h : x.Ok) (hcommitted : x.committed = false) : Ok { x with changed := true } := by
  unfold Ok at h ⊢
  unfold committed at hcommitted
  change match x.stage with | .out => True | .tested => _ | .running r => _
  cases hstage : x.stage with
  | out => trivial
  | tested =>
    rw [hstage] at hcommitted
    cases hcommitted
  | running r =>
    rw [hstage] at h hcommitted
    obtain ⟨htransc, hqueue, -, hchanged⟩ := h
    have hdone : r.done ≠ [] := List.isEmpty_eq_false_iff.mp hcommitted
    exact ⟨htransc, hqueue, fun heq => absurd heq hdone, hchanged⟩

theorem Ok.abort (h : x.Ok) : Ok { x with abortExec := true } := h

/-- Whatever the handler of a command does to its context. -/
theorem Ok.goOn (h : x.Ok) (hcommitted : x.committed = false)
    (hstage : y.stage = x.stage ∨ ∃ r r', x.stage = .running r ∧ y.stage = .running r' ∧
      r'.done = r.done ∧ r'.rest = r.rest ∧ r'.changed = r.changed)
    (htransc : y.inTransc = x.inTransc) (hqueue : y.cachedCmds = x.cachedCmds) : y.Ok := by
  unfold Ok at h ⊢
  unfold committed at hcommitted
  obtain hstage | ⟨r, r', hx, hy, hdone, hrest, hchanged⟩ := hstage
  · rw [hstage, htransc, hqueue]
    cases hx : x.stage with
    | out => trivial
    | tested =>
      rw [hx] at hcommitted
      cases hcommitted
    | running r =>
      rw [hx] at h hcommitted
      exact ⟨h.1, h.2.1, fun heq => absurd heq (List.isEmpty_eq_false_iff.mp hcommitted), h.2.2.2⟩
  · rw [hx] at h hcommitted
    rw [hy]
    dsimp only
    rw [hdone, hrest, hchanged, htransc, hqueue]
    exact ⟨h.1, h.2.1, fun heq => absurd heq (List.isEmpty_eq_false_iff.mp hcommitted), h.2.2.2⟩

/-- While a handler runs, the first command of the queue has begun. -/
theorem Ok.not_committed (h : x.Ok) (hwork : x.work ≠ []) : x.committed = false := by
  unfold Ok at h
  unfold committed
  cases hstage : x.stage with
  | out => rfl
  | tested =>
    rw [hstage] at h
    exact absurd h.2.1 hwork
  | running r =>
    rw [hstage] at h
    exact List.isEmpty_eq_false_iff.mpr fun hdone => hwork (h.2.2.1 hdone).1

theorem committed_begun {r : TranscRun} {frame : Frame} {rest : List Frame} :
    (x.begun r frame rest).committed = false :=
  List.isEmpty_eq_false_iff.mpr (List.append_ne_nil_of_right_ne_nil _ (List.cons_ne_nil _ _))

/-- The next command of the queue: when it is the first one, nothing has changed. -/
theorem Ok.begun (h : x.Ok) {r : TranscRun} {frame : Frame} {rest : List Frame}
    (hstage : x.stage = .running r) (hrest : r.rest = frame :: rest) : (x.begun r frame rest).Ok := by
  unfold Ok at h
  rw [hstage] at h
  obtain ⟨htransc, hqueue, hfirst, hchanged⟩ := h
  refine ⟨htransc, ?_, fun heq => ?_, fun _ => ?_⟩
  · change (r.done ++ [frame]) ++ rest = x.cachedCmds
    rw [← hqueue, hrest, List.append_assoc]
    rfl
  · exact absurd heq (List.append_ne_nil_of_right_ne_nil _ (List.cons_ne_nil _ _))
  · dsimp only
    split
    next hdone => exact (hfirst hdone).2
    next hdone => exact hchanged hdone

end Client

theorem fire_notMem_ops (frame : Frame) (p : DBID × Bytes) : Op.fire p ∉ frame.ops := by
  have hcall (aliased : Bool) (cmd : DataCommand) (args : List Bytes) : callOp aliased cmd args ≠ .fire p := by
    unfold callOp
    split <;> exact nofun
  cases frame with
  | data cmd args =>
    intro hmem
    exact hcall true cmd args (List.mem_singleton.mp hmem).symm
  | script calls =>
    intro hmem
    obtain ⟨call, -, heq⟩ := List.mem_map.mp hmem
    exact hcall false call.1 call.2 heq
  | watch keys =>
    intro hmem
    cases List.mem_singleton.mp hmem
  | unwatch =>
    intro hmem
    cases List.mem_singleton.mp hmem
  | other => exact List.not_mem_nil

namespace Server

variable [DecidableEq C] {s t : Server V C} {c d : C} {x y z : Client} {p : DBID × Bytes}

@[simp] theorem client_put : (s.put c x).client c = some x := Function.update_self ..

theorem client_put_ne (h : d ≠ c) : (s.put c x).client d = s.client d := Function.update_of_ne h ..

omit [DecidableEq C] in
theorem mem_own (hx : s.client c = some x) : p ∈ s.own c ↔ p ∈ x.watchKeys := by
  constructor
  · rintro ⟨y, hy, hmem⟩
    obtain rfl := Option.some.inj (hx.symm.trans hy)
    exact hmem
  · intro hmem
    exact ⟨x, hx, hmem⟩

omit [DecidableEq C] in
theorem own_congr (h : t.client d = s.client d) : t.own d = s.own d := by
  unfold own
  rw [h]

/-- Who is about to announce a key, after a step of `c`. -/
theorem firing_iff (hx : s.client c = some x) (hz : t.client c = some z)
    (hother : ∀ d, d ≠ c → (t.client d).map Client.work = (s.client d).map Client.work)
    {added : Prop} (hfires : Op.fire p ∈ z.work ↔ added ∨ Op.fire p ∈ x.work) :
    t.Firing p ↔ added ∨ s.Firing p := by
  have hwork {d : C} (hd : d ≠ c) : (∃ y ∈ t.client d, Op.fire p ∈ y.work) ↔
      ∃ y ∈ s.client d, Op.fire p ∈ y.work := by
    have hmap {u : Server V C} : (∃ y ∈ u.client d, Op.fire p ∈ y.work) ↔
        ∃ work ∈ (u.client d).map Client.work, Op.fire p ∈ work := by
      simp
    rw [hmap, hmap, hother d hd]
  constructor
  · rintro ⟨d, hd⟩
    by_cases hdc : d = c
    · subst hdc
      obtain ⟨y, hy, hmem⟩ := hd
      obtain rfl := Option.some.inj (hz.symm.trans hy)
      exact (hfires.mp hmem).imp_right fun hmem => ⟨d, x, hx, hmem⟩
    · exact .inr ⟨d, (hwork hdc).mp hd⟩
  · rintro (hadded | ⟨d, hd⟩)
    · exact ⟨c, z, hz, hfires.mpr (.inl hadded)⟩
    · by_cases hdc : d = c
      · subst hdc
        obtain ⟨y, hy, hmem⟩ := hd
        obtain rfl := Option.some.inj (hx.symm.trans hy)
        exact ⟨d, z, hz, hfires.mpr (.inr hmem)⟩
      · exact ⟨d, (hwork hdc).mpr hd⟩

/-! ### Steps that concern one context -/

/-- A context that has missed no change watches more keys, or none at all. -/
theorem Inv.update (h : s.Inv) (hx : s.client c = some x) (hz : t.client c = some z)
    (hother : ∀ d, d ≠ c → t.client d = s.client d) (hfault : t.fault = false)
    (hagrees : t.watched.Agrees t.own) (hok : z.Ok) (hfires : ∀ p, Op.fire p ∈ z.work ↔ Op.fire p ∈ x.work)
    (hkeys : (z.changed = x.changed ∧ z.abortExec = x.abortExec ∧ (∀ p ∈ x.watchKeys, p ∈ z.watchKeys) ∧
        ∀ p ∈ z.watchKeys, p ∈ x.watchKeys ∨ x.changed = true ∨ p.2 = [] ∨ ¬s.Firing p) ∨
      z.changed = false ∧ z.abortExec = false ∧ z.watchKeys = ∅) : t.Inv := by
  have hfiring (p : DBID × Bytes) : t.Firing p ↔ s.Firing p := by
    have hiff : t.Firing p ↔ False ∨ s.Firing p :=
      firing_iff hx hz (fun d hd => by rw [hother d hd]) (by rw [hfires p, false_or])
    rwa [false_or] at hiff
  have hcases {d : C} {y : Client} (hy : t.client d = some y) : d = c ∧ y = z ∨ d ≠ c ∧ s.client d = some y := by
    by_cases hd : d = c
    · subst hd
      exact .inl ⟨rfl, Option.some.inj (hy.symm.trans hz)⟩
    · exact .inr ⟨hd, (hother d hd).symm.trans hy⟩
  refine ⟨hfault, hagrees, fun d y hy hchanged => ?_, fun d y hy habort => ?_, fun p hp hne d y hy hmem => ?_,
    fun d y hy => ?_⟩
  · obtain ⟨rfl, rfl⟩ | ⟨-, hy⟩ := hcases hy
    · obtain ⟨hsame, habort, hmore, -⟩ | ⟨hfalse, -⟩ := hkeys
      · rw [habort]
        refine (h.told d x hx (hsame.symm.trans hchanged)).imp_right ?_
        rintro ⟨p, hp, hne, hfire⟩
        exact ⟨p, hmore p hp, hne, (hfiring p).mpr hfire⟩
      · rw [hfalse] at hchanged
        cases hchanged
    · refine (h.told d y hy hchanged).imp_right ?_
      rintro ⟨p, hp, hne, hfire⟩
      exact ⟨p, hp, hne, (hfiring p).mpr hfire⟩
  · obtain ⟨rfl, rfl⟩ | ⟨-, hy⟩ := hcases hy
    · obtain ⟨hsame, habort', -⟩ | ⟨-, hfalse, -⟩ := hkeys
      · exact hsame.trans (h.apt d x hx (habort'.symm.trans habort))
      · rw [hfalse] at habort
        cases habort
    · exact h.apt d y hy habort
  · have hfire := (hfiring p).mp hp
    obtain ⟨rfl, rfl⟩ | ⟨-, hy⟩ := hcases hy
    · obtain ⟨hsame, -, -, hnew⟩ | ⟨-, -, hempty⟩ := hkeys
      · rw [hsame]
        obtain hold | hchanged | hnil | hnot := hnew p hmem
        · exact h.due p hfire hne d x hx hold
        · exact hchanged
        · exact absurd hnil hne
        · exact absurd hfire hnot
      · rw [hempty] at hmem
        exact absurd hmem (ListSet.notMem_empty p)
    · exact h.due p hfire hne d y hy hmem
  · obtain ⟨rfl, rfl⟩ | ⟨-, hy⟩ := hcases hy
    · exact hok
    · exact h.ok d y hy

/-- Nothing happens to the watched keys. -/
theorem Inv.put (h : s.Inv) (hx : s.client c = some x) (hclient : t.client = (s.put c z).client)
    (hwatched : t.watched = s.watched) (hfault : t.fault = s.fault) (hok : z.Ok)
    (hsame : z.watchKeys = x.watchKeys ∧ z.changed = x.changed ∧ z.abortExec = x.abortExec)
    (hfires : ∀ p, Op.fire p ∈ z.work ↔ Op.fire p ∈ x.work) : t.Inv := by
  obtain ⟨hkeys, hchanged, habort⟩ := hsame
  have hz : t.client c = some z := by rw [hclient, client_put]
  have hother (d : C) (hd : d ≠ c) : t.client d = s.client d := by rw [hclient, client_put_ne hd]
  refine h.update hx hz hother (hfault.trans h.fault) (fun p d => ?_) hok hfires
    (.inl ⟨hchanged, habort, fun p hp => by rwa [hkeys], fun p hp => .inl (by rwa [hkeys] at hp)⟩)
  rw [hwatched, h.agrees p d]
  by_cases hd : d = c
  · subst hd
    rw [mem_own hx, mem_own hz, hkeys]
  · rw [own_congr (hother d hd)]

/-- Nothing is watched any more. -/
theorem Inv.clear (h : s.Inv) (hx : s.client c = some x) (hclient : t.client = (s.put c z).client)
    (hwatched : t.watched = s.watched.removeAll c x.watchKeys.toList) (hfault : t.fault = s.fault) (hok : z.Ok)
    (hempty : z.changed = false ∧ z.abortExec = false ∧ z.watchKeys = ∅)
    (hfires : ∀ p, Op.fire p ∈ z.work ↔ Op.fire p ∈ x.work) : t.Inv := by
  have hz : t.client c = some z := by rw [hclient, client_put]
  have hother (d : C) (hd : d ≠ c) : t.client d = s.client d := by rw [hclient, client_put_ne hd]
  refine h.update hx hz hother (hfault.trans h.fault) ?_ hok hfires (.inr hempty)
  rw [hwatched]
  refine h.agrees.removeAll c (fun p hp => (mem_own hx).mp hp) (fun p hp => ?_)
    fun d hd => own_congr (hother d hd)
  rw [mem_own hz, hempty.2.2] at hp
  exact ListSet.notMem_empty p hp

/-! ### Announcements and changes -/

/-- `FireKeyChangedEvent`, which was the next thing to do. Those who watch the key are told. -/
theorem Inv.fire (h : s.Inv) (hx : s.client c = some x) {work : List Op} (hwork : x.work = .fire p :: work)
    (hstack : p.2 ≠ [] → p ∉ s.stack) :
    ((s.put c { x with work := work }).fireKeyChangedEvent p).Inv := by
  have hcommitted : x.committed = false := (h.ok c x hx).not_committed (by rw [hwork]; exact List.cons_ne_nil _ _)
  have hok : Client.Ok { x with work := work } := (h.ok c x hx).goOn hcommitted (.inl rfl) rfl rfl
  -- one announcement less is under way
  have hfiring (q : DBID × Bytes) (hq : s.Firing q) :
      q = p ∨ (s.put c { x with work := work }).Firing q := by
    obtain ⟨d, y, hy, hmem⟩ := hq
    by_cases hd : d = c
    · subst hd
      obtain rfl := Option.some.inj (hx.symm.trans hy)
      rw [hwork] at hmem
      obtain heq | hmem := List.mem_cons.mp hmem
      · exact .inl (Op.fire.inj heq)
      · exact .inr ⟨d, _, client_put, hmem⟩
    · exact .inr ⟨d, y, (client_put_ne hd).trans hy, hmem⟩
  have hless (q : DBID × Bytes) (hq : (s.put c { x with work := work }).Firing q) : s.Firing q := by
    obtain ⟨d, y, hy, hmem⟩ := hq
    by_cases hd : d = c
    · subst hd
      obtain rfl := Option.some.inj (client_put.symm.trans hy)
      exact ⟨d, x, hx, by rw [hwork]; exact List.mem_cons_of_mem _ hmem⟩
    · exact ⟨d, y, (client_put_ne hd).symm.trans hy, hmem⟩
  have hview {d : C} {y : Client} (hy : (s.put c { x with work := work }).client d = some y) :
      ∃ y', s.client d = some y' ∧ y.watchKeys = y'.watchKeys ∧ y.changed = y'.changed ∧
        y.abortExec = y'.abortExec ∧ y.Ok := by
    by_cases hd : d = c
    · subst hd
      obtain rfl := Option.some.inj (client_put.symm.trans hy)
      exact ⟨x, hx, rfl, rfl, rfl, hok⟩
    · have hy' := (client_put_ne hd).symm.trans hy
      exact ⟨y, hy', rfl, rfl, rfl, h.ok d y hy'⟩
  have hagrees : s.watched.Agrees (s.put c { x with work := work }).own := by
    intro q d
    rw [h.agrees q d]
    by_cases hd : d = c
    · subst hd
      rw [mem_own hx, mem_own client_put]
    · rw [own_congr (client_put_ne hd)]
  generalize hu : s.put c { x with work := work } = u at hfiring hless hview hagrees
  have hustack : u.stack = s.stack := by rw [← hu]; rfl
  have hufault : u.fault = s.fault := by rw [← hu]; rfl
  have huwatched : u.watched = s.watched := by rw [← hu]; rfl
  unfold fireKeyChangedEvent
  split
  next hnil =>
    -- nobody is told about the key without a name
    refine ⟨hufault.trans h.fault, ?_, fun d y hy hchanged => ?_, fun d y hy habort => ?_,
      fun q hq hne d y hy hmem => ?_, fun d y hy => ?_⟩
    · rw [huwatched]
      exact hagrees
    · obtain ⟨y', hy', hkeys, hsame, habort, -⟩ := hview hy
      rw [habort, hkeys]
      refine (h.told d y' hy' (hsame.symm.trans hchanged)).imp_right ?_
      rintro ⟨q, hq, hne, hfire⟩
      refine ⟨q, hq, hne, (hfiring q hfire).resolve_left ?_⟩
      rintro rfl
      exact hne hnil
    · obtain ⟨y', hy', -, hsame, habort', -⟩ := hview hy
      rw [hsame]
      exact h.apt d y' hy' (habort'.symm.trans habort)
    · obtain ⟨y', hy', hkeys, hsame, -⟩ := hview hy
      rw [hsame]
      exact h.due q (hless q hq) hne d y' hy' (by rwa [hkeys] at hmem)
    · obtain ⟨-, -, -, -, -, hok⟩ := hview hy
      exact hok
  next hname =>
    have hclient {d : C} {y : Client} (hy : (u.abortWatchKey p).client d = some y) :
        ∃ y', u.client d = some y' ∧
          y = if d ∈ u.watched.members p then { y' with abortExec := true } else y' := by
      obtain ⟨y', hy', heq⟩ := Option.map_eq_some_iff.mp hy
      exact ⟨y', hy', heq.symm⟩
    have hworks {q : DBID × Bytes} : (u.abortWatchKey p).Firing q ↔ u.Firing q := by
      constructor
      · rintro ⟨d, y, hy, hmem⟩
        obtain ⟨y', hy', rfl⟩ := hclient hy
        refine ⟨d, y', hy', ?_⟩
        split at hmem <;> exact hmem
      · rintro ⟨d, y, hy, hmem⟩
        refine ⟨d, _, Option.map_eq_some_iff.mpr ⟨y, hy, rfl⟩, ?_⟩
        split <;> exact hmem
    refine ⟨?_, ?_, fun d y hy hchanged => ?_, fun d y hy habort => ?_, fun q hq hne d y hy hmem => ?_,
      fun d y hy => ?_⟩
    · change (u.fault || u.stack.contains p) = false
      rw [hufault, h.fault, hustack, Bool.false_or]
      exact Bool.eq_false_iff.mpr fun hmem => hstack hname (List.contains_iff_mem.mp hmem)
    · intro q d
      rw [show (u.abortWatchKey p).watched = s.watched from huwatched, hagrees q d]
      constructor
      · rintro ⟨y, hy, hmem⟩
        refine ⟨_, Option.map_eq_some_iff.mpr ⟨y, hy, rfl⟩, ?_⟩
        split <;> exact hmem
      · rintro ⟨y, hy, hmem⟩
        obtain ⟨y', hy', rfl⟩ := hclient hy
        refine ⟨y', hy', ?_⟩
        split at hmem <;> exact hmem
    · obtain ⟨v, hv, rfl⟩ := hclient hy
      obtain ⟨y', hy', hkeys, hsame, habort, -⟩ := hview hv
      split
      next => exact .inl rfl
      next hnot =>
        rw [if_neg hnot] at hchanged
        rw [habort, hkeys]
        refine (h.told d y' hy' (hsame.symm.trans hchanged)).imp_right ?_
        rintro ⟨q, hq, hne, hfire⟩
        refine ⟨q, hq, hne, hworks.mpr ((hfiring q hfire).resolve_left ?_)⟩
        rintro rfl
        exact hnot (by rw [huwatched, h.agrees q d]; exact ⟨y', hy', hq⟩)
    · obtain ⟨v, hv, rfl⟩ := hclient hy
      obtain ⟨y', hy', -, hsame, habort', -⟩ := hview hv
      split
      next hmem =>
        -- whoever watches the key has missed the change of it
        refine hsame.trans ?_
        obtain ⟨y'', hy'', hq⟩ := (h.agrees p d).mp (huwatched ▸ hmem)
        obtain rfl := Option.some.inj (hy'.symm.trans hy'')
        refine h.due p ⟨c, x, hx, ?_⟩ hname d y' hy' hq
        rw [hwork]
        exact List.mem_cons_self
      next hnot =>
        rw [if_neg hnot] at habort
        exact hsame.trans (h.apt d y' hy' (habort'.symm.trans habort))
    · obtain ⟨v, hv, rfl⟩ := hclient hy
      obtain ⟨y', hy', hkeys, hsame, -⟩ := hview hv
      have hq' := h.due q (hless q (hworks.mp hq)) hne d y' hy' (by
        rw [← hkeys]
        split at hmem <;> exact hmem)
      split <;> exact hsame.trans hq'
    · obtain ⟨v, hv, rfl⟩ := hclient hy
      obtain ⟨-, -, -, -, -, hok⟩ := hview hv
      split
      · exact hok.abort
      · exact hok

section Values

variable [DecidableEq V] {cfg : HandlerConfig} {kv : Kv V Num}

/-- A call of the store. Whoever else watches a key that has changed will be told. -/
theorem Inv.effect (h : s.Inv) (hx : s.client c = some x) {e : Effect V}
    (hguarded : ∀ d, ∀ y ∈ s.client d, s.GuardedFor c e d y)
    (hsame : z.watchKeys = x.watchKeys ∧ z.changed = x.changed ∧ z.abortExec = x.abortExec) (hok : z.Ok)
    (hfires : ∀ p, Op.fire p ∈ z.work ↔ Op.fire p ∈ e.next ∨ Op.fire p ∈ x.work) :
    ((s.change c e.store).put c z).Inv := by
  obtain ⟨hkeys, hchanged, habort⟩ := hsame
  have hother {d : C} (hd : d ≠ c) : ((s.change c e.store).put c z).client d = (s.client d).map fun y =>
      if d ≠ c ∧ ∃ p ∈ y.watchKeys.toList, e.store p.1 p.2 ≠ s.store p.1 p.2 then { y with changed := true }
      else y := client_put_ne hd
  -- what is left of the context that a client had
  have hview {d : C} {y : Client} (hy : ((s.change c e.store).put c z).client d = some y) :
      d = c ∧ y = z ∨ d ≠ c ∧ ∃ y', s.client d = some y' ∧ y =
        if d ≠ c ∧ ∃ p ∈ y'.watchKeys.toList, e.store p.1 p.2 ≠ s.store p.1 p.2 then
          { y' with changed := true } else y' := by
    by_cases hd : d = c
    · subst hd
      exact .inl ⟨rfl, Option.some.inj (hy.symm.trans client_put)⟩
    · rw [hother hd] at hy
      obtain ⟨y', hy', heq⟩ := Option.map_eq_some_iff.mp hy
      exact .inr ⟨hd, y', hy', heq.symm⟩
  have hfiring (p : DBID × Bytes) :
      ((s.change c e.store).put c z).Firing p ↔ Op.fire p ∈ e.next ∨ s.Firing p := by
    refine firing_iff hx client_put (fun d hd => ?_) (hfires p)
    rw [hother hd, Option.map_map]
    congr 1
    ext1 y
    rw [Function.comp_apply]
    split <;> rfl
  refine ⟨h.fault, fun p d => ?_, fun d y hy hmiss => ?_, fun d y hy haborted => ?_,
    fun p hp hne d y hy hmem => ?_, fun d y hy => ?_⟩
  · rw [show ((s.change c e.store).put c z).watched = s.watched from rfl, h.agrees p d]
    by_cases hd : d = c
    · subst hd
      rw [mem_own hx, mem_own client_put, hkeys]
    · constructor
      · rintro ⟨y, hy, hmem⟩
        refine ⟨_, (hother hd).trans (Option.map_eq_some_iff.mpr ⟨y, hy, rfl⟩), ?_⟩
        split <;> exact hmem
      · rintro ⟨y, hy, hmem⟩
        obtain ⟨rfl, -⟩ | ⟨-, y', hy', rfl⟩ := hview hy
        · exact absurd rfl hd
        · refine ⟨y', hy', ?_⟩
          split at hmem <;> exact hmem
  · obtain ⟨rfl, rfl⟩ | ⟨hd, y', hy', rfl⟩ := hview hy
    · rw [habort, hkeys]
      refine (h.told d x hx (hchanged.symm.trans hmiss)).imp_right ?_
      rintro ⟨p, hp, hne, hfire⟩
      exact ⟨p, hp, hne, (hfiring p).mpr (.inr hfire)⟩
    · cases hbefore : y'.changed with
      | true =>
        have hold := (h.told d y' hy' hbefore).imp_right fun ⟨p, hp, hne, hfire⟩ =>
          (⟨p, hp, hne, (hfiring p).mpr (.inr hfire)⟩ :
            ∃ p ∈ y'.watchKeys, p.2 ≠ [] ∧ ((s.change c e.store).put c z).Firing p)
        split <;> exact hold
      | false =>
        -- the change has just come, and is going to be announced
        split
        next hnow =>
          obtain ⟨-, p, hp, hdiff⟩ := hnow
          obtain ⟨hfire, hne, -⟩ := (hguarded d y' hy' hbefore p hp).1 hd hdiff
          exact .inr ⟨p, hp, hne, (hfiring p).mpr (.inl hfire)⟩
        next hnot =>
          rw [if_neg hnot, hbefore] at hmiss
          cases hmiss
  · obtain ⟨rfl, rfl⟩ | ⟨-, y', hy', rfl⟩ := hview hy
    · exact hchanged.trans (h.apt d x hx (habort.symm.trans haborted))
    · split
      next => rfl
      next hnot =>
        rw [if_neg hnot] at haborted
        exact h.apt d y' hy' haborted
  · obtain ⟨rfl, rfl⟩ | ⟨hd, y', hy', rfl⟩ := hview hy
    · rw [hchanged]
      rw [hkeys] at hmem
      obtain hnew | hold := (hfiring p).mp hp
      · by_contra hbefore
        exact ((hguarded d x hx (Bool.eq_false_iff.mpr hbefore) p hmem).2 hnew hne).1 rfl
      · exact h.due p hold hne d x hx hmem
    · have hmem' : p ∈ y'.watchKeys := by
        split at hmem <;> exact hmem
      split
      next => rfl
      next hnot =>
        obtain hnew | hold := (hfiring p).mp hp
        · by_contra hbefore
          obtain ⟨-, hdiff⟩ := (hguarded d y' hy' (Bool.eq_false_iff.mpr hbefore) p hmem').2 hnew hne
          exact hnot ⟨hd, p, hmem', hdiff⟩
        · exact h.due p hold hne d y' hy' hmem'
  · obtain ⟨rfl, rfl⟩ | ⟨hd, y', hy', rfl⟩ := hview hy
    · exact hok
    · split
      next hnow =>
        cases hbefore : y'.changed with
        | true =>
          have heq : { y' with changed := true } = y' := by rw [← hbefore]
          rw [heq]
          exact h.ok d y' hy'
        | false =>
          obtain ⟨-, p, hp, hdiff⟩ := hnow
          exact (h.ok d y' hy').change ((hguarded d y' hy' hbefore p hp).1 hd hdiff).2.2
      next => exact h.ok d y' hy'

/-! ### One part of a handler -/

omit [DecidableEq C] [DecidableEq V] in
theorem mem_insertAll {db : DBID} {keys : List Bytes} {set : ListSet (DBID × Bytes)} :
    p ∈ keys.foldl (fun set key => set.insert (db, key)) set ↔ p ∈ set ∨ p.1 = db ∧ p.2 ∈ keys := by
  induction keys generalizing set with
  | nil => simp
  | cons key keys ih =>
    rw [List.foldl_cons, ih, ListSet.mem_insert, List.mem_cons, Prod.ext_iff]
    tauto

omit [DecidableEq V] in
theorem mem_addAll {db : DBID} {keys : List Bytes} {table : Table (DBID × Bytes) C} :
    d ∈ (keys.foldl (fun table key => table.add (db, key) c) table).members p ↔
      d ∈ table.members p ∨ d = c ∧ p.1 = db ∧ p.2 ∈ keys := by
  induction keys generalizing table with
  | nil => simp
  | cons key keys ih =>
    rw [List.foldl_cons, ih, Table.mem_add, List.mem_cons, Prod.ext_iff]
    tauto

omit [DecidableEq C] [DecidableEq V] in
theorem setDb_same (db : DBID) (x : Client) : (x.setDb db).watchKeys = x.watchKeys ∧
    (x.setDb db).changed = x.changed ∧ (x.setDb db).abortExec = x.abortExec := by
  unfold Client.setDb
  split <;> exact ⟨rfl, rfl, rfl⟩

omit [DecidableEq C] [DecidableEq V] in
/-- `SELECT` is one of the things a handler does. -/
theorem ok_setDb {y : Client} (hok : y.Ok) (hcommitted : y.committed = false) (db : DBID) (work : List Op) :
    Client.Ok { y.setDb db with work := work } := by
  refine hok.goOn hcommitted ?_ ?_ ?_
  · unfold Client.setDb
    cases hstage : y.stage with
    | running r => exact .inr ⟨r, _, rfl, rfl, rfl, rfl, rfl⟩
    | _ => exact .inl rfl
  · unfold Client.setDb
    split <;> rfl
  · unfold Client.setDb
    split <;> rfl

/-- **One part of a handler.** `x` is the context that the client had, and `y` the same one with the part
off its work. -/
theorem Inv.runOp (h : s.Inv) (hx : s.client c = some x) {y : Client} {op : Op}
    (hsame : y.watchKeys = x.watchKeys ∧ y.changed = x.changed ∧ y.abortExec = x.abortExec)
    (hok : y.Ok) (hcommitted : y.committed = false)
    (hfires : ∀ p, Op.fire p ∈ x.work ↔ Op.fire p = op ∨ Op.fire p ∈ y.work)
    (hfire : ∀ p, op = .fire p → x.work = op :: y.work ∧ y = { x with work := y.work })
    (hguarded : s.GuardedOp cfg kv c y op) : (s.runOp cfg kv c y op).Inv := by
  obtain ⟨hkeys, hchanged, habort⟩ := hsame
  cases op with
  | kv op =>
    unfold Server.runOp
    dsimp only
    obtain ⟨hdbKeys, hdbChanged, hdbAbort⟩ := setDb_same
      (op.effect cfg kv s.store y.db y.hasClient).db y
    refine h.effect hx hguarded ⟨hdbKeys.trans hkeys, hdbChanged.trans hchanged, hdbAbort.trans habort⟩
      (ok_setDb hok hcommitted _ _) fun p => ?_
    rw [hfires p]
    simp
  | fire p =>
    obtain ⟨hwork, heq⟩ := hfire p rfl
    rw [heq]
    exact h.fire hx hwork hguarded
  | watch keys =>
    have hsameFires (p : DBID × Bytes) : Op.fire p ∈ y.work ↔ Op.fire p ∈ x.work := by
      rw [hfires p]
      exact ⟨.inr, fun hmem => hmem.resolve_left nofun⟩
    unfold Server.runOp Server.watch
    cases hstage : y.stage with
    | running r =>
      exact h.put hx rfl rfl rfl (hok.goOn hcommitted (.inr ⟨r, _, hstage, rfl, rfl, rfl, rfl⟩) rfl rfl)
        ⟨hkeys, hchanged, habort⟩ hsameFires
    | tested =>
      rw [Client.committed, hstage] at hcommitted
      cases hcommitted
    | out =>
      refine h.update hx client_put (fun d hd => client_put_ne hd) h.fault ?_ (Client.ok_of_out rfl) hsameFires
        (.inl ⟨hchanged, habort, fun p hp => ?_, fun p hp => ?_⟩)
      · intro p d
        refine mem_addAll.trans ?_
        rw [h.agrees p d]
        by_cases hd : d = c
        · subst hd
          rw [mem_own hx, mem_own client_put, mem_insertAll, hkeys]
          tauto
        · rw [own_congr (client_put_ne hd)]
          tauto
      · exact mem_insertAll.mpr (.inl (by rwa [hkeys]))
      · obtain hold | ⟨hdb, hkey⟩ := mem_insertAll.mp hp
        · exact .inl (by rwa [hkeys] at hold)
        · -- a key is not watched while it is being announced
          refine .inr (or_iff_not_imp_left.mpr fun hmissed => or_iff_not_imp_left.mpr fun hname => ?_)
          have hnot := hguarded hstage (by rw [hchanged]; exact Bool.eq_false_iff.mpr hmissed) p.2 hkey hname
          rwa [← hdb] at hnot
  | unwatch =>
    have hsameFires (p : DBID × Bytes) : Op.fire p ∈ y.work ↔ Op.fire p ∈ x.work := by
      rw [hfires p]
      exact ⟨.inr, fun hmem => hmem.resolve_left nofun⟩
    unfold Server.runOp unwatchKeys
    cases hstage : y.stage with
    | running r =>
      exact h.put hx rfl rfl rfl (hok.goOn hcommitted (.inr ⟨r, _, hstage, rfl, rfl, rfl, rfl⟩) rfl rfl)
        ⟨hkeys, hchanged, habort⟩ hsameFires
    | tested =>
      rw [Client.committed, hstage] at hcommitted
      cases hcommitted
    | out =>
      dsimp only
      split
      next => exact h.put hx rfl rfl rfl hok ⟨hkeys, hchanged, habort⟩ hsameFires
      next =>
        refine h.clear hx rfl ?_ rfl (Client.ok_of_out rfl) ⟨rfl, rfl, rfl⟩ hsameFires
        rw [← hkeys]
        rfl

/-! ### One step -/

omit [DecidableEq C] [DecidableEq V] in
theorem fires_of_nil (h : x.work = []) (p : DBID × Bytes) : Op.fire p ∉ x.work := by
  rw [h]
  exact List.not_mem_nil

/-- The next command of the queue begins to run. -/
theorem Inv.next (h : s.Inv) (hx : s.client c = some x) (hwork : x.work = []) {r : TranscRun} {frame : Frame}
    {rest : List Frame} (hstage : x.stage = .running r) (hrest : r.rest = frame :: rest)
    (hguarded : ∀ op ∈ frame.ops.head?, s.GuardedOp cfg kv c x op) :
    (s.perform cfg kv c (x.begun r frame rest) frame.ops).Inv := by
  have hok := (h.ok c x hx).begun hstage hrest
  unfold perform
  cases hops : frame.ops with
  | nil => exact h.put hx rfl rfl rfl hok ⟨rfl, rfl, rfl⟩ fun p => Iff.rfl
  | cons op work =>
    dsimp only
    have hnotFire (p : DBID × Bytes) : Op.fire p ≠ op ∧ Op.fire p ∉ work := by
      have hnot := fire_notMem_ops frame p
      rw [hops] at hnot
      exact ⟨fun heq => hnot (by rw [heq]; exact List.mem_cons_self),
        fun hmem => hnot (List.mem_cons_of_mem _ hmem)⟩
    refine h.runOp hx ⟨rfl, rfl, rfl⟩ (hok.goOn Client.committed_begun (.inl rfl) rfl rfl)
      Client.committed_begun (fun p => ?_) (fun p heq => absurd heq.symm (hnotFire p).1) ?_
    · exact iff_of_false (fires_of_nil hwork p) fun hor => hor.elim (hnotFire p).1 (hnotFire p).2
    · have hop := hguarded op (by rw [hops]; rfl)
      cases op with
      | kv op =>
        rw [GuardedOp, Client.db, Client.hasClient, hstage] at hop
        exact hop
      | fire p => exact hop
      | watch keys => exact nofun
      | unwatch => trivial

omit [DecidableEq V] in
/-- A client comes or leaves. It has nothing left to do. -/
theorem Inv.replace (h : s.Inv) (hother : ∀ d, d ≠ c → t.client d = s.client d)
    (hold : ∀ x, s.client c = some x → x.work = [])
    (hnew : ∀ z, t.client c = some z → z = .init)
    (hmembers : ∀ p d, d ∈ t.watched.members p ↔ d ∈ s.watched.members p ∧ d ≠ c)
    (hfault : t.fault = s.fault) : t.Inv := by
  have hcases {d : C} {y : Client} (hy : t.client d = some y) :
      d = c ∧ y = .init ∨ d ≠ c ∧ s.client d = some y := by
    by_cases hd : d = c
    · subst hd
      exact .inl ⟨rfl, hnew y hy⟩
    · exact .inr ⟨hd, (hother d hd).symm.trans hy⟩
  have hfiring (p : DBID × Bytes) : t.Firing p ↔ s.Firing p := by
    constructor
    · rintro ⟨d, y, hy, hmem⟩
      obtain ⟨rfl, rfl⟩ | ⟨-, hy⟩ := hcases hy
      · exact absurd hmem List.not_mem_nil
      · exact ⟨d, y, hy, hmem⟩
    · rintro ⟨d, y, hy, hmem⟩
      have hd : d ≠ c := by
        rintro rfl
        exact fires_of_nil (hold y hy) p hmem
      exact ⟨d, y, (hother d hd).trans hy, hmem⟩
  refine ⟨hfault.trans h.fault, fun p d => ?_, fun d y hy hchanged => ?_, fun d y hy habort => ?_,
    fun p hp hne d y hy hmem => ?_, fun d y hy => ?_⟩
  · rw [hmembers, h.agrees p d]
    constructor
    · rintro ⟨⟨y, hy, hmem⟩, hd⟩
      exact ⟨y, (hother d hd).trans hy, hmem⟩
    · rintro ⟨y, hy, hmem⟩
      obtain ⟨rfl, rfl⟩ | ⟨hd, hy⟩ := hcases hy
      · exact absurd hmem (ListSet.notMem_empty p)
      · exact ⟨⟨y, hy, hmem⟩, hd⟩
  · obtain ⟨rfl, rfl⟩ | ⟨-, hy⟩ := hcases hy
    · cases hchanged
    · refine (h.told d y hy hchanged).imp_right ?_
      rintro ⟨p, hp, hne, hfire⟩
      exact ⟨p, hp, hne, (hfiring p).mpr hfire⟩
  · obtain ⟨rfl, rfl⟩ | ⟨-, hy⟩ := hcases hy
    · cases habort
    · exact h.apt d y hy habort
  · obtain ⟨rfl, rfl⟩ | ⟨-, hy⟩ := hcases hy
    · exact absurd hmem (ListSet.notMem_empty p)
    · exact h.due p ((hfiring p).mp hp) hne d y hy hmem
  · obtain ⟨rfl, rfl⟩ | ⟨-, hy⟩ := hcases hy
    · trivial
    · exact h.ok d y hy

omit [DecidableEq V] in
/-- A frame is read. -/
theorem Inv.request (h : s.Inv) (hx : s.client c = some x) (hidle : x.idle = true) {r : Request}
    (hguarded : r = .exec → x.inTransc = true → x.abortExec = false →
      ∀ p ∈ x.watchKeys.toList, p.2 ≠ [] → ¬s.Firing p) : (s.request c x r).Inv := by
  obtain ⟨hout, hwork⟩ := Client.idle_iff.mp hidle
  cases r with
  | multi =>
    exact h.put (z := { x with inTransc := true }) hx rfl rfl rfl (Client.ok_of_out hout) ⟨rfl, rfl, rfl⟩
      fun p => Iff.rfl
  | exec =>
    unfold Server.request exec
    dsimp only
    split
    next => exact h
    next htransc =>
      split
      next =>
        exact h.clear (t := s.clearTransc c (x.logged x.changed none)) hx rfl rfl rfl (Client.ok_of_out hout)
          ⟨rfl, rfl, rfl⟩ fun p => Iff.rfl
      next habort =>
        have hin : x.inTransc = true := (Bool.not_eq_false _).mp htransc
        have hclear : x.abortExec = false := (Bool.not_eq_true _).mp habort
        refine h.put (z := { x with stage := .tested }) hx rfl rfl rfl ⟨hin, hwork, ?_⟩ ⟨rfl, rfl, rfl⟩
          fun p => Iff.rfl
        -- whoever has missed a change would have been told by now
        by_contra hchanged
        obtain habort' | ⟨p, hp, hne, hfire⟩ := h.told c x hx ((Bool.not_eq_false _).mp hchanged)
        · exact habort habort'
        · exact hguarded rfl hin hclear p hp hne hfire
  | discard =>
    unfold Server.request
    dsimp only
    split
    next =>
      exact h.clear (t := s.clearTransc c x) hx rfl rfl rfl (Client.ok_of_out hout) ⟨rfl, rfl, rfl⟩
        fun p => Iff.rfl
    next => exact h
  | frame frame =>
    unfold Server.request
    dsimp only
    split
    next =>
      exact h.put (z := { x with cachedCmds := x.cachedCmds ++ [frame] }) hx rfl rfl rfl
        (Client.ok_of_out hout) ⟨rfl, rfl, rfl⟩ fun p => Iff.rfl
    next =>
      exact h.put (z := { x with work := frame.ops }) hx rfl rfl rfl (Client.ok_of_out hout) ⟨rfl, rfl, rfl⟩
        fun p => iff_of_false (fire_notMem_ops _ p) (fires_of_nil hwork p)

/-- **The invariant is kept** by guarded steps. -/
theorem Inv.step (h : s.Inv) {ev : Event C} (hguarded : s.Guarded cfg kv ev)
    (hstep : s.step cfg kv ev = some t) : t.Inv := by
  have hmove := move_of_step hstep
  cases hmove with
  | connect c hc =>
    refine h.replace (c := c) (fun d hd => client_put_ne hd) (fun x hx => nomatch hc.symm.trans hx)
      (fun z hz => (Option.some.inj (client_put.symm.trans hz)).symm) (fun p d => ?_) rfl
    refine (and_iff_left_of_imp ?_).symm
    rintro hmem rfl
    obtain ⟨y, hy, -⟩ := (h.agrees p d).mp hmem
    exact nomatch hc.symm.trans hy
  | disconnect c x hx hidle =>
    have hnone : (s.free c x).client c = none := Function.update_self ..
    refine h.replace (c := c) (fun d hd => Function.update_of_ne hd ..)
      (fun y hy => ?_) (fun z hz => nomatch hnone.symm.trans hz) (fun p d => ?_) rfl
    · obtain rfl := Option.some.inj (hx.symm.trans hy)
      exact (Client.idle_iff.mp hidle).2
    · refine (Table.mem_removeAll c).trans (and_congr_right fun hmem => ?_)
      constructor
      · rintro hnot rfl
        obtain ⟨y, hy, hp⟩ := (h.agrees p d).mp hmem
        obtain rfl := Option.some.inj (hx.symm.trans hy)
        exact hnot ⟨hp, rfl⟩
      · rintro hd ⟨-, heq⟩
        exact hd heq
  | request c r x hx hidle =>
    refine h.request hx hidle ?_
    rintro rfl
    exact hguarded x hx
  | callback c block key x hx hidle =>
    obtain ⟨hout, hwork⟩ := Client.idle_iff.mp hidle
    refine h.put hx rfl rfl rfl (Client.ok_of_out hout) ⟨rfl, rfl, rfl⟩ fun p => ?_
    exact iff_of_false (by simp) (fires_of_nil hwork p)
  | op c x op work hx hwork =>
    have hnext : x.nextOp = some op := by rw [Client.nextOp, hwork]
    have hcommitted := (h.ok c x hx).not_committed (by rw [hwork]; exact List.cons_ne_nil _ _)
    have hop := hguarded x hx op hnext
    refine h.runOp hx ⟨rfl, rfl, rfl⟩ ((h.ok c x hx).goOn hcommitted (.inl rfl) rfl rfl) hcommitted
      (fun p => ?_) (fun p heq => ⟨hwork, rfl⟩) ?_
    · rw [hwork, List.mem_cons]
    · cases op with
      | kv op => exact hop
      | fire p => exact hop
      | watch keys => exact hop
      | unwatch => trivial
  | lock c x hx hwork hstage hmutex =>
    have hok := h.ok c x hx
    rw [Client.Ok, hstage] at hok
    exact h.put (z := { x with stage := .running ⟨x.currentDB, ∅, [], x.cachedCmds, false⟩ }) hx rfl rfl rfl
      ⟨hok.1, rfl, fun _ => hok.2, fun hne => absurd rfl hne⟩ ⟨rfl, rfl, rfl⟩ fun p => Iff.rfl
  | next c x r frame rest hx hwork hstage hrest =>
    refine h.next hx hwork hstage hrest fun op hop => hguarded x hx op ?_
    rw [Client.nextOp, hwork, hstage]
    dsimp only
    rw [hrest]
    exact hop
  | finish c x r hx hwork hstage hrest =>
    exact h.clear (t := s.finish c x r) hx rfl rfl rfl (Client.ok_of_out rfl) ⟨rfl, rfl, rfl⟩ fun p => Iff.rfl

/-! ### What a step logs -/

omit [DecidableEq V] in
theorem execs_put {f : Server V C} (hf : f.client = (s.put c z).client) (hx : s.client d = some x)
    (hy : f.client d = some y) (hz : d = c → z.execs = x.execs) : y.execs = x.execs := by
  rw [hf] at hy
  by_cases hd : d = c
  · subst hd
    obtain rfl := Option.some.inj (client_put.symm.trans hy)
    exact hz rfl
  · rw [client_put_ne hd] at hy
    rw [Option.some.inj (hx.symm.trans hy)]

omit [DecidableEq C] [DecidableEq V] in
theorem ne_append_singleton {α : Type} {l m : List α} {a : α} (h : l = m) : l ≠ m ++ [a] := by
  rw [h]
  exact fun heq => List.cons_ne_nil a [] (List.self_eq_append_right.mp heq)

/-- A part of a handler logs nothing. -/
theorem execs_runOp {u : Client} (hu : s.client c = some u) {v : Client} (hv : v.execs = u.execs) {op : Op}
    (hx : s.client d = some x) (hy : (s.runOp cfg kv c v op).client d = some y) : y.execs = x.execs := by
  have hself (hd : d = c) : v.execs = x.execs := by
    subst hd
    rw [hv, Option.some.inj (hu.symm.trans hx)]
  cases op with
  | kv op =>
    have hdb (db : DBID) : (v.setDb db).execs = v.execs := by
      unfold Client.setDb
      split <;> rfl
    by_cases hd : d = c
    · subst hd
      obtain rfl := Option.some.inj (client_put.symm.trans hy)
      exact (hdb _).trans (hself rfl)
    · have hchange := (client_put_ne hd).symm.trans hy
      obtain ⟨w, hw, rfl⟩ := Option.map_eq_some_iff.mp hchange
      rw [← Option.some.inj (hx.symm.trans hw)]
      split <;> rfl
  | fire p =>
    change (fireKeyChangedEvent (s.put c v) p).client d = some y at hy
    unfold fireKeyChangedEvent at hy
    split at hy
    next => exact execs_put rfl hx hy hself
    next =>
      obtain ⟨w, hw, rfl⟩ := Option.map_eq_some_iff.mp hy
      have hsame := execs_put rfl hx hw hself
      split <;> exact hsame
  | watch keys =>
    unfold Server.runOp Server.watch at hy
    dsimp only at hy
    split at hy
    next => exact execs_put (z := { v with stage := _ }) rfl hx hy hself
    next => exact execs_put (z := { v with watchKeys := _ }) rfl hx hy hself
  | unwatch =>
    unfold Server.runOp unwatchKeys at hy
    dsimp only at hy
    split at hy
    next => exact execs_put (z := { v with stage := _ }) rfl hx hy hself
    next =>
      split at hy
      next => exact execs_put rfl hx hy hself
      next =>
        exact execs_put (z := { v with watchKeys := ∅, abortExec := false, changed := false }) rfl hx hy hself

omit [DecidableEq V] in
/-- The one who logs is the one whose `EXEC` it is. -/
theorem locks_of_put (hx : s.client c = some x) {u : Server V C} (hu : u.client = (s.put c z).client)
    {e e' : ExecEntry} (hz : z.execs = x.execs ++ [e'])
    (hlocks : Locks s u x z e') {v : Client} (hv : s.client d = some v) (hy : u.client d = some y)
    (hlog : y.execs = v.execs ++ [e]) : Locks s u v y e := by
  by_cases hd : d = c
  · subst hd
    obtain rfl := Option.some.inj (hx.symm.trans hv)
    rw [hu] at hy
    obtain rfl := Option.some.inj (client_put.symm.trans hy)
    obtain rfl : e' = e := by simpa using hz.symm.trans hlog
    exact hlocks
  · rw [hu, client_put_ne hd] at hy
    rw [Option.some.inj (hv.symm.trans hy)] at hlog
    exact absurd hlog (ne_append_singleton rfl)

/-- **What guarded steps log**, is right. -/
theorem Inv.optimistic (h : s.Inv) {ev : Event C} (hguarded : s.Guarded cfg kv ev) :
    Optimistic cfg kv s ev := by
  intro t hstep
  refine ⟨(h.step hguarded hstep).fault, fun d v y e hv hy hlog => ?_⟩
  have hmove := move_of_step hstep
  cases hmove with
  | connect c hc =>
    refine absurd hlog (ne_append_singleton (execs_put rfl hv hy ?_))
    rintro rfl
    exact nomatch hc.symm.trans hv
  | disconnect c x hx hidle =>
    by_cases hd : d = c
    · subst hd
      exact nomatch hy.symm.trans (Function.update_self ..)
    · have hsame := hv.symm.trans ((Function.update_of_ne hd ..).symm.trans hy)
      rw [Option.some.inj hsame] at hlog
      exact absurd hlog (ne_append_singleton rfl)
  | request c r x hx hidle =>
    have hnot {z : Client} {u : Server V C} (hu : u.client = (s.put c z).client) (hz : z.execs = x.execs)
        (hy : u.client d = some y) : Locks s u v y e := by
      refine absurd hlog (ne_append_singleton (execs_put hu hv hy ?_))
      rintro rfl
      rw [hz, Option.some.inj (hx.symm.trans hv)]
    have hsame (hy : s.client d = some y) : Locks s s v y e := by
      rw [Option.some.inj (hv.symm.trans hy)] at hlog
      exact absurd hlog (ne_append_singleton rfl)
    cases r with
    | multi => exact hnot (z := { x with inTransc := true }) rfl rfl hy
    | exec =>
      unfold Server.request exec at hy ⊢
      dsimp only at hy ⊢
      split at hy
      next htransc =>
        rw [if_pos htransc]
        exact hsame hy
      next htransc =>
        rw [if_neg htransc]
        split at hy
        next habort =>
          -- the answer is nil, and somebody else has changed a key
          rw [if_pos habort]
          refine locks_of_put (u := s.clearTransc c (x.logged x.changed none))
            (z := (x.logged x.changed none).cleared) hx rfl rfl
              ⟨rfl, ?_, fun _ => rfl, ⟨rfl, rfl⟩, rfl, rfl, (Client.idle_iff.mp hidle).1⟩ hv hy hlog
          dsimp only
          rw [h.apt c x hx habort, if_pos rfl]
        next habort =>
          rw [if_neg habort]
          exact hnot (z := { x with stage := .tested }) rfl rfl hy
    | discard =>
      unfold Server.request at hy ⊢
      dsimp only at hy ⊢
      split at hy
      next htransc =>
        rw [if_pos htransc]
        exact hnot (z := x.cleared) rfl rfl hy
      next htransc =>
        rw [if_neg htransc]
        exact hsame hy
    | frame frame =>
      refine hnot (z := if x.inTransc then { x with cachedCmds := x.cachedCmds ++ [frame] }
        else { x with work := frame.ops }) rfl ?_ hy
      split <;> rfl
  | callback c block key x hx hidle =>
    refine absurd hlog (ne_append_singleton (execs_put rfl hv hy ?_))
    rintro rfl
    rw [Option.some.inj (hx.symm.trans hv)]
  | op c x op work hx hwork =>
    exact absurd hlog (ne_append_singleton (execs_runOp (v := { x with work := work }) hx rfl hv hy))
  | lock c x hx hwork hstage hmutex =>
    refine absurd hlog (ne_append_singleton (execs_put
      (z := { x with stage := .running ⟨x.currentDB, ∅, [], x.cachedCmds, false⟩ }) rfl hv hy ?_))
    rintro rfl
    rw [Option.some.inj (hx.symm.trans hv)]
  | next c x r frame rest hx hwork hstage hrest =>
    unfold perform at hy
    split at hy
    next =>
      refine absurd hlog (ne_append_singleton (execs_put rfl hv hy ?_))
      rintro rfl
      rw [Option.some.inj (hx.symm.trans hv)]
      rfl
    next op work hops =>
      exact absurd hlog (ne_append_singleton
        (execs_runOp (v := { x.begun r frame rest with work := work }) hx rfl hv hy))
  | finish c x r hx hwork hstage hrest =>
    -- nothing had changed before the first command, and the whole queue has run
    have hok := h.ok c x hx
    rw [Client.Ok, hstage] at hok
    obtain ⟨-, hqueue, hfirst, hchanged⟩ := hok
    have hnone : (if r.done = [] then x.changed else r.changed) = false := by
      split
      next hdone => exact (hfirst hdone).2
      next hdone => exact hchanged hdone
    refine locks_of_put (u := s.finish c x r)
      (z := Client.cleared { x.logged (if r.done = [] then x.changed else r.changed) (some r.done) with
        currentDB := r.currentDB, stage := .out }) hx rfl rfl ⟨rfl, ?_, nofun, ⟨rfl, rfl⟩, rfl, rfl, rfl⟩ hv hy hlog
    dsimp only
    rw [hnone, ← hqueue, hrest, List.append_nil]
    rfl

omit [DecidableEq V] in
theorem inv_init (store : Keyspace V) : (init store : Server V C).Inv where
  fault := rfl
  agrees := fun p c => iff_of_false (ListSet.notMem_empty c) (by rintro ⟨x, hx, -⟩; cases hx)
  told := fun c x hx => by cases hx
  apt := fun c x hx => by cases hx
  due := fun p _ _ c x hx => by cases hx
  ok := fun c x hx => by cases hx

end Values

end Server

/-! ### Runs -/

section Runs

variable [DecidableEq C] [DecidableEq V] {cfg : HandlerConfig} {kv : Kv V Num}

/-- **Optimistic locking.** Along a run of guarded steps every `EXEC` answers nil, without running anything,
if somebody else has changed a key since it is watched, and runs its queue otherwise. -/
theorem optimistic_of_guarded (store : Keyspace V) {evs : List (Event C)}
    (h : Run.Along (Server.step cfg kv) (Server.Guarded cfg kv) (Server.init store) evs) :
    Run.Along (Server.step cfg kv) (Server.Optimistic cfg kv) (Server.init store) evs :=
  Run.along_of_invariant (fun _ _ _ hinv hguarded hstep => hinv.step hguarded hstep)
    (fun _ _ hinv hguarded => hinv.optimistic hguarded) (Server.inv_init store) h

end Runs

/-! ### A change between the test and the lock -/

namespace Server

variable [DecidableEq C] [Fintype C] [DecidableEq V] (cfg : HandlerConfig) (kv : Kv V Num) (s : Server V C)

instance (p : DBID × Bytes) : Decidable (s.Firing p) :=
  inferInstanceAs (Decidable (∃ d, ∃ y ∈ s.client d, Op.fire p ∈ y.work))

instance (c : C) (e : Effect V) (d : C) (y : Client) : Decidable (s.GuardedFor c e d y) :=
  inferInstanceAs (Decidable (y.changed = false → ∀ p ∈ y.watchKeys.toList,
    (d ≠ c → e.store p.1 p.2 ≠ s.store p.1 p.2 →
      Op.fire p ∈ e.next ∧ p.2 ≠ [] ∧ y.committed = false) ∧
    (Op.fire p ∈ e.next → p.2 ≠ [] → d ≠ c ∧ e.store p.1 p.2 ≠ s.store p.1 p.2)))

instance decidableGuardedOp (c : C) (x : Client) : ∀ op, Decidable (s.GuardedOp cfg kv c x op)
  | .kv op => inferInstanceAs (Decidable (∀ d, ∀ y ∈ s.client d,
    s.GuardedFor c (op.effect cfg kv s.store x.db x.hasClient) d y))
  | .fire p => inferInstanceAs (Decidable (p.2 ≠ [] → p ∉ s.stack))
  | .watch keys => inferInstanceAs (Decidable (x.stage = .out → x.changed = false →
    ∀ key ∈ keys, key ≠ [] → ¬s.Firing (x.currentDB, key)))
  | .unwatch => isTrue trivial

instance decidableGuarded : ∀ ev, Decidable (s.Guarded cfg kv ev)
  | .request c .exec => inferInstanceAs (Decidable (∀ x ∈ s.client c, x.inTransc = true →
    x.abortExec = false → ∀ p ∈ x.watchKeys.toList, p.2 ≠ [] → ¬s.Firing p))
  | .run c => inferInstanceAs (Decidable (∀ x ∈ s.client c, ∀ op ∈ x.nextOp, s.GuardedOp cfg kv c x op))
  | .request _ .multi | .request _ .discard | .request _ (.frame _) | .connect _ | .disconnect _
  | .callback _ _ _ => isTrue trivial

end Server

/-- `WATCH a`, and a transaction with `APPEND b 1`; somebody else sends `APPEND a 2`. -/
def watchEvents (other exec : List (Event Bool)) : List (Event Bool) :=
  [.connect true, .connect false, .request true (.frame (.watch [[97]])), .run true, .request true .multi,
    .request true (.frame (.data .append [[98], [49]]))] ++ other ++ [.request true .exec] ++ exec

/-- The handler of `APPEND a 2`, and the announcement. -/
def appendEvents : List (Event Bool) :=
  [.request false (.frame (.data .append [[97], [50]])), .run false, .run false]

/-- The change comes first: the answer is nil. A second transaction runs. -/
theorem optimistic_of_guarded_twice :
    Run.Along (Server.step ⟨16, []⟩ smallKv) (Server.Optimistic ⟨16, []⟩ smallKv)
      (Server.init fun _ _ => none)
      (watchEvents appendEvents
        ([.request true .multi, .request true (.frame (.data .append [[98], [49]])), .request true .exec] ++
          List.replicate 4 (.run true))) :=
  optimistic_of_guarded (fun _ _ => none) (by decide +kernel)

/-- The change comes when `EXEC` has looked at `abort_exec`, and before it has the mutex: the queue runs. -/
theorem not_optimistic :
    ¬Run.Along (Server.step ⟨16, []⟩ smallKv) (Server.Optimistic ⟨16, []⟩ smallKv)
      (Server.init fun _ _ => none)
      (watchEvents [] (appendEvents ++ List.replicate 3 (.run true)) ++ [.run true]) := by
  intro h
  have hlast := h.of_steps (Option.some_get (by decide +kernel)).symm
  obtain ⟨-, hlog⟩ := hlast _ (Option.some_get (by decide +kernel)).symm
  have hlocks := hlog true _ _ ⟨[.data .append [[98], [49]]], true, some [.data .append [[98], [49]]]⟩
    (Option.some_get (by decide +kernel)).symm (Option.some_get (by decide +kernel)).symm (by decide +kernel)
  exact nomatch hlocks.ran

end Watching
end Comms
