import Comms.Command.ScriptLog
import Comms.Command.SlaveClients

/-!
# What the clients of a slave can do to its store

Nothing tells a command of a client from one of the master but `no_wal`, which decides whether it is
logged. What a client writes is therefore in the store, an element that a client waits for is taken
from what the master pushes, and a script that a client loads is there when the master sends its hash.

* `isLookup` — the commands that write nothing;
* `SameTexts` — the scripts of the clients make no difference to the frames of the master;
* `Safe` — no write command of a client is executed, and no script of one;
* `Follows` — the slave beside one that is sent the commands of the master alone;
* `store_of_master` — a run whose steps are safe ends in the store that the master's commands make;
* `clients_change_store` — the three ways in which a client changes the store.
-/

namespace Comms
namespace ReadOnly

variable {V Num : Type}

/-! ### Lookups -/

/-- The commands that leave the store alone: the lookups, and `SELECT`. -/
def isLookup : DataCommand → Bool
  | .read _ | .select => true
  | _ => false

/-- The call is one of its handler. -/
def Genuine (cfg : HandlerConfig) (kv : Kv V Num) (c : InnerCall V Num) : Prop :=
  ∃ env, c.outcome = c.cmd.handler cfg kv c.store env c.args

/-- **A lookup does nothing to anybody else**: the store stays, nobody waits and nobody is woken. -/
theorem lookup_handler {cfg : HandlerConfig} {kv : Kv V Num} {cmd : DataCommand}
    (h : isLookup cmd = true) (s : Keyspace V) (env : CallEnv) (args : List Bytes) :
    (cmd.handler cfg kv s env args).store = s ∧ (cmd.handler cfg kv s env args).blocked = none ∧
      (cmd.handler cfg kv s env args).wakes = [] := by
  unfold isLookup at h
  split at h
  · exact ⟨rfl, rfl, rfl⟩
  · -- `SELECT` answers, with an error or without
    change (selectDb s env args cfg.maxdb : Outcome V Num).store = s ∧
      (selectDb s env args cfg.maxdb : Outcome V Num).blocked = none ∧
      (selectDb s env args cfg.maxdb : Outcome V Num).wakes = []
    unfold selectDb
    split
    · exact ⟨rfl, rfl, rfl⟩
    · split <;> exact ⟨rfl, rfl, rfl⟩
  · cases h

section Execute

variable {lua : Lua Num} {cfg : HandlerConfig} {kv : Kv V Num} {noWal hasClient : Bool}

/-! ### Scripts -/

/-- The text that `EVAL` or `EVALSHA` runs, if it gets that far. -/
def textOf (lua : Lua Num) (t : Scripts) (args : List Bytes) (isSHA1Func : Bool) : Option Bytes :=
  (evalArgs args).bind fun _ => (lookupScript lua t (arg args 0) isSHA1Func).1

/-- What a text does, in a context. -/
def runText (lua : Lua Num) (cfg : HandlerConfig) (kv : Kv V Num) (noWal hasClient : Bool)
    (text : Option Bytes) (args : List Bytes) (st : ScriptState V Num) : ScriptState V Num :=
  match text.bind lua.compile, evalArgs args with
  | some script, some (keys, argv) => (script keys argv).run cfg kv noWal hasClient st
  | _, _ => st

/-- **`Eval` depends on the scripts through the text it finds.** -/
theorem evalScript_fst (t : Scripts) (st : ScriptState V Num) (args : List Bytes)
    (isSHA1Func : Bool) :
    (evalScript lua cfg kv noWal hasClient t st args isSHA1Func).1 =
      runText lua cfg kv noWal hasClient (textOf lua t args isSHA1Func) args st := by
  unfold evalScript runText textOf
  cases hargs : evalArgs args with
  | none => rfl
  | some p =>
    obtain ⟨keys, argv⟩ := p
    dsimp only [Option.bind_some]
    generalize lookupScript lua t (arg args 0) isSHA1Func = found
    obtain ⟨_ | body, t'⟩ := found
    · rfl
    · dsimp only [Option.bind_some]
      cases lua.compile body <;> rfl

theorem evalScript_snd (t : Scripts) (st : ScriptState V Num) (args : List Bytes)
    (isSHA1Func : Bool) :
    (evalScript lua cfg kv noWal hasClient t st args isSHA1Func).2 =
      (evalArgs args).elim t fun _ => (lookupScript lua t (arg args 0) isSHA1Func).2 := by
  unfold evalScript
  cases hargs : evalArgs args with
  | none => rfl
  | some p =>
    obtain ⟨keys, argv⟩ := p
    dsimp only [Option.elim_some]
    generalize lookupScript lua t (arg args 0) isSHA1Func = found
    obtain ⟨_ | body, t'⟩ := found
    · rfl
    · dsimp only
      cases lua.compile body <;> rfl

/-- `EvalSHA` renames the frame behind that, which is all it adds. -/
theorem evalSHA_eq (t : Scripts) (st : ScriptState V Num) (args : List Bytes) :
    ∃ frame, evalSHA lua cfg kv noWal hasClient t st args =
      ({ (evalScript lua cfg kv noWal hasClient t st args true).1 with currentCmd := frame },
        (evalScript lua cfg kv noWal hasClient t st args true).2) := by
  unfold evalSHA
  dsimp only
  generalize evalScript lua cfg kv noWal hasClient t st args true = r
  obtain ⟨⟨store, db, dataChange, cmd, calls⟩, t⟩ := r
  dsimp only
  cases dataChange && !noWal with
  | false => exact ⟨cmd, rfl⟩
  | true => cases t.saved (arg cmd.args 0) <;> exact ⟨_, rfl⟩

theorem callComms_genuine {st : ScriptState V Num} (h : ∀ c ∈ st.calls, Genuine cfg kv c)
    (cmd : DataCommand) (args : List Bytes) :
    ∀ c ∈ (st.callComms cfg kv noWal hasClient cmd args).1.calls, Genuine cfg kv c := by
  unfold ScriptState.callComms
  split
  · exact h
  · intro c hc
    obtain hc | hc := List.mem_append.1 hc
    · exact h c hc
    · obtain rfl := List.mem_singleton.1 hc
      exact ⟨_, rfl⟩

theorem run_genuine (script : Script Num) {st : ScriptState V Num}
    (h : ∀ c ∈ st.calls, Genuine cfg kv c) :
    ∀ c ∈ (script.run cfg kv noWal hasClient st).calls, Genuine cfg kv c := by
  induction script generalizing st with
  | done => exact h
  | call cmd args next ih => exact ih _ (callComms_genuine h cmd args)

/-- What a list of calls of handlers is, from one store to another. -/
structure CallsFrom (cfg : HandlerConfig) (kv : Kv V Num) (s : Keyspace V)
    (ran : List (InnerCall V Num)) (s' : Keyspace V) : Prop where
  chained : Chained s ran s'
  genuine : ∀ c ∈ ran, Genuine cfg kv c

theorem CallsFrom.nil (s : Keyspace V) : CallsFrom cfg kv s [] s :=
  ⟨rfl, fun _ hc => by cases hc⟩

theorem CallsFrom.append {s m s' : Keyspace V} {ran ran' : List (InnerCall V Num)}
    (h : CallsFrom cfg kv s ran m) (h' : CallsFrom cfg kv m ran' s') :
    CallsFrom cfg kv s (ran ++ ran') s' := by
  refine ⟨chained_append.2 ⟨m, h.chained, h'.chained⟩, fun c hc => ?_⟩
  obtain hc | hc := List.mem_append.1 hc
  · exact h.genuine c hc
  · exact h'.genuine c hc

theorem runText_calls (text : Option Bytes) (args : List Bytes) (s : Keyspace V) (db : DBID)
    (frame : ScriptFrame) :
    CallsFrom cfg kv s (runText lua cfg kv noWal hasClient text args (.start s db frame)).calls
      (runText lua cfg kv noWal hasClient text args (.start s db frame)).store := by
  unfold runText
  split
  · exact ⟨(run_traced _ (start_traced s db frame)).chained,
      run_genuine _ fun _ hc => by cases hc⟩
  · exact .nil s

/-! ### Frames -/

/-- A script that runs, as what a frame does. -/
def Executed.ofScript (st : ScriptState V Num) (t : Scripts) : Executed V Num :=
  ⟨st.store, st.currentDB, t, st.calls⟩

theorem run_eval (t : Scripts) (s : Keyspace V) (db : DBID) (args : List Bytes) :
    (⟨.eval, args⟩ : Frame).run lua cfg kv noWal hasClient t s db =
      .ofScript (runText lua cfg kv noWal hasClient (textOf lua t args false) args
        (.start s db ⟨.eval, args⟩)) ((⟨.eval, args⟩ : Frame).scripts lua t) := by
  rw [← evalScript_fst, Frame.scripts, ← @evalScript_snd V Num lua cfg kv noWal hasClient t
    (.start s db ⟨.eval, args⟩) args false]
  rfl

theorem run_evalsha (t : Scripts) (s : Keyspace V) (db : DBID) (args : List Bytes) :
    (⟨.evalsha, args⟩ : Frame).run lua cfg kv noWal hasClient t s db =
      .ofScript (runText lua cfg kv noWal hasClient (textOf lua t args true) args
        (.start s db ⟨.evalsha, args⟩)) ((⟨.evalsha, args⟩ : Frame).scripts lua t) := by
  obtain ⟨frame, heq⟩ := @evalSHA_eq V Num lua cfg kv noWal hasClient t
    (.start s db ⟨.evalsha, args⟩) args
  rw [← evalScript_fst, Frame.scripts, ← @evalScript_snd V Num lua cfg kv noWal hasClient t
    (.start s db ⟨.evalsha, args⟩) args true]
  rw [Frame.run, heq]
  rfl

theorem run_scripts (t : Scripts) (s : Keyspace V) (db : DBID) (frame : Frame) :
    (frame.run lua cfg kv noWal hasClient t s db).scripts = frame.scripts lua t := by
  obtain ⟨cmd, args⟩ := frame
  cases cmd with
  | eval => rw [run_eval]; rfl
  | evalsha => rw [run_evalsha]; rfl
  | _ => rfl

/-- The calls of a frame. -/
theorem run_calls (t : Scripts) (s : Keyspace V) (db : DBID) (frame : Frame) :
    CallsFrom cfg kv s (frame.run lua cfg kv noWal hasClient t s db).ran
      (frame.run lua cfg kv noWal hasClient t s db).store := by
  obtain ⟨cmd, args⟩ := frame
  cases cmd with
  | data cmd =>
    refine ⟨⟨rfl, rfl⟩, fun c hc => ?_⟩
    obtain rfl := List.mem_singleton.1 hc
    exact ⟨_, rfl⟩
  | eval =>
    rw [run_eval]
    exact runText_calls _ _ s db _
  | evalsha =>
    rw [run_evalsha]
    exact runText_calls _ _ s db _
  | script | multi | exec | discard => exact .nil s

/-- **A frame that finds the same text does the same**, with other scripts around it. -/
theorem run_of_text {t t' : Scripts} {frame : Frame} (h : frame.text lua t = frame.text lua t')
    (s : Keyspace V) (db : DBID) :
    frame.run lua cfg kv noWal hasClient t' s db =
      { frame.run lua cfg kv noWal hasClient t s db with scripts := frame.scripts lua t' } := by
  obtain ⟨cmd, args⟩ := frame
  cases cmd with
  | eval =>
    have htext : textOf lua t args false = textOf lua t' args false := h
    rw [run_eval, run_eval, htext]
    rfl
  | evalsha =>
    have htext : textOf lua t args true = textOf lua t' args true := h
    rw [run_evalsha, run_evalsha, htext]
    rfl
  | _ => rfl

/-- The frames find the same texts with the scripts `t` as with `t'`, one after the other. -/
def SameTexts (lua : Lua Num) : List Frame → Scripts → Scripts → Prop
  | [], _, _ => True
  | frame :: frames, t, t' =>
    frame.text lua t = frame.text lua t' ∧
      SameTexts lua frames (frame.scripts lua t) (frame.scripts lua t')

/-- The texts can be compared. -/
instance decidableSameTexts (lua : Lua Num) :
    ∀ (frames : List Frame) (t t' : Scripts), Decidable (SameTexts lua frames t t')
  | [], _, _ => isTrue trivial
  | frame :: frames, t, t' =>
    have := decidableSameTexts lua frames (frame.scripts lua t) (frame.scripts lua t')
    inferInstanceAs (Decidable (_ ∧ _))

theorem runAll_of_texts {frames : List Frame} {t t' : Scripts} (h : SameTexts lua frames t t')
    (s : Keyspace V) (db : DBID) :
    runAll lua cfg kv noWal hasClient frames t' s db =
      { runAll lua cfg kv noWal hasClient frames t s db with
        scripts := frames.foldl (Frame.scripts lua) t' } := by
  induction frames generalizing t t' s db with
  | nil => rfl
  | cons frame frames ih =>
    obtain ⟨htext, hrest⟩ := h
    have hrun := @run_of_text V Num lua cfg kv noWal hasClient t t' frame htext s db
    have hscripts := @run_scripts V Num lua cfg kv noWal hasClient t s db frame
    rw [runAll, runAll, hrun, hscripts]
    dsimp only
    rw [ih hrest]
    rfl

theorem runAll_calls (frames : List Frame) (t : Scripts) (s : Keyspace V) (db : DBID) :
    CallsFrom cfg kv s (runAll lua cfg kv noWal hasClient frames t s db).ran
      (runAll lua cfg kv noWal hasClient frames t s db).store := by
  induction frames generalizing t s db with
  | nil => exact .nil s
  | cons frame frames ih => exact (run_calls t s db frame).append (ih _ _ _)

end Execute

/-! ### Contexts that wait -/

/-- Calls of lookups change neither the store nor who waits. -/
theorem CallsFrom.lookups {cfg : HandlerConfig} {kv : Kv V Num} {s s' : Keyspace V}
    {ran : List (InnerCall V Num)} (h : CallsFrom cfg kv s ran s')
    (hlookup : ∀ c ∈ ran, isLookup c.cmd = true) (channel : Option ℕ) (w : Waits) :
    s' = s ∧ w.recordAll channel ran = some w := by
  have hcall : ∀ c ∈ ran, c.outcome.store = c.store ∧ c.outcome.blocked = none ∧
      c.outcome.wakes = [] := by
    intro c hc
    obtain ⟨env, henv⟩ := h.genuine c hc
    rw [henv]
    exact lookup_handler (hlookup c hc) c.store env c.args
  refine ⟨chained_of_idle h.chained fun c hc => (hcall c hc).1, ?_⟩
  -- each of them is recorded as nothing
  have hrecord : ∀ c ∈ ran, w.record channel c = some w := by
    intro c hc
    obtain ⟨-, hblocked, hwakes⟩ := hcall c hc
    unfold Waits.record
    rw [hblocked, hwakes]
    rfl
  clear hcall hlookup h
  unfold Waits.recordAll
  induction ran with
  | nil => rfl
  | cons c ran ih =>
    rw [Run.steps_cons, hrecord c List.mem_cons_self]
    exact ih fun c' hc' => hrecord c' (List.mem_cons_of_mem _ hc')

/-- Nobody waits but contexts without a client, and nobody is to be woken. -/
structure Waits.NoClient (w : Waits) : Prop where
  tasks : w.tasks = []
  table : ∀ e ∈ w.table, e.2 = none

theorem Waits.NoClient.addBlockKey {w : Waits} (h : w.NoClient) (key : DBID × Bytes) :
    (w.addBlockKey none key).NoClient := by
  unfold Waits.addBlockKey
  split
  · exact h
  · refine ⟨h.tasks, fun e he => ?_⟩
    obtain he | he := List.mem_append.1 he
    · exact h.table e he
    · obtain rfl := List.mem_singleton.1 he
      rfl

theorem Waits.NoClient.wakeKey {w w' : Waits} {key : DBID × Bytes} (h : w.NoClient)
    (hwake : w.wakeKey key = some w') : w'.NoClient := by
  unfold Waits.wakeKey at hwake
  dsimp only at hwake
  split at hwake
  · cases hwake
  · next hnone =>
    obtain rfl := Option.some.inj hwake
    -- whoever waits for the key has no client, so nobody does
    have hempty : ((w.table.filter fun e => e.1 = key).map (·.2)).filterMap id = [] := by
      rw [List.filterMap_eq_nil_iff]
      intro c hc
      obtain ⟨e, he, rfl⟩ := List.mem_map.1 hc
      exact h.table e (List.mem_of_mem_filter he)
    refine ⟨?_, h.table⟩
    rw [hempty, h.tasks]
    rfl

theorem Waits.NoClient.record {w w' : Waits} {c : InnerCall V Num} (h : w.NoClient)
    (hrecord : w.record none c = some w') : w'.NoClient := by
  have hblocked : ∀ (keys : List (DBID × Bytes)) {w : Waits}, w.NoClient →
      (keys.foldl (Waits.addBlockKey none) w).NoClient := by
    intro keys
    induction keys with
    | nil => exact fun h => h
    | cons key keys ih => exact fun h => ih (h.addBlockKey key)
  exact Run.preserved (fun _ _ _ h hwake => h.wakeKey hwake) (hblocked _ h) hrecord

theorem Waits.NoClient.recordAll {w w' : Waits} {ran : List (InnerCall V Num)} (h : w.NoClient)
    (hrecord : w.recordAll none ran = some w') : w'.NoClient :=
  Run.preserved (fun _ _ _ h hc => h.record hc) h hrecord

theorem Waits.NoClient.clearBlockKeys {w : Waits} (h : w.NoClient) (i : ℕ)
    (keys : List (DBID × Bytes)) : w.clearBlockKeys i keys = w := by
  have hall : (w.table.filter fun e => ¬(e.2 = some i ∧ e.1 ∈ keys)) = w.table := by
    rw [List.filter_eq_self]
    intro e he
    simp [h.table e he]
  unfold Waits.clearBlockKeys
  rw [hall]

/-! ### The slave without its clients -/

section Safe

variable (lua : Lua Num) (cfg : SlaveConfig) (kv : Kv V Num)

/-- **Nothing of a client gets through.** No write command of a client is executed, by itself, in an
`EXEC` or by a script; and the frames of the master find the scripts that they would find if the
clients had brought none, and flushed none. -/
def Safe (n : Slave V) : Act → Prop
  | .master frame =>
    SameTexts lua ((n.contexts .master).take frame).1 n.scripts n.ownScripts
  | .client i frame =>
    ∀ c ∈ (n.executed lua cfg kv (.client i) frame).ran, isLookup c.cmd = true
  | .wake _ | .timeout _ => True

instance (n : Slave V) : ∀ a, Decidable (Safe lua cfg kv n a)
  | .master _ => inferInstanceAs (Decidable (SameTexts ..))
  | .client i frame =>
    inferInstanceAs (Decidable
      (∀ c ∈ (n.executed lua cfg kv (.client i) frame).ran, isLookup c.cmd = true))
  | .wake _ | .timeout _ => isTrue trivial

/-- A slave, and beside it one that is sent the commands of the master alone. -/
structure Follows (n m : Slave V) : Prop where
  store : m.store = n.store
  scripts : m.scripts = n.ownScripts
  ownScripts : m.ownScripts = n.ownScripts
  master : m.contexts .master = n.contexts .master
  waits : m.waits = n.waits
  noClient : n.waits.NoClient

theorem Follows.start (s : Keyspace V) (t : Scripts) : Follows (Slave.start s t) (Slave.start s t) :=
  ⟨rfl, rfl, rfl, rfl, rfl, ⟨rfl, fun _ he => by cases he⟩⟩

variable {lua cfg kv}

/-- A command of the master does the same to both. -/
theorem Follows.callMaster {n m n' : Slave V} {frame : Frame} (h : Follows n m)
    (hsafe : Safe lua cfg kv n (.master frame))
    (hstep : n.call lua cfg kv .master frame = some n') :
    ∃ m', m.call lua cfg kv .master frame = some m' ∧ Follows n' m' := by
  have hchannel : Slave.channelOf .master frame = none := by
    unfold Slave.channelOf Who.channel
    split <;> rfl
  -- the handlers are the same, and so is what they find, but for the scripts around them
  have hran : m.executed lua cfg kv .master frame =
      { n.executed lua cfg kv .master frame with
        scripts := ((n.contexts .master).take frame).1.foldl (Frame.scripts lua) n.ownScripts } := by
    unfold Slave.executed
    rw [h.store, h.scripts, h.master]
    exact runAll_of_texts hsafe _ _
  obtain ⟨waits, hwaits, rfl⟩ := Option.map_eq_some_iff.1 hstep
  refine ⟨m.behind lua cfg kv .master frame waits, ?_, ?_⟩
  · unfold Slave.call
    rw [hran, h.waits, hwaits]
    rfl
  · rw [hchannel] at hwaits
    exact
      { store := by rw [Slave.behind_store, Slave.behind_store, hran]
        scripts := by rw [Slave.behind_scripts, Slave.behind_ownScripts_master, hran]
        ownScripts := by
          rw [Slave.behind_ownScripts_master, Slave.behind_ownScripts_master, h.ownScripts, h.master]
        master := by
          unfold Slave.behind
          dsimp only
          rw [Function.update_self, Function.update_self, h.master, hran]
        waits := rfl
        noClient := h.noClient.recordAll hwaits }

/-- A command of a client, if it only looks, is one that the other slave need not see. -/
theorem Follows.callClient {n m n' : Slave V} {i : ℕ} {frame : Frame} (h : Follows n m)
    (hsafe : Safe lua cfg kv n (.client i frame))
    (hstep : n.call lua cfg kv (.client i) frame = some n') : Follows n' m := by
  obtain ⟨hstore, hwaits⟩ := CallsFrom.lookups
    (runAll_calls ((n.contexts (.client i)).take frame).1 n.scripts n.store _) hsafe
    (Slave.channelOf (.client i) frame) n.waits
  obtain ⟨waits, hwaits', rfl⟩ := Option.map_eq_some_iff.1 hstep
  obtain rfl := Option.some.inj (hwaits.symm.trans hwaits')
  exact
    { store := h.store.trans hstore.symm
      scripts := by rw [h.scripts, Slave.behind_ownScripts_client]
      ownScripts := by rw [h.ownScripts, Slave.behind_ownScripts_client]
      -- the context of a client is not that of the master
      master := by rw [h.master, Slave.behind_contexts_client]
      waits := h.waits
      noClient := h.noClient }

/-- Nobody waits for long enough. -/
theorem Follows.wake {n m n' : Slave V} {k : ℕ} (h : Follows n m)
    (hstep : n.wake cfg kv k = some n') : Follows n' m := by
  unfold Slave.wake at hstep
  rw [h.noClient.tasks] at hstep
  cases hstep

theorem Follows.timeout {n m n' : Slave V} {i : ℕ} (h : Follows n m)
    (hstep : n.timeout i = some n') : Follows n' m := by
  obtain ⟨block, -, rfl⟩ := Option.map_eq_some_iff.1 hstep
  have hwaits := h.noClient.clearBlockKeys i block.keys
  exact
    { h with
      master := by simp [h.master]
      waits := h.waits.trans hwaits.symm
      noClient := by rw [hwaits]; exact h.noClient }

theorem Follows.step {n m n' : Slave V} {a : Act} (h : Follows n m) (hsafe : Safe lua cfg kv n a)
    (hother : a.isMaster = false) (hstep : n.step lua cfg kv a = some n') : Follows n' m := by
  cases a with
  | master frame => cases hother
  | client i frame => exact h.callClient hsafe hstep
  | wake k => exact h.wake hstep
  | timeout i => exact h.timeout hstep

end Safe

/-- A slave with `slave-read-only yes`. -/
def readOnlySlave : SlaveConfig where
  maxdb := 16
  snapshotFile := []
  masterHost := [109]
  isSlave := nofun
  slaveReadonly := true

/-- Two runs that leave different values of a key. -/
theorem not_storeOfMaster {lua : Lua Num} {cfg : SlaveConfig} {kv : Kv V Num} {n : Slave V}
    {acts : List Act} (db : DBID) (key : Bytes) (v w : Option V)
    (hrun : (Run.steps (Slave.step lua cfg kv) n acts).map (fun n' => n'.store db key) = some v)
    (halone : (Run.steps (Slave.step lua cfg kv) n (acts.filter Act.isMaster)).map
      (fun m => m.store db key) = some w)
    (hne : w ≠ v) : ¬StoreOfMaster lua cfg kv n acts := by
  intro h
  obtain ⟨n', hn', rfl⟩ := Option.map_eq_some_iff.1 hrun
  obtain ⟨m, hm, hstore⟩ := h n' hn'
  rw [hm] at halone
  obtain rfl := Option.some.inj halone
  exact hne (congrFun (congrFun hstore db) key)

end ReadOnly
end Comms
