import Comms.Command.Rewrite

/-!
# Scripts

`EVAL` and `EVALSHA` run a Lua script whose calls of `redis.call` reach the handlers in the context of
the script: a handler that rewrites `*ctx.current_cmd` rewrites the frame of the script, `SELECT`
changes the database the frame is logged for, and an `EVALSHA` is logged as an `EVAL` if its script is
found.

* `Script` — a script, as far as the store can tell: what it calls, depending on the replies;
* `Script.run` — `CallComms`, call after call;
* `lookupScript` — how `LUAInterpreter::Eval` finds the function it runs;
* `ScriptFrame.call` — `Call` of the frame of a script, or of what it was replaced by;
* `run_traced` — what a run leaves in the context, in terms of its calls;
* `run_visible` — a run is the same in the context of a slave.

The text of a script becomes a `Script` through a parameter, `Lua`, which stands for the interpreter
and for SHA-1. The commands that have nothing to do with keys are left out.
-/

namespace Comms

/-! ### Running a script -/

/-- A script that is running: it calls a command and goes on with the reply, or it is done. -/
inductive Script (Num : Type)
  | done
  | call (cmd : DataCommand) (args : List Bytes) (next : Reply Num → Script Num)

/-- The command of `*ctx.current_cmd` while a script runs. -/
inductive FrameName
  | eval
  | evalsha
  | data (cmd : DataCommand)
deriving DecidableEq, Repr

/-- `*ctx.current_cmd` while a script runs. -/
structure ScriptFrame where
  name : FrameName
  args : List Bytes
deriving DecidableEq, Repr

/-- A handler rewrites the frame of the script around it. -/
def Rewrite.applyTo (r : Rewrite) (frame : ScriptFrame) : ScriptFrame :=
  match r with
  | .keep => frame
  | .replace frame' => ⟨.data frame'.cmd, frame'.args⟩
  | .setCommand name => { frame with name := .data name }

/-- One call of a script: the command, the store and the database before it, and what its handler
did. -/
structure InnerCall (V Num : Type) where
  cmd : DataCommand
  args : List Bytes
  store : Keyspace V
  db : DBID
  outcome : Outcome V Num

/-- The context a script runs in, and the store. `calls` is history. -/
structure ScriptState (V Num : Type) where
  store : Keyspace V
  currentDB : DBID
  dataChange : Bool
  currentCmd : ScriptFrame
  calls : List (InnerCall V Num)

/-- `COMMS_CMD_NOSCRIPT`. -/
def DataCommand.noScript : DataCommand → Bool
  | .import_ => true
  | _ => false

section Run

variable {V Num : Type} (cfg : HandlerConfig) (kv : Kv V Num) (noWal hasClient : Bool)

/-- `CallComms`, behind the conversion of the arguments. There is no arity check, and
`*ctx.current_cmd` is not the frame that is executed. -/
def ScriptState.callComms (st : ScriptState V Num) (cmd : DataCommand) (args : List Bytes) :
    ScriptState V Num × Reply Num :=
  if cmd.noScript then (st, .error "This Redis command is not allowed from scripts")
  else
    let o := cmd.handler cfg kv st.store ⟨st.currentDB, noWal, hasClient, false⟩ args
    ({ store := o.store
       currentDB := o.db
       dataChange := st.dataChange || o.dataChange
       currentCmd := o.rewrite.applyTo st.currentCmd
       calls := st.calls ++ [⟨cmd, args, st.store, st.currentDB, o⟩] }, o.reply)

/-- `lua_pcall` of a script. -/
def Script.run : Script Num → ScriptState V Num → ScriptState V Num
  | .done, st => st
  | .call cmd args next, st =>
    let r := st.callComms cfg kv noWal hasClient cmd args
    (next r.2).run r.1

end Run

/-! ### The interpreter -/

/-- What Lua makes of a text, a function of `KEYS` and `ARGV`, if it compiles; and SHA-1, in hex. -/
structure Lua (Num : Type) where
  sha1 : Bytes → Bytes
  compile : Bytes → Option (List Bytes → List Bytes → Script Num)

/-- `m_lua_scripts`, and the functions that the interpreter has, by name. -/
structure Scripts where
  saved : Bytes → Option Bytes
  funcs : Bytes → Option Bytes

/-- No script at all. -/
def Scripts.empty : Scripts := ⟨fun _ => none, fun _ => none⟩

/-- `SaveScript`. -/
def Scripts.save (t : Scripts) (name body : Bytes) : Scripts :=
  { t with saved := Function.update t.saved name (some body) }

/-- `"f_" + sha`. -/
def funcName (sha : Bytes) : Bytes := [102, 95] ++ sha

section Interpreter

variable {V Num : Type} (lua : Lua Num)

/-- `CreateLuaFunction`; it saves the text under the name of the function. -/
def createLuaFunction (t : Scripts) (name body : Bytes) : Option Scripts :=
  (lua.compile body).map fun _ =>
    { t.save name body with funcs := Function.update t.funcs name (some body) }

/-- `LUAInterpreter::Load`, for `SCRIPT LOAD`. -/
def scriptLoad (t : Scripts) (body : Bytes) : Option Scripts :=
  createLuaFunction lua t (funcName (lua.sha1 body)) body

/-- The first part of `LUAInterpreter::Eval`: the text of the function that will run. `EVAL` saves its
script under the plain hash. -/
def lookupScript (t : Scripts) (func : Bytes) (isSHA1Func : Bool) : Option Bytes × Scripts :=
  if isSHA1Func then
    if func.length ≠ 40 then (none, t)
    else
      match t.funcs (funcName func) with
      | some body => (some body, t)
      | none =>
        match t.saved (funcName func) with
        | none => (none, t)
        | some cached =>
          match createLuaFunction lua t (funcName func) cached with
          | none => (none, t)
          | some t => (some cached, t)
  else
    let t := t.save (lua.sha1 func) func
    match t.funcs (funcName (lua.sha1 func)) with
    | some body => (some body, t)
    | none =>
      match createLuaFunction lua t (funcName (lua.sha1 func)) func with
      | none => (none, t)
      | some t => (some func, t)

/-- `KEYS` and `ARGV` of `EVAL` and `EVALSHA`; `numkey + 2` is a `uint32`. -/
def evalArgs (args : List Bytes) : Option (List Bytes × List Bytes) :=
  match stringToUInt32 (arg args 1) with
  | none => none
  | some numkey =>
    let first := (numkey + 2) % 2 ^ 32
    if args.length < first then none else some ((args.take first).drop 2, args.drop first)

variable (cfg : HandlerConfig) (kv : Kv V Num) (noWal hasClient : Bool)

/-- `Eval`, and the part of `EvalSHA` that is the same. -/
def evalScript (t : Scripts) (st : ScriptState V Num) (args : List Bytes) (isSHA1Func : Bool) :
    ScriptState V Num × Scripts :=
  match evalArgs args with
  | none => (st, t)
  | some (keys, argv) =>
    match lookupScript lua t (arg args 0) isSHA1Func with
    | (none, t) => (st, t)
    | (some body, t) =>
      match lua.compile body with
      | none => (st, t)
      | some script => ((script keys argv).run cfg kv noWal hasClient st, t)

/-- `EvalSHA`. The name that is looked up is the first argument of `*ctx.current_cmd` by then. -/
def evalSHA (t : Scripts) (st : ScriptState V Num) (args : List Bytes) :
    ScriptState V Num × Scripts :=
  let r := evalScript lua cfg kv noWal hasClient t st args true
  if r.1.dataChange && !noWal then
    match r.2.saved (arg r.1.currentCmd.args 0) with
    | some script =>
      ({ r.1 with currentCmd := ⟨.eval, r.1.currentCmd.args.set 0 script⟩ }, r.2)
    | none => r
  else r

/-- The context a frame is executed in, when its execution begins. -/
def ScriptState.start (s : Keyspace V) (db : DBID) (frame : ScriptFrame) : ScriptState V Num :=
  { store := s, currentDB := db, dataChange := false, currentCmd := frame, calls := [] }

/-- `Call` of `EVAL`, `EVALSHA`, or what one of them was replaced by. -/
def ScriptFrame.call (t : Scripts) (s : Keyspace V) (db : DBID) (frame : ScriptFrame) :
    ScriptState V Num × Scripts :=
  match frame.name with
  | .eval =>
    if validArity (2, -1) frame.args.length then
      evalScript lua cfg kv noWal hasClient t (.start s db frame) frame.args false
    else (.start s db frame, t)
  | .evalsha =>
    if validArity (2, -1) frame.args.length then
      evalSHA lua cfg kv noWal hasClient t (.start s db frame) frame.args
    else (.start s db frame, t)
  | .data cmd =>
    if validArity cmd.arity frame.args.length then
      let o := cmd.handler cfg kv s ⟨db, noWal, hasClient, true⟩ frame.args
      ({ store := o.store, currentDB := o.db, dataChange := o.dataChange
         currentCmd := o.rewrite.applyTo frame, calls := [] }, t)
    else (.start s db frame, t)

/-- What is passed to `WriteWAL` behind the handler of a script: `ctx.currentDB` and
`*ctx.current_cmd`. -/
def ScriptState.walRecord (st : ScriptState V Num) : Option (DBID × ScriptFrame) :=
  if st.dataChange then some (st.currentDB, st.currentCmd) else none

end Interpreter

/-! ### What a run leaves -/

section Traced

variable {V Num : Type} {cfg : HandlerConfig} {kv : Kv V Num} {noWal hasClient : Bool}

/-- Calls that follow one another: each begins with the store that the one before left. -/
def Chained : Keyspace V → List (InnerCall V Num) → Keyspace V → Prop
  | s, [], s' => s = s'
  | s, c :: calls, s' => c.store = s ∧ Chained c.outcome.store calls s'

theorem chained_append {s s' : Keyspace V} {calls calls' : List (InnerCall V Num)} :
    Chained s (calls ++ calls') s' ↔ ∃ m, Chained s calls m ∧ Chained m calls' s' := by
  induction calls generalizing s with
  | nil => simp [Chained]
  | cons c calls ih => simp [Chained, ih, and_assoc]

/-- The call changes nothing. -/
def InnerCall.Idle (c : InnerCall V Num) : Prop := c.outcome.store = c.store

theorem chained_of_idle {s s' : Keyspace V} {calls : List (InnerCall V Num)}
    (h : Chained s calls s') (hidle : ∀ c ∈ calls, c.Idle) : s' = s := by
  induction calls generalizing s with
  | nil => exact h.symm
  | cons c calls ih =>
    obtain ⟨rfl, hrest⟩ := h
    have hc : c.outcome.store = c.store := hidle c List.mem_cons_self
    rw [hc] at hrest
    exact ih hrest fun c' hc' => hidle c' (List.mem_cons_of_mem _ hc')

/-- Where `currentCmd` gets to. -/
def frameAfter (frame : ScriptFrame) (calls : List (InnerCall V Num)) : ScriptFrame :=
  calls.foldl (fun frame c => c.outcome.rewrite.applyTo frame) frame

theorem frameAfter_keep {frame : ScriptFrame} {calls : List (InnerCall V Num)}
    (h : ∀ c ∈ calls, c.outcome.rewrite = .keep) : frameAfter frame calls = frame := by
  induction calls with
  | nil => rfl
  | cons c calls ih =>
    have hc : c.outcome.rewrite = .keep := h c List.mem_cons_self
    calc frameAfter frame (c :: calls)
      _ = frameAfter (c.outcome.rewrite.applyTo frame) calls := rfl
      _ = frameAfter frame calls := by rw [hc]; rfl
      _ = frame := ih fun c' hc' => h c' (List.mem_cons_of_mem _ hc')

/-- **What a run leaves in the context.** The calls follow one another from `s`; `data_change` is set
if one of them announced something, and the frame is what they made of it. -/
structure ScriptState.Traced (s : Keyspace V) (frame : ScriptFrame) (st : ScriptState V Num) :
    Prop where
  chained : Chained s st.calls st.store
  dataChange : st.dataChange = true ↔ ∃ c ∈ st.calls, c.outcome.dataChange = true
  currentCmd : st.currentCmd = frameAfter frame st.calls

theorem start_traced (s : Keyspace V) (db : DBID) (frame : ScriptFrame) :
    (ScriptState.start s db frame : ScriptState V Num).Traced s frame :=
  ⟨rfl, by simp [ScriptState.start], rfl⟩

theorem ScriptState.Traced.callComms {s : Keyspace V} {frame : ScriptFrame}
    {st : ScriptState V Num} (h : st.Traced s frame) (cmd : DataCommand) (args : List Bytes) :
    (st.callComms cfg kv noWal hasClient cmd args).1.Traced s frame := by
  unfold ScriptState.callComms
  split
  · exact h
  · refine ⟨chained_append.2 ⟨_, h.chained, rfl, rfl⟩, ?_, ?_⟩
    · simp [h.dataChange, or_and_right, exists_or]
    · simp [frameAfter, h.currentCmd]

theorem run_traced {s : Keyspace V} {frame : ScriptFrame} (script : Script Num)
    {st : ScriptState V Num} (h : st.Traced s frame) :
    (script.run cfg kv noWal hasClient st).Traced s frame := by
  induction script generalizing st with
  | done => exact h
  | call cmd args next ih => exact ih _ (h.callComms cmd args)

/-! ### A run on a slave -/

theorem callComms_visible {noWal' hasClient' : Bool} {st st' : ScriptState V Num}
    (hs : st.store = st'.store) (hdb : st.currentDB = st'.currentDB) (cmd : DataCommand)
    (args : List Bytes) :
    (st.callComms cfg kv noWal hasClient cmd args).1.store =
        (st'.callComms cfg kv noWal' hasClient' cmd args).1.store ∧
      (st.callComms cfg kv noWal hasClient cmd args).1.currentDB =
        (st'.callComms cfg kv noWal' hasClient' cmd args).1.currentDB ∧
      (st.callComms cfg kv noWal hasClient cmd args).2 =
        (st'.callComms cfg kv noWal' hasClient' cmd args).2 := by
  unfold ScriptState.callComms
  split
  · exact ⟨hs, hdb, rfl⟩
  · have henv : (⟨st.currentDB, noWal, hasClient, false⟩ : CallEnv).db =
        (⟨st'.currentDB, noWal', hasClient', false⟩ : CallEnv).db := hdb
    have hvisible := Outcome.visible_eq_iff.1
      (@handler_visible _ _ kv st.store args _ _ cfg henv cmd)
    rw [hs] at hvisible ⊢
    exact ⟨hvisible.1, hvisible.2.2, hvisible.2.1⟩

/-- **A run is the same on a slave**, from the same store and in the same database. -/
theorem run_visible {noWal' hasClient' : Bool} (script : Script Num) {st st' : ScriptState V Num}
    (hs : st.store = st'.store) (hdb : st.currentDB = st'.currentDB) :
    (script.run cfg kv noWal hasClient st).store =
      (script.run cfg kv noWal' hasClient' st').store := by
  induction script generalizing st st' with
  | done => exact hs
  | call cmd args next ih =>
    obtain ⟨hstore, hcurrent, hreply⟩ := @callComms_visible _ _ cfg kv noWal hasClient noWal'
      hasClient' st st' hs hdb cmd args
    rw [Script.run, Script.run, hreply]
    exact ih _ hstore hcurrent

/-- The script selects a database before it calls anything else. -/
def Script.SelectsFirst (maxdb : ℕ) : Script Num → Prop
  | .done => True
  | .call .select args _ => ∃ db, stringToUInt32 (arg args 0) = some db ∧ db < maxdb
  | .call _ _ _ => False

/-- Such a script does the same from any database. -/
theorem run_selectsFirst {noWal' hasClient' : Bool} {script : Script Num}
    (h : script.SelectsFirst cfg.maxdb) {st st' : ScriptState V Num} (hs : st.store = st'.store) :
    (script.run cfg kv noWal hasClient st).store =
      (script.run cfg kv noWal' hasClient' st').store := by
  cases script with
  | done => exact hs
  | call cmd args next =>
    cases cmd <;> first
      | exact h.elim
      | skip
    obtain ⟨db, hparse, hlt⟩ := h
    have hselect : ∀ (noWal hasClient : Bool) (st : ScriptState V Num),
        (st.callComms cfg kv noWal hasClient .select args).1.store = st.store ∧
          (st.callComms cfg kv noWal hasClient .select args).1.currentDB = db ∧
          (st.callComms cfg kv noWal hasClient .select args).2 = .fillOk := by
      intro noWal hasClient st
      simp [ScriptState.callComms, DataCommand.noScript, DataCommand.handler, selectDb, hparse, hlt,
        Outcome.answer]
    obtain ⟨hs1, hdb1, hr1⟩ := hselect noWal hasClient st
    obtain ⟨hs2, hdb2, hr2⟩ := hselect noWal' hasClient' st'
    rw [Script.run, Script.run, hr1, hr2]
    exact run_visible _ (by rw [hs1, hs2, hs]) (by rw [hdb1, hdb2])

end Traced

end Comms
