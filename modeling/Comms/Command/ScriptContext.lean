import Comms.Lib.Run
import Comms.Command.Script
import Comms.Command.SmallKv

/-!
# The context of a script

`redis.call` works in the context that the thread-local `g_local_ctx` points to. `LUAInterpreter::Eval`
sets it before it looks at anything and nobody sets it back. While a script is past `lua_time_limit`
its count hook lets the event loop go on, so other clients' commands are executed in the middle of the
script, with `g_lua_mutex` held: an `EVAL` among them waits for the mutex of its own thread, but an
`EVALSHA` whose hash does not have 40 bytes is answered before, and leaves `g_local_ctx` behind.

* `LuaThread` — a thread of the event loop and the script it runs; `LuaThread.eval` —
  `LUAInterpreter::Eval`, `LuaThread.hook` — `MaskCountHook`;
* `luaStep` — the event loop, the hook, and the script from call to call;
* `LuaThread.AsOwner` — a call works in the context of the client that sent the script;
* `scripts_run_as_owner` — the commands that may come in between.

Where the thread waits for its own mutex nothing happens any more (`blocked`).
-/

namespace Comms

/-! ### Contexts -/

/-- `LUAContext`. The time is left to the hook. -/
structure LuaContext where
  timeout : Bool
  kill : Bool
  executingFunc : Option Bytes

/-- The part of a `Context` that a script works with. `client` is whether `ctx.client` is set, `noWal`
is `flags`. -/
structure EvalContext (Num : Type) where
  client : Bool
  currentDB : DBID
  noWal : Bool
  dataChange : Bool
  currentCmd : ScriptFrame
  reply : Reply Num
  lua : LuaContext

/-- A thread that runs an event loop: `localCtx` is `g_local_ctx`, `running` the script on the stack
and the client it is run for. -/
structure LuaThread (Client V Num : Type) where
  store : Keyspace V
  scripts : Scripts
  ctxs : Client → EvalContext Num
  localCtx : Option Client
  killingFunc : Bytes
  running : Option (Client × Script Num)
  blocked : Bool

/-- What the event loop finds to do. `other` is a command that does not come to the interpreter: it
leaves anything in the store and in the context of its client. -/
inductive LoopEvent (Client V Num : Type)
  | eval (d : Client) (args : List Bytes) (isSHA1Func : Bool)
  | scriptKill (d : Client) (func : Option Bytes)
  | scriptFlush (d : Client)
  | scriptLoad (d : Client) (body : Bytes)
  | killEvent
  | other (d : Client) (store : Keyspace V) (ctx : EvalContext Num)

/-- The client whose command it is. -/
def LoopEvent.client {Client V Num : Type} : LoopEvent Client V Num → Option Client
  | eval d _ _ => some d
  | scriptKill d _ => some d
  | scriptFlush d => some d
  | scriptLoad d _ => some d
  | killEvent => none
  | other d _ _ => some d

/-- An `EVALSHA` with arguments that are in order and a hash that is not. -/
def LoopEvent.malformed {Client V Num : Type} : LoopEvent Client V Num → Bool
  | eval _ args isSHA1Func => isSHA1Func && (evalArgs args).isSome && (arg args 0).length != 40
  | _ => false

namespace LuaThread

variable {Client V Num : Type} [DecidableEq Client]

/-- The context of `d` is changed. -/
def modify (s : LuaThread Client V Num) (d : Client) (f : EvalContext Num → EvalContext Num) :
    LuaThread Client V Num :=
  { s with ctxs := Function.update s.ctxs d (f (s.ctxs d)) }

/-- A reply for `d`. -/
def answer (s : LuaThread Client V Num) (d : Client) (reply : Reply Num) : LuaThread Client V Num :=
  s.modify d fun ctx => { ctx with reply := reply }

section Interpreter

variable (lua : Lua Num) (s : LuaThread Client V Num)

/-- `LUAInterpreter::Eval` up to `lua_pcall`, for `d`. Errors are less what Lua says about them. -/
def eval (d : Client) (func : Bytes) (keys argv : List Bytes) (isSHA1Func : Bool) :
    LuaThread Client V Num :=
  let s := { s with localCtx := some d }
  if isSHA1Func = true ∧ func.length ≠ 40 then
    s.answer d (.error "NOSCRIPT No matching script. Please use EVAL.")
  else
    match s.running with
    | some _ =>
      -- `g_lua_mutex` is held by the script around the hook
      { s with
        scripts := if isSHA1Func then s.scripts else s.scripts.save (lua.sha1 func) func
        blocked := true }
    | none =>
      match lookupScript lua s.scripts func isSHA1Func with
      | (none, t) =>
        { s with scripts := t }.answer d (if isSHA1Func
          then .error "NOSCRIPT No matching script. Please use EVAL."
          else .error "Error compiling script (new function)")
      | (some body, t) =>
        match lua.compile body with
        | none =>
          { s with scripts := t }.answer d (.error "Error compiling script (new function)")
        | some script =>
          { s with scripts := t, running := some (d, script keys argv) }.modify d fun ctx =>
            { ctx with lua := { ctx.lua with
                kill := false
                executingFunc := some (if isSHA1Func then func else lua.sha1 func) } }

/-- `Comms::Eval` and `Comms::EvalSHA`, up to `lua_pcall`. -/
def evalCommand (d : Client) (args : List Bytes) (isSHA1Func : Bool) : LuaThread Client V Num :=
  match evalArgs args with
  | none =>
    s.answer d (if (stringToUInt32 (arg args 1)).isNone
      then .fillError "value is not an integer or out of range"
      else .fillError "Wrong number of arguments for Eval")
  | some (keys, argv) => s.eval lua d (arg args 0) keys argv isSHA1Func

/-- `ScriptEventCallback`, for `SCRIPT_KILL_EVENT`. -/
def killEvent : LuaThread Client V Num :=
  match s.localCtx with
  | none => s
  | some h =>
    match (s.ctxs h).lua.executingFunc with
    | none => s
    | some func =>
      if eqNoCase s.killingFunc [97, 108, 108] ∨
          (cStr s.killingFunc).map toLower = (cStr func).map toLower then
        s.modify h fun ctx => { ctx with lua := { ctx.lua with kill := true } }
      else s

/-- The event loop handles an event. -/
def handle : LoopEvent Client V Num → LuaThread Client V Num
  | .eval d args isSHA1Func => s.evalCommand lua d args isSHA1Func
  | .scriptKill d func => { s with killingFunc := func.getD [97, 108, 108] }.answer d (.status "OK")
  | .scriptFlush d =>
    -- `Reset` takes `g_lua_mutex`
    if s.running.isSome then { s with blocked := true }
    else { s with scripts := .empty }.answer d (.status "OK")
  | .scriptLoad d body =>
    match scriptLoad lua s.scripts body with
    | none => s.answer d (.fillError "Error compiling script (new function)")
    | some t => { s with scripts := t }.answer d (.str (lua.sha1 body))
  | .killEvent => s.killEvent
  | .other d store ctx => { s with store := store }.modify d fun _ => ctx

/-- One iteration of the event loop, which ends where the thread waits for itself. -/
def handleAll (events : List (LoopEvent Client V Num)) : LuaThread Client V Num :=
  events.foldl (fun s e => if s.blocked then s else s.handle lua e) s

/-- The script of `c` is over. -/
def finish (c : Client) (reply : Reply Num) : LuaThread Client V Num :=
  { s with running := none }.modify c fun ctx =>
    { ctx with reply := reply, lua := { ctx.lua with timeout := false, executingFunc := none } }

/-- `MaskCountHook`. `elapsed` is whether `lua_time_limit` has passed; its reference to the context is
taken before the event loop goes on. -/
def hook (elapsed : Bool) (events : List (LoopEvent Client V Num)) :
    Option (LuaThread Client V Num) :=
  match s.running, s.localCtx with
  | some (c, _), some h =>
    let s := if elapsed && !(s.ctxs h).lua.timeout then
        s.modify h fun ctx => { ctx with lua := { ctx.lua with timeout := true } }
      else s
    let s := if (s.ctxs h).lua.timeout && (s.ctxs h).client then s.handleAll lua events else s
    if s.blocked then some s
    else if (s.ctxs h).lua.kill then
      some (s.finish c (.error "Error running script: Script killed by user with SCRIPT KILL..."))
    else some s
  | _, _ => none

end Interpreter

/-- `CallComms` in the context of `h`. -/
def callComms (cfg : HandlerConfig) (kv : Kv V Num) (s : LuaThread Client V Num) (h : Client)
    (cmd : DataCommand) (args : List Bytes) : LuaThread Client V Num × Reply Num :=
  if cmd.noScript then (s, .error "This Redis command is not allowed from scripts")
  else
    let ctx := s.ctxs h
    let o := cmd.handler cfg kv s.store ⟨ctx.currentDB, ctx.noWal, ctx.client, false⟩ args
    ({ s with store := o.store }.modify h fun ctx => { ctx with
        currentDB := o.db
        dataChange := ctx.dataChange || o.dataChange
        currentCmd := o.rewrite.applyTo ctx.currentCmd
        reply := o.reply }, o.reply)

end LuaThread

/-- What happens on the thread: the event loop handles an event while no script runs, the hook of a
script lets it handle some, the script calls a command, or it returns. -/
inductive LuaAction (Client V Num : Type)
  | event (e : LoopEvent Client V Num)
  | hook (elapsed : Bool) (events : List (LoopEvent Client V Num))
  | call
  | finish (reply : Reply Num)

section Step

variable {Client V Num : Type} [DecidableEq Client] (lua : Lua Num) (cfg : HandlerConfig)
  (kv : Kv V Num)

/-- One of these steps, where it is possible. -/
def luaStep (s : LuaThread Client V Num) : LuaAction Client V Num → Option (LuaThread Client V Num)
  | .event e => if s.blocked ∨ s.running.isSome then none else some (s.handle lua e)
  | .hook elapsed events => if s.blocked then none else s.hook lua elapsed events
  | .call =>
    if s.blocked then none
    else
      match s.running, s.localCtx with
      | some (c, .call cmd args next), some h =>
        let r := s.callComms cfg kv h cmd args
        some { r.1 with running := some (c, next r.2) }
      | _, _ => none
  | .finish reply =>
    if s.blocked then none
    else
      match s.running with
      | some (c, .done) => some (s.finish c reply)
      | _ => none

namespace LuaThread

/-- The script of `c` is about to call a command that scripts may call. -/
def Calling (s : LuaThread Client V Num) (c : Client) : Prop :=
  s.blocked = false ∧ ∃ cmd args next, s.running = some (c, .call cmd args next) ∧
    cmd.noScript = false

/-- A call of a script works in the context of the client that sent it, and leaves the contexts of the
others as they are. -/
def AsOwner (s : LuaThread Client V Num) : LuaAction Client V Num → Prop
  | .call => ∀ c, s.Calling c → s.localCtx = some c ∧
      ∀ t, luaStep lua cfg kv s .call = some t → ∀ d, d ≠ c → t.ctxs d = s.ctxs d
  | _ => True

/-- The commands that come in between are those of other clients. -/
def FromOthers (s : LuaThread Client V Num) : LuaAction Client V Num → Prop
  | .hook _ events => ∀ c script, s.running = some (c, script) → ∀ e ∈ events, e.client ≠ some c
  | _ => True

/-- None of them is an `EVALSHA` with a malformed hash. -/
def WellFormedHashes (_ : LuaThread Client V Num) : LuaAction Client V Num → Prop
  | .hook _ events => ∀ e ∈ events, e.malformed = false
  | _ => True

/-- `g_local_ctx` points to the client whose script runs. -/
def Inv (s : LuaThread Client V Num) : Prop :=
  s.blocked = false → ∀ c script, s.running = some (c, script) → s.localCtx = some c

/-! ### The hook -/

section Hook

variable {lua} {cfg} {kv} {s : LuaThread Client V Num} {c : Client} {script : Script Num}

theorem killEvent_frame (s : LuaThread Client V Num) : s.killEvent.localCtx = s.localCtx ∧
    s.killEvent.running = s.running ∧ s.killEvent.blocked = s.blocked := by
  unfold killEvent
  split
  · exact ⟨rfl, rfl, rfl⟩
  · split
    · exact ⟨rfl, rfl, rfl⟩
    · split <;> exact ⟨rfl, rfl, rfl⟩

/-- **Commands in between.** An event of another client leaves the script that runs, and either the
thread waits for itself from then on, or `g_local_ctx` is as it was, or its hash was malformed and
`g_local_ctx` points to its client. -/
theorem handle_running (hrun : s.running = some (c, script)) (e : LoopEvent Client V Num)
    (he : e.client ≠ some c) :
    (s.handle lua e).running = some (c, script) ∧
    ((s.handle lua e).blocked = true ∨
      ((s.handle lua e).blocked = s.blocked ∧ e.malformed = false ∧
        (s.handle lua e).localCtx = s.localCtx) ∨
      ((s.handle lua e).blocked = s.blocked ∧ e.malformed = true ∧
        (s.handle lua e).localCtx ≠ some c)) := by
  cases e with
  | eval d args isSHA1Func =>
    have hmal : (LoopEvent.eval d args isSHA1Func : LoopEvent Client V Num).malformed =
        (isSHA1Func && (evalArgs args).isSome && (arg args 0).length != 40) := rfl
    change (s.evalCommand lua d args isSHA1Func).running = _ ∧ _
    rw [hmal, show s.handle lua (.eval d args isSHA1Func) = s.evalCommand lua d args isSHA1Func
      from rfl]
    unfold evalCommand
    cases hargs : evalArgs args with
    | none =>
      dsimp only
      refine ⟨hrun, .inr (.inl ⟨rfl, ?_, rfl⟩)⟩
      rw [Option.isSome_none, Bool.and_false, Bool.false_and]
    | some r =>
      obtain ⟨keys, argv⟩ := r
      dsimp only
      unfold LuaThread.eval
      dsimp only
      by_cases hbad : isSHA1Func = true ∧ (arg args 0).length ≠ 40
      · -- answered in front of the mutex
        rw [if_pos hbad]
        refine ⟨hrun, .inr (.inr ⟨rfl, ?_, he⟩)⟩
        rw [hbad.1, Option.isSome_some, Bool.true_and, Bool.true_and, bne_iff_ne]
        exact hbad.2
      · rw [if_neg hbad, hrun]
        exact ⟨rfl, .inl rfl⟩
  | scriptKill d func => exact ⟨hrun, .inr (.inl ⟨rfl, rfl, rfl⟩)⟩
  | scriptFlush d =>
    have hflush : s.handle lua (.scriptFlush d) = { s with blocked := true } :=
      if_pos (by rw [hrun]; rfl)
    rw [hflush]
    exact ⟨hrun, .inl rfl⟩
  | scriptLoad d body =>
    have hload : s.handle lua (.scriptLoad d body) = match scriptLoad lua s.scripts body with
        | none => s.answer d (.fillError "Error compiling script (new function)")
        | some t => { s with scripts := t }.answer d (.str (lua.sha1 body)) := rfl
    rw [hload]
    cases scriptLoad lua s.scripts body with
    | none => exact ⟨hrun, .inr (.inl ⟨rfl, rfl, rfl⟩)⟩
    | some t => exact ⟨hrun, .inr (.inl ⟨rfl, rfl, rfl⟩)⟩
  | killEvent =>
    obtain ⟨hlocal, hrunning, hblocked⟩ := killEvent_frame s
    exact ⟨hrunning.trans hrun, .inr (.inl ⟨hblocked, rfl, hlocal⟩)⟩
  | other d store ctx => exact ⟨hrun, .inr (.inl ⟨rfl, rfl, rfl⟩)⟩

/-- Where the thread waits for itself nothing more is handled. -/
theorem handleAll_blocked (h : s.blocked = true) (events : List (LoopEvent Client V Num)) :
    s.handleAll lua events = s := by
  induction events with
  | nil => rfl
  | cons e events ih =>
    unfold handleAll at ih ⊢
    rw [List.foldl_cons, if_pos h]
    exact ih

theorem handleAll_cons (h : s.blocked = false) (e : LoopEvent Client V Num)
    (events : List (LoopEvent Client V Num)) :
    s.handleAll lua (e :: events) = (s.handle lua e).handleAll lua events := by
  unfold handleAll
  rw [List.foldl_cons, if_neg (by rw [h]; exact Bool.false_ne_true)]

/-- **Iterations in between.** The script goes on running; unless the thread waits for itself,
`g_local_ctx` is as it was if no hash was malformed, and does not point to the client of the script
otherwise. -/
theorem handleAll_running (hblocked : s.blocked = false) (hrun : s.running = some (c, script))
    (events : List (LoopEvent Client V Num)) (hothers : ∀ e ∈ events, e.client ≠ some c) :
    (s.handleAll lua events).running = some (c, script) ∧
    ((s.handleAll lua events).blocked = false →
      ((∀ e ∈ events, e.malformed = false) → (s.handleAll lua events).localCtx = s.localCtx) ∧
      ((∃ e ∈ events, e.malformed = true) ∨ s.localCtx ≠ some c →
        (s.handleAll lua events).localCtx ≠ some c)) := by
  induction events generalizing s with
  | nil =>
    refine ⟨hrun, fun _ => ⟨fun _ => rfl, fun h => ?_⟩⟩
    obtain ⟨e, he, -⟩ | h := h
    · cases he
    · exact h
  | cons e events ih =>
    rw [List.forall_mem_cons] at hothers
    obtain ⟨hrun', hcases⟩ := @handle_running _ _ _ _ lua _ _ _ hrun e hothers.1
    rw [handleAll_cons hblocked]
    obtain hstuck | ⟨hgo, hgood, hlocal⟩ | ⟨hgo, hbad, hlocal⟩ := hcases
    · rw [handleAll_blocked hstuck]
      exact ⟨hrun', fun h => absurd (h.symm.trans hstuck) Bool.false_ne_true⟩
    · obtain ⟨hrun'', hrest⟩ := ih (hgo.trans hblocked) hrun' hothers.2
      refine ⟨hrun'', fun h => ⟨fun hall => ?_, fun hsome => (hrest h).2 ?_⟩⟩
      · rw [List.forall_mem_cons] at hall
        exact ((hrest h).1 hall.2).trans hlocal
      · obtain ⟨e', he', hmal⟩ | hother := hsome
        · obtain rfl | he' := List.mem_cons.mp he'
          · exact absurd (hgood.symm.trans hmal) Bool.false_ne_true
          · exact .inl ⟨e', he', hmal⟩
        · exact .inr (hlocal ▸ hother)
    · obtain ⟨hrun'', hrest⟩ := ih (hgo.trans hblocked) hrun' hothers.2
      refine ⟨hrun'', fun h => ⟨fun hall => ?_, fun _ => (hrest h).2 (.inr hlocal)⟩⟩
      rw [List.forall_mem_cons] at hall
      exact absurd (hall.1.symm.trans hbad) Bool.false_ne_true

end Hook

/-! ### Steps -/

section Steps

variable {lua} {cfg} {kv} {s t : LuaThread Client V Num}

/-- A script that the outer event loop starts is run in the context of its client. -/
theorem handle_idle (hidle : s.running = none) (e : LoopEvent Client V Num) {c : Client}
    {script : Script Num} (hrun : (s.handle lua e).running = some (c, script)) :
    (s.handle lua e).localCtx = some c := by
  have hnone {t : LuaThread Client V Num} (ht : t.running = none)
      (hsome : t.running = some (c, script)) : t.localCtx = some c := by
    rw [ht] at hsome
    cases hsome
  cases e with
  | eval d args isSHA1Func =>
    rw [show s.handle lua (.eval d args isSHA1Func) = s.evalCommand lua d args isSHA1Func
      from rfl] at hrun ⊢
    unfold evalCommand at hrun ⊢
    cases hargs : evalArgs args with
    | none =>
      rw [hargs] at hrun
      exact hnone hidle hrun
    | some r =>
      obtain ⟨keys, argv⟩ := r
      rw [hargs] at hrun
      dsimp only at hrun ⊢
      unfold LuaThread.eval at hrun ⊢
      dsimp only at hrun ⊢
      by_cases hbad : isSHA1Func = true ∧ (arg args 0).length ≠ 40
      · rw [if_pos hbad] at hrun
        rw [if_pos hbad]
        exact hnone hidle hrun
      · rw [if_neg hbad, hidle] at hrun ⊢
        dsimp only at hrun ⊢
        cases hfound : lookupScript lua s.scripts (arg args 0) isSHA1Func with
        | mk text scripts =>
          rw [hfound] at hrun
          cases text with
          | none => exact hnone rfl hrun
          | some body =>
            dsimp only at hrun ⊢
            cases hcompile : lua.compile body with
            | none =>
              rw [hcompile] at hrun
              exact hnone rfl hrun
            | some f =>
              rw [hcompile] at hrun
              obtain ⟨rfl, -⟩ := Prod.mk.inj (Option.some.inj hrun)
              rfl
  | scriptKill d func => exact hnone hidle hrun
  | scriptFlush d =>
    have hflush : s.handle lua (.scriptFlush d) =
        { s with scripts := .empty }.answer d (.status "OK") :=
      if_neg (by rw [hidle]; exact Bool.false_ne_true)
    rw [hflush] at hrun ⊢
    exact hnone hidle hrun
  | scriptLoad d body =>
    have hload : s.handle lua (.scriptLoad d body) = match scriptLoad lua s.scripts body with
        | none => s.answer d (.fillError "Error compiling script (new function)")
        | some t => { s with scripts := t }.answer d (.str (lua.sha1 body)) := rfl
    rw [hload] at hrun ⊢
    cases hfound : scriptLoad lua s.scripts body with
    | none =>
      rw [hfound] at hrun
      exact hnone hidle hrun
    | some t =>
      rw [hfound] at hrun
      exact hnone hidle hrun
  | killEvent =>
    obtain ⟨-, hrunning, -⟩ := killEvent_frame s
    exact hnone (hrunning.trans hidle) hrun
  | other d store ctx => exact hnone hidle hrun

/-- What a hook comes to: the events are handled or not, and the script goes on or it is over. -/
theorem hook_cases {elapsed : Bool} {events : List (LoopEvent Client V Num)}
    (h : s.hook lua elapsed events = some t) :
    ∃ c script s₁, s.running = some (c, script) ∧ s₁.running = s.running ∧
      s₁.localCtx = s.localCtx ∧ s₁.blocked = s.blocked ∧
      ((t = s₁ ∨ t = s₁.handleAll lua events) ∨ t.running = none) := by
  unfold hook at h
  split at h
  · next c script h' hrun hlocal =>
    dsimp only at h
    -- the flag of the context that the hook refers to
    generalize hs₁ : (if elapsed && !(s.ctxs h').lua.timeout then
        s.modify h' fun ctx => { ctx with lua := { ctx.lua with timeout := true } }
      else s) = s₁ at h
    have hframe : s₁.running = s.running ∧ s₁.localCtx = s.localCtx ∧ s₁.blocked = s.blocked := by
      rw [← hs₁]
      split <;> exact ⟨rfl, rfl, rfl⟩
    refine ⟨c, script, s₁, hrun, hframe.1, hframe.2.1, hframe.2.2, ?_⟩
    generalize hs₂ : (if (s₁.ctxs h').lua.timeout && (s₁.ctxs h').client then
      s₁.handleAll lua events else s₁) = s₂ at h
    have hcases : s₂ = s₁ ∨ s₂ = s₁.handleAll lua events := by
      rw [← hs₂]
      split
      · exact .inr rfl
      · exact .inl rfl
    split at h
    · obtain rfl := Option.some.inj h
      exact .inl hcases
    · split at h
      · obtain rfl := Option.some.inj h
        exact .inr rfl
      · obtain rfl := Option.some.inj h
        exact .inl hcases
  · cases h

/-- Past the time limit, and for a client, the events are handled. -/
theorem hook_elapsed {events : List (LoopEvent Client V Num)} {c : Client}
    (hlocal : s.localCtx = some c) (hclient : (s.ctxs c).client = true)
    (h : s.hook lua true events = some t) :
    ∃ s₁ : LuaThread Client V Num, s₁.running = s.running ∧ s₁.localCtx = s.localCtx ∧
      s₁.blocked = s.blocked ∧ (t = s₁.handleAll lua events ∨ t.running = none) := by
  unfold hook at h
  split at h
  · next c' script h' hrun hlocal' =>
    obtain rfl := Option.some.inj (hlocal.symm.trans hlocal')
    dsimp only at h
    generalize hs₁ : (if true && !(s.ctxs c).lua.timeout then
        s.modify c fun ctx => { ctx with lua := { ctx.lua with timeout := true } }
      else s) = s₁ at h
    have hframe : s₁.running = s.running ∧ s₁.localCtx = s.localCtx ∧ s₁.blocked = s.blocked := by
      rw [← hs₁]
      split <;> exact ⟨rfl, rfl, rfl⟩
    have hflags : ((s₁.ctxs c).lua.timeout && (s₁.ctxs c).client) = true := by
      rw [← hs₁, Bool.true_and]
      split
      · next hfirst =>
        unfold modify
        dsimp only
        rw [Function.update_self, hclient]
        rfl
      · next hagain =>
        rw [hclient, Bool.and_true]
        simpa using hagain
    rw [if_pos hflags] at h
    refine ⟨s₁, hframe.1, hframe.2.1, hframe.2.2, ?_⟩
    split at h
    · exact .inl (Option.some.inj h).symm
    · split at h
      · obtain rfl := Option.some.inj h
        exact .inr rfl
      · exact .inl (Option.some.inj h).symm
  · cases h

/-- A call changes the context it works in, and no other. -/
theorem callComms_frame (s : LuaThread Client V Num) (h : Client) (cmd : DataCommand)
    (args : List Bytes) :
    (s.callComms cfg kv h cmd args).1.localCtx = s.localCtx ∧
    (s.callComms cfg kv h cmd args).1.blocked = s.blocked ∧
    ∀ d, d ≠ h → (s.callComms cfg kv h cmd args).1.ctxs d = s.ctxs d := by
  unfold callComms
  split
  · exact ⟨rfl, rfl, fun _ _ => rfl⟩
  · exact ⟨rfl, rfl, fun d hd => Function.update_of_ne hd _ _⟩

theorem call_cases (h : luaStep lua cfg kv s .call = some t) :
    ∃ c cmd args next hc, s.running = some (c, .call cmd args next) ∧ s.localCtx = some hc ∧
      t = { (s.callComms cfg kv hc cmd args).1 with
        running := some (c, next (s.callComms cfg kv hc cmd args).2) } := by
  unfold luaStep at h
  dsimp only at h
  split at h
  · cases h
  · split at h
    · next c cmd args next hc hrun hlocal =>
      exact ⟨c, cmd, args, next, hc, hrun, hlocal, (Option.some.inj h).symm⟩
    · cases h

/-- **Steps.** Without malformed hashes `g_local_ctx` keeps pointing to the client of the script. -/
theorem Inv.step (s : LuaThread Client V Num) (a : LuaAction Client V Num)
    (t : LuaThread Client V Num) (hinv : s.Inv) (ha : s.FromOthers a ∧ s.WellFormedHashes a)
    (hstep : luaStep lua cfg kv s a = some t) : t.Inv := by
  intro hblocked c script hrun
  cases a with
  | event e =>
    unfold luaStep at hstep
    dsimp only at hstep
    split at hstep
    · cases hstep
    next hfree =>
    obtain rfl := Option.some.inj hstep
    rw [not_or] at hfree
    exact handle_idle (by simpa using hfree.2) e hrun
  | hook elapsed events =>
    unfold luaStep at hstep
    dsimp only at hstep
    split at hstep
    · cases hstep
    next hfree =>
    obtain ⟨c₀, script₀, s₁, hrun₀, hrun₁, hlocal₁, hblocked₁, hcases⟩ := hook_cases hstep
    have hfree₁ : s₁.blocked = false := hblocked₁.trans (Bool.eq_false_of_not_eq_true hfree)
    have hown : s₁.localCtx = some c₀ :=
      hlocal₁.trans (hinv (Bool.eq_false_of_not_eq_true hfree) c₀ script₀ hrun₀)
    obtain (rfl | rfl) | hover := hcases
    · rw [hrun₁, hrun₀] at hrun
      obtain ⟨rfl, -⟩ := Prod.mk.inj (Option.some.inj hrun)
      exact hown
    · obtain ⟨hsame, hlocal⟩ := @handleAll_running _ _ _ _ lua _ _ _ hfree₁
        (hrun₁.trans hrun₀) events (ha.1 c₀ script₀ hrun₀)
      obtain ⟨rfl, -⟩ := Prod.mk.inj (Option.some.inj (hsame.symm.trans hrun))
      exact ((hlocal hblocked).1 ha.2).trans hown
    · rw [hover] at hrun
      cases hrun
  | call =>
    obtain ⟨c₀, cmd, args, next, hc, hrun₀, hlocal, rfl⟩ := call_cases hstep
    obtain ⟨hframe, hblk, -⟩ := @callComms_frame _ _ _ _ cfg kv s hc cmd args
    obtain ⟨rfl, -⟩ := Prod.mk.inj (Option.some.inj hrun)
    exact hframe.trans (hinv (hblk.symm.trans hblocked) _ _ hrun₀)
  | finish reply =>
    unfold luaStep at hstep
    dsimp only at hstep
    split at hstep
    · cases hstep
    · split at hstep
      · obtain rfl := Option.some.inj hstep
        cases hrun
      · cases hstep

theorem Inv.asOwner (hinv : s.Inv) (a : LuaAction Client V Num) : s.AsOwner lua cfg kv a := by
  cases a with
  | event e => trivial
  | hook elapsed events => trivial
  | finish reply => trivial
  | call =>
    rintro c ⟨hblocked, cmd, args, next, hrun, -⟩
    have hlocal := hinv hblocked c _ hrun
    refine ⟨hlocal, fun t hstep d hd => ?_⟩
    obtain ⟨-, cmd', args', next', hc, -, hlocal', rfl⟩ := call_cases hstep
    obtain rfl := Option.some.inj (hlocal.symm.trans hlocal')
    exact callComms_frame s c cmd' args' |>.2.2 d hd

end Steps

end LuaThread

/-- **Scripts run as their clients.** From a thread that runs no script, in every run whose hooks handle
commands of other clients and no `EVALSHA` with a malformed hash, every call of a script works in the
context of the client that sent it. This is exact: after a hook that handles such a command, a script
that goes on calls its commands in the context of somebody else. -/
theorem scripts_run_as_owner {s : LuaThread Client V Num} (hidle : s.running = none)
    {as : List (LuaAction Client V Num)}
    (has : Run.Along (luaStep lua cfg kv) (fun s a => s.FromOthers a ∧ s.WellFormedHashes a) s as) :
    Run.Along (luaStep lua cfg kv) (LuaThread.AsOwner lua cfg kv) s as ∧
    ∀ t c events u, Run.steps (luaStep lua cfg kv) s as = some t → t.Calling c →
      t.FromOthers (.hook true events) → (t.ctxs c).client = true →
      luaStep lua cfg kv t (.hook true events) = some u → u.Calling c →
      (u.AsOwner lua cfg kv .call ↔ t.WellFormedHashes (.hook true events)) := by
  have h0 : s.Inv := fun _ c script hrun => by
    rw [hidle] at hrun
    cases hrun
  refine ⟨Run.along_of_invariant LuaThread.Inv.step (fun s a hinv _ => hinv.asOwner a) h0 has, ?_⟩
  intro t c events u hrun hcalling hothers hclient hstep hcalling'
  have hinv : t.Inv := Run.invariant LuaThread.Inv.step h0 has hrun
  obtain ⟨hfree, cmd, args, next, hrunning, -⟩ := hcalling
  have hlocal := hinv hfree c _ hrunning
  have hhook : t.hook lua true events = some u := by
    unfold luaStep at hstep
    dsimp only at hstep
    rwa [hfree, if_neg Bool.false_ne_true] at hstep
  obtain ⟨t₁, hrun₁, hlocal₁, hblocked₁, hcases⟩ := LuaThread.hook_elapsed hlocal hclient hhook
  obtain rfl | hover := hcases
  swap
  · obtain ⟨-, _, _, _, hgone, -⟩ := hcalling'
    rw [hover] at hgone
    cases hgone
  obtain ⟨-, hafter⟩ := @LuaThread.handleAll_running _ _ _ _ lua _ _ _
    (hblocked₁.trans hfree) (hrun₁.trans hrunning) events (hothers c _ hrunning)
  obtain ⟨hsame, hother⟩ := hafter hcalling'.1
  constructor
  · intro howner
    by_contra hbad
    have hsome : ∃ e ∈ events, e.malformed = true := by
      by_contra hnone
      push Not at hnone
      exact hbad fun e he => Bool.eq_false_of_not_eq_true (hnone e he)
    exact hother (.inl hsome) (howner c hcalling').1
  · intro hgood
    exact LuaThread.Inv.asOwner (LuaThread.Inv.step t _ _ hinv ⟨hothers, hgood⟩ hstep) .call

end Step

/-! ### A hash of one byte -/

/-- `return redis.call('lpush','k','a')`. -/
def pushText : Bytes :=
    [114, 101, 116, 117, 114, 110, 32, 114, 101, 100, 105, 115, 46, 99, 97, 108, 108, 40, 39,
    108, 112, 117, 115, 104, 39, 44, 39, 107, 39, 44, 39, 97, 39, 41]

/-- Lua, as far as this script goes. -/
def pushLua : Lua ℤ where
  sha1 := fun text => if text = pushText then
      [55, 49, 50, 55, 55, 53, 56, 102, 57, 51, 102, 99, 97, 101, 52, 98, 54, 97, 54, 97, 54, 99,
      97, 102, 57, 51, 52, 55, 101, 52, 100, 57, 48, 55, 55, 55, 54, 100, 98, 98]
    else []
  compile := fun text => if text = pushText then
      some fun _ _ => .call .lpush [[107], [97]] fun _ => .done
    else none

/-- Two clients, and no script yet. -/
def twoClients : LuaThread Bool SmallValue ℤ where
  store := fun _ _ => none
  scripts := .empty
  ctxs := fun _ => ⟨true, 0, false, false, ⟨.eval, []⟩, .none, ⟨false, false, none⟩⟩
  localCtx := none
  killingFunc := []
  running := none
  blocked := false

/-- The script past its time limit, with the event of a `SCRIPT KILL` that does not mean it. -/
theorem scripts_run_as_owner_killing :
    let as : List (LuaAction Bool SmallValue ℤ) :=
      [.event (.eval true [pushText, [48]] false), .hook true [.killEvent], .call, .finish .none]
    Run.Along (luaStep pushLua ⟨16, []⟩ smallKv) (LuaThread.AsOwner pushLua ⟨16, []⟩ smallKv)
      twoClients as ∧
    ∀ t c events u, Run.steps (luaStep pushLua ⟨16, []⟩ smallKv) twoClients as = some t →
      t.Calling c → t.FromOthers (.hook true events) → (t.ctxs c).client = true →
      luaStep pushLua ⟨16, []⟩ smallKv t (.hook true events) = some u → u.Calling c →
      (u.AsOwner pushLua ⟨16, []⟩ smallKv .call ↔ t.WellFormedHashes (.hook true events)) :=
  have hothers (s : LuaThread Bool SmallValue ℤ) : s.FromOthers (.hook true [.killEvent]) :=
    fun _ _ _ e he h => by
      obtain rfl := List.mem_singleton.mp he
      cases h
  have hhashes (s : LuaThread Bool SmallValue ℤ) : s.WellFormedHashes (.hook true [.killEvent]) :=
    fun e he => by
      obtain rfl := List.mem_singleton.mp he
      rfl
  scripts_run_as_owner pushLua ⟨16, []⟩ smallKv rfl
    ⟨⟨trivial, trivial⟩, fun s _ => ⟨⟨hothers s, hhashes s⟩,
      fun _ _ => ⟨⟨trivial, trivial⟩, fun _ _ => ⟨⟨trivial, trivial⟩, fun _ _ => trivial⟩⟩⟩⟩

/-- `EVALSHA x 0` of the other client, and the script pushes in the context of that client. -/
theorem hash_of_one_byte : ¬ ∀ as : List (LuaAction Bool SmallValue ℤ),
    Run.Along (luaStep pushLua ⟨16, []⟩ smallKv) LuaThread.FromOthers twoClients as →
    Run.Along (luaStep pushLua ⟨16, []⟩ smallKv) (LuaThread.AsOwner pushLua ⟨16, []⟩ smallKv)
      twoClients as := by
  intro h
  have hothers : Run.Along (luaStep pushLua ⟨16, []⟩ smallKv) LuaThread.FromOthers twoClients
      [.event (.eval true [pushText, [48]] false), .hook true [.eval false [[120], [48]] true],
        .call] := by
    refine ⟨trivial, fun s hs => ⟨fun c script hrun e he hclient => ?_,
      fun _ _ => ⟨trivial, fun _ _ => trivial⟩⟩⟩
    obtain rfl := Option.some.inj hs
    obtain ⟨rfl, -⟩ := Prod.mk.inj (Option.some.inj hrun)
    obtain rfl := List.mem_singleton.mp he
    cases Option.some.inj hclient
  have hrun := h _ hothers
  have hcall := ((hrun.2 _ rfl).2 _ rfl).1
  have howner := (hcall true ⟨rfl, .lpush, [[107], [97]], fun _ => .done, rfl, rfl⟩).1
  cases Option.some.inj howner

end Comms
