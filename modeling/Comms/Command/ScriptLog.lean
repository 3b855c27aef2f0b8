import Comms.Command.Script

/-!
# What a script logs

`Call` logs one frame for a script: `*ctx.current_cmd` and `ctx.currentDB` as the script left them.
This module says when a slave that executes this frame, and has never seen the script, gets the
store that the script gave.

* `ScriptCall.Replicated` — the slave's store is the master's;
* `ScriptCall.LoggedWhole` — the frame is an `EVAL` of the script that ran, in a database that makes
  no difference;
* `ScriptCall.LoggedSingle` — the script did one thing, and the frame of that command took its place;
* `script_replicated` — under one of the two, the script is replicated;
* `evalsha_not_replicated` — an `EVALSHA` of a script that was only loaded is not.
-/

namespace Comms

/-- A call of `EVAL` or `EVALSHA` on a master: the scripts it knows, the store and the database, and
the arguments. -/
structure ScriptCall (V : Type) where
  scripts : Scripts
  store : Keyspace V
  db : DBID
  hasClient : Bool
  isSHA1Func : Bool
  args : List Bytes

/-- A server has never seen the script with this hash. -/
def Scripts.NeverSeen (t : Scripts) (sha : Bytes) : Prop :=
  t.saved sha = none ∧ t.saved (funcName sha) = none ∧ t.funcs (funcName sha) = none

namespace ScriptCall

section Conditions

variable {V Num : Type} (cfg : HandlerConfig) (kv : Kv V Num) (lua : Lua Num) (x : ScriptCall V)

/-- The frame of the client. -/
def frame : ScriptFrame := ⟨if x.isSHA1Func then .evalsha else .eval, x.args⟩

/-- The text of the function that runs, and the scripts the master knows by then. -/
def lookup : Option Bytes × Scripts := lookupScript lua x.scripts (arg x.args 0) x.isSHA1Func

/-- The context of the master behind the handler. -/
def master : ScriptState V Num :=
  (x.frame.call lua cfg kv false x.hasClient x.scripts x.store x.db).1

/-- **A script is replicated.** The frame that `Call` passes to `WriteWAL`, executed on a slave with
the same store in the database it was logged for, gives the store of the master. If there is no
frame, the script must have left the store alone. -/
def Replicated (t' : Scripts) : Prop :=
  match (x.master cfg kv lua).walRecord with
  | some (walDb, frame) =>
    (frame.call lua cfg kv true false t' x.store walDb).1.store = (x.master cfg kv lua).store
  | none => (x.master cfg kv lua).store = x.store

/-- The text that is logged for the script is the one that runs: `EVAL` may find another script under
its hash, and `EVALSHA` has to find its script under the plain hash. With `2^32 - 2` as the number
of keys, the name of the script is in `ARGV`. -/
def Known (body : Bytes) : Prop :=
  (x.lookup lua).1 = some body ∧
    if x.isSHA1Func then
      (x.lookup lua).2.saved (arg x.args 0) = some body ∧
        stringToUInt32 (arg x.args 1) ≠ some (2 ^ 32 - 2)
    else body = arg x.args 0

/-- The frame is an `EVAL` of the script: no call rewrote it. The script ends in the database it
began in, or selects one first. -/
structure LoggedWhole : Prop where
  announced : ∃ c ∈ (x.master cfg kv lua).calls, c.outcome.dataChange = true
  keep : ∀ c ∈ (x.master cfg kv lua).calls, c.outcome.rewrite = .keep
  known : ∃ body, x.Known lua body
  sameDb : (x.master cfg kv lua).currentDB = x.db ∨
    ∀ body f keys argv, (x.lookup lua).1 = some body → lua.compile body = some f →
      evalArgs x.args = some (keys, argv) → (f keys argv).SelectsFirst cfg.maxdb

/-- The script did one thing: one call, which replaced the frame by one that does the same, while the
others changed nothing. -/
def LoggedSingle : Prop :=
  ∃ before c after g,
    (x.master cfg kv lua).calls = before ++ c :: after ∧
      (∀ c' ∈ before ++ after, c'.Idle ∧ c'.outcome.rewrite = .keep) ∧
      c.outcome.rewrite = .replace g ∧ c.outcome.dataChange = true ∧
      g.call cfg kv c.store (.onSlave c.db) = c.outcome.store ∧
      (x.master cfg kv lua).currentDB = c.db ∧
      (x.isSHA1Func = true → (x.lookup lua).2.saved (arg g.args 0) = none)

/-- The script does nothing, or what it does is logged as it should be. -/
def LogOk : Prop :=
  (∀ c ∈ (x.master cfg kv lua).calls, c.Idle ∧ c.outcome.dataChange = false) ∨
    x.LoggedWhole cfg kv lua ∨ x.LoggedSingle cfg kv lua

end Conditions

/-! ### What the master does -/

section Master

variable {V Num : Type} {cfg : HandlerConfig} {kv : Kv V Num} {lua : Lua Num} {x : ScriptCall V}

/-- What `EvalSHA` makes of the frame behind the script. -/
def nameScript (t : Scripts) (st : ScriptState V Num) : ScriptFrame :=
  if st.dataChange then
    match t.saved (arg st.currentCmd.args 0) with
    | some script => ⟨.eval, st.currentCmd.args.set 0 script⟩
    | none => st.currentCmd
  else st.currentCmd

theorem evalSHA_fst (t : Scripts) (st : ScriptState V Num) (hasClient : Bool) (args : List Bytes) :
    (evalSHA lua cfg kv false hasClient t st args).1 =
      { (evalScript lua cfg kv false hasClient t st args true).1 with
        currentCmd := nameScript (evalScript lua cfg kv false hasClient t st args true).2
          (evalScript lua cfg kv false hasClient t st args true).1 } := by
  unfold evalSHA
  dsimp only
  generalize evalScript lua cfg kv false hasClient t st args true = r
  obtain ⟨⟨store, db, dataChange, cmd, calls⟩, t⟩ := r
  unfold nameScript
  cases dataChange with
  | false => rfl
  | true =>
    dsimp only
    cases t.saved (arg cmd.args 0) <;> rfl

/-- `Eval` runs one script, or nothing. -/
theorem evalScript_cases (t : Scripts) (st : ScriptState V Num) (hasClient : Bool)
    (args : List Bytes) (isSHA1Func : Bool) :
    (evalScript lua cfg kv false hasClient t st args isSHA1Func).1 = st ∨
      ∃ body f keys argv, evalArgs args = some (keys, argv) ∧
        (lookupScript lua t (arg args 0) isSHA1Func).1 = some body ∧ lua.compile body = some f ∧
        evalScript lua cfg kv false hasClient t st args isSHA1Func =
          ((f keys argv).run cfg kv false hasClient st,
            (lookupScript lua t (arg args 0) isSHA1Func).2) := by
  unfold evalScript
  cases hargs : evalArgs args with
  | none => exact .inl rfl
  | some p =>
    obtain ⟨keys, argv⟩ := p
    dsimp only
    generalize lookupScript lua t (arg args 0) isSHA1Func = found
    obtain ⟨_ | body, t'⟩ := found
    · exact .inl rfl
    · dsimp only
      cases hcompile : lua.compile body with
      | none => exact .inl rfl
      | some f => exact .inr ⟨body, f, keys, argv, rfl, rfl, hcompile, rfl⟩

/-- The script of a call: how it is found, and what the master is left with. -/
structure Ran (cfg : HandlerConfig) (kv : Kv V Num) (lua : Lua Num) (x : ScriptCall V) (body : Bytes)
    (f : List Bytes → List Bytes → Script Num) (keys argv : List Bytes)
    (st : ScriptState V Num) : Prop where
  arity : validArity (2, -1) x.args.length = true
  args : evalArgs x.args = some (keys, argv)
  lookup : (x.lookup lua).1 = some body
  compile : lua.compile body = some f
  run : st = (f keys argv).run cfg kv false x.hasClient (.start x.store x.db x.frame)
  master : x.master cfg kv lua =
    { st with
      currentCmd := if x.isSHA1Func then nameScript (x.lookup lua).2 st else st.currentCmd }

/-- Either nothing runs, or a script does. -/
theorem master_cases (cfg : HandlerConfig) (kv : Kv V Num) (lua : Lua Num) (x : ScriptCall V) :
    x.master cfg kv lua = .start x.store x.db x.frame ∨
      ∃ body f keys argv st, x.Ran cfg kv lua body f keys argv st := by
  by_cases harity : validArity (2, -1) x.args.length = true
  · -- `EVALSHA` looks at the frame once more
    have hmaster : x.master cfg kv lua =
        let r := evalScript lua cfg kv false x.hasClient x.scripts (.start x.store x.db x.frame)
          x.args x.isSHA1Func
        { r.1 with currentCmd := if x.isSHA1Func then nameScript r.2 r.1 else r.1.currentCmd } := by
      unfold master frame ScriptFrame.call
      cases x.isSHA1Func with
      | false => simp [harity]
      | true => simp [harity, evalSHA_fst]
    obtain hsame | ⟨body, f, keys, argv, hargs, hlookup, hcompile, hrun⟩ :=
      @evalScript_cases _ _ cfg kv lua x.scripts (.start x.store x.db x.frame) x.hasClient x.args
        x.isSHA1Func
    · left
      rw [hmaster]
      dsimp only
      rw [hsame]
      simp [nameScript, ScriptState.start]
    · refine .inr ⟨body, f, keys, argv, _, harity, hargs, hlookup, hcompile, rfl, ?_⟩
      rw [hmaster, hrun]
      rfl
  · left
    unfold master frame ScriptFrame.call
    cases x.isSHA1Func <;> simp [harity]

/-- The history of the master's context. -/
theorem master_traced (cfg : HandlerConfig) (kv : Kv V Num) (lua : Lua Num) (x : ScriptCall V) :
    Chained x.store (x.master cfg kv lua).calls (x.master cfg kv lua).store ∧
      ((x.master cfg kv lua).dataChange = true ↔
        ∃ c ∈ (x.master cfg kv lua).calls, c.outcome.dataChange = true) := by
  obtain hstart | ⟨body, f, keys, argv, st, hran⟩ := x.master_cases cfg kv lua
  · rw [hstart]
    have h := @start_traced V Num x.store x.db x.frame
    exact ⟨h.chained, h.dataChange⟩
  · have h : st.Traced x.store x.frame := by
      rw [hran.run]
      exact run_traced _ (start_traced _ _ _)
    rw [hran.master]
    exact ⟨h.chained, h.dataChange⟩

/-- A script that announced something ran. -/
theorem ran_of_dataChange (h : (x.master cfg kv lua).dataChange = true) :
    ∃ body f keys argv st, x.Ran cfg kv lua body f keys argv st ∧ st.Traced x.store x.frame := by
  obtain hstart | ⟨body, f, keys, argv, st, hran⟩ := x.master_cases cfg kv lua
  · rw [hstart] at h
    cases h
  · refine ⟨body, f, keys, argv, st, hran, ?_⟩
    rw [hran.run]
    exact run_traced _ (start_traced _ _ _)

/-! ### What the slave does -/

/-- A slave that has never seen the script compiles it and runs it. -/
theorem call_eval {t' : Scripts} {s : Keyspace V} {db : DBID} {args : List Bytes} {body : Bytes}
    {f : List Bytes → List Bytes → Script Num} {keys argv : List Bytes}
    (harity : validArity (2, -1) args.length = true) (hargs : evalArgs args = some (keys, argv))
    (hbody : arg args 0 = body) (hcompile : lua.compile body = some f)
    (hseen : t'.NeverSeen (lua.sha1 body)) :
    ((⟨.eval, args⟩ : ScriptFrame).call lua cfg kv true false t' s db).1.store =
      ((f keys argv).run cfg kv true false (.start s db ⟨.eval, args⟩)).store := by
  have hlookup : (lookupScript lua t' body false).1 = some body := by
    simp [lookupScript, Scripts.save, hseen.2.2, createLuaFunction, hcompile]
  simp only [ScriptFrame.call, harity, if_true, evalScript, hargs, hbody]
  revert hlookup
  generalize lookupScript lua t' body false = found
  intro hlookup
  obtain ⟨_, t''⟩ := found
  obtain rfl := hlookup
  simp [hcompile]

/-- What a frame that took the place of a script's does. -/
theorem call_data (t' : Scripts) (s : Keyspace V) (db : DBID) (g : DataFrame) :
    ((⟨.data g.cmd, g.args⟩ : ScriptFrame).call lua cfg kv true false t' s db).1.store =
      g.call cfg kv s (.onSlave db) := by
  unfold ScriptFrame.call DataFrame.call
  dsimp only
  split <;> rfl

/-- Another name for the script does not change `KEYS` and `ARGV`, unless `ARGV` begins with it. -/
theorem evalArgs_set {args : List Bytes} (body : Bytes)
    (h : stringToUInt32 (arg args 1) ≠ some (2 ^ 32 - 2)) :
    evalArgs (args.set 0 body) = evalArgs args := by
  have harg : arg (args.set 0 body) 1 = arg args 1 := by
    cases args with
    | nil => rfl
    | cons a as => rfl
  unfold evalArgs
  rw [harg]
  cases hparse : stringToUInt32 (arg args 1) with
  | none => rfl
  | some numkey =>
    have hlt := stringToUInt32_lt hparse
    have hne : numkey ≠ 2 ^ 32 - 2 := fun heq => h (by rw [hparse, heq])
    obtain ⟨first, hfirst⟩ : ∃ first, (numkey + 2) % 2 ^ 32 = first + 1 :=
      Nat.exists_eq_succ_of_ne_zero (by omega)
    dsimp only
    rw [hfirst, List.length_set]
    cases args with
    | nil => rfl
    | cons a as => rfl

/-! ### What is logged -/

/-- The whole script is logged. -/
theorem LoggedWhole.replicated {t' : Scripts} (h : x.LoggedWhole cfg kv lua)
    (hseen : ∀ body, (x.lookup lua).1 = some body → t'.NeverSeen (lua.sha1 body)) :
    x.Replicated cfg kv lua t' := by
  have hchange := (master_traced cfg kv lua x).2.2 h.announced
  obtain ⟨body, f, keys, argv, st, hran, htraced⟩ := ran_of_dataChange hchange
  obtain ⟨known, hknown, htext⟩ := h.known
  obtain rfl : known = body := Option.some.inj (hknown.symm.trans hran.lookup)
  have hkeep : st.currentCmd = x.frame := by
    rw [htraced.currentCmd]
    refine frameAfter_keep fun c hc => h.keep c ?_
    rw [hran.master]
    exact hc
  -- the frame is an `EVAL` of the same text, with the same `KEYS` and `ARGV`
  obtain ⟨args', hcmd, harity, hargs, hbody⟩ : ∃ args',
      (x.master cfg kv lua).currentCmd = ⟨.eval, args'⟩ ∧
        validArity (2, -1) args'.length = true ∧ evalArgs args' = some (keys, argv) ∧
        arg args' 0 = known := by
    cases hsha : x.isSHA1Func with
    | false =>
      refine ⟨x.args, ?_, hran.arity, hran.args, ?_⟩
      · rw [hran.master]
        simp [hsha, hkeep, frame]
      · rw [hsha] at htext
        exact htext.symm
    | true =>
      rw [hsha, if_pos rfl] at htext
      have hst : st.dataChange = true := by
        rw [hran.master] at hchange
        exact hchange
      refine ⟨x.args.set 0 known, ?_, by rw [List.length_set]; exact hran.arity, ?_, ?_⟩
      · rw [hran.master]
        simp [hsha, hkeep, frame, nameScript, hst, htext.1]
      · rw [evalArgs_set known htext.2, hran.args]
      · have harity := hran.arity
        cases hx : x.args with
        | nil =>
          rw [hx] at harity
          cases harity
        | cons a as => rfl
  have hstore : (x.master cfg kv lua).store = st.store := by rw [hran.master]
  rw [Replicated, ScriptState.walRecord, if_pos hchange, hcmd]
  dsimp only
  rw [call_eval harity hargs hbody hran.compile (hseen known hran.lookup), hstore, hran.run]
  obtain hdb | hselects := h.sameDb
  · exact run_visible _ rfl hdb
  · exact run_selectsFirst (hselects _ _ _ _ hran.lookup hran.compile hran.args) rfl

/-- The one thing that the script did is logged. -/
theorem LoggedSingle.replicated {t' : Scripts} (h : x.LoggedSingle cfg kv lua) :
    x.Replicated cfg kv lua t' := by
  obtain ⟨before, c, after, g, hcalls, hothers, hrewrite, hchange, hcall, hdb, hsaved⟩ := h
  obtain ⟨hchained, hdata⟩ := master_traced cfg kv lua x
  have hmaster : (x.master cfg kv lua).dataChange = true := hdata.2 ⟨c, by simp [hcalls], hchange⟩
  obtain ⟨body, f, keys, argv, st, hran, htraced⟩ := ran_of_dataChange hmaster
  -- nothing happens before the call, and nothing behind it
  rw [hcalls] at hchained
  obtain ⟨m, hbefore, hstore, hafter⟩ := chained_append.1 hchained
  have hm := chained_of_idle hbefore fun c' hc' => (hothers c' (List.mem_append_left _ hc')).1
  have hend := chained_of_idle hafter fun c' hc' => (hothers c' (List.mem_append_right _ hc')).1
  have hst : st.calls = before ++ c :: after := by
    rw [hran.master] at hcalls
    exact hcalls
  have hframe : st.currentCmd = ⟨.data g.cmd, g.args⟩ := by
    calc st.currentCmd
      _ = frameAfter (frameAfter x.frame before) (c :: after) := by
        rw [htraced.currentCmd, hst, frameAfter, List.foldl_append]
        rfl
      _ = frameAfter (c.outcome.rewrite.applyTo x.frame) after := by
        rw [frameAfter_keep fun c' hc' => (hothers c' (List.mem_append_left _ hc')).2]
        rfl
      _ = ⟨.data g.cmd, g.args⟩ := by
        rw [frameAfter_keep fun c' hc' => (hothers c' (List.mem_append_right _ hc')).2, hrewrite]
        rfl
  have hcmd : (x.master cfg kv lua).currentCmd = ⟨.data g.cmd, g.args⟩ := by
    rw [hran.master]
    dsimp only
    split
    · next hsha => simp [nameScript, hframe, hsaved hsha]
    · exact hframe
  rw [Replicated, ScriptState.walRecord, if_pos hmaster, hcmd]
  dsimp only
  rw [call_data, hend, hdb, ← hcall, hstore, hm]

end Master

end ScriptCall

/-! ### Scripts that were only loaded -/

section Loaded

variable {V Num : Type} {cfg : HandlerConfig} {kv : Kv V Num} {lua : Lua Num}

theorem funcName_ne {sha sha' : Bytes} (h : sha.length = sha'.length) : funcName sha ≠ sha' := by
  intro heq
  have hlen := congrArg List.length heq
  rw [funcName, List.length_append] at hlen
  simp only [List.length_cons, List.length_nil] at hlen
  omega

/-- `SCRIPT LOAD` does not save the script under the plain hash. -/
theorem scriptLoad_saved {t t' : Scripts} {body : Bytes} (h : scriptLoad lua t body = some t') :
    t'.saved (lua.sha1 body) = t.saved (lua.sha1 body) ∧
      t'.funcs (funcName (lua.sha1 body)) = some body := by
  unfold scriptLoad createLuaFunction at h
  obtain ⟨f, -, rfl⟩ := Option.map_eq_some_iff.1 h
  refine ⟨?_, Function.update_self ..⟩
  exact Function.update_of_ne (funcName_ne rfl).symm _ _

/-- `EVAL` does. -/
theorem lookupScript_saved (t : Scripts) (func : Bytes) :
    (lookupScript lua t func false).2.saved (lua.sha1 func) = some func := by
  have hsave : (t.save (lua.sha1 func) func).saved (lua.sha1 func) = some func :=
    Function.update_self ..
  simp only [lookupScript, Bool.false_eq_true, if_false]
  split
  · exact hsave
  · cases hcreate : createLuaFunction lua (t.save (lua.sha1 func) func)
        (funcName (lua.sha1 func)) func with
    | none => exact hsave
    | some t' => rw [(scriptLoad_saved hcreate).1, hsave]

/-- A slave that has never seen a script does nothing for its hash. -/
theorem call_evalsha {t' : Scripts} {s : Keyspace V} {db : DBID} {args : List Bytes}
    (hseen : t'.NeverSeen (arg args 0)) :
    ((⟨.evalsha, args⟩ : ScriptFrame).call lua cfg kv true false t' s db).1.store = s := by
  have hlookup : lookupScript lua t' (arg args 0) true = (none, t') := by
    simp [lookupScript, hseen.2.1, hseen.2.2]
  unfold ScriptFrame.call
  dsimp only
  split
  · unfold evalSHA evalScript
    cases evalArgs args with
    | none => rfl
    | some p => simp [hlookup, ScriptState.start]
  · rfl

/-- **An `EVALSHA` whose script is not saved under its plain hash** is logged as it is, and what the
script did is lost. -/
theorem evalsha_not_replicated {x : ScriptCall V} {t' : Scripts} (hsha : x.isSHA1Func = true)
    (hsaved : (x.lookup lua).2.saved (arg x.args 0) = none)
    (hkeep : ∀ c ∈ (x.master cfg kv lua).calls, c.outcome.rewrite = .keep)
    (hchanged : (x.master cfg kv lua).store ≠ x.store) (hseen : t'.NeverSeen (arg x.args 0)) :
    ¬x.Replicated cfg kv lua t' := by
  intro h
  rw [ScriptCall.Replicated, ScriptState.walRecord] at h
  by_cases hchange : (x.master cfg kv lua).dataChange = true
  · obtain ⟨body, f, keys, argv, st, hran, htraced⟩ := ScriptCall.ran_of_dataChange hchange
    have hst : st.currentCmd = x.frame := by
      rw [htraced.currentCmd]
      refine frameAfter_keep fun c hc => hkeep c ?_
      rw [hran.master]
      exact hc
    have hcmd : (x.master cfg kv lua).currentCmd = ⟨.evalsha, x.args⟩ := by
      rw [hran.master]
      simp [hsha, ScriptCall.nameScript, hst, ScriptCall.frame, hsaved]
    rw [if_pos hchange, hcmd] at h
    dsimp only at h
    rw [call_evalsha hseen] at h
    exact hchanged h.symm
  · rw [if_neg hchange] at h
    exact hchanged h

end Loaded

/-- **Script replication.** For every script, every store and all arguments: if what the script does is
logged as it should be, the frame that is logged gives the same store on a slave that has never
seen the script. -/
theorem script_replicated {V Num : Type} (cfg : HandlerConfig) (kv : Kv V Num) (lua : Lua Num)
    (x : ScriptCall V) (t' : Scripts)
    (hseen : ∀ body, (x.lookup lua).1 = some body → t'.NeverSeen (lua.sha1 body))
    (h : x.LogOk cfg kv lua) : x.Replicated cfg kv lua t' := by
  obtain hquiet | hwhole | hsingle := h
  · obtain ⟨hchained, hdata⟩ := x.master_traced cfg kv lua
    have hchange : ¬(x.master cfg kv lua).dataChange = true := by
      rw [hdata]
      rintro ⟨c, hc, htrue⟩
      rw [(hquiet c hc).2] at htrue
      cases htrue
    rw [ScriptCall.Replicated, ScriptState.walRecord, if_neg hchange]
    exact chained_of_idle hchained fun c hc => (hquiet c hc).1
  · exact hwhole.replicated hseen
  · exact hsingle.replicated

/-! ### A script -/

/-- The text `redis.call('append','k','v')`. -/
def appendText : Bytes :=
  [114, 101, 100, 105, 115, 46, 99, 97, 108, 108, 40, 39, 97, 112, 112, 101, 110, 100, 39, 44,
    39, 107, 39, 44, 39, 118, 39, 41]

/-- Its hash. -/
def appendSha : Bytes :=
  [56, 100, 101, 57, 57, 55, 98, 53, 54, 98, 98, 49, 48, 97, 56, 48, 49, 54, 52, 101, 56, 100,
    54, 53, 100, 55, 101, 57, 102, 48, 48, 52, 99, 49, 54, 51, 56, 97, 56, 51]

/-- An interpreter that knows this script. -/
def appendLua : Lua ℤ where
  sha1 _ := appendSha
  compile body :=
    if body = appendText then some fun _ _ => .call .append [[107], [118]] fun _ => .done else none

/-- The script is known to a master that was sent `SCRIPT LOAD`. -/
def appendLoaded : Scripts :=
  ⟨Function.update (fun _ => none) (funcName appendSha) (some appendText),
    Function.update (fun _ => none) (funcName appendSha) (some appendText)⟩

/-- `SCRIPT LOAD`, and `EVALSHA` of the script: the slave knows no script of this name. -/
theorem evalsha_loaded_not_replicated :
    scriptLoad appendLua .empty appendText = some appendLoaded ∧
      ¬ScriptCall.Replicated ⟨16, []⟩ smallKv appendLua
        ⟨appendLoaded, fun _ _ => none, 0, true, true, [appendSha, [48]]⟩ .empty := by
  refine ⟨rfl, evalsha_not_replicated rfl ?_ ?_ ?_ ⟨rfl, rfl, rfl⟩⟩
  · decide
  · intro c hc
    obtain rfl := List.mem_singleton.1 hc
    rfl
  · intro h
    have hkey := congrFun (congrFun h 0) [107]
    revert hkey
    decide

/-- `EVAL` of the script on a master that has not seen it. -/
theorem script_replicated_append :
    ScriptCall.Replicated ⟨16, []⟩ smallKv appendLua
        ⟨.empty, fun _ _ => none, 0, true, false, [appendText, [48]]⟩ .empty ∧
      (ScriptCall.master ⟨16, []⟩ smallKv appendLua
        ⟨.empty, fun _ _ => none, 0, true, false, [appendText, [48]]⟩).store 0 [107] =
          some (.str [118]) := by
  refine ⟨script_replicated _ _ _ _ _ (fun _ _ => ⟨rfl, rfl, rfl⟩)
    (.inr (.inl ⟨⟨_, List.mem_cons_self, rfl⟩, ?_, ⟨appendText, rfl, rfl⟩, .inl rfl⟩)), by decide⟩
  intro c hc
  obtain rfl := List.mem_singleton.1 hc
  rfl

end Comms
