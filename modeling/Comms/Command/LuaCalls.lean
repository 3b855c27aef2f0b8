import Comms.Lib.Attempt
import Comms.Codec.ReplyTree
import Comms.Command.ScriptContext

/-!
# Calls of Lua

`LUAInterpreter::Eval` runs a function under `lua_pcall` and turns the value on top of the stack
into a `RedisReply`: `luaReplyToRedisReply` looks `err`, `ok` and `1`, `2`, .. up in a table until
there is nothing, and converts what it finds in the same way. The lookups are `lua_gettable`, which
calls the metamethods of the table, outside of `lua_pcall`. The values it is in the middle of stay
on the stack, and whether there is room for another one is not checked.

* `LuaApi` — what the functions call of Lua;
* `luaReplyToRedisReply` — the conversion of the value on top;
* `createLuaFunction`, `Eval` — `CreateLuaFunction` and `LUAInterpreter::Eval`.

A Lua error outside of `lua_pcall` ends the process (`lua_atpanic`). The memory of a C function's
own frames is not counted.
-/

namespace Comms.ScriptReply

open Attempt

/-! ### Lua as it is called -/

/-- A Lua value; `T` is what a table is known by, `N` is `lua_Number`. -/
inductive Value (T N : Type)
  | nil
  | boolean (b : Bool)
  | number (n : N)
  | string (s : Bytes)
  | table (t : T)
  /-- A function, a userdata, a thread, or an index with nothing there. -/
  | other

/-- Why a call does not come back. -/
inductive Fault
  /-- An error with no `lua_pcall` around it. -/
  | raised
  /-- A value is written behind the end of the stack. -/
  | overrun
  | hangs
  /-- A `std::string` is made of `NULL`. -/
  | nullString

/-- What Lua does, in a world `σ` that has the tables, the globals, the collector and the scripts of
the database. A number beside the world is how many values are on the stack. -/
structure LuaApi (σ T N : Type) where
  /-- `lua_pushnumber` of an `int`. -/
  ofInt : ℤ → N
  /-- `(long long) lua_tonumber`. -/
  toInt64 : N → Int64
  /-- What `lua_tostring` makes of a number. -/
  text : N → Bytes
  /-- The size of the stack: it grows and shrinks. -/
  room : σ → ℕ
  /-- `luaC_checkGC`, in front of a new string or table. A `__gc` metamethod may raise an error. -/
  checkGC : σ → Except Fault σ
  /-- `luaV_gettable`. -/
  gettable : σ → ℕ → T → Value T N → Except Fault (σ × Value T N)
  /-- `lua_getglobal`: the table of globals has metamethods, too. -/
  getglobal : σ → ℕ → Bytes → Except Fault (σ × Value T N)
  setglobal : σ → ℕ → Bytes → Value T N → Except Fault σ
  newtable : σ → Except Fault (σ × T)
  rawseti : σ → T → ℕ → Bytes → Except Fault σ
  /-- `luaL_loadbuffer`: a function, or a message. -/
  loadbuffer : σ → ℕ → Bytes → Except Fault (σ × Except (Value T N) (Value T N))
  /-- `lua_pcall` of a function with a handler: one result, or what the handler makes of the error.
  -/
  pcall : σ → LuaContext → ℕ → Option (Value T N) → Value T N →
    Except Fault ((σ × LuaContext) × Except (Value T N) (Value T N))
  /-- `lua_sethook`, on or off. -/
  sethook : σ → Bool → σ
  /-- `sha1_sum`. -/
  sha1 : Bytes → Bytes
  /-- `SaveScript` and `GetScript`. -/
  saveScript : σ → Bytes → Bytes → σ
  getScript : σ → Bytes → Option Bytes

/-- A `lua_State` between two calls, the top of its stack first, and the context of the client. -/
structure LuaState (σ T N : Type) where
  world : σ
  stack : List (Value T N)
  ctx : LuaContext

section Calls

variable {σ T N : Type} (api : LuaApi σ T N)

abbrev LuaM (σ T N α : Type) := Attempt Fault (LuaState σ T N) α

/-- `api_incr_top`. -/
def push (v : Value T N) : LuaM σ T N Unit := fun s =>
  if s.stack.length < api.room s.world then .ok ((), { s with stack := v :: s.stack })
  else .error .overrun

/-- `lua_pop`. -/
def pop (n : ℕ) : LuaM σ T N Unit := fun s => .ok ((), { s with stack := s.stack.drop n })

/-- The value at `-1`. -/
def top : LuaM σ T N (Value T N) := fun s => .ok (s.stack.headD .other, s)

/-- `lua_pushstring`, `lua_pushlstring`. -/
def pushString (text : Bytes) : LuaM σ T N Unit := fun s =>
  match api.checkGC s.world with
  | .error e => .error e
  | .ok w => push api (.string text) { s with world := w }

/-- `lua_gettable(lua, -2)`. What is no table has no elements. -/
def gettable : LuaM σ T N Unit := fun s =>
  match s.stack with
  | key :: .table t :: rest =>
    match api.gettable s.world s.stack.length t key with
    | .error e => .error e
    | .ok (w, v) => .ok ((), { s with world := w, stack := v :: .table t :: rest })
  | _ => .error .raised

/-- `lua_getglobal`. -/
def getglobal (name : Bytes) : LuaM σ T N Unit := fun s =>
  match api.getglobal s.world s.stack.length name with
  | .error e => .error e
  | .ok (w, v) => push api v { s with world := w }

/-- `luaL_loadbuffer`, and whether it fails. -/
def loadbuffer (chunk : Bytes) : LuaM σ T N Bool := fun s =>
  match api.loadbuffer s.world s.stack.length chunk with
  | .error e => .error e
  | .ok (w, .ok f) => (fun r => (false, r.2)) <$> push api f { s with world := w }
  | .ok (w, .error e) => (fun r => (true, r.2)) <$> push api e { s with world := w }

/-- `lua_pcall` of the function on top, and whether it fails. `results` is whether its result is
kept, `handled` whether the handler is the value below. -/
def pcall (results handled : Bool) : LuaM σ T N Bool := fun s =>
  match s.stack with
  | f :: rest =>
    match api.pcall s.world s.ctx s.stack.length (if handled then rest.head? else none) f with
    | .error e => .error e
    | .ok ((w, ctx), .ok v) =>
      .ok (false, { world := w, stack := if results then v :: rest else rest, ctx := ctx })
    | .ok ((w, ctx), .error e) => .ok (true, { world := w, stack := e :: rest, ctx := ctx })
  | [] => .error .overrun

/-- `lua_tostring(lua, -1)`, a C string. It turns a number into a string. -/
def tostring : LuaM σ T N (Option Bytes) := fun s =>
  match s.stack with
  | .string text :: _ => .ok (some (cStr text), s)
  | .number n :: rest =>
    match api.checkGC s.world with
    | .error e => .error e
    | .ok w =>
      .ok (some (cStr (api.text n)), { s with world := w, stack := .string (api.text n) :: rest })
  | _ => .ok (none, s)

/-- `std::string::append(lua_tostring(lua, -1))`. -/
def appendTop (text : Bytes) : LuaM σ T N Bytes := do
  match ← tostring api with
  | some message => pure (text ++ message)
  | none => throw .nullString

/-- `lua_gc(lua, LUA_GCSTEP, 1)`. -/
def gcStep : LuaM σ T N Unit := fun s =>
  match api.checkGC s.world with
  | .error e => .error e
  | .ok w => .ok ((), { s with world := w })

/-- Something that does not touch the stack. -/
def onWorld (f : σ → σ) : LuaM σ T N Unit := fun s => .ok ((), { s with world := f s.world })

/-- `ctx.GetLua()` is changed. -/
def onContext (f : LuaContext → LuaContext) : LuaM σ T N Unit := fun s =>
  .ok ((), { s with ctx := f s.ctx })

def getWorld : LuaM σ T N σ := fun s => .ok (s.world, s)

/-- `lua_newtable`. -/
def newtable : LuaM σ T N Unit := fun s =>
  match api.newtable s.world with
  | .error e => .error e
  | .ok (w, t) => push api (.table t) { s with world := w }

/-- `lua_rawseti(lua, -2, j)` of a string. -/
def rawseti (j : ℕ) : LuaM σ T N Unit := fun s =>
  match s.stack with
  | .string text :: .table t :: rest =>
    match api.rawseti s.world t j text with
    | .error e => .error e
    | .ok w => .ok ((), { s with world := w, stack := .table t :: rest })
  | _ => .error .raised

/-- `lua_setglobal`. -/
def setglobal (name : Bytes) : LuaM σ T N Unit := fun s =>
  match s.stack with
  | v :: rest =>
    match api.setglobal s.world s.stack.length name v with
    | .error e => .error e
    | .ok w => .ok ((), { s with world := w, stack := rest })
  | [] => .error .raised

end Calls

/-! ### The conversion -/

section Conversion

variable {σ T N Num : Type} (api : LuaApi σ T N) [Zero Num]

/-- `"err"` and `"ok"`. -/
def errKey : Bytes := [101, 114, 114]
def okKey : Bytes := [111, 107]

/-- `string_replace(str, "\r\n", " ")`. -/
def replaceCRLF : Bytes → Bytes
  | 13 :: 10 :: rest => 32 :: replaceCRLF rest
  | b :: rest => b :: replaceCRLF rest
  | [] => []

/-- `j++`, on an `int`. -/
def nextIndex (j : ℤ) : ℤ := if j = 2 ^ 31 - 1 then -2 ^ 31 else j + 1

mutual

/-- `luaReplyToRedisReply`: what it makes of `reply`. Without fuel it does not come back. -/
def luaReplyToRedisReply (fuel : ℕ) (reply : ReplyNode Num) : LuaM σ T N (ReplyNode Num) :=
  match fuel with
  | 0 => throw .hangs
  | fuel + 1 => do
    match ← top with
    | .string s =>
      pop 1
      pure { reply.setType typeString with str := reply.str ++ s }
    | .boolean true =>
      pop 1
      pure { reply.setType typeInteger with integer := 1 }
    | .boolean false =>
      pop 1
      pure (reply.setType typeNil)
    | .number n =>
      pop 1
      pure { reply.setType typeInteger with integer := api.toInt64 n }
    | .table _ =>
      pushString api errKey
      gettable api
      match ← top with
      | .string err =>
        pop 2
        pure { reply.setType typeError with str := replaceCRLF (cStr err) }
      | _ =>
        pop 1
        pushString api okKey
        gettable api
        match ← top with
        | .string ok =>
          pop 1
          pop 1
          pure { reply.setType typeStatus with str := replaceCRLF (cStr ok) }
        | _ =>
          pop 1
          let reply ← convertMembers fuel 1 (reply.setType typeArray)
          pop 1
          pure reply
    | _ =>
      pop 1
      pure (reply.setType typeNil)

/-- The loop over the elements, from `j`. -/
def convertMembers (fuel : ℕ) (j : ℤ) (reply : ReplyNode Num) : LuaM σ T N (ReplyNode Num) :=
  match fuel with
  | 0 => throw .hangs
  | fuel + 1 => do
    push api (.number (api.ofInt j))
    gettable api
    match ← top with
    | .nil =>
      pop 1
      pure reply
    | _ =>
      let r ← luaReplyToRedisReply fuel ReplyNode.fresh
      convertMembers fuel (nextIndex j) (reply.addMember r)

end

end Conversion

/-! ### Evaluation -/

section Evaluation

variable {σ T N Num : Type} (api : LuaApi σ T N) [Zero Num]

/-- `luaSetGlobalArray`. -/
def setElements (j : ℕ) : List Bytes → LuaM σ T N Unit
  | [] => pure ()
  | text :: texts => do
    pushString api text
    rawseti api (j + 1)
    setElements (j + 1) texts

def luaSetGlobalArray (var : Bytes) (elev : List Bytes) : LuaM σ T N Unit := do
  newtable api
  setElements api 0 elev
  setglobal api var

/-- `"function "`, `"() "` and `" end"` around the body. -/
def functionText (funcname body : Bytes) : Bytes :=
  [102, 117, 110, 99, 116, 105, 111, 110, 32] ++ funcname ++ [40, 41, 32] ++ body ++
    [32, 101, 110, 100]

def textBytes (text : String) : Bytes := text.toUTF8.toList

/-- `CreateLuaFunction`; `none` is `0`, otherwise the message. -/
def createLuaFunction (funcname body err : Bytes) : LuaM σ T N (Option Bytes) := do
  if ← loadbuffer api (functionText funcname body) then
    let err ← appendTop api (err ++ textBytes "Error compiling script (new function): ")
    pop 1
    pure (some (err ++ [10]))
  else if ← pcall api false false then
    let err ← appendTop api (err ++ textBytes "Error running script (new function): ")
    pop 1
    pure (some (err ++ [10]))
  else
    onWorld fun w => api.saveScript w funcname body
    pure none

/-- The configuration, and what `EVAL` and `EVALSHA` hand to the interpreter. -/
structure EvalCall where
  luaTimeLimit : ℤ
  func : Bytes
  keys : List Bytes
  args : List Bytes
  isSHA1Func : Bool

def errorReply (reply : ReplyNode Num) (text : Bytes) : ReplyNode Num :=
  { reply.setType typeError with str := text }

/-- `lua_sethook`, where there is a time limit. -/
def sethook (delhook on : Bool) : LuaM σ T N Unit :=
  if delhook then onWorld fun w => api.sethook w on else pure ()

/-- What `Eval` makes of what `lua_pcall` left. -/
def replyOfCall (fuel : ℕ) (funcname : Bytes) (reply : ReplyNode Num) (errid : Bool) :
    LuaM σ T N (ℤ × ReplyNode Num) :=
  if errid then do
    -- `snprintf` of `NULL`
    let message := (← tostring api).getD (textBytes "(null)")
    let tmp := textBytes "Error running script (call to " ++ cStr funcname ++ textBytes "): " ++
      message
    pop 2
    pure (0, errorReply reply (tmp.take 1022))
  else do
    let reply ← luaReplyToRedisReply api fuel ReplyNode.fresh
    pop 1
    pure (0, reply)

/-- The rest of `Eval`, with the function on top of the handler. -/
def runFunction (fuel : ℕ) (call : EvalCall) (funcname : Bytes) (reply : ReplyNode Num) :
    LuaM σ T N (ℤ × ReplyNode Num) := do
  luaSetGlobalArray api (textBytes "KEYS") call.keys
  luaSetGlobalArray api (textBytes "ARGV") call.args
  sethook api (0 < call.luaTimeLimit) true
  onContext fun ctx =>
    { ctx with executingFunc := some ((cStr funcname).drop 2), kill := false }
  let errid ← pcall api true true
  onContext fun ctx => { ctx with executingFunc := none }
  sethook api (0 < call.luaTimeLimit) false
  onContext fun ctx => { ctx with timeout := false }
  gcStep api
  replyOfCall api fuel funcname reply errid

/-- The function is defined by `body`, and run. -/
def defineFunction (fuel : ℕ) (call : EvalCall) (funcname body : Bytes) (reply : ReplyNode Num) :
    LuaM σ T N (ℤ × ReplyNode Num) := do
  match ← createLuaFunction api funcname body [] with
  | some err =>
    pop 1
    pure (-1, errorReply reply err)
  | none =>
    getglobal api (cStr funcname)
    runFunction api fuel call funcname reply

def noScript (reply : ReplyNode Num) : ℤ × ReplyNode Num :=
  (-1, errorReply reply (textBytes "NOSCRIPT No matching script. Please use EVAL."))

/-- `Eval` with the mutex, and the name of the function. -/
def evalFunction (fuel : ℕ) (call : EvalCall) (funcname : Bytes) (reply : ReplyNode Num) :
    LuaM σ T N (ℤ × ReplyNode Num) := do
  getglobal api (textBytes "__redis__err__handler")
  getglobal api (cStr funcname)
  match ← top with
  | .nil =>
    pop 1
    if call.isSHA1Func then
      match api.getScript (← getWorld) funcname with
      | none =>
        pop 1
        pure (noScript reply)
      | some cachedfunc => defineFunction api fuel call funcname cachedfunc reply
    else defineFunction api fuel call funcname call.func reply
  | _ => runFunction api fuel call funcname reply

/-- `LUAInterpreter::Eval`: what it returns, and what it makes of `reply`. `fuel` is for the
conversion. -/
def Eval (fuel : ℕ) (call : EvalCall) (reply : ReplyNode Num) : LuaM σ T N (ℤ × ReplyNode Num) :=
  if call.isSHA1Func then
    if call.func.length ≠ 40 then pure (noScript reply)
    else evalFunction api fuel call (funcName call.func) reply
  else do
    onWorld fun w => api.saveScript w (api.sha1 call.func) call.func
    evalFunction api fuel call (funcName (api.sha1 call.func)) reply

end Evaluation

end Comms.ScriptReply
