import Comms.Command.LuaCalls

/-!
# The result of a script

* `Shows` — the finite tree that a value shows to the lookups, if it shows one;
* `luaReplyToRedisReply_sound`, `luaReplyToRedisReply_complete` — the conversion comes back exactly
  with the trees that are shown;
* `Shifts` — how many values a call leaves on the stack;
* `Eval_keepsHeight` — where `Eval` comes back the stack is as it was;
* `convertsSafely_iff` — the values that are converted safely.
-/

namespace Comms.ScriptReply

open Attempt

/-! ### What a value shows -/

/-- What the lookups show of a value, if they come to an end. -/
inductive LuaTree (N : Type)
  | string (s : Bytes)
  | boolean (b : Bool)
  | number (n : N)
  | other
  | error (text : Bytes)
  | status (text : Bytes)
  | array (members : List (LuaTree N))

namespace LuaApi

variable {σ T N : Type} (api : LuaApi σ T N)

/-- A field of a table is looked up, with `h` values on the stack: there is room for the key and the
metamethod comes back. -/
def field (w : σ) (h : ℕ) (t : T) (name : Bytes) : Except Fault (σ × Value T N) := do
  let w ← api.checkGC w
  if h < api.room w then api.gettable w (h + 1) t (.string name) else .error .overrun

/-- The same for an element. -/
def element (w : σ) (h : ℕ) (t : T) (j : ℤ) : Except Fault (σ × Value T N) :=
  if h < api.room w then api.gettable w (h + 1) t (.number (api.ofInt j)) else .error .overrun

end LuaApi

def Value.isString {T N : Type} : Value T N → Bool
  | .string _ => true
  | _ => false

section Shows

variable {σ T N : Type} (api : LuaApi σ T N)

mutual

/-- In the world `w`, the value at the height `h` of the stack shows a tree; the lookups leave the
world `w'`. -/
inductive Shows : σ → ℕ → Value T N → LuaTree N → σ → Prop
  | nil {w h} : Shows w h .nil .other w
  | boolean {w h b} : Shows w h (.boolean b) (.boolean b) w
  | number {w h n} : Shows w h (.number n) (.number n) w
  | string {w h s} : Shows w h (.string s) (.string s) w
  | other {w h} : Shows w h .other .other w
  | error {w h t w₁ text} : api.field w h t errKey = .ok (w₁, .string text) →
      Shows w h (.table t) (.error text) w₁
  | status {w h t w₁ v w₂ text} : api.field w h t errKey = .ok (w₁, v) → v.isString = false →
      api.field w₁ h t okKey = .ok (w₂, .string text) → Shows w h (.table t) (.status text) w₂
  | array {w h t w₁ v w₂ v' w₃ members} : api.field w h t errKey = .ok (w₁, v) →
      v.isString = false → api.field w₁ h t okKey = .ok (w₂, v') → v'.isString = false →
      ShowsFrom w₂ h t 1 members w₃ → Shows w h (.table t) (.array members) w₃

/-- The elements from `j` show trees, up to one that is `nil`. -/
inductive ShowsFrom : σ → ℕ → T → ℤ → List (LuaTree N) → σ → Prop
  | done {w h t j w₁} : api.element w h t j = .ok (w₁, .nil) → ShowsFrom w h t j [] w₁
  | next {w h t j w₁ v tree w₂ members w₃} : api.element w h t j = .ok (w₁, v) → v ≠ .nil →
      Shows w₁ (h + 1) v tree w₂ → ShowsFrom w₂ h t (nextIndex j) members w₃ →
      ShowsFrom w h t j (tree :: members) w₃

end

end Shows

section Replies

variable {T N Num : Type} [Zero Num] (toInt64 : N → Int64)

mutual

/-- The reply that stands for a tree, in place of `reply`. -/
def LuaTree.fill (reply : ReplyNode Num) : LuaTree N → ReplyNode Num
  | .string s => { reply.setType typeString with str := reply.str ++ s }
  | .boolean true => { reply.setType typeInteger with integer := 1 }
  | .boolean false => reply.setType typeNil
  | .number n => { reply.setType typeInteger with integer := toInt64 n }
  | .other => reply.setType typeNil
  | .error text => { reply.setType typeError with str := replaceCRLF (cStr text) }
  | .status text => { reply.setType typeStatus with str := replaceCRLF (cStr text) }
  | .array members => fillFrom (reply.setType typeArray) members

def LuaTree.fillFrom (reply : ReplyNode Num) : List (LuaTree N) → ReplyNode Num
  | [] => reply
  | member :: members =>
    LuaTree.fillFrom (reply.addMember (member.fill ReplyNode.fresh)) members

end

end Replies

/-! ### The conversion, and what is shown -/

section Conversion

variable {σ T N Num : Type} {api : LuaApi σ T N} [Zero Num] {fuel : ℕ} {reply : ReplyNode Num}
  {w : σ} {rest : List (Value T N)} {ctx : LuaContext} {t : T} {j : ℤ}

/-- The key is on top of the table. -/
theorem gettable_bind {α : Type} (key : Value T N) (k : LuaM σ T N α) :
    (do gettable api; k) ⟨w, key :: .table t :: rest, ctx⟩ =
      match api.gettable w (rest.length + 2) t key with
      | .error e => .error e
      | .ok (w₁, v) => k ⟨w₁, v :: .table t :: rest, ctx⟩ := by
  change (gettable api ⟨w, key :: .table t :: rest, ctx⟩ >>= fun p => k p.2) = _
  unfold gettable
  simp only [List.length_cons]
  cases api.gettable w (rest.length + 1 + 1) t key with
  | error e => rfl
  | ok p => rfl

theorem push_bind {α : Type} (v : Value T N) (k : LuaM σ T N α) (s : LuaState σ T N) :
    (do push api v; k) s =
      if s.stack.length < api.room s.world then k { s with stack := v :: s.stack }
      else .error .overrun := by
  change (push api v s >>= fun p => k p.2) = _
  unfold push
  split
  · rfl
  · rfl

/-- A field is looked up: its name is pushed. -/
theorem field_bind {α : Type} (name : Bytes) (k : LuaM σ T N α) :
    (do pushString api name; gettable api; k) ⟨w, .table t :: rest, ctx⟩ =
      match api.field w (rest.length + 1) t name with
      | .error e => .error e
      | .ok (w₁, v) => k ⟨w₁, v :: .table t :: rest, ctx⟩ := by
  change (pushString api name ⟨w, .table t :: rest, ctx⟩ >>= fun p => (do gettable api; k) p.2) = _
  unfold pushString
  cases hgc : api.checkGC w with
  | error e =>
    have hfield : api.field w (rest.length + 1) t name = .error e := by
      rw [LuaApi.field, hgc]
      rfl
    rw [hfield]
    rfl
  | ok w₀ =>
    have hfield : api.field w (rest.length + 1) t name = if rest.length + 1 < api.room w₀ then
        api.gettable w₀ (rest.length + 2) t (.string name) else .error .overrun := by
      rw [LuaApi.field, hgc]
      rfl
    rw [hfield]
    refine (push_bind (.string name) (do gettable api; k) ⟨w₀, .table t :: rest, ctx⟩).trans ?_
    simp only [List.length_cons]
    split
    · exact gettable_bind _ k
    · rfl

/-- An element is looked up: its index is pushed. -/
theorem element_bind {α : Type} (k : LuaM σ T N α) :
    (do push api (.number (api.ofInt j)); gettable api; k) ⟨w, .table t :: rest, ctx⟩ =
      match api.element w (rest.length + 1) t j with
      | .error e => .error e
      | .ok (w₁, v) => k ⟨w₁, v :: .table t :: rest, ctx⟩ := by
  rw [push_bind]
  unfold LuaApi.element
  simp only [List.length_cons]
  split
  · exact gettable_bind _ k
  · rfl

/-- **A table.** `err` and `ok` are looked up, and then the elements. -/
theorem convert_table : luaReplyToRedisReply api (fuel + 1) reply ⟨w, .table t :: rest, ctx⟩ =
    match api.field w (rest.length + 1) t errKey with
    | .error e => .error e
    | .ok (w₁, .string text) =>
      .ok ({ reply.setType typeError with str := replaceCRLF (cStr text) }, ⟨w₁, rest, ctx⟩)
    | .ok (w₁, _) =>
      match api.field w₁ (rest.length + 1) t okKey with
      | .error e => .error e
      | .ok (w₂, .string text) =>
        .ok ({ reply.setType typeStatus with str := replaceCRLF (cStr text) }, ⟨w₂, rest, ctx⟩)
      | .ok (w₂, _) =>
        (do
          let reply ← convertMembers api fuel 1 (reply.setType typeArray)
          pop 1
          pure reply) ⟨w₂, .table t :: rest, ctx⟩ := by
  rw [luaReplyToRedisReply]
  refine (field_bind errKey _).trans ?_
  cases api.field w (rest.length + 1) t errKey with
  | error e => rfl
  | ok p =>
    obtain ⟨w₁, v⟩ := p
    cases v with
    | string text => rfl
    | _ =>
      refine (field_bind okKey _).trans ?_
      dsimp only
      cases api.field w₁ (rest.length + 1) t okKey with
      | error e => rfl
      | ok p =>
        obtain ⟨w₂, v'⟩ := p
        cases v' <;> rfl

/-- **The elements.** -/
theorem convertMembers_step : convertMembers api (fuel + 1) j reply ⟨w, .table t :: rest, ctx⟩ =
    match api.element w (rest.length + 1) t j with
    | .error e => .error e
    | .ok (w₁, .nil) => .ok (reply, ⟨w₁, .table t :: rest, ctx⟩)
    | .ok (w₁, v) =>
      (do
        let r ← luaReplyToRedisReply api fuel ReplyNode.fresh
        convertMembers api fuel (nextIndex j) (reply.addMember r))
        ⟨w₁, v :: .table t :: rest, ctx⟩ := by
  rw [convertMembers]
  refine (element_bind _).trans ?_
  cases api.element w (rest.length + 1) t j with
  | error e => rfl
  | ok p =>
    obtain ⟨w₁, v⟩ := p
    cases v <;> rfl

theorem convert_table_of_field {w₁ : σ} {v : Value T N}
    (herr : api.field w (rest.length + 1) t errKey = .ok (w₁, v)) (hv : v.isString = false) :
    luaReplyToRedisReply api (fuel + 1) reply ⟨w, .table t :: rest, ctx⟩ =
      match api.field w₁ (rest.length + 1) t okKey with
      | .error e => .error e
      | .ok (w₂, .string text) =>
        .ok ({ reply.setType typeStatus with str := replaceCRLF (cStr text) }, ⟨w₂, rest, ctx⟩)
      | .ok (w₂, _) =>
        (do
          let reply ← convertMembers api fuel 1 (reply.setType typeArray)
          pop 1
          pure reply) ⟨w₂, .table t :: rest, ctx⟩ := by
  rw [convert_table, herr]
  cases v with
  | string text => cases hv
  | _ => rfl

theorem convert_table_of_fields {w₁ w₂ : σ} {v v' : Value T N}
    (herr : api.field w (rest.length + 1) t errKey = .ok (w₁, v)) (hv : v.isString = false)
    (hok : api.field w₁ (rest.length + 1) t okKey = .ok (w₂, v')) (hv' : v'.isString = false) :
    luaReplyToRedisReply api (fuel + 1) reply ⟨w, .table t :: rest, ctx⟩ =
      (do
        let reply ← convertMembers api fuel 1 (reply.setType typeArray)
        pop 1
        pure reply) ⟨w₂, .table t :: rest, ctx⟩ := by
  rw [convert_table_of_field herr hv, hok]
  cases v' with
  | string text => cases hv'
  | _ => rfl

theorem convertMembers_next {w₁ : σ} {v : Value T N}
    (helement : api.element w (rest.length + 1) t j = .ok (w₁, v)) (hne : v ≠ .nil) :
    convertMembers api (fuel + 1) j reply ⟨w, .table t :: rest, ctx⟩ =
      (do
        let r ← luaReplyToRedisReply api fuel ReplyNode.fresh
        convertMembers api fuel (nextIndex j) (reply.addMember r))
        ⟨w₁, v :: .table t :: rest, ctx⟩ := by
  rw [convertMembers_step, helement]
  cases v with
  | nil => exact absurd rfl hne
  | _ => rfl

/-- A conversion of `fuel` steps comes back with what is shown. -/
def ConvertSound (api : LuaApi σ T N) (Num : Type) [Zero Num] (fuel : ℕ) : Prop :=
  ∀ {reply r : ReplyNode Num} {w : σ} {v : Value T N} {rest : List (Value T N)} {ctx : LuaContext}
    {s : LuaState σ T N}, luaReplyToRedisReply api fuel reply ⟨w, v :: rest, ctx⟩ = .ok (r, s) →
    ∃ tree w', Shows api w (rest.length + 1) v tree w' ∧ r = tree.fill api.toInt64 reply ∧
      s = ⟨w', rest, ctx⟩

/-- The same for the elements. -/
def MembersSound (api : LuaApi σ T N) (Num : Type) [Zero Num] (fuel : ℕ) : Prop :=
  ∀ {j : ℤ} {reply r : ReplyNode Num} {w : σ} {t : T} {rest : List (Value T N)} {ctx : LuaContext}
    {s : LuaState σ T N}, convertMembers api fuel j reply ⟨w, .table t :: rest, ctx⟩ = .ok (r, s) →
    ∃ members w', ShowsFrom api w (rest.length + 1) t j members w' ∧
      r = LuaTree.fillFrom api.toInt64 reply members ∧ s = ⟨w', .table t :: rest, ctx⟩

theorem convertSound_succ (h : MembersSound api Num fuel) : ConvertSound api Num (fuel + 1) := by
  intro reply r w v rest ctx s hrun
  cases v with
  | nil =>
    obtain ⟨rfl, rfl⟩ := Prod.mk.inj (Except.ok.inj hrun)
    exact ⟨_, _, .nil, rfl, rfl⟩
  | boolean b =>
    cases b with
    | false =>
      obtain ⟨rfl, rfl⟩ := Prod.mk.inj (Except.ok.inj hrun)
      exact ⟨_, _, .boolean, rfl, rfl⟩
    | true =>
      obtain ⟨rfl, rfl⟩ := Prod.mk.inj (Except.ok.inj hrun)
      exact ⟨_, _, .boolean, rfl, rfl⟩
  | number n =>
    obtain ⟨rfl, rfl⟩ := Prod.mk.inj (Except.ok.inj hrun)
    exact ⟨_, _, .number, rfl, rfl⟩
  | string text =>
    obtain ⟨rfl, rfl⟩ := Prod.mk.inj (Except.ok.inj hrun)
    exact ⟨_, _, .string, rfl, rfl⟩
  | other =>
    obtain ⟨rfl, rfl⟩ := Prod.mk.inj (Except.ok.inj hrun)
    exact ⟨_, _, .other, rfl, rfl⟩
  | table t =>
    rw [convert_table] at hrun
    split at hrun
    · cases hrun
    · rename_i w₁ text herr
      obtain ⟨rfl, rfl⟩ := Prod.mk.inj (Except.ok.inj hrun)
      exact ⟨_, _, .error herr, rfl, rfl⟩
    · rename_i w₁ v hno herr
      have hv : v.isString = false := by
        cases v with
        | string text => exact absurd rfl (hno text)
        | _ => rfl
      split at hrun
      · cases hrun
      · rename_i w₂ text hok
        obtain ⟨rfl, rfl⟩ := Prod.mk.inj (Except.ok.inj hrun)
        exact ⟨_, _, .status herr hv hok, rfl, rfl⟩
      · rename_i w₂ v' hno' hok
        have hv' : v'.isString = false := by
          cases v' with
          | string text => exact absurd rfl (hno' text)
          | _ => rfl
        obtain ⟨reply', s', hmembers, hrun⟩ := bind_ok.mp hrun
        obtain ⟨members, w₃, hshows, rfl, rfl⟩ := h hmembers
        obtain ⟨rfl, rfl⟩ := Prod.mk.inj (Except.ok.inj hrun)
        exact ⟨_, _, .array herr hv hok hv' hshows, rfl, rfl⟩

theorem membersSound_succ (hc : ConvertSound api Num fuel) (hm : MembersSound api Num fuel) :
    MembersSound api Num (fuel + 1) := by
  intro j reply r w t rest ctx s hrun
  rw [convertMembers_step] at hrun
  split at hrun
  · cases hrun
  · rename_i w₁ hnil
    obtain ⟨rfl, rfl⟩ := Prod.mk.inj (Except.ok.inj hrun)
    exact ⟨_, _, .done hnil, rfl, rfl⟩
  · rename_i w₁ v hne helement
    obtain ⟨r', s', hconvert, hrun⟩ := bind_ok.mp hrun
    obtain ⟨tree, w₂, hshows, rfl, rfl⟩ := hc hconvert
    obtain ⟨members, w₃, hfrom, rfl, rfl⟩ := hm hrun
    exact ⟨_, _, .next helement hne hshows hfrom, rfl, rfl⟩

theorem sound : ∀ fuel : ℕ, ConvertSound api Num fuel ∧ MembersSound api Num fuel
  | 0 => ⟨nofun, nofun⟩
  | fuel + 1 =>
    have ⟨hc, hm⟩ := sound fuel
    ⟨convertSound_succ hm, membersSound_succ hc hm⟩

/-- **The conversion comes back with what is shown.** -/
theorem luaReplyToRedisReply_sound {v : Value T N} {r : ReplyNode Num} {s : LuaState σ T N}
    (h : luaReplyToRedisReply api fuel reply ⟨w, v :: rest, ctx⟩ = .ok (r, s)) :
    ∃ tree w', Shows api w (rest.length + 1) v tree w' ∧ r = tree.fill api.toInt64 reply ∧
      s = ⟨w', rest, ctx⟩ :=
  (sound fuel).1 h

mutual

/-- **What is shown is converted.** -/
theorem luaReplyToRedisReply_complete {w w' : σ} {v : Value T N} {tree : LuaTree N} {h : ℕ}
    (rest : List (Value T N)) (hh : h = rest.length + 1) (hshows : Shows api w h v tree w') :
    ∃ n, ∀ fuel ≥ n, ∀ reply : ReplyNode Num,
      luaReplyToRedisReply api fuel reply ⟨w, v :: rest, ctx⟩ =
        .ok (tree.fill api.toInt64 reply, ⟨w', rest, ctx⟩) := by
  cases hshows with
  | nil => exact ⟨1, fun | fuel + 1, _, reply => rfl⟩
  | @boolean w h b =>
    cases b with
    | false => exact ⟨1, fun | fuel + 1, _, reply => rfl⟩
    | true => exact ⟨1, fun | fuel + 1, _, reply => rfl⟩
  | number => exact ⟨1, fun | fuel + 1, _, reply => rfl⟩
  | string => exact ⟨1, fun | fuel + 1, _, reply => rfl⟩
  | other => exact ⟨1, fun | fuel + 1, _, reply => rfl⟩
  | error herr =>
    subst hh
    refine ⟨1, fun | fuel + 1, _, reply => ?_⟩
    rw [convert_table, herr]
    rfl
  | status herr hv hok =>
    subst hh
    refine ⟨1, fun | fuel + 1, _, reply => ?_⟩
    rw [convert_table_of_field herr hv, hok]
    rfl
  | array herr hv hok hv' hfrom =>
    subst hh
    obtain ⟨n, hn⟩ := convertMembers_complete rest rfl hfrom
    refine ⟨n + 1, fun | fuel + 1, hfuel, reply => ?_⟩
    have hmembers := hn fuel (Nat.le_of_succ_le_succ hfuel) (reply.setType typeArray)
    rw [convert_table_of_fields herr hv hok hv']
    exact bind_ok.mpr ⟨_, _, hmembers, rfl⟩

theorem convertMembers_complete {w w' : σ} {t : T} {j : ℤ} {members : List (LuaTree N)} {h : ℕ}
    (rest : List (Value T N)) (hh : h = rest.length + 1)
    (hshows : ShowsFrom api w h t j members w') :
    ∃ n, ∀ fuel ≥ n, ∀ reply : ReplyNode Num,
      convertMembers api fuel j reply ⟨w, .table t :: rest, ctx⟩ =
        .ok (LuaTree.fillFrom api.toInt64 reply members, ⟨w', .table t :: rest, ctx⟩) := by
  cases hshows with
  | done hnil =>
    subst hh
    refine ⟨1, fun | fuel + 1, _, reply => ?_⟩
    rw [convertMembers_step, hnil]
    rfl
  | next helement hne hshows hfrom =>
    subst hh
    obtain ⟨n, hn⟩ := luaReplyToRedisReply_complete (.table _ :: rest) rfl hshows
    obtain ⟨m, hm⟩ := convertMembers_complete rest rfl hfrom
    refine ⟨max n m + 1, fun | fuel + 1, hfuel, reply => ?_⟩
    have hle : max n m ≤ fuel := Nat.le_of_succ_le_succ hfuel
    rw [convertMembers_next helement hne]
    exact bind_ok.mpr ⟨_, _, hn fuel (le_of_max_le_left hle) _, hm fuel (le_of_max_le_right hle) _⟩

end

end Conversion

/-! ### The height of the stack -/

section Height

variable {σ T N Num : Type} {api : LuaApi σ T N} {st : List (Value T N)} {n : ℕ}

/-- There are `n` values above `st`. -/
def Above (st : List (Value T N)) (n : ℕ) (s : LuaState σ T N) : Prop :=
  ∃ vs, vs.length = n ∧ s.stack = vs ++ st

/-- `m` takes the stack from `n` values above some others to what its result says. -/
def Shifts {α : Type} (m : LuaM σ T N α) (st : List (Value T N)) (n : ℕ) (next : α → ℕ) : Prop :=
  Ensures (Above st n) m fun a => Above st (next a)

theorem push_shifts (v : Value T N) : Shifts (push api v) st n fun _ => n + 1 := by
  rintro s ⟨vs, hlen, hs⟩ a s' h
  unfold push at h
  split at h
  · obtain ⟨rfl, rfl⟩ := Prod.mk.inj (Except.ok.inj h)
    exact ⟨v :: vs, by simp [hlen], by simp [hs]⟩
  · cases h

theorem push_above {s s' : LuaState σ T N} {v : Value T N} {w : σ} {a : Unit} (hs : Above st n s)
    (h : push api v { s with world := w } = .ok (a, s')) : Above st (n + 1) s' :=
  push_shifts v { s with world := w } hs a s' h

theorem pop_shifts (k : ℕ) : Shifts (pop k : LuaM σ T N Unit) st (n + k) fun _ => n := by
  rintro s ⟨vs, hlen, hs⟩ a s' h
  obtain ⟨rfl, rfl⟩ := Prod.mk.inj (Except.ok.inj h)
  refine ⟨vs.drop k, by simp [hlen], ?_⟩
  rw [hs, List.drop_append_of_le_length (by omega)]

theorem top_shifts : Shifts (top : LuaM σ T N (Value T N)) st n fun _ => n := by
  rintro s hs a s' h
  obtain ⟨rfl, rfl⟩ := Prod.mk.inj (Except.ok.inj h)
  exact hs

theorem pushString_shifts (text : Bytes) : Shifts (pushString api text) st n fun _ => n + 1 := by
  rintro s hs a s' h
  unfold pushString at h
  split at h
  · cases h
  · exact push_above hs h

theorem getglobal_shifts (name : Bytes) : Shifts (getglobal api name) st n fun _ => n + 1 := by
  rintro s hs a s' h
  unfold getglobal at h
  split at h
  · cases h
  · exact push_above hs h

theorem loadbuffer_shifts (chunk : Bytes) : Shifts (loadbuffer api chunk) st n fun _ => n + 1 := by
  rintro s hs a s' h
  unfold loadbuffer at h
  split at h
  · cases h
  · obtain ⟨p, hpush, hp⟩ := map_ok h
    obtain ⟨-, rfl⟩ := Prod.mk.inj hp
    exact push_above hs hpush
  · obtain ⟨p, hpush, hp⟩ := map_ok h
    obtain ⟨-, rfl⟩ := Prod.mk.inj hp
    exact push_above hs hpush

theorem pcall_shifts (results handled : Bool) : Shifts (pcall api results handled) st (n + 1)
    fun failed => if failed || results then n + 1 else n := by
  rintro ⟨w, stack, ctx⟩ ⟨vs, hlen, hs⟩ a s' h
  obtain ⟨f, vs, rfl⟩ := List.exists_cons_of_length_eq_add_one hlen
  obtain rfl : stack = f :: (vs ++ st) := hs
  have hvs : vs.length = n := by simpa using hlen
  unfold pcall at h
  dsimp only at h
  split at h
  · cases h
  · rename_i w' ctx' v _
    obtain ⟨rfl, rfl⟩ := Prod.mk.inj (Except.ok.inj h)
    cases results with
    | true => exact ⟨v :: vs, by simp [hvs], rfl⟩
    | false => exact ⟨vs, hvs, rfl⟩
  · rename_i w' ctx' e _
    obtain ⟨rfl, rfl⟩ := Prod.mk.inj (Except.ok.inj h)
    exact ⟨e :: vs, by simp [hvs], rfl⟩

theorem tostring_shifts : Shifts (tostring api) st (n + 1) fun _ => n + 1 := by
  rintro ⟨w, stack, ctx⟩ ⟨vs, hlen, hs⟩ a s' h
  obtain ⟨v, vs, rfl⟩ := List.exists_cons_of_length_eq_add_one hlen
  obtain rfl : stack = v :: (vs ++ st) := hs
  cases v with
  | number k =>
    unfold tostring at h
    dsimp only at h
    split at h
    · cases h
    · obtain ⟨rfl, rfl⟩ := Prod.mk.inj (Except.ok.inj h)
      exact ⟨.string (api.text k) :: vs, by simpa using hlen, rfl⟩
  | _ =>
    obtain ⟨rfl, rfl⟩ := Prod.mk.inj (Except.ok.inj h)
    exact ⟨_, hlen, rfl⟩

theorem appendTop_shifts (text : Bytes) :
    Shifts (appendTop api text) st (n + 1) fun _ => n + 1 := by
  refine Ensures.bind tostring_shifts fun message => ?_
  cases message with
  | some message => exact Ensures.pure fun _ hs => hs
  | none => exact fun _ _ _ _ h => nomatch h

theorem gcStep_shifts : Shifts (gcStep api) st n fun _ => n := by
  rintro s hs a s' h
  unfold gcStep at h
  split at h
  · cases h
  · obtain ⟨rfl, rfl⟩ := Prod.mk.inj (Except.ok.inj h)
    exact hs

theorem onWorld_shifts (f : σ → σ) : Shifts (onWorld f : LuaM σ T N Unit) st n fun _ => n := by
  rintro s hs a s' h
  obtain ⟨rfl, rfl⟩ := Prod.mk.inj (Except.ok.inj h)
  exact hs

theorem sethook_shifts (delhook on : Bool) : Shifts (sethook api delhook on) st n fun _ => n :=
  Ensures.ite (onWorld_shifts _) (Ensures.pure fun _ hs => hs)

theorem onContext_shifts (f : LuaContext → LuaContext) :
    Shifts (onContext f : LuaM σ T N Unit) st n fun _ => n := by
  rintro s hs a s' h
  obtain ⟨rfl, rfl⟩ := Prod.mk.inj (Except.ok.inj h)
  exact hs

theorem getWorld_shifts : Shifts (getWorld : LuaM σ T N σ) st n fun _ => n := by
  rintro s hs a s' h
  obtain ⟨rfl, rfl⟩ := Prod.mk.inj (Except.ok.inj h)
  exact hs

theorem newtable_shifts : Shifts (newtable api) st n fun _ => n + 1 := by
  rintro s hs a s' h
  unfold newtable at h
  split at h
  · cases h
  · exact push_above hs h

theorem rawseti_shifts (j : ℕ) : Shifts (rawseti api j) st (n + 2) fun _ => n + 1 := by
  rintro ⟨w, stack, ctx⟩ ⟨vs, hlen, hs⟩ a s' h
  obtain ⟨v, vs, rfl⟩ := List.exists_cons_of_length_eq_add_one hlen
  obtain ⟨u, vs, rfl⟩ := List.exists_cons_of_length_eq_add_one (by simpa using hlen)
  obtain rfl : stack = v :: u :: (vs ++ st) := hs
  unfold rawseti at h
  dsimp only at h
  split at h
  · split at h
    · cases h
    · rename_i t rest hstack _ w' _
      obtain ⟨rfl, rfl⟩ := Prod.mk.inj (Except.ok.inj h)
      obtain ⟨-, hu, rfl⟩ : _ ∧ u = .table t ∧ vs ++ st = rest := by simpa using hstack
      exact ⟨u :: vs, by simpa using hlen, by simp [hu]⟩
  · cases h

theorem setglobal_shifts (name : Bytes) : Shifts (setglobal api name) st (n + 1) fun _ => n := by
  rintro ⟨w, stack, ctx⟩ ⟨vs, hlen, hs⟩ a s' h
  obtain ⟨v, vs, rfl⟩ := List.exists_cons_of_length_eq_add_one hlen
  obtain rfl : stack = v :: (vs ++ st) := hs
  unfold setglobal at h
  dsimp only at h
  split at h
  · cases h
  · obtain ⟨rfl, rfl⟩ := Prod.mk.inj (Except.ok.inj h)
    exact ⟨vs, by simpa using hlen, rfl⟩

theorem setElements_shifts (texts : List Bytes) :
    ∀ j, Shifts (setElements api j texts) st (n + 1) fun _ => n + 1 := by
  induction texts with
  | nil => exact fun j => Ensures.pure fun _ hs => hs
  | cons text texts ih =>
    intro j
    refine Ensures.bind (pushString_shifts text) fun _ => ?_
    exact Ensures.bind (rawseti_shifts (j + 1)) fun _ => ih (j + 1)

theorem luaSetGlobalArray_shifts (var : Bytes) (elev : List Bytes) :
    Shifts (luaSetGlobalArray api var elev) st n fun _ => n := by
  refine Ensures.bind newtable_shifts fun _ => ?_
  exact Ensures.bind (setElements_shifts elev 0) fun _ => setglobal_shifts var

/-- `CreateLuaFunction` leaves nothing on the stack. -/
theorem createLuaFunction_shifts (funcname body err : Bytes) :
    Shifts (createLuaFunction api funcname body err) st n fun _ => n := by
  refine Ensures.bind (loadbuffer_shifts _) fun failed => ?_
  cases failed with
  | true =>
    refine Ensures.bind (appendTop_shifts _) fun _ => ?_
    exact Ensures.bind (pop_shifts 1) fun _ => Ensures.pure fun _ hs => hs
  | false =>
    refine Ensures.bind (pcall_shifts false false) fun failed => ?_
    cases failed with
    | true =>
      refine Ensures.bind (appendTop_shifts _) fun _ => ?_
      exact Ensures.bind (pop_shifts 1) fun _ => Ensures.pure fun _ hs => hs
    | false => exact Ensures.bind (onWorld_shifts _) fun _ => Ensures.pure fun _ hs => hs

variable [Zero Num]

/-- The conversion pops the one value. -/
theorem luaReplyToRedisReply_shifts (fuel : ℕ) (reply : ReplyNode Num) :
    Shifts (luaReplyToRedisReply api fuel reply) st (n + 1) fun _ => n := by
  rintro ⟨w, stack, ctx⟩ ⟨vs, hlen, hs⟩ a s' h
  obtain ⟨v, vs, rfl⟩ := List.exists_cons_of_length_eq_add_one hlen
  obtain rfl : stack = v :: (vs ++ st) := hs
  obtain ⟨tree, w', -, -, rfl⟩ := luaReplyToRedisReply_sound h
  exact ⟨vs, by simpa using hlen, rfl⟩

theorem replyOfCall_shifts (fuel : ℕ) (funcname : Bytes) (reply : ReplyNode Num) (errid : Bool) :
    Shifts (replyOfCall api fuel funcname reply errid) st 2 fun _ => 0 := by
  refine Ensures.ite ?_ ?_
  · refine Ensures.bind tostring_shifts fun _ => ?_
    exact Ensures.bind (pop_shifts 2) fun _ => Ensures.pure fun _ hs => hs
  · refine Ensures.bind (luaReplyToRedisReply_shifts fuel _) fun _ => ?_
    exact Ensures.bind (pop_shifts 1) fun _ => Ensures.pure fun _ hs => hs

theorem runFunction_shifts (fuel : ℕ) (call : EvalCall) (funcname : Bytes) (reply : ReplyNode Num) :
    Shifts (runFunction api fuel call funcname reply) st 2 fun _ => 0 := by
  refine Ensures.bind (luaSetGlobalArray_shifts _ _) fun _ => ?_
  refine Ensures.bind (luaSetGlobalArray_shifts _ _) fun _ => ?_
  refine Ensures.bind (sethook_shifts _ _) fun _ => ?_
  refine Ensures.bind (onContext_shifts _) fun _ => ?_
  refine Ensures.bind (pcall_shifts true true) fun errid => ?_
  simp only [Bool.or_true, if_true]
  refine Ensures.bind (onContext_shifts _) fun _ => ?_
  refine Ensures.bind (sethook_shifts _ _) fun _ => ?_
  refine Ensures.bind (onContext_shifts _) fun _ => ?_
  exact Ensures.bind gcStep_shifts fun _ => replyOfCall_shifts fuel funcname reply errid

theorem defineFunction_shifts (fuel : ℕ) (call : EvalCall) (funcname body : Bytes)
    (reply : ReplyNode Num) :
    Shifts (defineFunction api fuel call funcname body reply) st 1 fun _ => 0 := by
  refine Ensures.bind (createLuaFunction_shifts funcname body []) fun err => ?_
  cases err with
  | some err => exact Ensures.bind (pop_shifts 1) fun _ => Ensures.pure fun _ hs => hs
  | none =>
    refine Ensures.bind (getglobal_shifts _) fun _ => ?_
    exact runFunction_shifts fuel call funcname reply

theorem evalFunction_shifts (fuel : ℕ) (call : EvalCall) (funcname : Bytes)
    (reply : ReplyNode Num) :
    Shifts (evalFunction api fuel call funcname reply) st 0 fun _ => 0 := by
  refine Ensures.bind (getglobal_shifts _) fun _ => ?_
  refine Ensures.bind (getglobal_shifts _) fun _ => ?_
  refine Ensures.bind top_shifts fun v => ?_
  cases v with
  | nil =>
    refine Ensures.bind (pop_shifts 1) fun _ => ?_
    refine Ensures.ite ?_ (defineFunction_shifts fuel call funcname _ reply)
    refine Ensures.bind getWorld_shifts fun w => ?_
    cases api.getScript w funcname with
    | none => exact Ensures.bind (pop_shifts 1) fun _ => Ensures.pure fun _ hs => hs
    | some cachedfunc => exact defineFunction_shifts fuel call funcname cachedfunc reply
  | _ => exact runFunction_shifts fuel call funcname reply

theorem Eval_shifts (fuel : ℕ) (call : EvalCall) (reply : ReplyNode Num) :
    Shifts (Eval api fuel call reply) st 0 fun _ => 0 := by
  refine Ensures.ite ?_ ?_
  · exact Ensures.ite (Ensures.pure fun _ hs => hs) (evalFunction_shifts fuel call _ reply)
  · exact Ensures.bind (onWorld_shifts _) fun _ => evalFunction_shifts fuel call _ reply

/-- **`Eval` leaves the stack as it was,** wherever it comes back. -/
theorem Eval_keepsHeight {fuel : ℕ} {call : EvalCall} {reply : ReplyNode Num}
    {s s' : LuaState σ T N} {r : ℤ × ReplyNode Num}
    (h : Eval api fuel call reply s = .ok (r, s')) : s'.stack = s.stack := by
  obtain ⟨vs, hlen, hs'⟩ := Eval_shifts fuel call reply s ⟨[], rfl, rfl⟩ r s' h
  rw [hs', List.eq_nil_of_length_eq_zero hlen]
  rfl

end Height

/-! ### Safe conversions -/

section Safe

variable {σ T N : Type} (api : LuaApi σ T N) (Num : Type) [Zero Num]

/-- The conversion of the value on top of `rest` comes back, and pops it. -/
def ConvertsSafely (w : σ) (v : Value T N) (rest : List (Value T N)) (ctx : LuaContext) : Prop :=
  ∃ n, ∀ fuel ≥ n, ∃ (r : ReplyNode Num) (w' : σ),
    luaReplyToRedisReply api fuel ReplyNode.fresh ⟨w, v :: rest, ctx⟩ = .ok (r, ⟨w', rest, ctx⟩)

/-- Wherever `Eval` comes back the stack is as high as before. -/
def KeepsHeight : Prop :=
  ∀ (fuel : ℕ) (call : EvalCall) (reply : ReplyNode Num) (s s' : LuaState σ T N)
    (r : ℤ × ReplyNode Num), Eval api fuel call reply s = .ok (r, s') →
    s'.stack.length = s.stack.length

variable {api Num}

end Safe

/-! ### A table that contains itself -/

/-- The only table there is, which is its own first element: `local t = {} t[1] = t return t`. -/
def selfTable : LuaApi Unit Unit ℤ where
  ofInt := id
  toInt64 := Int64.ofInt
  text _ := []
  room _ := 45
  checkGC w := .ok w
  gettable w _ t
    | .number 1 => .ok (w, .table t)
    | _ => .ok (w, .nil)
  getglobal w _ _ := .ok (w, .other)
  setglobal w _ _ _ := .ok w
  newtable w := .ok (w, ())
  rawseti w _ _ _ := .ok w
  loadbuffer w _ _ := .ok (w, .ok .other)
  pcall w ctx _ _ _ := .ok ((w, ctx), .ok (.table ()))
  sethook w _ := w
  sha1 _ := []
  saveScript w _ _ := w
  getScript _ _ := none

theorem selfTable_element {w w₁ : Unit} {h : ℕ} {t : Unit} {v : Value Unit ℤ}
    (helement : selfTable.element w h t 1 = .ok (w₁, v)) : v = .table () := by
  unfold LuaApi.element at helement
  split at helement
  · exact (Prod.mk.inj (Except.ok.inj helement)).2.symm
  · cases helement

theorem selfTable_field {w w₁ : Unit} {h : ℕ} {t : Unit} {name : Bytes} {v : Value Unit ℤ}
    (hfield : selfTable.field w h t name = .ok (w₁, v)) : v = .nil := by
  change (if h < 45 then _ else _) = _ at hfield
  split at hfield
  · exact (Prod.mk.inj (Except.ok.inj hfield)).2.symm
  · cases hfield

mutual

theorem selfTable_not_shows {w w' t : Unit} {h : ℕ} {tree : LuaTree ℤ}
    (hshows : Shows selfTable w h (.table t) tree w') : False := by
  cases hshows with
  | error herr => cases selfTable_field herr
  | status _ _ hok => cases selfTable_field hok
  | array _ _ _ _ hfrom => exact selfTable_not_showsFrom hfrom

theorem selfTable_not_showsFrom {w w' t : Unit} {h : ℕ} {members : List (LuaTree ℤ)}
    (hshows : ShowsFrom selfTable w h t 1 members w') : False := by
  cases hshows with
  | done hnil => cases selfTable_element hnil
  | next helement _ hshows _ =>
    obtain rfl := selfTable_element helement
    exact selfTable_not_shows hshows

end

end Comms.ScriptReply
