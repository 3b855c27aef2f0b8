import Comms.Command.ArgReads

/-!
# Error replies to arguments

Where the reads of a handler end in an error reply, the handler of `Command/Handlers.lean` answers
with that error, and has not called the store. Each option loop is compared with the function that
builds the options there.

* `refused_read`, `refused_plain`, `refused_errorIf`, `refused_options` — which step refuses;
* `refused_handler` — the handler then.
-/

namespace Comms.ArgReads

open ArgList

/-! ### Which step refuses -/

section Steps

variable {args : List Bytes} {ps : List Step} {e err : Refusal}

theorem refused_nil : runPhases args ([] : List Step) ≠ .refused e := by
  simp [runPhases, inOrder]

theorem runPhases_cons_eq_refused_iff {p : Step} : runPhases args (p :: ps) = .refused e ↔
    p.run args = .refused e ∨ p.Taken args ∧ runPhases args ps = .refused e := by
  rw [runPhases, inOrder_cons_eq_refused_iff, Phase.run_eq_done_iff]
  rfl

theorem exists_getElem?_iff {i : ℕ} {Q : Bytes → Prop} :
    (∃ a, args[i]? = some a ∧ Q a) ↔ i < args.length ∧ Q (arg args i) := by
  constructor
  · rintro ⟨a, ha, hQ⟩
    obtain ⟨hi, rfl⟩ := List.getElem?_eq_some_iff.mp ha
    exact ⟨hi, by simpa [arg, List.getD_eq_getElem?_getD, ha] using hQ⟩
  · rintro ⟨hi, hQ⟩
    refine ⟨args[i], List.getElem?_eq_getElem hi, ?_⟩
    simpa [arg, List.getD_eq_getElem?_getD, List.getElem?_eq_getElem hi] using hQ

theorem read_taken_iff {i : ℕ} {test : Bytes → Option Refusal} :
    (read i test).Taken args ↔ i < args.length ∧ test (arg args i) = none := exists_getElem?_iff

theorem read_refused_iff {i : ℕ} {test : Bytes → Option Refusal} :
    (read i test).run args = .refused e ↔ i < args.length ∧ test (arg args i) = some e :=
  Look.run_eq_refused_iff.trans exists_getElem?_iff

theorem refused_read {i : ℕ} {test : Bytes → Option Refusal} :
    runPhases args (read i test :: ps) = .refused e ↔ i < args.length ∧
      (test (arg args i) = some e ∨ test (arg args i) = none ∧ runPhases args ps = .refused e) := by
  rw [runPhases_cons_eq_refused_iff, read_refused_iff, read_taken_iff]
  tauto

theorem refused_plain {is : List ℕ} : runPhases args (plain is ++ ps) = .refused e ↔
    (∀ i ∈ is, i < args.length) ∧ runPhases args ps = .refused e := by
  induction is with
  | nil => simp [plain]
  | cons i is ih =>
    change runPhases args (read i any :: (plain is ++ ps)) = _ ↔ _
    rw [refused_read, ih, List.forall_mem_cons]
    simp [any, and_assoc]

theorem refused_plain_end {is : List ℕ} : runPhases args (plain is) ≠ .refused e := fun h => by
  rw [← List.append_nil (plain is)] at h
  exact refused_nil (refused_plain.mp h).2

theorem refused_errorIf {bad : Prop} [Decidable bad] :
    runPhases args (errorIf bad err :: ps) = .refused e ↔
      bad ∧ err = e ∨ ¬bad ∧ runPhases args ps = .refused e := by
  rw [runPhases_cons_eq_refused_iff]
  by_cases hbad : bad <;> simp [errorIf, Phase.run, Phase.Taken, hbad]

theorem refused_options {start : ℕ} {spec : Options}
    (h : runPhases args (optionsFrom start spec :: ps) = .refused e) :
    loop spec .start 0 (args.drop start) = .refused e ∨ runPhases args ps = .refused e := by
  rw [runPhases_cons_eq_refused_iff] at h
  obtain h | ⟨-, h⟩ := h
  · obtain h | ⟨t, -, h⟩ := Parse.bind_eq_refused_iff.mp h
    · exact .inl h
    · cases h
  · exact .inr h

theorem must_eq_some_iff {ok : Bytes → Bool} {b : Bytes} :
    must ok err b = some e ↔ ok b = false ∧ err = e := by
  unfold must
  split <;> simp_all

theorem must_eq_none_iff {ok : Bytes → Bool} {b : Bytes} : must ok err b = none ↔ ok b = true := by
  unfold must
  split <;> simp_all

theorem uint32_eq_some_iff {b : Bytes} :
    uint32 err b = some e ↔ stringToUInt32 b = none ∧ err = e := by
  rw [uint32, must_eq_some_iff, Option.isSome_eq_false_iff, Option.isNone_iff_eq_none]

theorem uint32_eq_none_iff {b : Bytes} : uint32 err b = none ↔ (stringToUInt32 b).isSome := by
  rw [uint32, must_eq_none_iff]

end Steps

/-! ### Loops -/

section Loops

variable {spec : Options} {kw : Bytes} {opts rest : List Bytes} {seen : Seen} {e : Refusal}

theorem loop_error {err : Refusal} (hspec : spec seen kw rest.length = .error err)
    (h : loop spec seen 0 (kw :: rest) = .refused e) : err = e := by
  rw [loop_cons, hspec] at h
  exact Parse.refused.inj h

/-- A round whose keyword takes nothing. -/
theorem loop_takes_nil (hspec : spec seen kw rest.length = takes [] seen)
    (h : loop spec seen 0 (kw :: rest) = .refused e) : loop spec seen 0 rest = .refused e := by
  rw [loop_cons, hspec] at h
  exact h

/-- A round whose keyword looks at the value behind it. -/
theorem loop_takes_one {test : Bytes → Option Refusal}
    (hspec : spec seen kw rest.length = takes [test] seen)
    (h : loop spec seen 0 (kw :: rest) = .refused e) :
    ∃ v tail, rest = v :: tail ∧
      (test v = some e ∨ test v = none ∧ loop spec seen 0 tail = .refused e) := by
  rw [loop_cons, hspec] at h
  change (looks rest [⟨0, test⟩]).bind (fun _ => loop spec seen 0 (rest.drop 1)) = .refused e at h
  cases rest with
  | nil => simp [looks, inOrder, Look.run, Parse.bind] at h
  | cons v tail =>
    refine ⟨v, tail, rfl, ?_⟩
    cases htest : test v <;> simp_all [looks, inOrder, Look.run, Parse.bind, Parse.ofCheck]

/-- A round whose keyword looks at the two values behind it. -/
theorem loop_takes_two {test test' : Bytes → Option Refusal}
    (hspec : spec seen kw rest.length = takes [test, test'] seen)
    (h : loop spec seen 0 (kw :: rest) = .refused e) :
    ∃ v tail, rest = v :: tail ∧ (test v = some e ∨ test v = none ∧ ∃ w tail', tail = w :: tail' ∧
      (test' w = some e ∨ test' w = none ∧ loop spec seen 0 tail' = .refused e)) := by
  rw [loop_cons, hspec] at h
  change (looks rest [⟨0, test⟩, ⟨1, test'⟩]).bind
    (fun _ => loop spec seen 0 (rest.drop 2)) = .refused e at h
  cases rest with
  | nil => simp [looks, inOrder, Look.run, Parse.bind] at h
  | cons v tail =>
    refine ⟨v, tail, rfl, ?_⟩
    cases htest : test v with
    | some err => simp_all [looks, inOrder, Look.run, Parse.bind, Parse.ofCheck]
    | none =>
      refine .inr ⟨rfl, ?_⟩
      cases tail with
      | nil => simp [looks, inOrder, Look.run, Parse.bind, Parse.ofCheck, htest] at h
      | cons w tail' =>
        refine ⟨w, tail', rfl, ?_⟩
        cases htest' : test' w <;>
          simp_all [looks, inOrder, Look.run, Parse.bind, Parse.ofCheck]

theorem pairSpec_ne_refused : loop pairSpec seen 0 opts ≠ .refused e := by
  induction opts using opts_induction with
  | nil => simp [loop]
  | cons kw rest ih =>
    intro h
    obtain ⟨v, tail, rfl, hbad | ⟨-, htail⟩⟩ := loop_takes_one rfl h
    · cases hbad
    · exact ih 1 htail

/-- `Sort` gives no reply. -/
theorem sortSpec_refused (h : loop sortSpec seen 0 opts = .refused e) : e = .noReply := by
  induction opts using opts_induction with
  | nil => simp [loop] at h
  | cons kw rest ih =>
    by_cases hflag : eqNoCase kw [97, 115, 99] || eqNoCase kw [100, 101, 115, 99]
      || eqNoCase kw [97, 108, 112, 104, 97]
    · exact ih 0 (loop_takes_nil (if_pos hflag) h)
    · by_cases hlimit : eqNoCase kw [108, 105, 109, 105, 116] && 2 ≤ rest.length
      · obtain ⟨v, tail, rfl, hbad | ⟨-, w, tail', rfl, hbad | ⟨-, htail⟩⟩⟩ :=
          loop_takes_two ((if_neg hflag).trans (if_pos hlimit)) h
        · exact (must_eq_some_iff.mp hbad).2.symm
        · exact (must_eq_some_iff.mp hbad).2.symm
        · exact ih 2 htail
      · by_cases hvalue : (eqNoCase kw [115, 116, 111, 114, 101] || eqNoCase kw [98, 121]
          || eqNoCase kw [103, 101, 116]) && 1 ≤ rest.length
        · obtain ⟨v, tail, rfl, hbad | ⟨-, htail⟩⟩ :=
            loop_takes_one ((if_neg hflag).trans ((if_neg hlimit).trans (if_pos hvalue))) h
          · cases hbad
          · exact ih 1 htail
        · exact (loop_error ((if_neg hflag).trans ((if_neg hlimit).trans (if_neg hvalue))) h).symm

/-- `SET`. -/
theorem setOptions_of_refused (h : loop setSpec seen 0 opts = .refused e) (o : SetOptions) :
    ∃ text, e = .error text ∧ setOptions opts o = .error text := by
  induction opts using opts_induction generalizing o with
  | nil => simp [loop] at h
  | cons kw rest ih =>
    rw [setOptions.eq_def]
    dsimp only
    by_cases hvalue : eqNoCase kw [112, 120] || eqNoCase kw [101, 120]
    · rw [if_pos hvalue]
      obtain ⟨v, tail, rfl, hbad | ⟨hgood, hrest⟩⟩ := loop_takes_one (if_pos hvalue) h
      · obtain ⟨hfalse, rfl⟩ := must_eq_some_iff.mp hbad
        refine ⟨_, rfl, ?_⟩
        cases hraw : rawToInt64 v with
        | none => simp [hraw]
        | some iv =>
          have hneg : iv < 0 := by simpa [hraw] using hfalse
          simp [hraw, hneg]
      · have htail := ih 1 hrest
        rw [must_eq_none_iff] at hgood
        cases hraw : rawToInt64 v with
        | none => simp [hraw] at hgood
        | some iv =>
          have hnonneg : ¬iv < 0 := by simpa [hraw] using hgood
          simp only [hraw, hnonneg, if_false]
          split
          · exact htail _
          · exact htail _
    · rw [if_neg hvalue]
      by_cases hflag : eqNoCase kw [120, 120] || eqNoCase kw [110, 120]
      · have htail := ih 0 (loop_takes_nil ((if_neg hvalue).trans (if_pos hflag)) h)
        split
        · exact htail _
        · next hxx =>
          rw [if_pos (by simpa [hxx] using hflag)]
          exact htail _
      · obtain rfl := loop_error ((if_neg hvalue).trans (if_neg hflag)) h
        obtain ⟨hxx, hnx⟩ : eqNoCase kw [120, 120] = false ∧ eqNoCase kw [110, 120] = false := by
          simpa using hflag
        exact ⟨_, rfl, by simp [hxx, hnx]⟩

theorem weightArgs_eq_none {ws : List Bytes} {w : Bytes} (hw : w ∈ ws)
    (hbad : stringToUInt32 w = none) : weightArgs ws = none := by
  induction ws with
  | nil => cases hw
  | cons v ws ih =>
    rw [weightArgs]
    obtain rfl | hw := List.mem_cons.mp hw
    · simp [hbad]
    · simp [ih hw]

theorem weightArgs_length {ws : List Bytes} (h : ∀ w ∈ ws, (stringToUInt32 w).isSome) :
    ∃ vs, weightArgs ws = some vs ∧ vs.length = ws.length := by
  induction ws with
  | nil => exact ⟨[], rfl, rfl⟩
  | cons w ws ih =>
    obtain ⟨n, hn⟩ := Option.isSome_iff_exists.mp (h w List.mem_cons_self)
    obtain ⟨vs, hvs, hlen⟩ := ih fun w' hw' => h w' (List.mem_cons_of_mem w hw')
    exact ⟨n :: vs, by simp [weightArgs, hn, hvs], by simp [hlen]⟩

theorem weightArgs_of_refused {n : ℕ}
    (h : looks rest ((List.range n).map fun j => ⟨j, uint32 invalidArgs⟩) = .refused e) :
    e = invalidArgs ∧ weightArgs ((List.range n).map (arg rest)) = none := by
  obtain ⟨l, hl, hrefused⟩ := exists_refused_of_inOrder h
  obtain ⟨j, hj, rfl⟩ := List.mem_map.mp hl
  obtain ⟨-, hbad⟩ := read_refused_iff.mp hrefused
  obtain ⟨hnone, rfl⟩ := uint32_eq_some_iff.mp hbad
  exact ⟨rfl, weightArgs_eq_none (List.mem_map_of_mem hj) hnone⟩

theorem weightArgs_of_done {n : ℕ}
    (h : looks rest ((List.range n).map fun j => ⟨j, uint32 invalidArgs⟩) = .done ()) :
    ∃ vs, weightArgs ((List.range n).map (arg rest)) = some vs ∧ vs.length = n := by
  have hall : ∀ w ∈ (List.range n).map (arg rest), (stringToUInt32 w).isSome := by
    intro w hw
    obtain ⟨j, hj, rfl⟩ := List.mem_map.mp hw
    obtain ⟨-, hgood⟩ := read_taken_iff.mp (looks_eq_done_iff.mp h _ (List.mem_map_of_mem hj))
    exact uint32_eq_none_iff.mp hgood
  obtain ⟨vs, hvs, hlen⟩ := weightArgs_length hall
  exact ⟨vs, hvs, by simpa using hlen⟩

theorem zstoreSpec_weights {n behind : ℕ} (hkw : eqNoCase kw [119, 101, 105, 103, 104, 116, 115])
    (hroom : ¬behind + 1 < n) : zstoreSpec n seen kw behind =
      .ok ⟨(List.range n).map fun j => ⟨j, uint32 invalidArgs⟩, seen.weights + n,
        fun _ => { seen with weights := seen.weights + n }⟩ := by
  rw [zstoreSpec, if_pos hkw, if_neg hroom]

/-- `ZINTERSTORE` and `ZUNIONSTORE`. -/
theorem zstoreOptions_of_refused {numkeys : ℕ}
    (h : loop (zstoreSpec numkeys) seen 0 opts = .refused e) {fuel : ℕ} (hfuel : opts.length ≤ fuel)
    {weights : List ℕ} (hweights : weights.length = seen.weights) (aggregate : Bytes) :
    e = invalidArgs ∧ zstoreOptions numkeys fuel opts weights aggregate = none := by
  induction opts using opts_induction generalizing fuel seen weights aggregate with
  | nil => simp [loop] at h
  | cons kw rest ih =>
    obtain ⟨fuel, rfl⟩ : ∃ f, fuel = f + 1 :=
      Nat.exists_eq_succ_of_ne_zero (by simp at hfuel; omega)
    have hrest : ∀ k, (rest.drop k).length ≤ fuel := fun k => by
      simp only [List.length_cons, List.length_drop] at hfuel ⊢
      omega
    rw [zstoreOptions]
    by_cases hkw : eqNoCase kw [119, 101, 105, 103, 104, 116, 115]
    · rw [if_pos hkw]
      by_cases hroom : rest.length + 1 < numkeys
      · rw [if_pos hroom]
        exact ⟨(loop_error ((if_pos hkw).trans (if_pos hroom)) h).symm, rfl⟩
      · rw [if_neg hroom]
        rw [loop_cons, zstoreSpec_weights hkw hroom] at h
        obtain h | ⟨⟨⟩, hdone, h⟩ := Parse.bind_eq_refused_iff.mp h
        · obtain ⟨he, hnone⟩ := weightArgs_of_refused h
          exact ⟨he, by rw [hnone]⟩
        · obtain ⟨vs, hvs, hlen⟩ := weightArgs_of_done hdone
          have hlen' : (weights ++ vs).length = seen.weights + numkeys := by simp [hlen, hweights]
          rw [hvs]
          dsimp only at h ⊢
          rw [hlen']
          exact ih _ h (hrest _) hlen' aggregate
    · rw [if_neg hkw]
      by_cases hagg : eqNoCase kw [97, 103, 103, 114, 101, 103, 97, 116, 101]
      · rw [if_pos hagg]
        obtain ⟨v, tail, rfl, hbad | ⟨-, htail⟩⟩ :=
          loop_takes_one ((if_neg hkw).trans (if_pos hagg)) h
        · cases hbad
        · exact ih 1 htail (hrest 1) hweights _
      · rw [if_neg hagg]
        exact ⟨(loop_error ((if_neg hkw).trans (if_neg hagg)) h).symm, rfl⟩

end Loops

section Numbers

variable {Num V : Type} {kv : Kv V Num} {env : ArgEnv} {opts : List Bytes} {seen : Seen}
variable {e : Refusal}

/-- What `GetDoubleValue` says when it fails. -/
def notFloat : Refusal := .error "value is not a float or out of range"

theorem double_eq_some_iff (henv : ∀ b, env.isDouble b = (kv.stringToDouble b).isSome) {b : Bytes} :
    double env b = some e ↔ kv.stringToDouble b = none ∧ e = notFloat := by
  rw [double, must_eq_some_iff, henv, Option.isSome_eq_false_iff, Option.isNone_iff_eq_none]
  exact and_congr_right fun _ => eq_comm

theorem scorePairs_head_none {score : Bytes} {rest : List Bytes}
    (h : kv.stringToDouble score = none) : scorePairs kv (pairUp (score :: rest)) = none := by
  cases rest <;> simp [pairUp, scorePairs, h]

/-- `ZADD`. -/
theorem scorePairs_of_refused (henv : ∀ b, env.isDouble b = (kv.stringToDouble b).isSome)
    (h : loop (scoreSpec env) seen 0 opts = .refused e) :
    e = notFloat ∧ scorePairs kv (pairUp opts) = none := by
  induction opts using opts_induction with
  | nil => simp [loop] at h
  | cons score rest ih =>
    cases hscore : double env score with
    | some err =>
      obtain ⟨hnone, rfl⟩ := (double_eq_some_iff henv).mp hscore
      refine ⟨?_, scorePairs_head_none hnone⟩
      exact (loop_error (by simp [scoreSpec, hscore]) h).symm
    | none =>
      obtain ⟨v, tail, rfl, hbad | ⟨-, htail⟩⟩ :=
        loop_takes_one (show scoreSpec env seen score rest.length = _ by
          simp [scoreSpec, hscore]; rfl) h
      · cases hbad
      · obtain ⟨he, hpairs⟩ := ih 1 htail
        refine ⟨he, ?_⟩
        rw [pairUp, scorePairs, show scorePairs kv (pairUp tail) = none from hpairs]
        simp

/-- `GEOADD`. -/
theorem geoPoints_of_refused (henv : ∀ b, env.isDouble b = (kv.stringToDouble b).isSome)
    (h : loop (pointSpec env) seen 0 opts = .refused e) {fuel : ℕ} (hfuel : opts.length ≤ fuel) :
    e = notFloat ∧ geoPoints kv fuel opts = none := by
  induction opts using opts_induction generalizing fuel with
  | nil => simp [loop] at h
  | cons x rest ih =>
    obtain ⟨fuel, rfl⟩ : ∃ f, fuel = f + 1 :=
      Nat.exists_eq_succ_of_ne_zero (by simp at hfuel; omega)
    have hrest : (rest.drop 2).length ≤ fuel := by
      simp only [List.length_cons, List.length_drop] at hfuel ⊢
      omega
    rw [geoPoints]
    cases hx : double env x with
    | some err =>
      obtain ⟨hnone, rfl⟩ := (double_eq_some_iff henv).mp hx
      refine ⟨(loop_error (by simp [pointSpec, hx]) h).symm, ?_⟩
      simp [hnone]
    | none =>
      obtain ⟨y, tail, rfl, hbad | ⟨-, v, tail, rfl, hbad | ⟨-, htail⟩⟩⟩ :=
        loop_takes_two (show pointSpec env seen x rest.length = _ by simp [pointSpec, hx]; rfl) h
      · obtain ⟨hnone, rfl⟩ := (double_eq_some_iff henv).mp hbad
        exact ⟨rfl, by simp [arg, hnone]⟩
      · cases hbad
      · obtain ⟨he, hpoints⟩ := ih 2 htail hrest
        have htail' : geoPoints kv fuel tail = none := hpoints
        exact ⟨he, by simp [htail']⟩

end Numbers

/-! ### The handlers -/

section Handlers

variable {Num V : Type} {cfg : HandlerConfig} {kv : Kv V Num} {s : Keyspace V} {env : CallEnv}
variable {argEnv : ArgEnv} {args : List Bytes} {e : Refusal}

/-- The handler has answered with the error, and the store is as before. -/
def Refused (s : Keyspace V) (e : Refusal) (o : Outcome V Num) : Prop :=
  ∃ text, e = .error text ∧ o.store = s ∧ o.reply = .fillError text

theorem refused_answer (text : String) :
    Refused s (.error text) (.answer s env (.fillError text) : Outcome V Num) :=
  ⟨text, rfl, rfl, rfl⟩

theorem withInt64_refused {b : Bytes} {k : ℤ → Outcome V Num} (h : int64 b = some e) :
    Refused s e (withInt64 s env b k) := by
  obtain ⟨hnone, heq⟩ := must_eq_some_iff.mp h
  cases heq
  cases hb : stringToInt64 b with
  | none => simpa [withInt64, hb] using refused_answer _
  | some v => simp [hb] at hnone

theorem withUInt64_refused {b : Bytes} {k : ℕ → Outcome V Num}
    (h : uint64 (.error "value is not an integer or out of range.") b = some e) :
    Refused s e (withUInt64 s env b k) := by
  obtain ⟨hnone, heq⟩ := must_eq_some_iff.mp h
  cases heq
  cases hb : stringToUInt64 b with
  | none => simpa [withUInt64, hb] using refused_answer _
  | some v => simp [hb] at hnone

theorem withDouble_refused (henv : ∀ b, argEnv.isDouble b = (kv.stringToDouble b).isSome)
    {b : Bytes} {k : Num → Outcome V Num} (h : double argEnv b = some e) :
    Refused s e (withDouble kv s env b k) := by
  obtain ⟨hnone, heq⟩ := (double_eq_some_iff henv).mp h
  cases heq
  rw [withDouble, hnone]
  exact refused_answer _

/-- A step list that is one test in front of plain reads. -/
theorem test_of_refused {i : ℕ} {test : Bytes → Option Refusal} {is : List ℕ} 
    (h : runPhases args (read i test :: plain is) = .refused e) : test (arg args i) = some e := by
  obtain ⟨-, h | ⟨-, h⟩⟩ := refused_read.mp h
  · exact h
  · exact absurd h refused_plain_end

/-- Two tests in front of plain reads. -/
theorem tests_of_refused {i j : ℕ} {test test' : Bytes → Option Refusal} {is : List ℕ} 
    (h : runPhases args (read i test :: read j test' :: plain is) = .refused e) :
    test (arg args i) = some e ∨ test (arg args i) = none ∧ test' (arg args j) = some e := by
  obtain ⟨-, h | ⟨hgood, h⟩⟩ := refused_read.mp h
  · exact .inl h
  · exact .inr ⟨hgood, test_of_refused h⟩

theorem arg_last (args : List Bytes) : arg args (args.length - 1) = args.getLastD [] := by
  rw [arg, List.getD_eq_getElem?_getD, ← List.getLast?_eq_getElem?, List.getLastD_eq_getLast?]

theorem timeout_refused {is : List ℕ} 
    (h : runPhases args (timeout args :: plain is) = .refused e) :
    stringToUInt32 (args.getLastD []) = none ∧
      .error "timeout is not an integer or out of range" = e := by
  rw [← arg_last]
  exact uint32_eq_some_iff.mp (test_of_refused h)

/-- Two numbers, of which the first may be bad. -/
theorem withInt64_withInt64_refused {b b' : Bytes} {k : ℤ → ℤ → Outcome V Num}
    (h : int64 b = some e ∨ int64 b = none ∧ int64 b' = some e) :
    Refused s e (withInt64 s env b fun v => withInt64 s env b' (k v)) := by
  obtain h | ⟨hgood, h⟩ := h
  · exact withInt64_refused h
  · obtain ⟨v, hv⟩ := Option.isSome_iff_exists.mp (must_eq_none_iff.mp hgood)
    rw [withInt64, hv]
    exact withInt64_refused h

theorem zremRangeByRank_refused
    (h : runPhases args ([read 1 int64, read 2 int64] ++ plain [0]) = .refused e) :
    Refused s e (zremRangeByRank kv s env args) :=
  withInt64_withInt64_refused (tests_of_refused h)

theorem ltrim_refused
    (h : runPhases args ([read 1 int64, read 2 int64] ++ plain [0]) = .refused e) :
    Refused s e (Comms.ltrim kv s env args) :=
  withInt64_withInt64_refused (tests_of_refused h)

theorem select_refused (hmaxdb : argEnv.maxdb = cfg.maxdb)
    (h : runPhases args (dataSteps argEnv args .select) = .refused e) :
    Refused s e (selectDb s env args cfg.maxdb : Outcome V Num) := by
  obtain ⟨hbad, heq⟩ := must_eq_some_iff.mp (@test_of_refused _ _ _ _ [] h)
  cases heq
  unfold selectDb
  cases hn : stringToUInt32 (arg args 0) with
  | none => exact refused_answer _
  | some n =>
    have hge : ¬n < cfg.maxdb := by simpa [hn, hmaxdb] using hbad
    simpa [hge] using refused_answer _

theorem psetEX_refused
    (h : runPhases args (plain [0] ++ [read 1 (uint32 notInteger)] ++ plain [2]) = .refused e) : Refused s e (psetEX kv s env args) := by
  rw [List.append_assoc] at h
  obtain ⟨hnone, heq⟩ := uint32_eq_some_iff.mp (test_of_refused (refused_plain.mp h).2)
  cases heq
  rw [psetEX, hnone]
  exact refused_answer _

theorem setBit_refused
    (h : runPhases args ([read 1 (uint64 notInteger), read 2 bit] ++ plain [0]) =
      .refused e) : Refused s e (setBit kv s env args) := by
  obtain h | ⟨hgood, h⟩ := tests_of_refused h
  · obtain ⟨hbad, heq⟩ := must_eq_some_iff.mp h
    cases heq
    have hnone : stringToUInt64 (arg args 1) = none := by simpa using hbad
    rw [setBit, hnone]
    exact refused_answer _
  · obtain ⟨hbad, heq⟩ := must_eq_some_iff.mp h
    cases heq
    obtain ⟨v, hv⟩ := Option.isSome_iff_exists.mp (must_eq_none_iff.mp hgood)
    have hbits : arg args 2 ≠ [49] ∧ arg args 2 ≠ [48] := by simpa using hbad
    rw [setBit, hv]
    dsimp only
    rw [if_pos hbits]
    exact refused_answer _

theorem move_refused
    (h : runPhases args ([read 1 (uint32 notInteger)] ++ plain [0]) = .refused e) :
    Refused s e (Comms.move kv s env args) := by
  obtain ⟨hnone, heq⟩ := uint32_eq_some_iff.mp (test_of_refused h)
  cases heq
  rw [Comms.move, hnone]
  exact refused_answer _

theorem spop_refused (h : runPhases args (srandMember args) = .refused e) :
    Refused s e (Comms.spop kv s env args) := by
  unfold srandMember at h
  split at h
  · next hlen =>
    rw [Comms.spop, if_pos hlen]
    exact withInt64_refused (test_of_refused h)
  · exact absurd h refused_plain_end

theorem linsert_refused (h : runPhases args linsert = .refused e) :
    Refused s e (Comms.linsert kv s env args) := by
  obtain ⟨hbad, heq⟩ := must_eq_some_iff.mp (test_of_refused h)
  cases heq
  rw [Comms.linsert, if_neg (by simpa using hbad)]
  exact refused_answer _

theorem set_refused (h : runPhases args (plain [0, 1] ++ [optionsFrom 2 setSpec]) =
    .refused e) : Refused s e (Comms.set kv s env args) := by
  obtain h | h := refused_options (refused_plain.mp h).2
  · obtain ⟨text', heq, hopts⟩ := setOptions_of_refused h ⟨-1, -1, -1⟩
    cases heq
    rw [Comms.set, hopts]
    exact refused_answer _
  · exact absurd h refused_nil

theorem mset_refused (msetnx : Bool) (h : runPhases args (mset args) = .refused e) :
    Refused s e (Comms.mset kv s env args msetnx) := by
  obtain ⟨hodd, heq⟩ | ⟨-, h⟩ := refused_errorIf.mp h
  · cases heq
    rw [Comms.mset, if_pos hodd]
    exact refused_answer _
  · obtain h | h := refused_options h
    · exact absurd h pairSpec_ne_refused
    · exact absurd h refused_nil

theorem hmset_refused (h : runPhases args (hmset args) = .refused e) :
    Refused s e (Comms.hmset kv s env args) := by
  obtain ⟨hodd, heq⟩ | ⟨-, h⟩ := refused_errorIf.mp h
  · cases heq
    rw [Comms.hmset, if_pos hodd]
    exact refused_answer _
  · obtain h | h := refused_options h
    · exact absurd h pairSpec_ne_refused
    · exact absurd h refused_plain_end

theorem zinterStore_eq (args : List Bytes) : zinterStore args = plain [0] ++
    (read 1 (must (fun b => (stringToInt32 b).elim false (0 < ·)) invalidArgs) ::
      errorIf (args.length < numkeys args + 1) invalidArgs ::
      (plain (List.range' 2 (numkeys args))
        ++ [optionsFrom (numkeys args + 2) (zstoreSpec (numkeys args))])) := by
  simp [zinterStore]

theorem zinterStore_refused (inter : Bool) (h : runPhases args (zinterStore args) =
    .refused e) : Refused s e (Comms.zinterStore kv s env args inter) := by
  have hanswer : ∀ o : Outcome V Num, o = .answer s env (fillErrorReply .invalidArgs) →
      Refused s invalidArgs o := by
    rintro o rfl
    exact refused_answer _
  rw [zinterStore_eq] at h
  obtain ⟨-, h⟩ := refused_plain.mp h
  obtain ⟨-, h | ⟨hgood, h⟩⟩ := refused_read.mp h
  · obtain ⟨hbad, heq⟩ := must_eq_some_iff.mp h
    cases heq
    refine hanswer _ ?_
    unfold Comms.zinterStore
    cases hn : stringToInt32 (arg args 1) with
    | none => rfl
    | some n =>
      have hle : n ≤ 0 := by simpa [hn] using hbad
      simp [hle]
  · rw [must_eq_none_iff] at hgood
    cases hn : stringToInt32 (arg args 1) with
    | none => simp [hn] at hgood
    | some n =>
      have hpos : 0 < n := by simpa [hn] using hgood
      have hnum : numkeys args = n.toNat := by simp [numkeys, hn]
      obtain ⟨hshort, heq⟩ | ⟨hroom, h⟩ := refused_errorIf.mp h
      · cases heq
        refine hanswer _ ?_
        have hlt : (args.length : ℤ) < n + 1 := by omega
        simp [Comms.zinterStore, hn, hlt]
      · obtain ⟨-, h⟩ := refused_plain.mp h
        obtain h | h := refused_options h
        · have hlen : (args.drop (numkeys args + 2)).length ≤ args.length := by simp
          obtain ⟨heq, hopts⟩ := @zstoreOptions_of_refused _ _ _ _ h _ hlen [] rfl []
          cases heq
          refine hanswer _ ?_
          have hle : ¬n ≤ 0 := by omega
          have hlt : ¬(args.length : ℤ) < n + 1 := by omega
          rw [hnum] at hopts
          simp [Comms.zinterStore, hn, hle, hlt, hopts]
        · exact absurd h refused_nil

/-- **Refused arguments.** Where the reads of a handler end in an error reply, the handler answers
with that error and has not changed the store. Only `SORT` refuses without a reply. -/
theorem refused_handler (he : e ≠ .noReply)
    (henv : ∀ b, argEnv.isDouble b = (kv.stringToDouble b).isSome) (hmaxdb : argEnv.maxdb = cfg.maxdb) (cmd : DataCommand) (hcmd : ∀ query, cmd ≠ .read query)
    (h : (Setting.data cmd).parse argEnv args = .refused e) :
    Refused s e (cmd.handler cfg kv s env args) := by
  change runPhases args (dataSteps argEnv args cmd) = _ at h
  cases cmd with
  | read query => exact absurd rfl (hcmd query)
  | append | setnx | getset | rename | renamenx | rpoplpush | persist | decr | incr | lpop | rpop
  | hset | hsetnx | smove | zremrangebyscore | zremrangebylex | del =>
    exact absurd h refused_plain_end
  | flushdb | flushall => exact absurd h refused_nil
  | hdel | sadd | sdiffstore | sinterstore | sunionstore | srem | zrem | lpush | lpushx | rpush
  | rpushx | pfmerge | pfadd | bitop => exact absurd (refused_plain.mp h).2 refused_plain_end
  | import_ =>
    simp only [dataSteps] at h
    split at h
    · exact absurd h refused_plain_end
    · exact absurd h refused_nil
  | expire | pexpire | expireat | pexpireat =>
    rw [DataCommand.handler]
    exact withUInt64_refused (test_of_refused h)
  | decrby | incrby | setex | setrange | lrem | lset | hincrby =>
    rw [DataCommand.handler]
    exact withInt64_refused (test_of_refused h)
  | incrbyfloat | hincrbyfloat | zincrby =>
    rw [DataCommand.handler]
    exact withDouble_refused henv (test_of_refused h)
  | zremrangebyrank =>
    rw [DataCommand.handler]
    exact zremRangeByRank_refused h
  | ltrim =>
    rw [DataCommand.handler]
    exact ltrim_refused h
  | select =>
    rw [DataCommand.handler]
    exact select_refused hmaxdb h
  | psetex =>
    rw [DataCommand.handler]
    exact psetEX_refused h
  | setbit =>
    rw [DataCommand.handler]
    exact setBit_refused h
  | move =>
    rw [DataCommand.handler]
    exact move_refused h
  | spop =>
    rw [DataCommand.handler]
    exact spop_refused h
  | linsert =>
    rw [DataCommand.handler]
    exact linsert_refused h
  | set =>
    rw [DataCommand.handler]
    exact set_refused h
  | mset =>
    rw [DataCommand.handler]
    exact mset_refused false h
  | msetnx =>
    rw [DataCommand.handler]
    exact mset_refused true h
  | hmset =>
    rw [DataCommand.handler]
    exact hmset_refused h
  | zinterstore =>
    rw [DataCommand.handler]
    exact zinterStore_refused true h
  | zunionstore =>
    rw [DataCommand.handler]
    exact zinterStore_refused false h
  | zadd =>
    change runPhases args (optionsFrom 1 (scoreSpec argEnv) :: plain [0]) = _ at h
    obtain h | h := refused_options h
    · obtain ⟨heq, hpairs⟩ := scorePairs_of_refused henv h
      cases heq
      rw [DataCommand.handler, Comms.zadd, hpairs]
      exact refused_answer _
    · exact absurd h refused_plain_end
  | geoadd =>
    change runPhases args (optionsFrom 2 (pointSpec argEnv) :: plain [0, 1]) = _ at h
    obtain h | h := refused_options h
    · have hlen : (args.drop 2).length ≤ args.length := by simp
      obtain ⟨heq, hpoints⟩ := geoPoints_of_refused henv h hlen
      cases heq
      rw [DataCommand.handler, geoAdd, hpoints]
      exact refused_answer _
    · exact absurd h refused_plain_end
  | sort =>
    obtain h | h := refused_options (refused_plain.mp h).2
    · exact absurd (sortSpec_refused h) he
    · exact absurd h refused_nil
  | blpop | brpop =>
    change runPhases args (timeout args :: plain _) = _ at h
    obtain ⟨hnone, heq⟩ := timeout_refused h
    cases heq
    rw [DataCommand.handler, Comms.blpop, hnone]
    exact refused_answer _
  | brpoplpush =>
    change runPhases args (timeout args :: plain _) = _ at h
    obtain ⟨hnone, heq⟩ := timeout_refused h
    cases heq
    rw [DataCommand.handler, brpopLPush, hnone]
    exact refused_answer _

end Handlers

end Comms.ArgReads
