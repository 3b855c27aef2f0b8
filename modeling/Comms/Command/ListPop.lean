import Comms.Command.Handlers

/-!
# The loop of `BLPOP`

`BLPop` goes over its keys and answers the first element that is not the empty string. An empty
string that it meets on the way has been taken off its list by then. This module says what the loop
leaves of the lists.

* `poppedKeys` — the keys that an element was taken from, in order;
* `popScan_frame`, `popScan_listLen` — each of the lists is shorter by the number of its pops, and
  nothing else changes;
* `popScan_answered` — the key that is answered is the last one popped from.
-/

namespace Comms

section ListPop

variable {V Num : Type} (kv : Kv V Num)

/-- The key that is answered. -/
def PopScan.answered : PopScan → Option Bytes
  | .popped key _ => some key
  | _ => none

/-- The keys that the loop of `BLPOP` takes an element from. -/
def poppedKeys (db : DBID) (lpop : Bool) : List Bytes → Keyspace V → List Bytes
  | [], _ => []
  | key :: keys, s =>
    let r := kv.exec s db (popCall lpop key)
    match r.ret with
    | .ok 0 => key :: if r.str ≠ [] then [] else poppedKeys db lpop keys r.store
    | .err .entryNotExist | .err .dbNotExist => poppedKeys db lpop keys r.store
    | _ => []

variable {kv} {s : Keyspace V} {db : DBID} {lpop : Bool}

/-! ### One pop -/

theorem popCall_touches {key : Bytes} (p : DBID × Bytes) :
    (popCall lpop key : KvCall Num).Touches db p ↔ p = (db, key) := by
  cases lpop <;> rfl

/-- What a pop returns: an element, or an error that leaves the store alone. -/
theorem pop_cases (hk : kv.Lawful) (s : Keyspace V) (db : DBID) (lpop : Bool) (key : Bytes) :
    (kv.exec s db (popCall lpop key)).ret = .ok 0 ∨
      ∃ e, (kv.exec s db (popCall lpop key)).ret = .err e ∧
        (kv.exec s db (popCall lpop key)).store = s := by
  cases hret : (kv.exec s db (popCall lpop key)).ret with
  | err e => exact .inr ⟨e, rfl, hk.failed _ _ _ _ hret⟩
  | ok n =>
    have hzero : (popCall lpop key : KvCall Num).ReturnsZero := by cases lpop <;> trivial
    rw [hk.zero _ _ _ _ hzero hret]
    exact .inl rfl

theorem pop_listLen (hk : kv.Lawful) {key : Bytes}
    (h : (kv.exec s db (popCall lpop key)).ret = .ok 0) :
    kv.listLen ((kv.exec s db (popCall lpop key)).store db key) + 1 = kv.listLen (s db key) := by
  cases lpop with
  | true => exact hk.lpop s db key h
  | false => exact hk.rpop s db key h

theorem pop_frame (hk : kv.Lawful) {key k : Bytes} {d : DBID} (h : (d, k) ≠ (db, key)) :
    (kv.exec s db (popCall lpop key)).store d k = s d k :=
  hk.frame _ _ _ _ _ fun ht => h ((popCall_touches _).1 ht)

/-! ### The loop -/

/-- What one round of the loop does, for the loop and for the keys it pops from. -/
inductive PopRound (kv : Kv V Num) (db : DBID) (lpop : Bool) (key : Bytes) (keys : List Bytes)
    (s : Keyspace V) (calls : List (KvCall Num)) : Prop
  /-- An element is answered. -/
  | answered (hret : (kv.exec s db (popCall lpop key)).ret = .ok 0)
      (hscan : popScan kv db lpop (key :: keys) s calls =
        (.popped key (kv.exec s db (popCall lpop key)).str,
          (kv.exec s db (popCall lpop key)).store, calls ++ [popCall lpop key]))
      (hkeys : poppedKeys kv db lpop (key :: keys) s = [key])
  /-- The empty string is dropped. -/
  | dropped (hret : (kv.exec s db (popCall lpop key)).ret = .ok 0)
      (hscan : popScan kv db lpop (key :: keys) s calls =
        popScan kv db lpop keys (kv.exec s db (popCall lpop key)).store
          (calls ++ [popCall lpop key]))
      (hkeys : poppedKeys kv db lpop (key :: keys) s =
        key :: poppedKeys kv db lpop keys (kv.exec s db (popCall lpop key)).store)
  /-- There is no such list. -/
  | missing (hscan : popScan kv db lpop (key :: keys) s calls =
        popScan kv db lpop keys s (calls ++ [popCall lpop key]))
      (hkeys : poppedKeys kv db lpop (key :: keys) s = poppedKeys kv db lpop keys s)
  /-- Another error ends the loop. -/
  | failed (e : KvErr) (hscan : popScan kv db lpop (key :: keys) s calls =
        (.failed (some e), s, calls ++ [popCall lpop key]))
      (hkeys : poppedKeys kv db lpop (key :: keys) s = [])

theorem popRound (hk : kv.Lawful) (db : DBID) (lpop : Bool) (key : Bytes) (keys : List Bytes)
    (s : Keyspace V) (calls : List (KvCall Num)) : PopRound kv db lpop key keys s calls := by
  obtain hret | ⟨e, hret, hs⟩ := pop_cases hk s db lpop key
  · by_cases hstr : (kv.exec s db (popCall lpop key)).str = []
    · exact .dropped hret (by simp [popScan, hret, hstr]) (by simp [poppedKeys, hret, hstr])
    · exact .answered hret (by simp [popScan, hret, hstr]) (by simp [poppedKeys, hret, hstr])
  · by_cases he : e = .entryNotExist ∨ e = .dbNotExist
    · obtain rfl | rfl := he <;>
        exact .missing (by simp [popScan, hret, hs]) (by simp [poppedKeys, hret, hs])
    · refine .failed e ?_ ?_ <;> cases e <;> simp_all [popScan, poppedKeys]

/-- Nothing changes but the lists popped from. -/
theorem popScan_frame (hk : kv.Lawful) {d : DBID} {k : Bytes} (keys : List Bytes) (s : Keyspace V)
    (calls : List (KvCall Num)) (h : ¬(d = db ∧ k ∈ poppedKeys kv db lpop keys s)) :
    (popScan kv db lpop keys s calls).2.1 d k = s d k := by
  induction keys generalizing s calls with
  | nil => rfl
  | cons key keys ih =>
    cases popRound hk db lpop key keys s calls with
    | answered hret hscan hkeys =>
      rw [hkeys] at h
      rw [hscan]
      exact pop_frame hk fun heq => h (by simp_all)
    | dropped hret hscan hkeys =>
      rw [hkeys] at h
      rw [hscan, ih _ _ fun hmem => h ⟨hmem.1, List.mem_cons_of_mem _ hmem.2⟩]
      exact pop_frame hk fun heq => h (by simp_all)
    | missing hscan hkeys =>
      rw [hkeys] at h
      rw [hscan, ih _ _ h]
    | failed e hscan hkeys => rw [hscan]

/-- Each list is shorter by the number of times it was popped from. -/
theorem popScan_listLen (hk : kv.Lawful) (k : Bytes) (keys : List Bytes) (s : Keyspace V)
    (calls : List (KvCall Num)) :
    kv.listLen ((popScan kv db lpop keys s calls).2.1 db k) +
        (poppedKeys kv db lpop keys s).count k = kv.listLen (s db k) := by
  -- one pop shortens its own list and no other
  have hpop : ∀ (s : Keyspace V) (key : Bytes), (kv.exec s db (popCall lpop key)).ret = .ok 0 →
      kv.listLen ((kv.exec s db (popCall lpop key)).store db k) + (if key = k then 1 else 0) =
        kv.listLen (s db k) := by
    intro s key hret
    split
    · next heq => rw [← heq, pop_listLen hk hret]
    · next hne => rw [pop_frame hk fun heq => hne (by simp_all), Nat.add_zero]
  induction keys generalizing s calls with
  | nil => simp [popScan, poppedKeys]
  | cons key keys ih =>
    cases popRound hk db lpop key keys s calls with
    | answered hret hscan hkeys =>
      rw [hscan, hkeys, ← hpop s key hret]
      simp [List.count_singleton]
    | dropped hret hscan hkeys =>
      have hrest := ih (kv.exec s db (popCall lpop key)).store (calls ++ [popCall lpop key])
      rw [hscan, hkeys, ← hpop s key hret, ← hrest, List.count_cons]
      simp [Nat.add_assoc]
    | missing hscan hkeys => rw [hscan, hkeys, ih]
    | failed e hscan hkeys => simp [hscan, hkeys]

/-- A list popped from is not what it was. -/
theorem popScan_changes (hk : kv.Lawful) {k : Bytes} {keys : List Bytes} {s : Keyspace V}
    (calls : List (KvCall Num)) (h : k ∈ poppedKeys kv db lpop keys s) :
    (popScan kv db lpop keys s calls).2.1 db k ≠ s db k := by
  intro heq
  have hlen := @popScan_listLen _ _ kv db lpop hk k keys s calls
  have hpos := List.count_pos_iff.2 h
  rw [heq] at hlen
  omega

/-- The key that is answered is the last one popped from. -/
theorem popScan_answered (hk : kv.Lawful) {key : Bytes} (keys : List Bytes) (s : Keyspace V)
    (calls : List (KvCall Num))
    (h : (popScan kv db lpop keys s calls).1.answered = some key) :
    (poppedKeys kv db lpop keys s).getLast? = some key := by
  induction keys generalizing s calls with
  | nil => simp [popScan, PopScan.answered] at h
  | cons k keys ih =>
    cases popRound hk db lpop k keys s calls with
    | answered hret hscan hkeys =>
      rw [hscan] at h
      rw [hkeys]
      simpa [PopScan.answered] using h
    | dropped hret hscan hkeys =>
      rw [hscan] at h
      rw [hkeys, List.getLast?_cons, ih _ _ h]
      rfl
    | missing hscan hkeys =>
      rw [hscan] at h
      rw [hkeys, ih _ _ h]
    | failed e hscan hkeys => simp [hscan, PopScan.answered] at h

/-- Every pop is one of the calls. -/
theorem popScan_calls (hk : kv.Lawful) {call : KvCall Num} (keys : List Bytes) (s : Keyspace V)
    (calls : List (KvCall Num))
    (h : call ∈ calls ∨ ∃ k ∈ poppedKeys kv db lpop keys s, call = popCall lpop k) :
    call ∈ (popScan kv db lpop keys s calls).2.2 := by
  induction keys generalizing s calls with
  | nil => simpa [popScan, poppedKeys] using h
  | cons key keys ih =>
    cases popRound hk db lpop key keys s calls with
    | answered hret hscan hkeys =>
      rw [hscan]
      simpa [hkeys] using h
    | dropped hret hscan hkeys =>
      rw [hscan]
      refine ih _ _ ?_
      rw [hkeys] at h
      simpa [or_assoc] using h
    | missing hscan hkeys =>
      rw [hscan]
      refine ih _ _ ?_
      rw [hkeys] at h
      obtain h | h := h
      · exact .inl (List.mem_append_left _ h)
      · exact .inr h
    | failed e hscan hkeys =>
      rw [hscan]
      simp only [hkeys, List.not_mem_nil, false_and, exists_false, or_false] at h
      exact List.mem_append_left _ h

/-- With one pop in all, the loop does what that pop does to the store. -/
theorem popScan_single (hk : kv.Lawful) {key : Bytes} (keys : List Bytes) (s : Keyspace V)
    (calls : List (KvCall Num)) (h : (popScan kv db lpop keys s calls).1.answered = some key)
    (hone : (poppedKeys kv db lpop keys s).length = 1) :
    (popScan kv db lpop keys s calls).2.1 = (kv.exec s db (popCall lpop key)).store := by
  induction keys generalizing s calls with
  | nil => simp [poppedKeys] at hone
  | cons k keys ih =>
    cases popRound hk db lpop k keys s calls with
    | answered hret hscan hkeys =>
      rw [hscan] at h ⊢
      rw [Option.some.inj h]
    | dropped hret hscan hkeys =>
      -- the element that is answered would be the second one
      rw [hscan] at h
      rw [hkeys, List.length_cons, Nat.add_eq_right, List.length_eq_zero_iff] at hone
      have hlast := popScan_answered hk keys _ _ h
      rw [hone] at hlast
      cases hlast
    | missing hscan hkeys =>
      rw [hscan] at h ⊢
      rw [hkeys] at hone
      exact ih _ _ h hone
    | failed e hscan hkeys =>
      rw [hkeys] at hone
      cases hone

/-- **The loop against one pop.** Popping the answered key once gives the same store if and only if
nothing was dropped on the way. -/
theorem popScan_eq_pop_iff (hk : kv.Lawful) {key : Bytes} {keys : List Bytes} {s : Keyspace V}
    {calls : List (KvCall Num)} (h : (popScan kv db lpop keys s calls).1.answered = some key) :
    (kv.exec s db (popCall lpop key)).store = (popScan kv db lpop keys s calls).2.1 ↔
      (poppedKeys kv db lpop keys s).length = 1 := by
  refine ⟨fun heq => ?_, fun hone => (popScan_single hk keys s calls h hone).symm⟩
  -- compare the lengths of the lists
  have hlen : ∀ k, kv.listLen ((kv.exec s db (popCall lpop key)).store db k) +
      (poppedKeys kv db lpop keys s).count k = kv.listLen (s db k) := by
    intro k
    rw [heq]
    exact popScan_listLen hk k keys s calls
  have hmem : key ∈ poppedKeys kv db lpop keys s :=
    List.mem_of_getLast? (popScan_answered hk keys s calls h)
  have hall : ∀ k ∈ poppedKeys kv db lpop keys s, key = k := by
    intro k hkmem
    by_contra hne
    have hcount := hlen k
    have hpos := List.count_pos_iff.2 hkmem
    rw [pop_frame hk fun heq => hne (Prod.mk.inj heq).2.symm] at hcount
    omega
  have hcount : (poppedKeys kv db lpop keys s).count key ≤ 1 := by
    have hkey := hlen key
    obtain hret | ⟨e, -, hsame⟩ := pop_cases hk s db lpop key
    · rw [← pop_listLen hk hret] at hkey
      omega
    · rw [hsame] at hkey
      omega
  rw [List.count_eq_length.2 hall] at hcount
  have hpos := List.length_pos_of_mem hmem
  omega

end ListPop

end Comms
