import Mathlib.Data.List.AList
import Mathlib.Data.List.Nodup

/-!
# Names and who is registered for them

A table has, for each name, the set of those who are registered for it. Each of them keeps the set of
its names as well. Nothing here knows what the names are, and who is registered.

* `ListSet` — a set that one can go through;
* `Table.add`, `Table.remove`, `Table.removeAll` — the operations, a name at a time;
* `Table.NoEmpty` — no name is kept for nobody;
* `Table.Agrees` — the table says the same as the sets that everybody keeps;
* `Table.Agrees.add`, `Table.Agrees.remove`, `Table.Agrees.removeAll` — it goes on to do so;
* `Table.send` — something for everybody who is registered for a name of some kind.
-/

/-- A set, its members in some order. -/
structure ListSet (α : Type*) where
  toList : List α
  nodup : toList.Nodup
deriving DecidableEq

namespace ListSet

variable {α : Type*}

instance : EmptyCollection (ListSet α) := ⟨⟨[], List.nodup_nil⟩⟩

instance : Membership α (ListSet α) := ⟨fun s a => a ∈ s.toList⟩

/-- The number of members. -/
def size (s : ListSet α) : ℕ := s.toList.length

@[simp] theorem notMem_empty (a : α) : a ∉ (∅ : ListSet α) := List.not_mem_nil

@[simp] theorem toList_empty : (∅ : ListSet α).toList = [] := rfl

theorem mem_toList {s : ListSet α} {a : α} : a ∈ s.toList ↔ a ∈ s := Iff.rfl

theorem toList_eq_nil_iff {s : ListSet α} : s.toList = [] ↔ s = ∅ := by
  obtain ⟨l, h⟩ := s
  constructor
  · rintro rfl
    rfl
  · intro heq
    rw [heq]
    rfl

theorem size_pos_iff {s : ListSet α} : 0 < s.size ↔ s ≠ ∅ := by
  rw [size, List.length_pos_iff, Ne, toList_eq_nil_iff]

theorem eq_empty_of_forall {s : ListSet α} (h : ∀ a, a ∉ s) : s = ∅ :=
  toList_eq_nil_iff.mp (List.eq_nil_iff_forall_not_mem.mpr h)

variable [DecidableEq α]

instance (a : α) (s : ListSet α) : Decidable (a ∈ s) := inferInstanceAs (Decidable (a ∈ s.toList))

/-- With one more member. -/
def insert (a : α) (s : ListSet α) : ListSet α :=
  if h : a ∈ s then s
  else ⟨s.toList ++ [a], List.nodup_append.mpr
    ⟨s.nodup, List.nodup_singleton a, fun b hb c hc => by
      obtain rfl := List.mem_singleton.mp hc
      rintro rfl
      exact h hb⟩⟩

/-- With one less member. -/
def erase (a : α) (s : ListSet α) : ListSet α := ⟨s.toList.erase a, s.nodup.erase a⟩

@[simp] theorem mem_insert {a b : α} {s : ListSet α} : b ∈ s.insert a ↔ b = a ∨ b ∈ s := by
  unfold insert
  split
  next h =>
    refine ⟨.inr, ?_⟩
    rintro (rfl | hb)
    exacts [h, hb]
  next h =>
    change b ∈ s.toList ++ [a] ↔ _
    rw [List.mem_append, List.mem_singleton, or_comm, mem_toList]

@[simp] theorem mem_erase {a b : α} {s : ListSet α} : b ∈ s.erase a ↔ b ≠ a ∧ b ∈ s :=
  s.nodup.mem_erase_iff

theorem insert_ne_empty (a : α) (s : ListSet α) : s.insert a ≠ ∅ := fun h => by
  have hmem : a ∈ s.insert a := mem_insert.mpr (.inl rfl)
  rw [h] at hmem
  exact notMem_empty a hmem

end ListSet

/-- Names, each with those who are registered for it. -/
abbrev Table (N C : Type*) := AList fun _ : N => ListSet C

namespace Table

variable {N C M : Type*} [DecidableEq N] [DecidableEq C] (t : Table N C) (n : N) (c : C)

/-- Those who are registered for a name. -/
def members : ListSet C := (t.lookup n).getD ∅

/-- One more for a name. -/
def add : Table N C := t.insert n ((t.members n).insert c)

/-- One less for a name; a name without anybody is not kept. -/
def remove : Table N C :=
  match t.lookup n with
  | none => t
  | some s => if s.erase c = ∅ then t.erase n else t.insert n (s.erase c)

/-- One less for each of some names. -/
def removeAll (names : List N) : Table N C := names.foldl (fun t n => t.remove n c) t

/-- Everybody who is registered for a name of some kind gets something for it. -/
def send (p : N → Bool) (f : N → M) : List (C × M) :=
  (t.entries.filter fun e => p e.1).flatMap fun e => e.2.toList.map fun c => (c, f e.1)

/-- No name is kept for nobody. -/
def NoEmpty : Prop := ∀ n, t.lookup n ≠ some ∅

variable {t}

omit [DecidableEq C] in
theorem members_of_lookup {s : ListSet C} (h : t.lookup n = some s) : t.members n = s := by
  rw [members, h]
  rfl

omit [DecidableEq C] in
@[simp] theorem members_empty : (∅ : Table N C).members n = ∅ := rfl

omit [DecidableEq C] in
theorem members_insert {s : ListSet C} (m : N) :
    Table.members (AList.insert n s t) m = if m = n then s else t.members m := by
  unfold members
  split
  next h =>
    subst h
    rw [AList.lookup_insert]
    rfl
  next h => rw [AList.lookup_insert_ne h]

theorem mem_add {m : N} {d : C} :
    d ∈ (t.add n c).members m ↔ m = n ∧ d = c ∨ d ∈ t.members m := by
  rw [add, members_insert]
  split
  next h =>
    subst h
    simp
  next h => simp [h]

theorem mem_remove {m : N} {d : C} :
    d ∈ (t.remove n c).members m ↔ d ∈ t.members m ∧ ¬(m = n ∧ d = c) := by
  unfold remove
  cases hlookup : t.lookup n with
  | none =>
    refine ⟨fun h => ⟨h, ?_⟩, fun h => h.1⟩
    rintro ⟨rfl, -⟩
    rw [members, hlookup] at h
    exact absurd h (ListSet.notMem_empty d)
  | some s =>
    have hs := members_of_lookup n hlookup
    dsimp only
    by_cases hm : m = n
    · subst hm
      have herase : d ∈ s.erase c ↔ d ∈ t.members m ∧ ¬(m = m ∧ d = c) := by
        rw [ListSet.mem_erase, hs]
        tauto
      split
      next hempty =>
        rw [← herase, hempty]
        simp [members]
      next hne =>
        rw [members_insert, if_pos rfl]
        exact herase
    · split
      next => simp [members, AList.lookup_erase_ne hm, hm]
      next => simp [members_insert, hm]

theorem mem_removeAll {names : List N} {m : N} {d : C} :
    d ∈ (t.removeAll c names).members m ↔ d ∈ t.members m ∧ ¬(m ∈ names ∧ d = c) := by
  induction names generalizing t with
  | nil => simp [removeAll]
  | cons n names ih =>
    change d ∈ ((t.remove n c).removeAll c names).members m ↔ _
    rw [ih, mem_remove, List.mem_cons]
    tauto

/-! ### Names for nobody -/

omit [DecidableEq C] in
theorem noEmpty_empty : NoEmpty (∅ : Table N C) := fun n => by simp

theorem NoEmpty.add (h : NoEmpty t) : NoEmpty (t.add n c) := by
  intro m
  by_cases hm : m = n
  · subst hm
    rw [Table.add, AList.lookup_insert]
    exact fun heq => ListSet.insert_ne_empty c _ (Option.some.inj heq)
  · rw [Table.add, AList.lookup_insert_ne hm]
    exact h m

theorem NoEmpty.remove (h : NoEmpty t) : NoEmpty (t.remove n c) := by
  intro m
  unfold Table.remove
  cases hlookup : t.lookup n with
  | none => exact h m
  | some s =>
    dsimp only
    by_cases hm : m = n
    · subst hm
      split
      next => simp
      next hne =>
        rw [AList.lookup_insert]
        exact fun heq => hne (Option.some.inj heq)
    · split
      next =>
        rw [AList.lookup_erase_ne hm]
        exact h m
      next =>
        rw [AList.lookup_insert_ne hm]
        exact h m

theorem NoEmpty.removeAll (h : NoEmpty t) (names : List N) : NoEmpty (t.removeAll c names) := by
  induction names generalizing t with
  | nil => exact h
  | cons n names ih => exact ih (h.remove n c)

omit [DecidableEq C] in
/-- A name with somebody has an entry. -/
theorem lookup_isSome_of_mem {d : C} (h : d ∈ t.members n) : (t.lookup n).isSome := by
  unfold members at h
  cases hlookup : t.lookup n with
  | none =>
    rw [hlookup] at h
    exact absurd h (ListSet.notMem_empty d)
  | some s => rfl

/-! ### The table and the sets -/

/-- Everybody's own set of names says what the table says. -/
def Agrees (t : Table N C) (own : C → Set N) : Prop := ∀ n c, c ∈ t.members n ↔ n ∈ own c

variable {own own' : C → Set N}

theorem Agrees.add (h : Agrees t own) (hc : ∀ m, m ∈ own' c ↔ m = n ∨ m ∈ own c)
    (hother : ∀ d, d ≠ c → own' d = own d) : Agrees (t.add n c) own' := by
  intro m d
  rw [mem_add, h m d]
  by_cases hd : d = c
  · subst hd
    rw [hc]
    tauto
  · rw [hother d hd]
    tauto

theorem Agrees.remove (h : Agrees t own) (hc : ∀ m, m ∈ own' c ↔ m ≠ n ∧ m ∈ own c)
    (hother : ∀ d, d ≠ c → own' d = own d) : Agrees (t.remove n c) own' := by
  intro m d
  rw [mem_remove, h m d]
  by_cases hd : d = c
  · subst hd
    rw [hc]
    tauto
  · rw [hother d hd]
    tauto

/-- All the names of one of them. -/
theorem Agrees.removeAll (h : Agrees t own) {names : List N} (hnames : ∀ m, m ∈ own c → m ∈ names)
    (hc : ∀ m, m ∉ own' c) (hother : ∀ d, d ≠ c → own' d = own d) :
    Agrees (t.removeAll c names) own' := by
  intro m d
  rw [mem_removeAll, h m d]
  by_cases hd : d = c
  · subst hd
    have hm := hnames m
    have hm' := hc m
    tauto
  · rw [hother d hd]
    tauto

/-! ### Something for everybody -/

omit [DecidableEq C] in
theorem mem_send {p : N → Bool} {f : N → M} {c : C} {x : M} :
    (c, x) ∈ t.send p f ↔ ∃ n, p n = true ∧ c ∈ t.members n ∧ x = f n := by
  unfold send
  rw [List.mem_flatMap]
  constructor
  · rintro ⟨⟨n, s⟩, he, hc⟩
    obtain ⟨hmem, hp⟩ := List.mem_filter.mp he
    obtain ⟨d, hd, heq⟩ := List.mem_map.mp hc
    obtain ⟨rfl, rfl⟩ := Prod.mk.inj heq
    refine ⟨n, hp, ?_, rfl⟩
    rw [members_of_lookup n (AList.mem_lookup_iff.mpr hmem)]
    exact hd
  · rintro ⟨n, hp, hc, rfl⟩
    obtain ⟨s, hlookup⟩ := Option.isSome_iff_exists.mp (lookup_isSome_of_mem n hc)
    rw [members_of_lookup n hlookup] at hc
    have hmem : (⟨n, s⟩ : Sigma fun _ : N => ListSet C) ∈ t.entries := AList.mem_lookup_iff.mp hlookup
    exact ⟨⟨n, s⟩, List.mem_filter.mpr ⟨hmem, hp⟩, List.mem_map.mpr ⟨c, hc, rfl⟩⟩

omit [DecidableEq N] [DecidableEq C] in
/-- What is sent for one name is not sent for another one, so that nobody gets it twice. -/
theorem nodup_send {p : N → Bool} {f : N → M} (hf : Function.Injective f) : (t.send p f).Nodup := by
  have hkeys : (t.entries.filter fun e => p e.1).Pairwise fun e e' => e.1 ≠ e'.1 :=
    (List.nodupKeys_iff_pairwise.mp t.nodupKeys).sublist List.filter_sublist
  refine List.nodup_flatMap.mpr ⟨?_, hkeys.imp ?_⟩
  · rintro ⟨n, s⟩ -
    exact s.nodup.map fun c d h => (Prod.mk.inj h).1
  · rintro ⟨n, s⟩ ⟨n', s'⟩ hne x hx hx'
    obtain ⟨c, -, rfl⟩ := List.mem_map.mp hx
    obtain ⟨c', -, heq⟩ := List.mem_map.mp hx'
    exact hne (hf (Prod.mk.inj heq).2).symm

end Table
