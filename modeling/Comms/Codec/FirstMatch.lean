import Comms.Codec.Peek

/-!
# Where a search ends

`Buffer::IndexOf` of `buffer/buffer.cpp` looks for the first byte of the pattern and compares the
pattern there. After a comparison that fails it goes on behind all the bytes it has just compared, so
a match that starts among them is stepped over: of CR CR LF the second CR is never tried.

* `Buffer.Tried` — the positions at which the pattern is compared;
* `Buffer.Hidden` — a match lies among the bytes of an earlier comparison;
* `Buffer.indexOf_hidden`, `Buffer.indexOf_seen` — what the search does with the first match;
* `hidden_crlf_iff` — for CRLF, what counts is how many CRs stand in front of it;
* `first_match_iff` — when the search, and the parser of inline lines with it, is right.
-/

namespace Comms

namespace Buffer

/-- `IndexOf`, as the `int` it returns. -/
def indexOfInt (b : Buffer) (data : Bytes) (start end_ : ℕ) : ℤ :=
  match b.indexOf data start end_ with
  | none => -1
  | some p => (p : ℤ).bmod (2 ^ 32)

/-- The pattern matches at `i`, inside the range. -/
def MatchAt (b : Buffer) (data : Bytes) (start end_ i : ℕ) : Prop :=
  start ≤ i ∧ i + data.length ≤ end_ ∧ Circular.slice b.mem i data.length = data

/-- `i` is where the pattern matches first. -/
def FirstMatch (b : Buffer) (data : Bytes) (start end_ i : ℕ) : Prop :=
  IsLeast {j | b.MatchAt data start end_ j} i

/-- The search answers with the first match, and with `-1` when there is none. -/
def FindsFirst (b : Buffer) (data : Bytes) (start end_ : ℕ) : Prop :=
  (∀ i, b.FirstMatch data start end_ i → b.indexOfInt data start end_ = i) ∧
    ((∀ i, ¬ b.MatchAt data start end_ i) → b.indexOfInt data start end_ = -1)

/-- The positions a search compares the pattern at: the next occurrence of its first byte, and
after a comparison that fails the next one behind the bytes compared. -/
inductive Tried (b : Buffer) (data : Bytes) (end_ : ℕ) : ℕ → ℕ → Prop
  | here {start p : ℕ} (found : b.memchr (data.headD 0) start (end_ - start) = some p) :
      Tried b data end_ start p
  | behind {start q p : ℕ} (found : b.memchr (data.headD 0) start (end_ - start) = some q)
      (differs : Circular.slice b.mem q data.length ≠ data)
      (next : Tried b data end_ (q + data.length) p) : Tried b data end_ start p

/-- An earlier comparison has taken in the first byte of the match at `i`. -/
def Hidden (b : Buffer) (data : Bytes) (start end_ i : ℕ) : Prop :=
  ∃ p, b.Tried data end_ start p ∧ p < i ∧ i < p + data.length

/-! ### The first byte -/

variable {b : Buffer} {data : Bytes} {start end_ i : ℕ}

/-- `memchr` finds the first occurrence. -/
theorem memchr_eq_some {ch : UInt8} {n p : ℕ} (h : b.memchr ch start n = some p) :
    start ≤ p ∧ p < start + n ∧ b.mem[p]? = some ch ∧
      ∀ j, start ≤ j → j < p → b.mem[j]? ≠ some ch := by
  obtain ⟨k, hk, rfl⟩ := Option.map_eq_some_iff.mp h
  obtain ⟨hlt, hch, hbefore⟩ := List.findIdx?_eq_some_iff_getElem.mp hk
  have hn : k < n := lt_of_lt_of_le hlt (by simp [Circular.slice])
  refine ⟨Nat.le_add_right _ _, by omega, ?_, fun j hj hjp => ?_⟩
  · rw [← Circular.slice_getElem? _ _ _ _ hn, List.getElem?_eq_getElem hlt]
    exact congrArg some (by simpa using hch)
  · obtain ⟨m, rfl⟩ := Nat.exists_eq_add_of_le hj
    have hm : m < k := by omega
    have hne := hbefore m hm
    rw [← Circular.slice_getElem? _ _ _ _ (hm.trans hn), List.getElem?_eq_getElem (hm.trans hlt)]
    intro heq
    exact hne (by simpa using Option.some.inj heq)

/-- `memchr` finds something at or before every occurrence in the range. -/
theorem memchr_le {ch : UInt8} {n i : ℕ} (hs : start ≤ i) (hi : i < start + n)
    (hch : b.mem[i]? = some ch) : ∃ p, b.memchr ch start n = some p ∧ p ≤ i := by
  obtain ⟨m, rfl⟩ := Nat.exists_eq_add_of_le hs
  have hm : m < n := by omega
  have hget : (Circular.slice b.mem start n)[m]? = some ch := by
    rwa [Circular.slice_getElem? _ _ _ _ hm]
  cases hp : b.memchr ch start n with
  | none =>
    have hnone := List.findIdx?_eq_none_iff.mp (Option.map_eq_none_iff.mp hp)
    simpa using hnone ch (List.mem_of_getElem? hget)
  | some p =>
    obtain ⟨-, -, -, hbefore⟩ := memchr_eq_some hp
    refine ⟨p, rfl, Nat.le_of_not_lt fun hlt => hbefore _ (Nat.le_add_right _ _) hlt hch⟩

/-- A match starts with the first byte of the pattern. -/
theorem MatchAt.head (h : b.MatchAt data start end_ i) (hne : data ≠ []) :
    b.mem[i]? = some (data.headD 0) := by
  obtain ⟨c, rest, rfl⟩ := List.exists_cons_of_ne_nil hne
  have hget := congrArg (fun l => l[0]?) h.2.2
  rwa [Circular.slice_getElem? _ _ _ _ (by simp), Nat.add_zero] at hget

/-! ### The loop -/

/-- The bytes behind a position tried are behind the start of the search. -/
theorem Tried.start_le {p : ℕ} (h : b.Tried data end_ start p) : start ≤ p := by
  induction h with
  | here found => exact (memchr_eq_some found).1
  | behind found _ _ ih =>
    have := (memchr_eq_some found).1
    omega

/-- **What the loop finds.** A position that is tried and at which the pattern matches. -/
theorem indexOfLoop_eq_some (hne : data ≠ []) {fuel p : ℕ}
    (h : b.indexOfLoop data end_ fuel start = some p) :
    b.Tried data end_ start p ∧ p + data.length ≤ end_ ∧
      Circular.slice b.mem p data.length = data := by
  have hpos : 0 < data.length := List.length_pos_iff.mpr hne
  induction fuel generalizing start with
  | zero => cases h
  | succ fuel ih =>
    unfold indexOfLoop at h
    split at h
    swap
    · cases h
    split at h
    · cases h
    next q hq =>
    split at h
    swap
    · cases h
    next hin =>
    split at h
    · -- a pattern of one byte is not compared again
      next hone =>
      obtain rfl := Option.some.inj h
      obtain ⟨c, rfl⟩ := List.length_eq_one_iff.mp hone
      obtain ⟨-, -, hch, -⟩ := memchr_eq_some hq
      refine ⟨.here hq, by omega, List.ext_getElem? fun j => ?_⟩
      cases j with
      | zero => rw [Circular.slice_getElem? _ _ _ _ (by simp)]; exact hch
      | succ j => simp [Circular.slice]
    split at h
    · next hdata =>
      split at h
      · cases h
      · obtain rfl := Option.some.inj h
        exact ⟨.here hq, by omega, hdata⟩
    · next hdata =>
      obtain ⟨htried, hrest⟩ := ih h
      exact ⟨.behind hq hdata htried, hrest⟩

/-- A match that is tried is found. -/
theorem indexOfLoop_of_tried {p : ℕ} (h : b.Tried data end_ start p)
    (hin : p + data.length ≤ end_) (hdata : Circular.slice b.mem p data.length = data)
    (hne : data ≠ []) {fuel : ℕ} (hfuel : end_ < start + fuel) :
    b.indexOfLoop data end_ fuel start = some p := by
  have hpos : 0 < data.length := List.length_pos_iff.mpr hne
  induction h generalizing fuel with
  | @here start p found =>
    have hs := (memchr_eq_some found).1
    obtain ⟨fuel, rfl⟩ := Nat.exists_eq_add_of_lt (show 0 < fuel by omega)
    rw [Nat.zero_add, indexOfLoop, if_pos (by omega), found]
    dsimp only
    rw [if_pos (by omega), if_pos hdata, if_neg (show ¬ end_ < p + data.length by omega), ite_self]
  | @behind start q p found differs next ih =>
    have hs := (memchr_eq_some found).1
    have hq := next.start_le
    obtain ⟨fuel, rfl⟩ := Nat.exists_eq_add_of_lt (show 0 < fuel by omega)
    have hone : data.length ≠ 1 := by
      -- a pattern of one byte cannot differ where its first byte stands
      intro hone
      obtain ⟨c, rfl⟩ := List.length_eq_one_iff.mp hone
      obtain ⟨-, -, hch, -⟩ := memchr_eq_some found
      refine differs (List.ext_getElem? fun j => ?_)
      cases j with
      | zero => rw [Circular.slice_getElem? _ _ _ _ (by simp)]; exact hch
      | succ j => simp [Circular.slice]
    rw [Nat.zero_add, indexOfLoop, if_pos (by omega), found]
    dsimp only
    rw [if_pos (by omega), if_neg hone, if_neg differs]
    exact ih hin hdata (by omega)

/-- **The answer of a search**: the position that is tried and matches. -/
theorem indexOf_eq_some_iff (hne : data ≠ []) (hend : end_ ≤ b.writeIdx) {p : ℕ} :
    b.indexOf data start end_ = some p ↔
      b.Tried data end_ start p ∧ b.MatchAt data start end_ p := by
  have hpos : 0 < data.length := List.length_pos_iff.mpr hne
  constructor
  · intro h
    obtain ⟨hs, hin, -⟩ := indexOf_bounds h
    unfold indexOf at h
    rw [if_neg hne, if_neg (by omega)] at h
    obtain ⟨htried, -, hdata⟩ := indexOfLoop_eq_some hne h
    exact ⟨htried, hs, hin, hdata⟩
  · rintro ⟨htried, hs, hin, hdata⟩
    unfold indexOf
    rw [if_neg hne, if_neg (by omega)]
    exact indexOfLoop_of_tried htried hin hdata hne (by omega)

/-! ### The first match -/

/-- Nothing is tried among the bytes of an earlier comparison. -/
theorem Hidden.not_tried (h : b.Hidden data start end_ i) : ¬ b.Tried data end_ start i := by
  obtain ⟨p, hp, hlt, hin⟩ := h
  induction hp with
  | here found =>
    rintro (found' | ⟨found', -, next⟩)
    · rw [found] at found'
      exact absurd (Option.some.inj found') (by omega)
    · rw [found] at found'
      obtain rfl := Option.some.inj found'
      have := next.start_le
      omega
  | behind found differs next ih =>
    rintro (found' | ⟨found', -, next'⟩)
    · rw [found] at found'
      obtain rfl := Option.some.inj found'
      have := next.start_le
      omega
    · rw [found] at found'
      obtain rfl := Option.some.inj found'
      exact ih hlt hin next'

/-- The first match is tried, unless an earlier comparison hides it. -/
theorem FirstMatch.tried_or_hidden (hne : data ≠ []) (h : b.FirstMatch data start end_ i) :
    b.Tried data end_ start i ∨ b.Hidden data start end_ i := by
  have hpos : 0 < data.length := List.length_pos_iff.mpr hne
  -- by induction on how far the match is away
  induction hn : i - start using Nat.strong_induction_on generalizing start with
  | _ n ih =>
  subst hn
  have hhead := MatchAt.head h.1 hne
  obtain ⟨hs, hin, hdata⟩ := h.1
  obtain ⟨q, hq, hqi⟩ := memchr_le (n := end_ - start) hs (by omega) hhead
  obtain ⟨hsq, -, -, -⟩ := memchr_eq_some hq
  rcases eq_or_lt_of_le hqi with rfl | hlt
  · exact .inl (.here hq)
  have hdiffers : Circular.slice b.mem q data.length ≠ data := by
    intro heq
    have hleast : i ≤ q := h.2 ⟨hsq, by omega, heq⟩
    omega
  by_cases hcov : i < q + data.length
  · exact .inr ⟨q, .here hq, hlt, hcov⟩
  have hnext : b.FirstMatch data (q + data.length) end_ i := by
    refine ⟨⟨by omega, hin, hdata⟩, fun j hj => h.2 ?_⟩
    obtain ⟨hj, hjin, hjdata⟩ := hj
    exact ⟨by omega, hjin, hjdata⟩
  rcases ih _ (by omega) hnext rfl with htried | ⟨p, hp, hpi, hpin⟩
  · exact .inl (.behind hq hdiffers htried)
  · exact .inr ⟨p, .behind hq hdiffers hp, hpi, hpin⟩

/-- A range in which the pattern matches has a first match. -/
theorem MatchAt.first (h : b.MatchAt data start end_ i) :
    ∃ j, b.FirstMatch data start end_ j := by
  classical
  have hex : ∃ j, b.MatchAt data start end_ j := ⟨i, h⟩
  exact ⟨Nat.find hex, Nat.find_spec hex, fun j hj => Nat.find_min' hex hj⟩

/-- An `int` made of an index is that index below `2^31`. -/
theorem bmod_eq_iff {p i : ℕ} :
    (p : ℤ).bmod (2 ^ 32) = i ↔ i < 2 ^ 31 ∧ p % 2 ^ 32 = i := by
  rw [Int.bmod_def]
  split <;> omega

/-- **When a search is right.** The first match has to be an index an `int` can hold, and no
earlier comparison may have taken in its first byte (unless what is found instead looks like it as an
`int`). -/
theorem findsFirst_iff (hne : data ≠ []) (hend : end_ ≤ b.writeIdx) :
    b.FindsFirst data start end_ ↔ ∀ i, b.FirstMatch data start end_ i → i < 2 ^ 31 ∧
      (b.Hidden data start end_ i → ∃ p, b.Tried data end_ start p ∧
        b.MatchAt data start end_ p ∧ p % 2 ^ 32 = i) := by
  constructor
  · rintro ⟨hfirst, -⟩ i hi
    have hint := hfirst i hi
    unfold indexOfInt at hint
    cases hp : b.indexOf data start end_ with
    | none =>
      rw [hp] at hint
      dsimp only at hint
      omega
    | some p =>
      rw [hp] at hint
      obtain ⟨hlt, hmod⟩ := bmod_eq_iff.mp hint
      obtain ⟨htried, hmatch⟩ := (indexOf_eq_some_iff hne hend).mp hp
      exact ⟨hlt, fun _ => ⟨p, htried, hmatch, hmod⟩⟩
  · intro h
    refine ⟨fun i hi => ?_, fun hnone => ?_⟩
    · obtain ⟨hlt, hhidden⟩ := h i hi
      have hfound : ∃ p, b.indexOf data start end_ = some p ∧ p % 2 ^ 32 = i := by
        rcases hi.tried_or_hidden hne with htried | hhid
        · exact ⟨i, (indexOf_eq_some_iff hne hend).mpr ⟨htried, hi.1⟩, Nat.mod_eq_of_lt (by omega)⟩
        · obtain ⟨p, htried, hmatch, hmod⟩ := hhidden hhid
          exact ⟨p, (indexOf_eq_some_iff hne hend).mpr ⟨htried, hmatch⟩, hmod⟩
      obtain ⟨p, hp, hmod⟩ := hfound
      unfold indexOfInt
      rw [hp]
      exact bmod_eq_iff.mpr ⟨hlt, hmod⟩
    · unfold indexOfInt
      cases hp : b.indexOf data start end_ with
      | none => rfl
      | some p => exact absurd ((indexOf_eq_some_iff hne hend).mp hp).2 (hnone p)

/-! ### CRLF -/

/-- One more byte of a line, behind `n` CRs in a row. -/
def crStep (n : ℕ) (c : UInt8) : ℕ := if c = 13 then n + 1 else 0

/-- How many CRs a line ends in. -/
def crTail (line : Bytes) : ℕ := line.foldl crStep 0

theorem crTail_of_not_mem {line : Bytes} (h : (13 : UInt8) ∉ line) : crTail line = 0 := by
  induction line with
  | nil => rfl
  | cons c line ih =>
    rw [List.mem_cons, not_or] at h
    unfold crTail crStep at ih ⊢
    rw [List.foldl_cons, if_neg (Ne.symm h.1)]
    exact ih h.2

/-- Whether the number of CRs is even depends on the CRs before only through that. -/
theorem even_foldl_crStep (ys : Bytes) {m n : ℕ} (h : Even m ↔ Even n) :
    Even (ys.foldl crStep m) ↔ Even (ys.foldl crStep n) := by
  induction ys generalizing m n with
  | nil => exact h
  | cons y ys ih =>
    refine ih ?_
    unfold crStep
    split
    · rw [Nat.even_add_one, Nat.even_add_one, h]
    · rfl

/-- A CR and the byte behind it leave the number of CRs at the end even or odd as it is. -/
theorem even_crTail_pair {xs : Bytes} (hxs : (13 : UInt8) ∉ xs) (y : UInt8) (ys : Bytes) :
    Even (crTail (xs ++ 13 :: y :: ys)) ↔ Even (crTail ys) := by
  have hzero := crTail_of_not_mem hxs
  unfold crTail at hzero ⊢
  rw [List.foldl_append, hzero, List.foldl_cons, List.foldl_cons]
  refine even_foldl_crStep ys ?_
  unfold crStep
  split <;> simp

/-- One comparison that fails, in front of everything that counts. -/
theorem hidden_behind {q : ℕ} (hq : b.memchr (data.headD 0) start (end_ - start) = some q)
    (hdiffers : Circular.slice b.mem q data.length ≠ data) (hqi : q + data.length ≤ i) :
    b.Hidden data start end_ i ↔ b.Hidden data (q + data.length) end_ i := by
  constructor
  · rintro ⟨p, found | ⟨found, -, next⟩, hpi, hin⟩
    · rw [hq] at found
      obtain rfl := Option.some.inj found
      omega
    · rw [hq] at found
      obtain rfl := Option.some.inj found
      exact ⟨p, next, hpi, hin⟩
  · rintro ⟨p, hp, hpi, hin⟩
    exact ⟨p, .behind hq hdiffers hp, hpi, hin⟩

/-- The first CR from a position on. -/
theorem memchr_cr {xs ys : Bytes} (hmem : b.mem.drop start = xs ++ 13 :: ys)
    (hend : start + xs.length < end_) (hxs : (13 : UInt8) ∉ xs) :
    b.memchr (kCRLF.headD 0) start (end_ - start) = some (start + xs.length) := by
  obtain ⟨n, hn⟩ := Nat.exists_eq_add_of_lt hend
  have htake : Circular.slice b.mem start (end_ - start) = xs ++ 13 :: ys.take n := by
    unfold Circular.slice
    rw [hmem, show end_ - start = xs.length + (n + 1) by omega, List.take_length_add_append]
    rfl
  unfold memchr
  rw [htake, kCRLF, List.headD_cons, findIdx?_append_of_not_mem hxs]
  rfl

/-- **CRLF behind CRs.** The first CRLF is hidden just when the line in front of it ends in an odd
number of CRs: they are taken two at a time. -/
theorem hidden_crlf_iff {line behind : Bytes} (hmem : b.mem.drop start = line ++ kCRLF ++ behind)
    (hend : start + line.length + 2 ≤ end_)
    (hfirst : ∀ j < line.length, Circular.slice (line ++ kCRLF ++ behind) j 2 ≠ kCRLF) :
    b.Hidden kCRLF start end_ (start + line.length) ↔ ¬ Even (crTail line) := by
  induction hn : line.length using Nat.strong_induction_on generalizing start line with
  | _ n ih =>
  subst hn
  by_cases hcr : (13 : UInt8) ∈ line
  swap
  · -- the first CR is the one of the CRLF
    have hmem' : b.mem.drop start = line ++ 13 :: (10 :: behind) := by simpa [kCRLF] using hmem
    have hhere := @memchr_cr _ _ end_ _ _ hmem' (by omega) hcr
    rw [crTail_of_not_mem hcr]
    refine iff_of_false (fun h => h.not_tried (.here hhere)) (by decide)
  obtain ⟨xs, ys, rfl, hxs⟩ := List.eq_append_cons_of_mem hcr
  have hmem' : b.mem.drop start = xs ++ 13 :: (ys ++ kCRLF ++ behind) := by simpa using hmem
  simp only [List.length_append, List.length_cons] at hend
  have hq := @memchr_cr _ _ end_ _ _ hmem' (by omega) hxs
  cases ys with
  | nil =>
    -- a single CR in front: its comparison takes in the CR of the CRLF
    refine iff_of_true ⟨_, .here hq, by simp, ?_⟩ ?_
    · simp only [List.length_append, List.length_cons, List.length_nil, kCRLF]
      omega
    · have hzero := crTail_of_not_mem hxs
      unfold crTail at hzero ⊢
      rw [List.foldl_append, hzero]
      decide
  | cons y ys =>
    have hlen : (xs ++ 13 :: y :: ys).length = xs.length + 2 + ys.length := by
      simp only [List.length_append, List.length_cons]
      omega
    have hdrop : b.mem.drop (start + xs.length) = 13 :: y :: (ys ++ kCRLF ++ behind) := by
      rw [← List.drop_drop, hmem', List.drop_left]
      rfl
    have hdiffers : Circular.slice b.mem (start + xs.length) kCRLF.length ≠ kCRLF := by
      have h := hfirst xs.length (by omega)
      unfold Circular.slice at h ⊢
      rw [hdrop]
      simpa [kCRLF] using h
    rw [hlen, hidden_behind hq hdiffers (by simp [kCRLF]; omega)]
    have hrest : b.mem.drop (start + xs.length + 2) = ys ++ kCRLF ++ behind := by
      rw [← List.drop_drop, hdrop]
      rfl
    have hfirst' : ∀ j < ys.length, Circular.slice (ys ++ kCRLF ++ behind) j 2 ≠ kCRLF := by
      intro j hj heq
      refine hfirst (xs.length + 2 + j) (by omega) (Eq.trans ?_ heq)
      unfold Circular.slice
      rw [List.append_assoc, List.append_assoc, Nat.add_assoc, ← List.drop_drop, List.drop_left,
        ← List.drop_drop, List.append_assoc ys]
      rfl
    have hih := ih ys.length (by omega) hrest (by simp at hend; omega) hfirst' rfl
    rw [show start + (xs.length + 2 + ys.length) = start + xs.length + 2 + ys.length by omega]
    exact hih.trans (not_congr (even_crTail_pair hxs y ys).symm)

end Buffer

/-! ### Inline lines -/

/-- `line` is what stands in front of the first CRLF of the bytes. -/
structure FirstCrlf (bs line rest : Bytes) : Prop where
  eq : bs = line ++ kCRLF ++ rest
  first : ∀ j < line.length, Circular.slice bs j 2 ≠ kCRLF

/-- The parser takes the words of the first line and leaves the buffer behind its CRLF; without a
CRLF it waits. -/
def SplitsAtFirst (b : Buffer) (bs : Bytes) (frame : RedisCommandFrame) : Prop :=
  (∀ line rest, FirstCrlf bs line rest → processInlineBuffer b frame =
      .done (frame.pushWords (inlineWords line)) (b.advanceReadIndex (line ++ kCRLF).length)) ∧
    ((∀ line rest, bs ≠ line ++ kCRLF ++ rest) → processInlineBuffer b frame = .more)

section Inline

variable {b : Buffer} {bs : Bytes}

/-- CRLF in the readable bytes is CRLF in the buffer. -/
theorem matchAt_crlf_iff (h : b.Reads bs) {p : ℕ} :
    b.MatchAt kCRLF b.readIdx b.writeIdx p ↔
      ∃ line rest, bs = line ++ kCRLF ++ rest ∧ p = b.readIdx + line.length := by
  have hidx := h.idx
  constructor
  · rintro ⟨hs, hin, hdata⟩
    obtain ⟨n, rfl⟩ := Nat.exists_eq_add_of_le hs
    change _ + 2 ≤ _ at hin
    change Circular.slice b.mem (b.readIdx + n) 2 = kCRLF at hdata
    rw [h.slice (by omega)] at hdata
    refine ⟨bs.take n, bs.drop (n + 2), ?_, ?_⟩
    · rw [← hdata, List.append_assoc]
      unfold Circular.slice
      rw [← List.drop_drop, List.take_append_drop, List.take_append_drop]
    · rw [List.length_take, Nat.min_eq_left (by omega)]
  · rintro ⟨line, rest, rfl, rfl⟩
    simp only [List.length_append] at hidx
    have hlen : kCRLF.length = 2 := rfl
    refine ⟨Nat.le_add_right _ _, by omega, ?_⟩
    rw [h.slice (by simp)]
    unfold Circular.slice
    rw [List.append_assoc, List.drop_left]
    rfl

/-- The first CRLF of the readable bytes is the first match in the buffer. -/
theorem FirstCrlf.firstMatch {line rest : Bytes} (hb : b.Reads bs) (h : FirstCrlf bs line rest) :
    b.FirstMatch kCRLF b.readIdx b.writeIdx (b.readIdx + line.length) := by
  refine ⟨(matchAt_crlf_iff hb).mpr ⟨line, rest, h.eq, rfl⟩, fun j hj => ?_⟩
  obtain ⟨line', rest', heq, rfl⟩ := (matchAt_crlf_iff hb).mp hj
  refine Nat.add_le_add_left (Nat.le_of_not_lt fun hlt => h.first _ hlt ?_) _
  rw [heq, List.append_assoc]
  unfold Circular.slice
  rw [List.drop_left]
  rfl

/-- The parser splits where the search says. -/
theorem processInlineBuffer_of_indexOf {line rest : Bytes} (h : b.Reads (line ++ kCRLF ++ rest))
    (hindex : b.indexOf kCRLF b.readIdx b.writeIdx = some (b.readIdx + line.length))
    (frame : RedisCommandFrame) : processInlineBuffer b frame =
      .done (frame.pushWords (inlineWords line)) (b.advanceReadIndex (line ++ kCRLF).length) := by
  have hfuel : line.length < b.readableBytes + 1 := by
    rw [h.readableBytes, List.length_append, List.length_append]
    omega
  obtain ⟨frame', b', hloop, htail⟩ := inlineLoop_done h hfuel frame
  unfold processInlineBuffer
  rw [hindex]
  dsimp only
  rw [hloop]
  exact htail

/-- **When a line is split right.** The line in front of the first CRLF must end in an even number
of CRs. -/
theorem splitsAtFirst_iff (h : b.Reads bs) (frame : RedisCommandFrame) :
    SplitsAtFirst b bs frame ↔ ∀ line rest, FirstCrlf bs line rest → Even (Buffer.crTail line) := by
  have hne : kCRLF ≠ [] := by decide
  have hlen : kCRLF.length = 2 := rfl
  have hidx := h.idx
  obtain ⟨behind, hmem⟩ := h.mem
  -- the search settles on the first CRLF unless it is hidden
  have hhidden : ∀ line rest, FirstCrlf bs line rest →
      (b.Hidden kCRLF b.readIdx b.writeIdx (b.readIdx + line.length) ↔ ¬ Even (Buffer.crTail line)) := by
    intro line rest hl
    have heq := hl.eq
    subst heq
    simp only [List.length_append] at hidx
    refine Buffer.hidden_crlf_iff (by rw [← List.append_assoc]; exact hmem)
      (by omega) fun j hj => ?_
    rw [← List.append_assoc, Circular.slice_append_left (by simp; omega)]
    exact hl.first j hj
  constructor
  · rintro ⟨hfirst, -⟩ line rest hl
    by_contra hodd
    have hdone := hfirst line rest hl
    have hhid := (hhidden line rest hl).mpr hodd
    cases hp : b.indexOf kCRLF b.readIdx b.writeIdx with
    | none =>
      unfold processInlineBuffer at hdone
      rw [hp] at hdone
      cases hdone
    | some p =>
      -- what is found instead is another CRLF, and the parser splits there
      obtain ⟨htried, hmatch⟩ := (Buffer.indexOf_eq_some_iff hne le_rfl).mp hp
      obtain ⟨line', rest', heq, rfl⟩ := (matchAt_crlf_iff h).mp hmatch
      have hdone' := processInlineBuffer_of_indexOf (heq ▸ h) hp frame
      rw [hdone] at hdone'
      have hread := congrArg Buffer.readIdx (Parsed.done.inj hdone').2
      rw [Buffer.advanceReadIndex_ofNat, Buffer.advanceReadIndex_ofNat, List.length_append,
        List.length_append] at hread
      rw [show line'.length = line.length by omega] at htried
      exact hhid.not_tried htried
  · intro heven
    refine ⟨fun line rest hl => ?_, fun hnone => ?_⟩
    · have hfirst := hl.firstMatch h
      have htried := (hfirst.tried_or_hidden hne).resolve_right
        fun hhid => (hhidden line rest hl).mp hhid (heven line rest hl)
      exact processInlineBuffer_of_indexOf (hl.eq ▸ h)
        ((Buffer.indexOf_eq_some_iff hne le_rfl).mpr ⟨htried, hfirst.1⟩) frame
    · unfold processInlineBuffer
      cases hp : b.indexOf kCRLF b.readIdx b.writeIdx with
      | none => rfl
      | some p =>
        obtain ⟨-, hmatch⟩ := (Buffer.indexOf_eq_some_iff hne le_rfl).mp hp
        obtain ⟨line, rest, heq, -⟩ := (matchAt_crlf_iff h).mp hmatch
        exact absurd heq (hnone line rest)

end Inline

/-- **The first match.** A search finds the first match when that is an index an `int` can hold and
no earlier comparison has taken in its first byte. An inline line is split at the first CRLF when an
even number of CRs stands in front of it. -/
theorem first_match_iff (b : Buffer) (data : Bytes) (start end_ : ℕ) (hne : data ≠ [])
    (_hstart : b.readIdx ≤ start) (_hle : start ≤ end_) (hend : end_ ≤ b.writeIdx) :
    (b.FindsFirst data start end_ ↔ ∀ i, b.FirstMatch data start end_ i → i < 2 ^ 31 ∧
        (b.Hidden data start end_ i → ∃ p, b.Tried data end_ start p ∧
          b.MatchAt data start end_ p ∧ p % 2 ^ 32 = i)) ∧
    ∀ (bs : Bytes) (frame : RedisCommandFrame), b.Reads bs → b.writeIdx < 2 ^ 31 →
      (SplitsAtFirst b bs frame ↔ ∀ line rest, FirstCrlf bs line rest → Even (Buffer.crTail line)) :=
  ⟨Buffer.findsFirst_iff hne hend, fun _ frame h _ => splitsAtFirst_iff h frame⟩

/-- The two parts at a line that ends in two CRs and a CRLF, which is found. -/
theorem first_match_two_crs :
    ((Buffer.wrap [65, 13, 13, 13, 10] 0 5).FindsFirst kCRLF 0 5 ↔
      ∀ i, (Buffer.wrap [65, 13, 13, 13, 10] 0 5).FirstMatch kCRLF 0 5 i → i < 2 ^ 31 ∧
        ((Buffer.wrap [65, 13, 13, 13, 10] 0 5).Hidden kCRLF 0 5 i →
          ∃ p, (Buffer.wrap [65, 13, 13, 13, 10] 0 5).Tried kCRLF 5 0 p ∧
            (Buffer.wrap [65, 13, 13, 13, 10] 0 5).MatchAt kCRLF 0 5 p ∧ p % 2 ^ 32 = i)) ∧
    (SplitsAtFirst (Buffer.wrap [65, 13, 13, 13, 10] 0 5) [65, 13, 13, 13, 10] .empty ↔
      ∀ line rest, FirstCrlf [65, 13, 13, 13, 10] line rest → Even (Buffer.crTail line)) :=
  have h := first_match_iff (Buffer.wrap [65, 13, 13, 13, 10] 0 5) kCRLF 0 5 (by decide) (by decide)
    (by decide) (by decide)
  ⟨h.1, h.2 [65, 13, 13, 13, 10] .empty (Buffer.reads_wrap [65, 13, 13, 13, 10] []) (by decide)⟩

/-- CR CR LF: the first comparison takes in both CRs, and the CRLF is not found. -/
theorem crlf_behind_cr_missed :
    ¬ ∀ (b : Buffer) (data : Bytes) (start end_ : ℕ), data ≠ [] → b.readIdx ≤ start →
      start ≤ end_ → end_ ≤ b.writeIdx → b.FindsFirst data start end_ := by
  intro h
  obtain ⟨hfirst, -⟩ := h (Buffer.wrap [65, 13, 13, 10] 0 4) kCRLF 0 4 (by decide) (by decide)
    (by decide) (by decide)
  have hmatch : (Buffer.wrap [65, 13, 13, 10] 0 4).MatchAt kCRLF 0 4 2 :=
    ⟨by decide, by decide, by decide⟩
  have hleast : (Buffer.wrap [65, 13, 13, 10] 0 4).FirstMatch kCRLF 0 4 2 := by
    refine ⟨hmatch, fun j hj => ?_⟩
    obtain ⟨-, -, hdata⟩ := hj
    by_contra hlt
    have hj : j = 0 ∨ j = 1 := by omega
    rcases hj with rfl | rfl
    · exact absurd hdata (by decide)
    · exact absurd hdata (by decide)
  exact absurd (hfirst 2 hleast) (by decide)

end Comms
