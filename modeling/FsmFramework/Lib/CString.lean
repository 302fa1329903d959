import Mathlib.Data.UInt
import Mathlib.Data.List.Basic
import Mathlib.Data.List.TakeWhile

/-!
# Byte strings

`std::string` as a list of bytes, with the member functions that parsers by hand are written
in, and `strtoul`. A position past the end makes `substr` throw, which is `none` here; `npos`,
the answer of a search that finds nothing, is `none` too.

## Main definitions

* `CString.find`, `CString.substr`, `CString.startsWith` — the members.
* `CString.strtoul` — the number and the end pointer, in base 10, with 64 bits.
-/

/-- A string of bytes. -/
abbrev CString := List UInt8

namespace CString

/-- A character constant. -/
def chr (c : Char) : UInt8 := c.toNat.toUInt8

/-- A string literal. -/
def lit (s : String) : CString := s.toList.map chr

/-- The first occurrence of `c` at `pos` or behind. -/
def find (s : CString) (c : UInt8) (pos : ℕ) : Option ℕ :=
  ((s.drop pos).idxOf? c).map (pos + ·)

/-- `substr(pos, count)`, and `substr(pos)` when there is no `count`. -/
def substr (s : CString) (pos : ℕ) (count : Option ℕ) : Option CString :=
  if pos ≤ s.length then
    some (match count with
      | some n => (s.drop pos).take n
      | none => s.drop pos)
  else none

/-- `compare(0, pre.size(), pre)` finds no difference. -/
def startsWith (s pre : CString) : Bool := s.take pre.length = pre

variable {s t pre : CString} {c : UInt8} {pos e : ℕ}

/-! ## Searching -/

theorem find_eq_none_iff : s.find c pos = none ↔ c ∉ s.drop pos := by
  simp [find, List.idxOf?_eq_none_iff]

/-- What lies between the position and the first occurrence, and what lies behind it. -/
theorem find_eq_some (h : s.find c pos = some e) :
    ∃ item, c ∉ item ∧ s.drop pos = item ++ c :: s.drop (e + 1) ∧ e = pos + item.length := by
  obtain ⟨i, hi, rfl⟩ := Option.map_eq_some_iff.mp h
  obtain ⟨hlt, heq, hbefore⟩ := List.idxOf?_eq_some_iff.mp hi
  refine ⟨(s.drop pos).take i, fun hmem => ?_, ?_, ?_⟩
  · obtain ⟨j, hj, hjc⟩ := List.getElem_of_mem hmem
    have hji : j < i := by
      rw [List.length_take] at hj
      omega
    rw [List.getElem_take] at hjc
    exact hbefore j hji hjc
  · have hdrop : s.drop (pos + i + 1) = (s.drop pos).drop (i + 1) := by
      rw [List.drop_drop, Nat.add_assoc]
    rw [hdrop, ← heq, List.getElem_cons_drop, List.take_append_drop]
  · rw [List.length_take, Nat.min_eq_left hlt.le]

/-- A position that a search has found is inside the string. -/
theorem find_lt_length (h : s.find c pos = some e) : pos ≤ e ∧ e < s.length := by
  obtain ⟨item, -, hdrop, rfl⟩ := find_eq_some h
  have hlen := congrArg List.length hdrop
  simp only [List.length_drop, List.length_append, List.length_cons] at hlen
  omega

/-- A `substr` up to an occurrence that was searched for from the same position. -/
theorem substr_find (h : s.find c pos = some e) :
    ∃ item, s.substr pos (some (e - pos)) = some item ∧ c ∉ item ∧
      s.drop pos = item ++ c :: s.drop (e + 1) := by
  have hle : pos ≤ s.length := by
    have := find_lt_length h
    omega
  obtain ⟨item, hitem, hdrop, rfl⟩ := find_eq_some h
  refine ⟨item, ?_, hitem, hdrop⟩
  rw [substr, if_pos hle, Nat.add_sub_cancel_left]
  simp [hdrop]

/-! ## Prefixes -/

theorem startsWith_iff : s.startsWith pre = true ↔ ∃ rest, s = pre ++ rest := by
  rw [startsWith, decide_eq_true_eq]
  constructor
  · intro h
    refine ⟨s.drop pre.length, ?_⟩
    calc s = s.take pre.length ++ s.drop pre.length := (List.take_append_drop ..).symm
      _ = pre ++ s.drop pre.length := by rw [h]
  · rintro ⟨rest, rfl⟩
    simp

/-! ## Numbers -/

/-- `c_str()`, up to its terminating zero. -/
def cStr (s : CString) : CString := s.takeWhile (· ≠ 0)

theorem cStr_eq_self (h : 0 ∉ s) : s.cStr = s := by
  rw [cStr, List.takeWhile_eq_self_iff]
  exact fun c hc => decide_eq_true fun hz => h (hz ▸ hc)

/-- `isspace` in the C locale. -/
def isSpace (c : UInt8) : Bool := c.toNat = 32 ∨ 9 ≤ c.toNat ∧ c.toNat ≤ 13

def isDigit (c : UInt8) : Bool := 48 ≤ c.toNat ∧ c.toNat ≤ 57

/-- What a string of digits denotes. -/
def decimal (ds : CString) : ℕ := ds.foldl (fun n c => 10 * n + (c.toNat - 48)) 0

/-- The value `strtoul` gives to a decimal number with this sign. -/
def ulong (negative : Bool) (n : ℕ) : UInt64 :=
  if n ≥ 2 ^ 64 then UInt64.ofNat (2 ^ 64 - 1)
  else if negative then -UInt64.ofNat n else UInt64.ofNat n

/-- Up to 64 bits, a number without a minus denotes itself. -/
theorem ulong_toNat {n : ℕ} (hn : n < 2 ^ 64) : (ulong false n).toNat = n := by
  rw [ulong, if_neg (by omega)]
  exact UInt64.toNat_ofNat_of_lt' hn

/-- A value below the largest one was not saturated. -/
theorem ulong_toNat_of_lt {n : ℕ} (h : (ulong false n).toNat < 2 ^ 64 - 1) :
    (ulong false n).toNat = n := by
  refine ulong_toNat (by_contra fun hn => ?_)
  rw [ulong, if_pos (by omega)] at h
  revert h
  decide

/-- The sign in front of a number, and what follows. -/
def sign (s : CString) : Bool × CString :=
  match s with
  | c :: rest =>
      if c = chr '-' then (true, rest) else if c = chr '+' then (false, rest) else (false, s)
  | [] => (false, s)

/-- `strtoul(s, &end, 10)`: the number, and the string that `end` points to. White space and a
sign are passed over; without a digit behind them the conversion fails and `end` stays in
front. -/
def strtoul (s : CString) : UInt64 × CString :=
  let (negative, number) := sign (s.dropWhile isSpace)
  let digits := number.takeWhile isDigit
  if digits = [] then (0, s) else (ulong negative (decimal digits), number.dropWhile isDigit)

/-- A sign in front of a number. -/
inductive Sign : CString → Bool → Prop
  | none : Sign [] false
  | plus : Sign [chr '+'] false
  | minus : Sign [chr '-'] true

/-- A whole string that `strtoul` reads: white space, a sign, and one or more digits. -/
inductive Number : CString → UInt64 → Prop
  | mk {ws sgn ds : CString} {negative : Bool} (hws : ∀ c ∈ ws, isSpace c = true)
      (hsgn : Sign sgn negative) (hne : ds ≠ []) (hds : ∀ c ∈ ds, isDigit c = true) :
      Number (ws ++ (sgn ++ ds)) (ulong negative (decimal ds))

theorem Number.ne_nil {n : UInt64} (h : Number s n) : s ≠ [] := by
  obtain ⟨-, -, hne, -⟩ := h
  simp [hne]

/-- A digit is neither white space nor a sign nor the terminating zero. -/
theorem of_isDigit (h : isDigit c = true) :
    isSpace c = false ∧ c ≠ chr '-' ∧ c ≠ chr '+' ∧ c ≠ 0 := by
  simp only [isDigit, decide_eq_true_eq] at h
  refine ⟨?_, ?_, ?_, ?_⟩
  · simp only [isSpace, decide_eq_false_iff_not]
    omega
  all_goals
    rintro rfl
    revert h
    decide

/-- The sign is what the number starts with. -/
theorem sign_spec (s : CString) :
    ∃ sgn, s = sgn ++ (sign s).2 ∧ Sign sgn (sign s).1 := by
  cases s with
  | nil => exact ⟨[], rfl, .none⟩
  | cons c rest =>
      rw [sign]
      split
      · rename_i hminus
        exact ⟨[chr '-'], by rw [hminus]; rfl, .minus⟩
      · split
        · rename_i hplus
          exact ⟨[chr '+'], by rw [hplus]; rfl, .plus⟩
        · exact ⟨[], rfl, .none⟩

/-- In front of digits, the sign is found as it was written. -/
theorem sign_append {sgn ds : CString} {negative : Bool} (hsgn : Sign sgn negative)
    (hds : ∀ c ∈ ds, isDigit c = true) : sign (sgn ++ ds) = (negative, ds) := by
  cases hsgn with
  | none =>
      cases ds with
      | nil => rfl
      | cons d ds =>
          obtain ⟨-, hminus, hplus, -⟩ := of_isDigit (hds d List.mem_cons_self)
          rw [List.nil_append, sign, if_neg hminus, if_neg hplus]
  | plus | minus => rfl

/-- Neither a sign nor a digit is white space. -/
theorem dropWhile_sign {sgn ds : CString} {negative : Bool} (hsgn : Sign sgn negative)
    (hds : ∀ c ∈ ds, isDigit c = true) : (sgn ++ ds).dropWhile isSpace = sgn ++ ds := by
  cases hsgn with
  | none =>
      cases ds with
      | nil => rfl
      | cons d ds =>
          obtain ⟨hspace, -⟩ := of_isDigit (hds d List.mem_cons_self)
          exact List.dropWhile_cons_of_neg (by simp [hspace])
  | plus | minus => rfl

/-- **`strtoul` reads the whole of a non-empty string** exactly when the string is a number. -/
theorem strtoul_eq_nil_iff (hs : s ≠ []) {n : UInt64} : s.strtoul = (n, []) ↔ Number s n := by
  constructor
  · intro h
    obtain ⟨sgn, hsplit, hsgn⟩ := sign_spec (s.dropWhile isSpace)
    simp only [strtoul] at h
    split at h
    · exact absurd (congrArg Prod.snd h) hs
    · rename_i hdigits
      obtain ⟨rfl, hrest⟩ := Prod.mk.inj h
      have hall := List.dropWhile_eq_nil_iff.mp hrest
      have hself := List.takeWhile_eq_self_iff.mpr hall
      rw [hself] at hdigits ⊢
      have hs' : s = s.takeWhile isSpace ++ (sgn ++ (sign (s.dropWhile isSpace)).2) := by
        rw [← hsplit, List.takeWhile_append_dropWhile]
      have hws : ∀ c ∈ s.takeWhile isSpace, isSpace c = true :=
        fun c hc => List.mem_takeWhile_imp hc
      have hnum := Number.mk hws hsgn hdigits hall
      rwa [← hs'] at hnum
  · rintro ⟨hws, hsgn, hne, hds⟩
    simp only [strtoul]
    rw [List.dropWhile_append_of_pos hws, dropWhile_sign hsgn hds, sign_append hsgn hds,
      List.takeWhile_eq_self_iff.mpr hds, List.dropWhile_eq_nil_iff.mpr hds, if_neg hne]

end CString
