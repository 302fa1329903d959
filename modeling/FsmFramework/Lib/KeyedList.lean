import Mathlib.Data.List.Find
import Mathlib.Data.List.Nodup
import Mathlib.Data.List.Sort

/-!
# Lists of records looked up by a key

A list of records together with a projection `key` is a small table: the first record
with a key is the one a linear search finds. The table is well formed when its keys
are pairwise distinct, `(l.map key).Nodup`; the laws that need it say so. One list may
be read under two keys at once, so the key is an argument everywhere.

A table that is kept in the order of its keys stays so under `insert`, `modify` and `erase`, and
is well formed.
-/

namespace KeyedList

universe u v w

variable {α : Type u} {κ : Type v} [DecidableEq κ] (key : α → κ)

/-- The first record with key `k`. -/
def lookup (k : κ) (l : List α) : Option α := l.find? fun x => key x = k

/-- Change every record with key `k` by `g`. -/
def modify (k : κ) (g : α → α) (l : List α) : List α := l.map fun x => if key x = k then g x else x

/-- Drop the first record with key `k`, keeping the order of the others. -/
def erase (k : κ) (l : List α) : List α := l.eraseP fun x => key x = k

variable {key} {k k' : κ} {x y : α} {g : α → α} {l : List α}

/-! ## Lookup -/

@[simp] theorem lookup_nil : lookup key k [] = none := rfl

theorem mem_of_lookup (h : lookup key k l = some x) : x ∈ l := List.mem_of_find?_eq_some h

theorem key_of_lookup (h : lookup key k l = some x) : key x = k := by
  simpa using List.find?_some h

theorem lookup_eq_none_iff : lookup key k l = none ↔ ∀ x ∈ l, key x ≠ k := by
  simp [lookup]

theorem lookup_isSome_of_mem (hx : x ∈ l) : ∃ y, lookup key (key x) l = some y := by
  cases h : lookup key (key x) l with
  | some y => exact ⟨y, rfl⟩
  | none => exact absurd rfl (lookup_eq_none_iff.mp h x hx)

omit [DecidableEq κ] in
/-- Distinct keys determine their records. -/
theorem eq_of_key_eq (hn : (l.map key).Nodup) (hx : x ∈ l) (hy : y ∈ l) (h : key x = key y) :
    x = y :=
  List.inj_on_of_nodup_map hn hx hy h

/-- With distinct keys the search finds exactly the records of the list. -/
theorem lookup_eq_some_iff (hn : (l.map key).Nodup) :
    lookup key k l = some x ↔ x ∈ l ∧ key x = k := by
  constructor
  · exact fun h => ⟨mem_of_lookup h, key_of_lookup h⟩
  · rintro ⟨hx, rfl⟩
    obtain ⟨y, hy⟩ : ∃ y, lookup key (key x) l = some y := lookup_isSome_of_mem hx
    rw [hy, eq_of_key_eq hn (mem_of_lookup hy) hx (key_of_lookup hy)]

/-- A record appended at the end is found only where nothing was found before. -/
theorem lookup_append_singleton :
    lookup key k (l ++ [x]) = (lookup key k l).or (if key x = k then some x else none) := by
  by_cases h : key x = k <;> simp [lookup, h]

/-- A record at the front is found. -/
theorem lookup_cons_self : lookup key (key x) (x :: l) = some x := by simp [lookup]

/-- No search sees the order of the records exactly where records with one key are equal. -/
theorem lookup_perm_iff : (∀ l', l.Perm l' → ∀ k, lookup key k l = lookup key k l') ↔
    ∀ x ∈ l, ∀ y ∈ l, key x = key y → x = y := by
  constructor
  · intro h x hx y hy hxy
    -- each of the two can be moved to the front
    have hfound : ∀ z ∈ l, lookup key (key z) l = some z := by
      intro z hz
      obtain ⟨before, after, hl⟩ := List.append_of_mem hz
      have hperm : l.Perm (z :: (before ++ after)) := hl ▸ List.perm_middle
      rw [h _ hperm, lookup_cons_self]
    have hx' := hfound x hx
    rw [hxy, hfound y hy] at hx'
    exact (Option.some.inj hx').symm
  · intro h l' hperm k
    refine List.find?_eq_find?_of_perm hperm ?_
    rintro x ⟨hx, hxk⟩ y ⟨hy, hyk⟩
    rw [decide_eq_true_iff] at hxk hyk
    exact h x hx y hy (hxk.trans hyk.symm)

/-- With distinct keys the order of the records does not matter. -/
theorem lookup_perm {l' : List α} (hn : (l.map key).Nodup) (h : l.Perm l') :
    lookup key k l = lookup key k l' := by
  refine lookup_perm_iff.mpr ?_ l' h k
  intro x hx y hy hxy
  exact eq_of_key_eq hn hx hy hxy

/-! ## Modify -/

@[simp] theorem length_modify : (modify key k g l).length = l.length := by simp [modify]

/-- A projection that `g` leaves alone is left alone on the whole list. -/
theorem map_modify {β : Type w} {f : α → β} (h : ∀ x ∈ l, key x = k → f (g x) = f x) :
    (modify key k g l).map f = l.map f := by
  simp only [modify, List.map_map]
  apply List.map_congr_left
  intro x hx
  by_cases hk : key x = k
  · simp [hk, h x hx hk]
  · simp [hk]

theorem mem_modify : x ∈ modify key k g l ↔
    (x ∈ l ∧ key x ≠ k) ∨ ∃ z ∈ l, key z = k ∧ x = g z := by
  simp only [modify, List.mem_map]
  constructor
  · rintro ⟨z, hz, rfl⟩
    by_cases h : key z = k
    · exact .inr ⟨z, hz, h, by simp [h]⟩
    · exact .inl (by simp [h, hz])
  · rintro (⟨hx, hne⟩ | ⟨z, hz, hk, rfl⟩)
    · exact ⟨x, hx, by simp [hne]⟩
    · exact ⟨z, hz, by simp [hk]⟩

/-- The search sees the change under the key it was made at. -/
theorem lookup_modify_self (hg : ∀ x, key x = k → key (g x) = k) :
    lookup key k (modify key k g l) = (lookup key k l).map g := by
  induction l with
  | nil => rfl
  | cons x xs ih =>
      by_cases hx : key x = k
      · simp [lookup, modify, hx, hg x hx]
      · simpa [lookup, modify, List.find?_cons, hx] using ih

/-- The search does not see a change made under another key. -/
theorem lookup_modify_of_ne (hg : ∀ x, key x = k → key (g x) = k) (h : k ≠ k') :
    lookup key k' (modify key k g l) = lookup key k' l := by
  induction l with
  | nil => rfl
  | cons x xs ih =>
      by_cases hx : key x = k
      · simpa [lookup, modify, List.find?_cons, hx, hg x hx, h] using ih
      · by_cases hx' : key x = k'
        · simp [lookup, modify, hx', Ne.symm h]
        · simpa [lookup, modify, List.find?_cons, hx, hx'] using ih

/-- A change that fixes every record it meets changes nothing. -/
theorem modify_eq_self (h : ∀ x ∈ l, key x = k → g x = x) : modify key k g l = l := by
  simpa using map_modify (f := id) h

/-- Two changes under one key are one. -/
theorem modify_modify {g' : α → α} (hg : ∀ x, key x = k → key (g x) = k) :
    modify key k g' (modify key k g l) = modify key k (g' ∘ g) l := by
  simp only [modify, List.map_map]
  apply List.map_congr_left
  intro x _
  by_cases hx : key x = k <;> simp [hx, hg x]

/-- Two changes under one key that agree on the records they meet. -/
theorem modify_congr {g' : α → α} (h : ∀ x ∈ l, key x = k → g x = g' x) :
    modify key k g l = modify key k g' l := by
  apply List.map_congr_left
  intro x hx
  by_cases hk : key x = k <;> simp [hk, h x hx]

/-- Changes under different keys commute. -/
theorem modify_comm {g' : α → α} (hg : ∀ x, key x = k → key (g x) = k)
    (hg' : ∀ x, key x = k' → key (g' x) = k') (h : k ≠ k') :
    modify key k g (modify key k' g' l) = modify key k' g' (modify key k g l) := by
  simp only [modify, List.map_map]
  apply List.map_congr_left
  intro x _
  by_cases hx : key x = k
  · simp [hx, hg x hx, h]
  · by_cases hx' : key x = k'
    · simp [hx', hg' x hx', Ne.symm h]
    · simp [hx, hx']

/-- A search under one key after a change under another. -/
theorem lookup_modify_other {ι : Type w} [DecidableEq ι] {id : α → ι} {i : ι}
    (hg : ∀ x, id x = i → key (g x) = key x) :
    lookup key k (modify id i g l) = (lookup key k l).map fun x => if id x = i then g x else x := by
  rw [lookup, modify, List.find?_map, lookup]
  congr 1
  refine congrArg (fun p => l.find? p) (funext fun x => ?_)
  by_cases hx : id x = i <;> simp [hx, hg x]

/-- Dropping the changed records undoes the change. -/
theorem filter_modify (hg : ∀ x, key x = k → key (g x) = k) :
    ((modify key k g l).filter fun x => key x ≠ k) = l.filter fun x => key x ≠ k := by
  induction l with
  | nil => rfl
  | cons x xs ih =>
      by_cases hx : key x = k
      · simpa [modify, hx, hg x hx] using ih
      · simpa [modify, hx] using ih

/-! ## Erase -/

theorem erase_sublist : (erase key k l).Sublist l := List.eraseP_sublist

/-- With distinct keys, what was erased is not found any more. -/
theorem lookup_erase_self (hn : (l.map key).Nodup) : lookup key k (erase key k l) = none := by
  induction l with
  | nil => rfl
  | cons x xs ih =>
      obtain ⟨hx, hxs⟩ := List.nodup_cons.mp hn
      by_cases hk : key x = k
      · simp only [erase, List.eraseP_cons, hk, decide_true, cond_true]
        exact lookup_eq_none_iff.mpr fun y hy he =>
          hx (hk.trans he.symm ▸ List.mem_map_of_mem hy)
      · simpa [lookup, erase, List.eraseP_cons, List.find?_cons, hk] using ih hxs

/-- The search does not see an erasure under another key. -/
theorem lookup_erase_of_ne (h : k ≠ k') : lookup key k' (erase key k l) = lookup key k' l := by
  induction l with
  | nil => rfl
  | cons x xs ih =>
      by_cases hk : key x = k
      · simp [lookup, erase, hk, h]
      · by_cases hk' : key x = k'
        · simp [lookup, erase, hk', Ne.symm h]
        · simpa [lookup, erase, List.eraseP_cons, List.find?_cons, hk, hk'] using ih

/-- The first match is still the first among the records that are kept. -/
theorem lookup_filter {p : α → Bool} (h : lookup key k l = some x) (hp : p x = true) :
    lookup key k (l.filter p) = some x := by
  induction l with
  | nil => simp at h
  | cons z zs ih =>
      by_cases hk : key z = k
      · obtain rfl : z = x := by simpa [lookup, hk] using h
        simp [lookup, hp, hk]
      · have hx : lookup key k zs = some x := by simpa [lookup, List.find?_cons, hk] using h
        by_cases hz : p z = true
        · simpa [lookup, List.filter_cons, List.find?_cons, hz, hk] using ih hx
        · simpa [lookup, List.filter_cons, hz] using ih hx

/-- Erasing by a key that need not be distinct, where the first match is known: what goes
is that record, told apart by a key that is distinct. -/
theorem erase_eq_filter_of_lookup {ι : Type w} [DecidableEq ι] {id : α → ι}
    (hn : (l.map id).Nodup) (h : lookup key k l = some x) :
    erase key k l = l.filter fun z => id z ≠ id x := by
  induction l with
  | nil => simp at h
  | cons z zs ih =>
      obtain ⟨hz, hzs⟩ := List.nodup_cons.mp hn
      by_cases hk : key z = k
      · obtain rfl : z = x := by simpa [lookup, hk] using h
        have hrest : ∀ v ∈ zs, id v ≠ id z := fun v hv he => hz (he ▸ List.mem_map_of_mem hv)
        simp only [erase, List.eraseP_cons, hk, decide_true, cond_true, ne_eq, not_true_eq_false,
          decide_false, Bool.false_eq_true, not_false_eq_true, List.filter_cons_of_neg]
        exact (List.filter_eq_self.mpr fun v hv => by simpa using hrest v hv).symm
      · have hx : lookup key k zs = some x := by simpa [lookup, List.find?_cons, hk] using h
        have hne : id z ≠ id x := fun he => hz (he ▸ List.mem_map_of_mem (mem_of_lookup hx))
        simpa [erase, List.eraseP_cons, hk, hne] using ih hzs hx

/-! ## Tables in the order of their keys -/

variable {r : κ → κ → Prop} [DecidableRel r]

variable (key r) in
/-- Insert a record before the first one with a greater key. -/
def insert (x : α) (l : List α) : List α := l.orderedInsert (fun y z => r (key y) (key z)) x

omit [DecidableEq κ] in
theorem mem_insert : y ∈ insert key r x l ↔ y = x ∨ y ∈ l := List.mem_orderedInsert _

omit [DecidableEq κ] in
/-- A record with a new key comes between those with smaller keys and those with greater ones. -/
theorem pairwise_insert [IsTrans κ r] [Std.Trichotomous r] (hl : (l.map key).Pairwise r)
    (hnew : ∀ y ∈ l, key y ≠ key x) : ((insert key r x l).map key).Pairwise r := by
  rw [List.pairwise_map] at hl ⊢
  induction l with
  | nil => exact List.pairwise_singleton _ _
  | cons z zs ih =>
      obtain ⟨hz, hzs⟩ := List.pairwise_cons.mp hl
      rw [insert, List.orderedInsert_cons]
      split
      · rename_i hxz
        refine List.pairwise_cons.mpr ⟨fun y hy => ?_, hl⟩
        rcases List.mem_cons.mp hy with rfl | hy
        · exact hxz
        · exact trans_of r hxz (hz y hy)
      · rename_i hxz
        refine List.pairwise_cons.mpr ⟨fun y hy => ?_, ih hzs fun y hy => hnew y (.tail _ hy)⟩
        rcases mem_insert.mp hy with rfl | hy
        · rcases trichotomous_of r (key z) (key y) with h | h | h
          · exact h
          · exact absurd h (hnew z (.head _))
          · exact absurd h hxz
        · exact hz y hy

omit [DecidableEq κ] [DecidableRel r] in
theorem nodup_of_pairwise [Std.Irrefl r] (hl : (l.map key).Pairwise r) : (l.map key).Nodup := by
  refine List.Pairwise.imp ?_ hl
  rintro a _ h rfl
  exact irrefl_of r a h

theorem lookup_insert (hn : (l.map key).Nodup) (hnew : ∀ y ∈ l, key y ≠ key x) :
    lookup key k (insert key r x l) = if key x = k then some x else lookup key k l := by
  have hperm : (x :: l).Perm (insert key r x l) := (List.perm_orderedInsert _ x l).symm
  have hn' : ((x :: l).map key).Nodup := by
    refine List.nodup_cons.mpr ⟨fun hx => ?_, hn⟩
    obtain ⟨y, hy, he⟩ := List.mem_map.mp hx
    exact hnew y hy he
  rw [← lookup_perm hn' hperm, lookup, List.find?_cons]
  by_cases hk : key x = k <;> simp [hk, lookup]

/-- Erasing undoes the insertion of a record with a new key. -/
theorem erase_insert (hnew : ∀ y ∈ l, key y ≠ key x) :
    erase key (key x) (insert key r x l) = l := by
  induction l with
  | nil => simp [insert, erase]
  | cons z zs ih =>
      rw [insert, List.orderedInsert_cons]
      split
      · simp [erase]
      · have hz : key z ≠ key x := hnew z (.head _)
        have hzs := ih fun y hy => hnew y (.tail _ hy)
        rw [erase, List.eraseP_cons_of_neg (by simpa using hz)]
        exact congrArg (z :: ·) hzs

end KeyedList
