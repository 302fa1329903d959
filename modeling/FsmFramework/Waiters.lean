import Mathlib.Logic.Function.Basic
import FsmFramework.Lib.KeyedList
import FsmFramework.Common

/-!
# Waiters of synchronous requests

A synchronous request waits on a `WaitEntry` until a completion with its service and session
arrives. The map `_waiters` lists under each key weak pointers to the entries of the requests
that wait; one completion is for all of them. An entry is named by the number of its request.

The entries themselves are reference counted: the request holds one, and so does whoever has
locked a weak pointer. `useCount` is that count; a weak pointer to an entry that nobody holds
has expired.
-/

namespace FsmFramework

/-- What completions and requests are matched by. -/
structure WaitKey where
  serviceId : UInt32
  sessionId : UInt32
  deriving DecidableEq, Repr

namespace WaitKey

/-- `operator<`. -/
instance : LT WaitKey where
  lt key other :=
    if key.serviceId ≠ other.serviceId then key.serviceId < other.serviceId
    else key.sessionId < other.sessionId

instance : DecidableLT WaitKey := fun key other =>
  inferInstanceAs (Decidable (if key.serviceId ≠ other.serviceId then
    key.serviceId < other.serviceId else key.sessionId < other.sessionId))

theorem lt_iff {key other : WaitKey} : key < other ↔ key.serviceId < other.serviceId ∨
    key.serviceId = other.serviceId ∧ key.sessionId < other.sessionId := by
  change (if key.serviceId ≠ other.serviceId then _ else _) ↔ _
  by_cases h : key.serviceId = other.serviceId <;> simp [h]

/-- What a map needs of the order of its keys. -/
instance : IsStrictTotalOrder WaitKey (· < ·) where
  irrefl key := by simp [lt_iff]
  trans a b c hab hbc := by
    rw [lt_iff] at hab hbc ⊢
    rcases hab with hab | ⟨hab, hab'⟩
    · rcases hbc with hbc | ⟨hbc, -⟩
      · exact .inl (UInt32.lt_trans hab hbc)
      · exact .inl (hbc ▸ hab)
    · rcases hbc with hbc | ⟨hbc, hbc'⟩
      · exact .inl (hab ▸ hbc)
      · exact .inr ⟨hab.trans hbc, UInt32.lt_trans hab' hbc'⟩
  trichotomous a b hab hba := by
    obtain ⟨a, a'⟩ := a
    obtain ⟨b, b'⟩ := b
    simp only [lt_iff, not_or, not_and] at hab hba
    obtain rfl : a = b := UInt32.le_antisymm (UInt32.not_lt.mp hba.1) (UInt32.not_lt.mp hab.1)
    obtain rfl : a' = b' :=
      UInt32.le_antisymm (UInt32.not_lt.mp (hba.2 rfl)) (UInt32.not_lt.mp (hab.2 rfl))
    rfl

end WaitKey

/-- Where a message waits for its completion. -/
def CMsg.waitKey (msg : CMsg) : WaitKey := ⟨msg.serviceId, msg.sessionId⟩

/-- Which requests a completion is for. -/
def FsmCompletionEvent.waitKey (event : FsmCompletionEvent) : WaitKey :=
  ⟨event.serviceId, event.sessionId⟩

/-- What a request waits on. The source leaves `event` uninitialised; it is read only once it
was written. -/
structure WaitEntry where
  completed : Bool := false
  event : FsmCompletionEvent := ⟨0, 0, 0, .init, .msgInit⟩
  useCount : ℕ := 0
  deriving DecidableEq, Repr

/-- The entries of all requests. -/
abbrev WaitEntries := ℕ → WaitEntry

namespace WaitEntries

/-- A new entry, held by its request. -/
def create (es : WaitEntries) (r : ℕ) : WaitEntries := Function.update es r { useCount := 1 }

/-- Whether a weak pointer to the entry can be locked. -/
def alive (es : WaitEntries) (r : ℕ) : Bool := (es r).useCount ≠ 0

/-- Take hold of some entries. -/
def hold (es : WaitEntries) (rs : List ℕ) : WaitEntries := fun r =>
  { es r with useCount := (es r).useCount + rs.count r }

/-- Let go of some entries. -/
def release (es : WaitEntries) (rs : List ℕ) : WaitEntries := fun r =>
  { es r with useCount := (es r).useCount - rs.count r }

/-- Deliver an event to an entry. -/
def complete (es : WaitEntries) (r : ℕ) (event : FsmCompletionEvent) : WaitEntries :=
  Function.update es r { es r with event := event, completed := true }

end WaitEntries

/-- An empty map has its keys in order. -/
theorem WaitKey.pairwise_nil : (([] : List (WaitKey × List ℕ)).map Prod.fst).Pairwise (· < ·) :=
  List.Pairwise.nil

/-- The map `_waiters`, in the order of its keys. -/
structure Waiters where
  entries : List (WaitKey × List ℕ) := []
  sorted : (entries.map Prod.fst).Pairwise (· < ·) := by exact WaitKey.pairwise_nil
  deriving DecidableEq

namespace Waiters

/-- It has each key once. -/
theorem keys_nodup (w : Waiters) : (w.entries.map Prod.fst).Nodup :=
  KeyedList.nodup_of_pairwise w.sorted

/-- The requests listed under a key. -/
def find (w : Waiters) (key : WaitKey) : List ℕ :=
  ((KeyedList.lookup Prod.fst key w.entries).map Prod.snd).getD []

private theorem map_fst_modify (entries : List (WaitKey × List ℕ)) (key : WaitKey)
    (g : List ℕ → List ℕ) :
    (KeyedList.modify Prod.fst key (fun e => (e.1, g e.2)) entries).map Prod.fst =
      entries.map Prod.fst :=
  KeyedList.map_modify fun _ _ _ => rfl

/-- `RegisterWaiter`: `_waiters[key].push_back(waiter)`. -/
def register (w : Waiters) (key : WaitKey) (r : ℕ) : Waiters :=
  match h : KeyedList.lookup Prod.fst key w.entries with
  | some _ => {
      entries := KeyedList.modify Prod.fst key (fun e => (e.1, e.2 ++ [r])) w.entries
      sorted := by rw [map_fst_modify _ _ (· ++ [r])]; exact w.sorted }
  | none => {
      entries := KeyedList.insert Prod.fst (· < ·) (key, [r]) w.entries
      sorted := KeyedList.pairwise_insert w.sorted (KeyedList.lookup_eq_none_iff.mp h) }

/-- `UnregisterWaiter`: drop the request, and the entries that have expired, and the key when
nothing is left under it. -/
def unregister (w : Waiters) (alive : ℕ → Bool) (key : WaitKey) (r : ℕ) : Waiters :=
  match KeyedList.lookup Prod.fst key w.entries with
  | none => w
  | some e =>
      let rest := e.2.filter fun x => alive x && x ≠ r
      if rest = [] then {
        entries := KeyedList.erase Prod.fst key w.entries
        sorted := w.sorted.sublist (KeyedList.erase_sublist.map _) }
      else {
        entries := KeyedList.modify Prod.fst key (fun e => (e.1, rest)) w.entries
        sorted := by rw [map_fst_modify _ _ fun _ => rest]; exact w.sorted }

/-- The entries under a key that can still be locked. -/
def toNotify (w : Waiters) (alive : ℕ → Bool) (key : WaitKey) : List ℕ := (w.find key).filter alive

/-- All entries that can still be locked, one key after the other. -/
def allToNotify (w : Waiters) (alive : ℕ → Bool) : List ℕ :=
  w.entries.flatMap fun e => e.2.filter alive

/-! ## Who is listed -/

variable {w : Waiters} {key k : WaitKey} {r x : ℕ} {alive : ℕ → Bool}

/-- The request is listed under the key. -/
def Lists (w : Waiters) (key : WaitKey) (r : ℕ) : Prop := ∃ e ∈ w.entries, e.1 = key ∧ r ∈ e.2

theorem lists_of_mem_find (h : r ∈ w.find key) : w.Lists key r := by
  rw [find] at h
  cases hl : KeyedList.lookup Prod.fst key w.entries with
  | none => simp [hl] at h
  | some e =>
      exact ⟨e, KeyedList.mem_of_lookup hl, KeyedList.key_of_lookup hl, by simpa [hl] using h⟩

theorem entries_register_of_none (hl : KeyedList.lookup Prod.fst key w.entries = none) :
    (w.register key r).entries = KeyedList.insert Prod.fst (· < ·) (key, [r]) w.entries := by
  rw [register]
  split
  · rename_i e hl'
    cases hl.symm.trans hl'
  · rfl

theorem entries_register_of_some {e : WaitKey × List ℕ}
    (hl : KeyedList.lookup Prod.fst key w.entries = some e) :
    (w.register key r).entries =
      KeyedList.modify Prod.fst key (fun e => (e.1, e.2 ++ [r])) w.entries := by
  rw [register]
  split
  · rfl
  · rename_i hl'
    cases hl.symm.trans hl'

theorem lists_register (h : (w.register key r).Lists k x) : w.Lists k x ∨ (k = key ∧ x = r) := by
  obtain ⟨e, he, rfl, hx⟩ := h
  cases hl : KeyedList.lookup Prod.fst key w.entries with
  | some e' =>
      rw [entries_register_of_some hl] at he
      rcases KeyedList.mem_modify.mp he with ⟨he, -⟩ | ⟨z, hz, rfl, rfl⟩
      · exact .inl ⟨e, he, rfl, hx⟩
      · rcases List.mem_append.mp hx with hx | hx
        · exact .inl ⟨z, hz, rfl, hx⟩
        · exact .inr ⟨rfl, List.mem_singleton.mp hx⟩
  | none =>
      rw [entries_register_of_none hl] at he
      rcases KeyedList.mem_insert.mp he with rfl | he
      · exact .inr ⟨rfl, List.mem_singleton.mp hx⟩
      · exact .inl ⟨e, he, rfl, hx⟩

theorem lists_unregister (h : (w.unregister alive key r).Lists k x) : w.Lists k x := by
  obtain ⟨e, he, rfl, hx⟩ := h
  rw [unregister] at he
  split at he
  · exact ⟨e, he, rfl, hx⟩
  · rename_i e₀ hl
    dsimp only at he
    split at he
    · exact ⟨e, KeyedList.erase_sublist.subset he, rfl, hx⟩
    · rcases KeyedList.mem_modify.mp he with ⟨he, -⟩ | ⟨z, hz, hk, rfl⟩
      · exact ⟨e, he, rfl, hx⟩
      · have hmem := (List.mem_filter.mp hx).1
        exact ⟨e₀, KeyedList.mem_of_lookup hl, (KeyedList.key_of_lookup hl).trans hk.symm, hmem⟩

theorem lists_toNotify (h : r ∈ w.toNotify alive key) : w.Lists key r :=
  lists_of_mem_find (List.mem_filter.mp h).1

/-! ## What is found -/

theorem find_eq_of_mem {e : WaitKey × List ℕ} (he : e ∈ w.entries) : w.find e.1 = e.2 := by
  rw [find, (KeyedList.lookup_eq_some_iff w.keys_nodup).mpr ⟨he, rfl⟩]
  rfl

theorem lists_iff_mem_find : w.Lists key r ↔ r ∈ w.find key := by
  refine ⟨?_, lists_of_mem_find⟩
  rintro ⟨e, he, rfl, hr⟩
  exact find_eq_of_mem he ▸ hr

private theorem lookup_modify_snd (entries : List (WaitKey × List ℕ)) (g : List ℕ → List ℕ) :
    KeyedList.lookup Prod.fst k
        (KeyedList.modify Prod.fst key (fun e => (e.1, g e.2)) entries) =
      if k = key then (KeyedList.lookup Prod.fst k entries).map fun e => (e.1, g e.2)
      else KeyedList.lookup Prod.fst k entries := by
  have hkey : ∀ x : WaitKey × List ℕ, x.1 = key → (x.1, g x.2).1 = key := fun _ h => h
  split
  · rename_i hk
    subst hk
    exact KeyedList.lookup_modify_self hkey
  · rename_i hk
    exact KeyedList.lookup_modify_of_ne hkey (Ne.symm hk)

theorem find_register : (w.register key r).find k =
    if k = key then w.find k ++ [r] else w.find k := by
  rw [find, find]
  cases hl : KeyedList.lookup Prod.fst key w.entries with
  | some e =>
      rw [entries_register_of_some hl, lookup_modify_snd _ (· ++ [r])]
      by_cases hk : k = key
      · subst hk
        rw [if_pos rfl, if_pos rfl, hl]
        rfl
      · rw [if_neg hk, if_neg hk]
  | none =>
      rw [entries_register_of_none hl,
        KeyedList.lookup_insert w.keys_nodup (KeyedList.lookup_eq_none_iff.mp hl)]
      by_cases hk : k = key
      · subst hk
        rw [if_pos rfl, if_pos rfl, hl]
        rfl
      · rw [if_neg hk, if_neg (Ne.symm hk)]

theorem find_unregister : (w.unregister alive key r).find k =
    if k = key then (w.find k).filter fun x => alive x && x ≠ r else w.find k := by
  rw [unregister]
  split
  · rename_i hl
    by_cases hk : k = key
    · subst hk
      rw [if_pos rfl, find, hl]
      rfl
    · rw [if_neg hk]
  · rename_i e hl
    dsimp only
    split
    · rename_i hrest
      by_cases hk : k = key
      · subst hk
        rw [if_pos rfl, find, KeyedList.lookup_erase_self w.keys_nodup, find, hl]
        exact hrest.symm
      · rw [if_neg hk, find, KeyedList.lookup_erase_of_ne (Ne.symm hk), find]
    · by_cases hk : k = key
      · subst hk
        rw [if_pos rfl, find, lookup_modify_snd _ fun _ => _, if_pos rfl, find, hl]
        rfl
      · rw [if_neg hk, find, lookup_modify_snd _ fun _ => _, if_neg hk, find]

theorem mem_allToNotify : r ∈ w.allToNotify alive ↔ alive r = true ∧ ∃ key, r ∈ w.find key := by
  simp only [allToNotify, List.mem_flatMap, List.mem_filter]
  constructor
  · rintro ⟨e, he, hr, halive⟩
    exact ⟨halive, e.1, find_eq_of_mem he ▸ hr⟩
  · rintro ⟨halive, key, hr⟩
    obtain ⟨e, he, -, hr⟩ := lists_iff_mem_find.mpr hr
    exact ⟨e, he, hr, halive⟩

/-! ## No key without waiters -/

/-- No key stands with an empty vector. -/
def NoneEmpty (w : Waiters) : Prop := ∀ e ∈ w.entries, e.2 ≠ []

theorem NoneEmpty.register (h : w.NoneEmpty) : (w.register key r).NoneEmpty := by
  intro e he
  rw [Waiters.register] at he
  split at he
  · rcases KeyedList.mem_modify.mp he with ⟨he, -⟩ | ⟨z, -, -, rfl⟩
    · exact h e he
    · simp
  · rcases KeyedList.mem_insert.mp he with rfl | he
    · simp
    · exact h e he

theorem NoneEmpty.unregister (h : w.NoneEmpty) : (w.unregister alive key r).NoneEmpty := by
  intro e he
  rw [Waiters.unregister] at he
  split at he
  · exact h e he
  · dsimp only at he
    split at he
    · exact h e (KeyedList.erase_sublist.subset he)
    · rename_i hrest
      rcases KeyedList.mem_modify.mp he with ⟨he, -⟩ | ⟨z, -, -, rfl⟩
      · exact h e he
      · exact hrest

/-- A map under whose keys nobody is found is empty. -/
theorem NoneEmpty.entries_eq_nil (h : w.NoneEmpty) (hnone : ∀ key, w.find key = []) :
    w.entries = [] :=
  List.eq_nil_iff_forall_not_mem.mpr fun e he => h e he ((find_eq_of_mem he).symm.trans (hnone _))

/-! ## Registering in vain -/

private theorem eq_of_entries {w w' : Waiters} (h : w.entries = w'.entries) : w = w' := by
  cases w
  cases w'
  cases h
  rfl

/-- A new waiter that unregisters leaves the map as it was, where no key stands with an empty
vector and none of its neighbours has expired. -/
theorem unregister_register (hw : w.NoneEmpty) (hr : r ∉ w.find key)
    (halive : ∀ x ∈ w.find key, alive x = true) :
    (w.register key r).unregister alive key r = w := by
  apply eq_of_entries
  cases hl : KeyedList.lookup Prod.fst key w.entries with
  | none =>
      have hreg := entries_register_of_none (r := r) hl
      have hnew := KeyedList.lookup_eq_none_iff.mp hl
      have hlook : KeyedList.lookup Prod.fst key (w.register key r).entries = some (key, [r]) := by
        rw [hreg, KeyedList.lookup_insert w.keys_nodup hnew, if_pos rfl]
      rw [unregister, hlook]
      simp only [List.filter_cons, List.filter_nil, ne_eq, not_true_eq_false, decide_false,
        Bool.and_false, Bool.false_eq_true, if_false, if_true, hreg]
      exact KeyedList.erase_insert (x := (key, [r])) hnew
  | some e =>
      have hfind : w.find key = e.2 := by rw [find, hl]; rfl
      rw [hfind] at hr halive
      have hreg := entries_register_of_some (r := r) hl
      have hlook : KeyedList.lookup Prod.fst key (w.register key r).entries =
          some (e.1, e.2 ++ [r]) := by
        rw [hreg, lookup_modify_snd _ (· ++ [r]), if_pos rfl, hl]
        rfl
      have hrest : (e.2 ++ [r]).filter (fun x => alive x && x ≠ r) = e.2 := by
        rw [List.filter_append, List.filter_eq_self.mpr, List.filter_cons_of_neg (by simp),
          List.filter_nil, List.append_nil]
        intro x hx
        simp [halive x hx, ne_of_mem_of_not_mem hx hr]
      have hne : e.2 ≠ [] := hw e (KeyedList.mem_of_lookup hl)
      rw [unregister, hlook]
      simp only [hrest, if_neg hne, hreg]
      have hkey : ∀ x : WaitKey × List ℕ, x.1 = key → (x.1, x.2 ++ [r]).1 = key := fun _ h => h
      rw [KeyedList.modify_modify hkey]
      refine KeyedList.modify_eq_self fun x hx hk => ?_
      obtain rfl : x = e := Option.some.inj
        (((KeyedList.lookup_eq_some_iff w.keys_nodup).mpr ⟨hx, hk⟩).symm.trans hl)
      rfl

end Waiters

end FsmFramework
