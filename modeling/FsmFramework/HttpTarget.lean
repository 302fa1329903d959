import FsmFramework.Lib.CString

/-!
# The target of a request

The helpers of `HttpServer.cpp` that take a request target apart. The loop of
`QueryHasWaitTrue` runs on fuel, and `substr` may throw; neither runs out.
-/

namespace FsmFramework

open CString

/-- How a function on strings can fail to return. -/
inductive StdFailure
  | outOfRange
  | outOfFuel
  deriving DecidableEq, Repr

/-- A member function that throws where it has no value. -/
def orThrow {α : Type*} : Option α → Except StdFailure α
  | some a => .ok a
  | none => .error .outOfRange

def extractPath (target : CString) : Except StdFailure CString :=
  match target.find (chr '?') 0 with
  | none => .ok target
  | some queryPos => orThrow (target.substr 0 (some queryPos))

def extractQuery (target : CString) : Except StdFailure CString :=
  match target.find (chr '?') 0 with
  | none => .ok []
  | some queryPos => orThrow (target.substr (queryPos + 1) none)

/-- The two items that ask for a synchronous answer. -/
def isWaitItem (item : CString) : Bool := item = lit "wait=true" ∨ item = lit "wait=1"

/-- The loop of `QueryHasWaitTrue`, at the position `first`. -/
def queryHasWaitTrueLoop (query : CString) : ℕ → ℕ → Except StdFailure Bool
  | 0, _ => .error .outOfFuel
  | fuel + 1, first =>
      if first ≤ query.length then
        match query.find (chr '&') first with
        | none => do
            let item ← orThrow (query.substr first none)
            return isWaitItem item
        | some stop => do
            let item ← orThrow (query.substr first (some (stop - first)))
            if isWaitItem item then return true
            queryHasWaitTrueLoop query fuel (stop + 1)
      else .ok false

/-- Each round begins behind the last `&`, so there are no more rounds than positions. -/
def queryHasWaitTrue (query : CString) : Except StdFailure Bool :=
  queryHasWaitTrueLoop query (query.length + 1) 0

/-! ## Path and query -/

/-- The path ends at the first `?`, and the query begins behind it. -/
theorem extract_cases (target : CString) :
    chr '?' ∉ target ∧ extractPath target = .ok target ∧ extractQuery target = .ok [] ∨
      ∃ path query, chr '?' ∉ path ∧ target = path ++ chr '?' :: query ∧
        extractPath target = .ok path ∧ extractQuery target = .ok query := by
  cases hfind : target.find (chr '?') 0 with
  | none =>
      have hnone : chr '?' ∉ target := by simpa using find_eq_none_iff.mp hfind
      exact .inl ⟨hnone, by rw [extractPath, hfind], by rw [extractQuery, hfind]⟩
  | some queryPos =>
      obtain ⟨path, hpath, hnone, htarget⟩ := substr_find hfind
      have hle : queryPos + 1 ≤ target.length := (find_lt_length hfind).2
      refine .inr ⟨path, target.drop (queryPos + 1), hnone, by simpa using htarget, ?_, ?_⟩
      · rw [extractPath, hfind]
        change orThrow (target.substr 0 (some (queryPos - 0))) = _
        rw [hpath]
        rfl
      · rw [extractQuery, hfind]
        simp [substr, hle, orThrow]

/-- Nothing without `c` reaches beyond the first `c`. -/
theorem prefix_of_not_mem {p path query : CString} {c : UInt8} (hp : p <+: path ++ c :: query)
    (hc : c ∉ p) : p <+: path := by
  have hfirst : path ++ [c] <+: path ++ c :: query := by simp
  obtain h | h := List.prefix_or_prefix_of_prefix hp hfirst
  · obtain rfl | h := List.prefix_concat_iff.mp h
    · exact absurd (by simp) hc
    · exact h
  · exact absurd (h.subset (by simp)) hc

/-! ## The items of a query -/

/-- From a position in the string on, the loop goes through the items that are left, and fuel for
each position left is enough. -/
theorem queryHasWaitTrueLoop_eq {query : CString} {fuel first : ℕ}
    (hfirst : first ≤ query.length) (hfuel : query.length < first + fuel) :
    queryHasWaitTrueLoop query fuel first =
      .ok (((query.drop first).splitOn (chr '&')).any isWaitItem) := by
  induction fuel generalizing first with
  | zero => omega
  | succ fuel ih =>
      rw [queryHasWaitTrueLoop, if_pos hfirst]
      cases hfind : query.find (chr '&') first with
      | none =>
          have hnone := find_eq_none_iff.mp hfind
          simp [substr, hfirst, orThrow, List.splitOn_eq_singleton hnone, pure, Except.pure, bind,
            Except.bind]
      | some stop =>
          obtain ⟨hle, hlt⟩ := find_lt_length hfind
          obtain ⟨item, hitem, hnone, hdrop⟩ := substr_find hfind
          have hrest := @ih (stop + 1) (by omega) (by omega)
          rw [hdrop, List.splitOn_append_cons_self_of_not_mem hnone, List.any_cons]
          simp only [hitem, orThrow, hrest]
          cases hwait : isWaitItem item <;> simp [hwait, pure, Except.pure, bind, Except.bind]

/-- A target is always taken apart, and its query always looked through. -/
theorem extract_ok (target : CString) : ∃ path query wait, extractPath target = .ok path ∧
    extractQuery target = .ok query ∧ queryHasWaitTrue query = .ok wait := by
  have hwait : ∀ query : CString, ∃ wait, queryHasWaitTrue query = .ok wait := by
    intro query
    exact ⟨_, queryHasWaitTrueLoop_eq (Nat.zero_le _) (by omega)⟩
  obtain ⟨-, hpath, hquery⟩ | ⟨path, query, -, -, hpath, hquery⟩ := extract_cases target
  · obtain ⟨wait, hw⟩ := hwait []
    exact ⟨target, [], wait, hpath, hquery, hw⟩
  · obtain ⟨wait, hw⟩ := hwait query
    exact ⟨path, query, wait, hpath, hquery, hw⟩

/-- **Request targets.** The path is the longest prefix without `?`; the target is the path, or
the path, `?` and the query. The loop over the items ends on every query, without an exception,
and finds a wait item exactly when one of the items between the `&` is one; a `&` in between
separates two queries. -/
theorem request_target :
    (∀ target, ∃ path query, extractPath target = .ok path ∧ extractQuery target = .ok query ∧
      path <+: target ∧ chr '?' ∉ path ∧ (∀ p, p <+: target → chr '?' ∉ p → p <+: path) ∧
      (target = path ∨ target = path ++ chr '?' :: query)) ∧
    (∀ query fuel, query.length < fuel → queryHasWaitTrueLoop query fuel 0 = .ok (decide
      (∃ item ∈ query.splitOn (chr '&'), item = lit "wait=true" ∨ item = lit "wait=1"))) ∧
    ∀ a b : CString, ∃ p q, queryHasWaitTrue a = .ok p ∧ queryHasWaitTrue b = .ok q ∧
      queryHasWaitTrue (a ++ chr '&' :: b) = .ok (p || q) := by
  have hloop : ∀ query fuel, query.length < fuel → queryHasWaitTrueLoop query fuel 0 =
      .ok ((query.splitOn (chr '&')).any isWaitItem) := by
    intro query fuel hfuel
    simpa using queryHasWaitTrueLoop_eq (Nat.zero_le query.length) (by omega : _ < 0 + fuel)
  refine ⟨fun target => ?_, fun query fuel hfuel => ?_, fun a b => ?_⟩
  · obtain ⟨hnone, hpath, hquery⟩ | ⟨path, query, hnone, htarget, hpath, hquery⟩ :=
      extract_cases target
    · exact ⟨target, [], hpath, hquery, List.prefix_refl _, hnone, fun p hp _ => hp, .inl rfl⟩
    · refine ⟨path, query, hpath, hquery, ?_, hnone, fun p hp hc => ?_, .inr htarget⟩
      · exact htarget ▸ List.prefix_append _ _
      · exact prefix_of_not_mem (htarget ▸ hp) hc
  · rw [hloop query fuel hfuel]
    congr 1
    rw [Bool.eq_iff_iff]
    simp [isWaitItem]
  · refine ⟨_, _, hloop a _ (Nat.lt_succ_self _), hloop b _ (Nat.lt_succ_self _), ?_⟩
    rw [queryHasWaitTrue, hloop _ _ (Nat.lt_succ_self _), List.splitOn_append_cons_self,
      List.any_append]

theorem request_target_register :
    queryHasWaitTrueLoop (lit "a&wait=1") 9 0 = .ok true ∧
      queryHasWaitTrueLoop (lit "wait=10&") 9 0 = .ok false := by
  obtain ⟨-, hwait, -⟩ := request_target
  exact ⟨hwait _ 9 (by decide), hwait _ 9 (by decide)⟩

end FsmFramework
