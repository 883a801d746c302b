import ResultChunks.Proofs.Retry.Course

/-!
# Attempts one after the other

`Course` is about an operation whose attempts are known in advance. Where they come to something one
by one, their results so far are a list. `Tried` says that they follow a course up to here, and
`Ended` that the last of them ended the operation. Either way there is one attempt for each wait, and
an operation that ended made one more.
-/

namespace ResultChunks.Retry

section

variable {α : Type} {p : RetryPolicy} {m : Method}

/-- A course looks at no result and no random addition of a later attempt. -/
theorem Course.congr {addition addition' : Nat → Duration} {results results' : Nat → Except FetchError α}
    {waits : List Wait} {a : Account} (h : Course p m addition results waits a)
    (haddition : ∀ n ≤ a.attempts, addition' n = addition n)
    (hresults : ∀ n, 0 < n → n ≤ a.attempts → results' n = results n) :
    Course p m addition' results' waits a := by
  induction h with
  | start => exact .start
  | @retry waits a b cls delay h hturn ih =>
      have hb : b.attempts = a.begin.attempts := by
        obtain ⟨error, -, hd⟩ := settle_pause hturn
        rw [(h.books.retry hd).attempts, List.length_append, ← h.books.attempts]
        rfl
      have hbegin : a.begin.attempts = a.attempts + 1 := rfl
      refine .retry (ih (fun n hn => haddition n (by omega))
        (fun n h0 hn => hresults n h0 (by omega))) ?_
      rw [haddition _ (by omega), hresults _ (by omega) (by omega)]
      exact hturn

/-- The result of the `n`-th attempt, counted from one. -/
def nth (results : List (Except FetchError α)) (n : Nat) : Except FetchError α :=
  results.getD (n - 1) (.error .cancelled)

/-- What the attempts so far came to, the waits after them, and the account then. -/
def Tried (p : RetryPolicy) (m : Method) (results : List (Except FetchError α)) (waits : List Wait)
    (a : Account) : Prop :=
  a.attempts = results.length ∧ ∃ addition, Course p m addition (nth results) waits a

/-- The last of the attempts ended the operation. -/
def Ended (p : RetryPolicy) (m : Method) (results : List (Except FetchError α)) (waits : List Wait)
    (o : Outcome α) : Prop :=
  ∃ (before : List (Except FetchError α)) (last : Except FetchError α) (a : Account)
    (addition : Duration), results = before ++ [last] ∧ Tried p m before waits a
      ∧ settle p m addition a.begin last = some (.finished o)

variable {results : List (Except FetchError α)} {result : Except FetchError α} {waits : List Wait}
  {a b : Account} {addition : Duration} {o : Outcome α}

theorem tried_nil (p : RetryPolicy) (m : Method) :
    Tried p m ([] : List (Except FetchError α)) [] {} := ⟨rfl, fun _ => .zero, .start⟩

theorem Tried.length (h : Tried p m results waits a) : results.length = waits.length := by
  obtain ⟨hlen, addition, hcourse⟩ := h
  rw [← hlen, hcourse.books.attempts]

/-- **One more attempt that is to be followed by another.** -/
theorem Tried.retry (h : Tried p m results waits a) {cls : FailureClass} {delay : Duration}
    (hturn : settle p m addition a.begin result = some (.pause cls delay b)) :
    Tried p m (results ++ [result]) (waits ++ [⟨cls, delay⟩]) b := by
  obtain ⟨hlen, additions, hcourse⟩ := h
  have hbegin : a.begin.attempts = a.attempts + 1 := rfl
  let additions' : Nat → Duration := fun n => if n ≤ a.attempts then additions n else addition
  have hsame : Course p m additions' (nth (results ++ [result])) waits a := by
    refine hcourse.congr (fun n hn => if_pos hn) fun n h0 hn => ?_
    rw [nth, nth, List.getD_eq_getElem?_getD, List.getD_eq_getElem?_getD,
      List.getElem?_append_left (by omega)]
  have hlast : nth (results ++ [result]) a.begin.attempts = result := by
    rw [nth, hbegin, hlen, Nat.add_sub_cancel, List.getD_eq_getElem?_getD,
      List.getElem?_concat_length]
    rfl
  have hnext : Course p m additions' (nth (results ++ [result])) (waits ++ [⟨cls, delay⟩]) b := by
    refine .retry hsame ?_
    rw [hlast, show additions' a.begin.attempts = addition from if_neg (by omega)]
    exact hturn
  refine ⟨?_, additions', hnext⟩
  rw [hnext.books.attempts, List.length_append, List.length_append, ← hcourse.books.attempts, hlen]
  rfl

/-- **The attempt that ends an operation.** -/
theorem Tried.ended (h : Tried p m results waits a)
    (hturn : settle p m addition a.begin result = some (.finished o)) :
    Ended p m (results ++ [result]) waits o := ⟨results, result, a, addition, rfl, h, hturn⟩

/-- An operation that ended counts the attempts that were made, one more than it waited. -/
theorem Ended.attempts (h : Ended p m results waits o) :
    o.attempts = results.length ∧ results.length = waits.length + 1 := by
  obtain ⟨before, last, a, addition, rfl, htried, hturn⟩ := h
  have hlen : (before ++ [last]).length = before.length + 1 := List.length_append
  refine ⟨?_, by rw [hlen, htried.length]⟩
  rw [settle_finished hturn, hlen, ← htried.1]
  rfl

theorem Ended.ne_nil (h : Ended p m results waits o) : results ≠ [] := by
  obtain ⟨before, last, a, addition, rfl, -, -⟩ := h
  exact List.append_ne_nil_of_right_ne_nil _ (List.cons_ne_nil _ _)

end

end ResultChunks.Retry
