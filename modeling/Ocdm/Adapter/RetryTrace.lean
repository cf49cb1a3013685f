/-
What a run of `decryptWithOutputRestrictedRetry` (open_cdm_decrypt.cpp) calls, over every sequence of key statuses and
of results, on a clock on which a sleep takes at least its interval. Each attempt comes directly behind a poll with a
usable status, another one is made only after a failure with the output restricted, the result is that of the last
attempt, and after 24 rounds the time is over (`retry_trace`).
-/
import Ocdm.Adapter.Retry

namespace Ocdm.Adapter

/-! ## Time -/

/-- `kOutputRestrictedRetryInterval`, in the nanoseconds of `steady_clock` -/
def kOutputRestrictedRetryInterval : Nat := 250 * 1000000

/-- `kOutputRestrictedRetryTimeout` -/
def kOutputRestrictedRetryTimeout : Nat := 6 * 1000000000

section

variable {E σ : Type} (session : Bool) (keyId : List UInt8) (decryptOnce : E → σ → OpenCDMError × σ) (input : σ)
  (start : Nat) (tape : Nat → Round E)

/-- `decryptWithOutputRestrictedRetry`, entered at `start`, after a number of rounds; once it has returned it stays
as it is. -/
def retryAfter : Nat → Retry σ
  | 0 => { input := input }
  | n + 1 => (retryStep session keyId (start + kOutputRestrictedRetryTimeout) decryptOnce (retryAfter n)
      (tape n)).getD (retryAfter n)

/-- The round ends with a sleep. -/
def Sleeps (n : Nat) : Prop :=
  ∃ calls, (retryAfter session keyId decryptOnce input start tape (n + 1)).log =
    (retryAfter session keyId decryptOnce input start tape n).log ++ calls ++ [.sleep]

/-- The clock does not go back, and a sleep lasts at least its interval. -/
structure Clock : Prop where
  first : start ≤ (tape 0).now
  monotone : ∀ n, (tape n).now ≤ (tape (n + 1)).now
  sleeps : ∀ n, Sleeps session keyId decryptOnce input start tape n →
    (tape n).now + kOutputRestrictedRetryInterval ≤ (tape (n + 1)).now

end

/-! ## What holds of the calls -/

def RetryEvent.attempt? : RetryEvent → Option OpenCDMError
  | .attempt result => some result
  | _ => none

/-- The result of the last attempt, if there is one. -/
def lastAttempt (log : List RetryEvent) : Option OpenCDMError := (log.filterMap RetryEvent.attempt?).getLast?

/-- Every attempt is directly behind a poll with a usable status. -/
def Polled (log : List RetryEvent) : Prop :=
  ∀ pre result post, log = pre ++ .attempt result :: post →
    ∃ before status, pre = before ++ [.poll status] ∧ isUsableStatus status = true

/-- Every attempt fails, and the poll behind it says that the output is restricted. -/
def Followed (log : List RetryEvent) : Prop :=
  ∀ pre result post, log = pre ++ .attempt result :: post →
    result ≠ errorNone ∧ ∃ status after, post = .poll status :: after ∧ isOutputRestrictedStatus status = true

/-- Every attempt with another one behind it. -/
def Again (log : List RetryEvent) : Prop :=
  ∀ pre result mid result' post, log = pre ++ .attempt result :: (mid ++ .attempt result' :: post) →
    result ≠ errorNone ∧ ∃ status after, mid = .poll status :: after ∧ isOutputRestrictedStatus status = true

/-- The calls of a run that has returned `result`. -/
structure TraceOK (log : List RetryEvent) (result : OpenCDMError) : Prop where
  polled : Polled log
  again : Again log
  none_iff : result = errorNone ↔ lastAttempt log = some errorNone
  stops : lastAttempt log = some errorNone → log.getLast? = some (.attempt errorNone)
  other : result ≠ errorNone → lastAttempt log = some result ∨ result = errorFail

/-! ## Joining calls -/

/-- Where an element of two lists in a row is. -/
theorem append_eq_cons {α : Type} {xs ys pre post : List α} {a : α} (h : xs ++ ys = pre ++ a :: post) :
    (∃ rest, xs = pre ++ a :: rest ∧ post = rest ++ ys) ∨ ∃ rest, pre = xs ++ rest ∧ ys = rest ++ a :: post := by
  rcases List.append_eq_append_iff.1 h with ⟨rest, hpre, hys⟩ | ⟨rest, hxs, hpost⟩
  · exact .inr ⟨rest, hpre, hys⟩
  · cases rest with
    | nil => exact .inr ⟨[], by rw [hxs, List.append_nil, List.append_nil], hpost.symm⟩
    | cons b rest =>
      cases hpost
      exact .inl ⟨rest, hxs, rfl⟩

theorem Polled.append {xs ys : List RetryEvent} (hx : Polled xs) (hy : Polled ys) : Polled (xs ++ ys) := by
  intro pre result post h
  rcases append_eq_cons h with ⟨rest, hxs, -⟩ | ⟨rest, rfl, hys⟩
  · exact hx pre result rest hxs
  · obtain ⟨before, status, rfl, husable⟩ := hy rest result post hys
    exact ⟨xs ++ before, status, (List.append_assoc ..).symm, husable⟩

theorem Followed.append {xs ys : List RetryEvent} (hx : Followed xs) (hy : Followed ys) : Followed (xs ++ ys) := by
  intro pre result post h
  rcases append_eq_cons h with ⟨rest, hxs, rfl⟩ | ⟨rest, rfl, hys⟩
  · obtain ⟨hne, status, after, rfl, hrestricted⟩ := hx pre result rest hxs
    exact ⟨hne, status, after ++ ys, rfl, hrestricted⟩
  · exact hy rest result post hys

/-- Behind attempts that are followed, at most one more. -/
theorem Followed.again {xs ys : List RetryEvent} (hx : Followed xs)
    (hone : (ys.filterMap RetryEvent.attempt?).length ≤ 1) : Again (xs ++ ys) := by
  intro pre result mid result' post h
  rcases append_eq_cons h with ⟨rest, hxs, hrest⟩ | ⟨rest, -, hys⟩
  · obtain ⟨hne, status, after, rfl, hrestricted⟩ := hx pre result rest hxs
    refine ⟨hne, ?_⟩
    cases mid with
    | nil => cases hrest
    | cons event mid =>
      obtain ⟨rfl, -⟩ := List.cons.inj hrest
      exact ⟨status, mid, rfl, hrestricted⟩
  · rw [hys] at hone
    simp only [List.filterMap_append, List.filterMap_cons, RetryEvent.attempt?, List.length_append,
      List.length_cons] at hone
    omega

theorem lastAttempt_append (xs ys : List RetryEvent) :
    lastAttempt (xs ++ ys) = (lastAttempt ys).or (lastAttempt xs) := by
  unfold lastAttempt
  rw [List.filterMap_append, List.getLast?_append]

/-- The last attempt of those that are followed has failed. -/
theorem Followed.last_ne {log : List RetryEvent} (h : Followed log) : lastAttempt log ≠ some errorNone := by
  intro hlast
  have hmem := List.mem_of_getLast? hlast
  obtain ⟨event, hevent, hattempt⟩ := List.mem_filterMap.1 hmem
  obtain ⟨pre, post, rfl⟩ := List.append_of_mem hevent
  cases event with
  | attempt result =>
    cases hattempt
    exact (h pre _ post rfl).1 rfl
  | poll status => cases hattempt
  | sleep => cases hattempt

/-! ## A round -/

/-- The calls of a round, with the last result before and after it, and what it returns if it does. -/
inductive RoundCalls (last : OpenCDMError) : List RetryEvent → OpenCDMError → Option OpenCDMError → Prop where
  | restricted {status : KeyStatus} : isOutputRestrictedStatus status = true →
      RoundCalls last [.poll status, .sleep] last none
  | unusable {status : KeyStatus} : RoundCalls last [.poll status] last (some errorFail)
  | succeeded {status : KeyStatus} : isUsableStatus status = true →
      RoundCalls last [.poll status, .attempt errorNone] errorNone (some errorNone)
  | again {status status' : KeyStatus} {result : OpenCDMError} : isUsableStatus status = true → result ≠ errorNone →
      isOutputRestrictedStatus status' = true →
      RoundCalls last [.poll status, .attempt result, .poll status', .sleep] result none
  | failed {status status' : KeyStatus} {result : OpenCDMError} : isUsableStatus status = true → result ≠ errorNone →
      RoundCalls last [.poll status, .attempt result, .poll status'] result (some result)

section

variable {E σ : Type} (session : Bool) {keyId : List UInt8} {deadline : Nat} (decryptOnce : E → σ → OpenCDMError × σ)

/-- A round in time. -/
theorem retryStep_round {s : Retry σ} {r : Round E} (hkey : keyId ≠ []) (hresult : s.result = none)
    (hnow : r.now < deadline) :
    ∃ s' calls, retryStep session keyId deadline decryptOnce s r = some s' ∧ s'.log = s.log ++ calls ∧
      RoundCalls s.lastResult calls s'.lastResult s'.result := by
  unfold retryStep
  rw [hresult]
  dsimp only
  rw [if_neg hkey, if_pos hnow]
  split
  · rename_i hrestricted
    exact ⟨_, [.poll (getKeyStatus session keyId r.before), .sleep], rfl, List.append_assoc .., .restricted hrestricted⟩
  · split
    · rename_i husable
      split
      · rename_i hnone
        refine ⟨_, [.poll (getKeyStatus session keyId r.before), .attempt errorNone], rfl, ?_, ?_⟩
        · dsimp only
          rw [hnone, List.append_assoc]
          rfl
        · dsimp only
          rw [hnone]
          exact .succeeded husable
      · rename_i hne
        split
        · rename_i hrestricted
          refine ⟨_, [.poll (getKeyStatus session keyId r.before), .attempt (decryptOnce r.env s.input).1,
            .poll (getKeyStatus session keyId r.after), .sleep], rfl, ?_,
            .again husable hne hrestricted⟩
          dsimp only
          simp only [List.append_assoc, List.cons_append, List.nil_append]
        · refine ⟨_, [.poll (getKeyStatus session keyId r.before), .attempt (decryptOnce r.env s.input).1,
            .poll (getKeyStatus session keyId r.after)], rfl, ?_, .failed husable hne⟩
          dsimp only
          simp only [List.append_assoc, List.cons_append, List.nil_append]
    · exact ⟨_, [.poll (getKeyStatus session keyId r.before)], rfl, rfl, .unusable⟩

/-- A round that is too late returns the last result. -/
theorem retryStep_late {s : Retry σ} {r : Round E} (hkey : keyId ≠ []) (hresult : s.result = none)
    (hnow : deadline ≤ r.now) :
    retryStep session keyId deadline decryptOnce s r = some { s with result := some s.lastResult } := by
  unfold retryStep
  rw [hresult]
  dsimp only
  rw [if_neg hkey, if_neg (Nat.not_lt.2 hnow)]

end

theorem RoundCalls.polled {last last' : OpenCDMError} {calls : List RetryEvent} {result : Option OpenCDMError}
    (h : RoundCalls last calls last' result) : Polled calls := by
  -- an attempt is the second call of its round
  have hsecond : ∀ {status : KeyStatus} {result : OpenCDMError} {rest : List RetryEvent}, isUsableStatus status = true →
      (∀ r, .attempt r ∉ rest) → Polled (.poll status :: .attempt result :: rest) := by
    intro status result rest husable hrest pre r post h
    match pre, h with
    | [], h => cases h
    | [event], h =>
      cases h
      exact ⟨[], status, rfl, husable⟩
    | _ :: _ :: pre, h =>
      obtain ⟨-, h⟩ := List.cons.inj h
      obtain ⟨-, h⟩ := List.cons.inj h
      exact absurd (h ▸ List.mem_append_right pre (List.mem_cons_self ..)) (hrest r)
  have hnone : ∀ {calls : List RetryEvent}, (∀ r, .attempt r ∉ calls) → Polled calls :=
    fun hcalls pre r post h => absurd (h ▸ List.mem_append_right pre (List.mem_cons_self ..)) (hcalls r)
  cases h with
  | restricted _ => exact hnone (by simp)
  | unusable => exact hnone (by simp)
  | succeeded husable => exact hsecond husable (by simp)
  | again husable _ _ => exact hsecond husable (by simp)
  | failed husable _ => exact hsecond husable (by simp)

/-- A round with another one behind it: its attempt, if it makes one, is followed. -/
theorem RoundCalls.followed {last last' : OpenCDMError} {calls : List RetryEvent}
    (h : RoundCalls last calls last' none) : Followed calls := by
  intro pre r post hcalls
  cases h with
  | restricted _ =>
    have hin := List.mem_append_right pre (List.mem_cons_self (a := .attempt r) (l := post))
    rw [← hcalls] at hin
    simp at hin
  | again _ hne hrestricted =>
    match pre, hcalls with
    | [], hcalls => cases hcalls
    | [event], hcalls =>
      cases hcalls
      exact ⟨hne, _, _, rfl, hrestricted⟩
    | [_, _], hcalls => cases hcalls
    | [_, _, _], hcalls => cases hcalls
    | _ :: _ :: _ :: _ :: pre, hcalls => simp at hcalls

theorem RoundCalls.one {last last' : OpenCDMError} {calls : List RetryEvent} {result : Option OpenCDMError}
    (h : RoundCalls last calls last' result) : (calls.filterMap RetryEvent.attempt?).length ≤ 1 := by
  cases h with
  | restricted _ => exact Nat.zero_le _
  | unusable => exact Nat.zero_le _
  | succeeded _ => exact Nat.le_refl _
  | again _ _ _ => exact Nat.le_refl _
  | failed _ _ => exact Nat.le_refl _

/-- The last result is that of the last attempt. -/
theorem RoundCalls.last_eq {last last' : OpenCDMError} {calls : List RetryEvent} {result : Option OpenCDMError}
    (h : RoundCalls last calls last' result) : last' = (lastAttempt calls).getD last := by
  cases h <;> rfl

/-- A round with another one behind it ends with a sleep. -/
theorem RoundCalls.sleeps {last last' : OpenCDMError} {calls : List RetryEvent}
    (h : RoundCalls last calls last' none) : ∃ front, calls = front ++ [.sleep] := by
  cases h with
  | restricted _ => exact ⟨[.poll _], rfl⟩
  | again _ _ _ => exact ⟨[.poll _, .attempt last', .poll _], rfl⟩

/-! ## Runs -/

/-- A run that has not returned. -/
structure Ongoing {σ : Type} (s : Retry σ) : Prop where
  result : s.result = none
  polled : Polled s.log
  followed : Followed s.log
  last : s.lastResult = (lastAttempt s.log).getD errorFail

theorem Ongoing.start {σ : Type} (input : σ) : Ongoing ({ input := input } : Retry σ) where
  result := rfl
  polled := by
    intro pre _ _ h
    cases pre <;> cases h
  followed := by
    intro pre _ _ h
    cases pre <;> cases h
  last := rfl

/-- A round that does not return. -/
theorem Ongoing.round {σ : Type} {s s' : Retry σ} {calls : List RetryEvent} (h : Ongoing s)
    (hlog : s'.log = s.log ++ calls) (hresult : s'.result = none)
    (hcalls : RoundCalls s.lastResult calls s'.lastResult s'.result) : Ongoing s' := by
  rw [hresult] at hcalls
  refine ⟨hresult, ?_, ?_, ?_⟩
  · rw [hlog]
    exact h.polled.append hcalls.polled
  · rw [hlog]
    exact h.followed.append hcalls.followed
  · rw [hlog, lastAttempt_append, hcalls.last_eq, h.last]
    cases lastAttempt calls <;> rfl

/-- A run that is too late. -/
theorem Ongoing.late {σ : Type} {s : Retry σ} (h : Ongoing s) : TraceOK s.log s.lastResult := by
  have hlast := h.followed.last_ne
  have hne : s.lastResult ≠ errorNone := by
    rw [h.last]
    cases hcase : lastAttempt s.log with
    | none => exact by decide
    | some result => exact fun heq => hlast (hcase.trans (congrArg some heq))
  refine ⟨h.polled, ?_, ⟨fun heq => absurd heq hne, fun heq => absurd heq hlast⟩, fun heq => absurd heq hlast, ?_⟩
  · have hagain : Again (s.log ++ []) := h.followed.again (Nat.zero_le _)
    rwa [List.append_nil] at hagain
  · intro _
    rw [h.last]
    cases lastAttempt s.log with
    | none => exact .inr rfl
    | some result => exact .inl rfl

/-- A round that returns. -/
theorem Ongoing.returned {σ : Type} {s : Retry σ} {log calls : List RetryEvent} {last result : OpenCDMError}
    (h : Ongoing s) (hlog : log = s.log ++ calls) (hcalls : RoundCalls s.lastResult calls last (some result)) :
    TraceOK log result := by
  have hlast := h.followed.last_ne
  have hpolled := h.polled.append hcalls.polled
  have hagain := h.followed.again hcalls.one
  subst hlog
  cases hcalls with
  | unusable =>
    have heq : ∀ status, lastAttempt (s.log ++ [.poll status]) = lastAttempt s.log := by
      intro status
      rw [lastAttempt_append]
      rfl
    refine ⟨hpolled, hagain, ⟨fun hnone => absurd hnone (by decide), fun hsome => absurd hsome ?_⟩,
      fun hsome => absurd hsome ?_, fun _ => .inr rfl⟩
    · rw [heq]
      exact hlast
    · rw [heq]
      exact hlast
  | succeeded _ =>
    refine ⟨hpolled, hagain, ⟨fun _ => ?_, fun _ => rfl⟩, fun _ => ?_, fun hne => absurd rfl hne⟩
    · rw [lastAttempt_append]
      rfl
    · rw [List.getLast?_append]
      rfl
  | failed _ hne =>
    have heq : ∀ status status',
        lastAttempt (s.log ++ [.poll status, .attempt last, .poll status']) = some last := by
      intro status status'
      rw [lastAttempt_append]
      rfl
    refine ⟨hpolled, hagain, ⟨fun hnone => absurd hnone hne, fun hsome => ?_⟩, fun hsome => ?_, fun _ => .inl (heq ..)⟩
    · rw [heq] at hsome
      exact Option.some.inj hsome
    · rw [heq] at hsome
      exact absurd (Option.some.inj hsome) hne

section

variable {E σ : Type} {session : Bool} {keyId : List UInt8} {decryptOnce : E → σ → OpenCDMError × σ} {input : σ}
  {start : Nat} {tape : Nat → Round E}

/-- The calls of a run with a key id that has returned, its rounds in time being the first ones. -/
structure Returned (session : Bool) (keyId : List UInt8) (decryptOnce : E → σ → OpenCDMError × σ) (input : σ)
    (start : Nat) (tape : Nat → Round E) (rounds n : Nat) : Prop where
  inTime : ∀ i < rounds, (tape i).now < start + kOutputRestrictedRetryTimeout
  last : n = rounds ∨ n = rounds + 1 ∧ start + kOutputRestrictedRetryTimeout ≤ (tape rounds).now
  before : ∀ i < n, (retryAfter session keyId decryptOnce input start tape i).result = none
  trace : ∃ result, (retryAfter session keyId decryptOnce input start tape n).result = some result ∧
    TraceOK (retryAfter session keyId decryptOnce input start tape n).log result

/-- A run that has slept in every round returns at the first test that is too late. -/
theorem returned_late (hkey : keyId ≠ []) {n : Nat}
    (hon : Ongoing (retryAfter session keyId decryptOnce input start tape n))
    (hbefore : ∀ i ≤ n, (retryAfter session keyId decryptOnce input start tape i).result = none)
    (hintime : ∀ i < n, (tape i).now < start + kOutputRestrictedRetryTimeout)
    (hlate : start + kOutputRestrictedRetryTimeout ≤ (tape n).now) :
    Returned session keyId decryptOnce input start tape n (n + 1) := by
  have hafter : retryAfter session keyId decryptOnce input start tape (n + 1) =
      { retryAfter session keyId decryptOnce input start tape n with
        result := some (retryAfter session keyId decryptOnce input start tape n).lastResult } := by
    rw [retryAfter, retryStep_late session decryptOnce hkey hon.result hlate]
    rfl
  refine ⟨hintime, .inr ⟨rfl, hlate⟩, fun i hi => hbefore i (Nat.le_of_lt_succ hi),
    (retryAfter session keyId decryptOnce input start tape n).lastResult, ?_, ?_⟩
  · rw [hafter]
  · rw [hafter]
    exact hon.late

/-- After a number of rounds, the run has returned or has slept in every one of them. -/
theorem retryAfter_cases (hkey : keyId ≠ []) (hclock : Clock session keyId decryptOnce input start tape) (n : Nat) :
    (∃ rounds ≤ n, ∃ m ≤ n + 1, Returned session keyId decryptOnce input start tape rounds m) ∨
      Ongoing (retryAfter session keyId decryptOnce input start tape n) ∧
      (∀ i ≤ n, (retryAfter session keyId decryptOnce input start tape i).result = none) ∧
      (∀ i < n, (tape i).now < start + kOutputRestrictedRetryTimeout) ∧
      start + n * kOutputRestrictedRetryInterval ≤ (tape n).now := by
  induction n with
  | zero =>
    refine .inr ⟨Ongoing.start input, fun i hi => ?_, fun i hi => (by omega), ?_⟩
    · rw [Nat.le_zero.1 hi]
      rfl
    · have := hclock.first
      omega
  | succ n ih =>
    rcases ih with ⟨rounds, hrounds, m, hm, hreturned⟩ | ⟨hon, hbefore, hintime, hnow⟩
    · exact .inl ⟨rounds, by omega, m, by omega, hreturned⟩
    · by_cases htime : (tape n).now < start + kOutputRestrictedRetryTimeout
      · obtain ⟨s', calls, hstep, hlog, hcalls⟩ :=
          retryStep_round session decryptOnce hkey hon.result htime
        have hafter : retryAfter session keyId decryptOnce input start tape (n + 1) = s' := by
          rw [retryAfter, hstep]
          rfl
        have hintime' : ∀ i < n + 1, (tape i).now < start + kOutputRestrictedRetryTimeout := fun i hi => by
          rcases Nat.lt_succ_iff_lt_or_eq.1 hi with hi | rfl
          · exact hintime i hi
          · exact htime
        cases hresult : s'.result with
        | some result =>
          refine .inl ⟨n + 1, Nat.le_refl _, n + 1, by omega, hintime', .inl rfl, fun i hi => hbefore i (by omega),
            result, ?_, ?_⟩
          · rw [hafter]
            exact hresult
          · rw [hafter]
            exact hon.returned hlog (hresult ▸ hcalls)
        | none =>
          refine .inr ⟨?_, fun i hi => ?_, hintime', ?_⟩
          · rw [hafter]
            exact hon.round hlog hresult hcalls
          · rcases Nat.lt_or_eq_of_le hi with hi | rfl
            · exact hbefore i (by omega)
            · rw [hafter]
              exact hresult
          · rw [hresult] at hcalls
            obtain ⟨front, rfl⟩ := hcalls.sleeps
            have hsleep := hclock.sleeps n ⟨front, by rw [hafter, hlog, List.append_assoc]⟩
            rw [Nat.add_mul, Nat.one_mul]
            omega
      · exact .inl ⟨n, by omega, n + 1, by omega, returned_late hkey hon hbefore hintime (Nat.not_lt.1 htime)⟩

end

/-- Over every sequence of statuses and results, on such a clock: without a key id there is one attempt and no poll.
With one, the run returns within 24 rounds, or at the test behind them. -/
theorem retry_trace {E σ : Type} (session : Bool) (keyId : List UInt8) (decryptOnce : E → σ → OpenCDMError × σ)
    (input : σ) (start : Nat) (tape : Nat → Round E)
    (hclock : Clock session keyId decryptOnce input start tape) :
    (keyId = [] → ∃ result, (retryAfter session keyId decryptOnce input start tape 1).log = [.attempt result] ∧
      (retryAfter session keyId decryptOnce input start tape 1).result = some result) ∧
    (keyId ≠ [] → ∃ rounds ≤ 24, ∃ n, Returned session keyId decryptOnce input start tape rounds n) := by
  refine ⟨fun hkey => ?_, fun hkey => ?_⟩
  · subst hkey
    exact ⟨_, rfl, rfl⟩
  · rcases retryAfter_cases hkey hclock 24 with ⟨rounds, hrounds, n, -, hreturned⟩ | ⟨hon, hbefore, hintime, hnow⟩
    · exact ⟨rounds, hrounds, n, hreturned⟩
    · -- 24 intervals are the whole budget
      have hlate : start + kOutputRestrictedRetryTimeout ≤ (tape 24).now := hnow
      exact ⟨24, Nat.le_refl _, 25, returned_late hkey hon hbefore hintime hlate⟩

/-- A first attempt that fails because the output is restricted meanwhile, and attempts that succeed, one for each
interval. -/
def retryTape (n : Nat) : Round OpenCDMError where
  now := n * kOutputRestrictedRetryInterval
  before := .usable
  env := if n = 0 then errorFail else errorNone
  after := .outputRestricted

theorem retry_trace_twice :
    (retryAfter true [1] (fun result (s : Unit) => (result, s)) () 0 retryTape 2).log =
      [.poll .usable, .attempt errorFail, .poll .outputRestricted, .sleep, .poll .usable, .attempt errorNone] ∧
    ∃ rounds ≤ 24, ∃ n, Returned true [1] (fun result (s : Unit) => (result, s)) () 0 retryTape rounds n :=
  ⟨by decide, (retry_trace true [1] (fun result (s : Unit) => (result, s)) () 0 retryTape
    ⟨Nat.zero_le _, fun n => Nat.mul_le_mul_right _ (Nat.le_succ n),
      fun n _ => Nat.le_of_eq (Nat.succ_mul n _).symm⟩).2 (by decide)⟩

end Ocdm.Adapter
