import PlaceSearch.Proofs.Process
import PlaceSearch.Provider.Execute

/-!
# What one call sends

A call sends its request, and then nothing but the same request and its older shape.  The attempts
go on until one has success or none is left.  What the call has counted is at every turn of its
loop what its own requests and their replies say, whatever others send in between: how many failed,
how long it paused, whether the older shape was needed.  One lemma for each kind of turn shows this,
and the whole loop follows by induction on the turns that are left.
-/

namespace PlaceSearch

variable {t : Transport} {policy : RetryPolicy} {r : Request} {sent : List Request}

/-! ## Replies -/

/-- The reply tells of success. -/
def Reply.Succeeds (reply : Reply) : Prop :=
  ∃ body, reply = .answered 200 body

theorem Reply.body?_eq_some_iff {reply : Reply} {body : Json} :
    reply.body? = some body ↔ reply = .answered 200 body := by
  cases reply with
  | lost reason => simp [Reply.body?]
  | answered status document => simp [Reply.body?]

theorem Reply.body?_eq_none_iff {reply : Reply} : reply.body? = none ↔ ¬reply.Succeeds := by
  rw [Option.eq_none_iff_forall_ne_some, Reply.Succeeds, not_exists]
  exact forall_congr' fun body => not_congr Reply.body?_eq_some_iff

/-- The replies to some requests, latest first, that are sent after the requests `sent`. -/
def Transport.replies (t : Transport) (sent : List Request) : List Request → List Reply
  | [] => []
  | r :: more => t (more ++ sent) r :: t.replies sent more

/-- A request that was sent, with its reply. -/
structure Exchange where
  request : Request
  reply : Reply

/-- The request was sent again and again, `n` times in all, and never had success. -/
structure Refused (r : Request) (n : Nat) (g : List Exchange) : Prop where
  requests : g.map (·.request) = List.replicate n r
  failed : ∀ e ∈ g, ¬e.reply.Succeeds

namespace Refused

variable {n : Nat} {g : List Exchange}

theorem nil : Refused r 0 [] :=
  ⟨rfl, nofun⟩

theorem cons {reply : Reply} (h : Refused r n g) (hreply : ¬reply.Succeeds) :
    Refused r (n + 1) (⟨r, reply⟩ :: g) :=
  ⟨congrArg (r :: ·) h.requests, List.forall_mem_cons.mpr ⟨hreply, h.failed⟩⟩

theorem length_eq (h : Refused r n g) : g.length = n := by
  rw [← List.length_map (f := Exchange.request), h.requests, List.length_replicate]

theorem request_eq (h : Refused r n g) {e : Exchange} (he : e ∈ g) : e.request = r := by
  have hmem := List.mem_map_of_mem (f := Exchange.request) he
  rw [h.requests] at hmem
  exact List.eq_of_mem_replicate hmem

end Refused

/-! ## The loop of a call -/

/-- The notes of a call are its requests with their replies, latest first: each is the request that
the call is for, or its older shape.  Others may send what they like in between. -/
def Transport.exchanges (t : Transport) (r : Request) :
    Discipline (List Request) (List Exchange) where
  assumes _ _ := True
  allows g sent sent' g' :=
    ∃ r', (r' = r ∨ r' = r.toLegacy) ∧ sent' = r' :: sent ∧ g' = ⟨r', t sent r'⟩ :: g

/-- What a call has recorded when it has come to a state after some exchanges. -/
inductive CallState.Reached (policy : RetryPolicy) (r : Request) :
    CallState → CallRecord → List Exchange → Prop where
  | attempt {n : Nat} {g : List Exchange} (hn : n ≤ policy.maxRetries) (hg : Refused r n g) :
    Reached policy r (.attempt n) ⟨n, (List.range n).map policy.delay, false, none⟩ g
  | backoff {n : Nat} {g : List Exchange} (hn : n < policy.maxRetries)
      (hg : Refused r (n + 1) g) :
    Reached policy r (.backoff n (policy.delay n))
      ⟨n + 1, (List.range n).map policy.delay, false, none⟩ g
  | legacyRetry {g : List Exchange} (hg : Refused r (policy.maxRetries + 1) g) :
    Reached policy r .legacyRetry
      ⟨policy.maxRetries + 1, (List.range policy.maxRetries).map policy.delay, false, none⟩ g
  | success {n : Nat} {g : List Exchange} {body : Json} (hn : n ≤ policy.maxRetries)
      (hg : Refused r n g) :
    Reached policy r .success ⟨n + 1, (List.range n).map policy.delay, false, some body⟩
      (⟨r, .answered 200 body⟩ :: g)
  | legacySuccess {g : List Exchange} {body : Json}
      (hg : Refused r (policy.maxRetries + 1) g) :
    Reached policy r .success
      ⟨policy.maxRetries + 2, (List.range policy.maxRetries).map policy.delay, true, some body⟩
      (⟨r.toLegacy, .answered 200 body⟩ :: g)
  | failed {g : List Exchange} {reply : Reply} (hg : Refused r (policy.maxRetries + 1) g)
      (hreply : ¬reply.Succeeds) :
    Reached policy r .failed
      ⟨policy.maxRetries + 2, (List.range policy.maxRetries).map policy.delay, true, none⟩
      (⟨r.toLegacy, reply⟩ :: g)

namespace CallState.Reached

variable {c : CallRecord} {g : List Exchange} {n : Nat} {reply : Reply} {body : Json}

/-- An attempt that has success ends the call. -/
theorem attempt_answered (h : Reached policy r (.attempt n) c g)
    (hreply : reply.body? = some body) :
    Reached policy r .success { c.count with body := some body }
      (⟨r, reply⟩ :: g) := by
  obtain rfl := Reply.body?_eq_some_iff.mp hreply
  cases h with
  | attempt hn hg => exact .success hn hg

/-- An attempt that fails is followed by a pause, if a repetition is left. -/
theorem attempt_backoff (h : Reached policy r (.attempt n) c g) (hreply : reply.body? = none)
    (hn : n < policy.maxRetries) :
    Reached policy r (.backoff n (policy.delay n)) c.count
      (⟨r, reply⟩ :: g) := by
  cases h with
  | attempt _ hg => exact .backoff hn (hg.cons (Reply.body?_eq_none_iff.mp hreply))

/-- The last attempt that fails is followed by the older shape. -/
theorem attempt_legacy (h : Reached policy r (.attempt n) c g) (hreply : reply.body? = none)
    (hn : ¬n < policy.maxRetries) :
    Reached policy r .legacyRetry c.count (⟨r, reply⟩ :: g) := by
  cases h with
  | attempt hle hg =>
    obtain rfl := Nat.le_antisymm hle (Nat.not_lt.mp hn)
    exact .legacyRetry (hg.cons (Reply.body?_eq_none_iff.mp hreply))

/-- A pause is followed by an attempt. -/
theorem paused {d : Duration} (h : Reached policy r (.backoff n d) c g) :
    Reached policy r (.attempt (n + 1)) { c with backoffs := c.backoffs ++ [d] } g := by
  cases h with
  | backoff hn hg =>
    have hnext := attempt (Nat.succ_le_of_lt hn) hg
    rwa [List.range_succ, List.map_append] at hnext

/-- The older shape ends the call, with success or not. -/
theorem legacy_answered (h : Reached policy r .legacyRetry c g) (hreply : reply.body? = some body) :
    Reached policy r .success
      { c.count with usedLegacy := true, body := some body }
      (⟨r.toLegacy, reply⟩ :: g) := by
  obtain rfl := Reply.body?_eq_some_iff.mp hreply
  cases h with
  | legacyRetry hg => exact .legacySuccess hg

theorem legacy_failed (h : Reached policy r .legacyRetry c g) (hreply : reply.body? = none) :
    Reached policy r .failed { c.count with usedLegacy := true }
      (⟨r.toLegacy, reply⟩ :: g) := by
  cases h with
  | legacyRetry hg => exact .failed hg (Reply.body?_eq_none_iff.mp hreply)

end CallState.Reached

/-- The call is at its end, as the loop comes to it. -/
structure CallRecord.Ended (policy : RetryPolicy) (r : Request) (state : CallState)
    (c : CallRecord) (g : List Exchange) : Prop where
  reached : state.Reached policy r c g
  final : state = .success ∨ state = .failed

theorem obeys_ask (t : Transport) {r' : Request} (hr' : r' = r ∨ r' = r.toLegacy)
    (g : List Exchange) :
    (liftM (t.ask r') : Process (List Request) (Option Json)).Obeys (t.exchanges r)
      (fun body? g' => ∃ reply : Reply, reply.body? = body? ∧ g' = ⟨r', reply⟩ :: g) g :=
  .lift fun sent _ => ⟨_, ⟨r', hr', rfl, rfl⟩, t sent r', rfl, rfl⟩

/-- From a state that was reached, the loop of a call reaches its end, whatever others send
meanwhile.  The induction is on the turns that are left. -/
theorem obeys_callLoop {state : CallState} {c : CallRecord} {g : List Exchange}
    (h : state.Reached policy r c g) :
    (callLoop t policy r state c).Obeys (t.exchanges r)
      (fun e g => CallRecord.Ended policy r e.1 e.2 g) g := by
  fun_induction callLoop t policy r state c generalizing g with
  | case1 n c ihsuccess ihbackoff ihlegacy =>
    refine (obeys_ask t (.inl rfl) g).bind ?_
    rintro body? _ ⟨reply, hreply, rfl⟩
    cases body? with
    | some body => exact ihsuccess body (h.attempt_answered hreply)
    | none =>
      change (ite _ _ _ : Process _ _).Obeys _ _ _
      split
      · next hn => exact ihbackoff hn (h.attempt_backoff hreply hn)
      · next hn => exact ihlegacy (h.attempt_legacy hreply hn)
  | case2 n d c ih => exact ih h.paused
  | case3 c ihsuccess ihfailed =>
    refine (obeys_ask t (.inr rfl) g).bind ?_
    rintro body? _ ⟨reply, hreply, rfl⟩
    cases body? with
    | some body => exact ihsuccess body (h.legacy_answered hreply)
    | none => exact ihfailed (h.legacy_failed hreply)
  | case4 c => exact ⟨h, .inl rfl⟩
  | case5 c => exact ⟨h, .inr rfl⟩

/-! ## The outcome of a call -/

/-- The outcome is that of a call that had the exchanges `g`: each reply is one of the transport,
and the outcome is made of the record with which the loop came to its end. -/
structure Outcome.IsOf (t : Transport) (policy : RetryPolicy) (r : Request) (o : Outcome)
    (g : List Exchange) : Prop where
  replies : ∀ e ∈ g, ∃ sent, e.reply = t sent e.request
  ended : ∃ state c, CallRecord.Ended policy r state c g ∧ o = .ofRecord r state c

/-- A call has the outcome of its own exchanges, whatever others send meanwhile. -/
theorem obeys_execute (t : Transport) (policy : RetryPolicy) (r : Request) :
    (execute t policy r).Obeys (t.exchanges r) (Outcome.IsOf t policy r) [] := by
  have hloop : (callLoop t policy r (.attempt 0) {}).Obeys (t.exchanges r)
      (fun e g => (∀ e ∈ g, ∃ sent, e.reply = t sent e.request) ∧
        CallRecord.Ended policy r e.1 e.2 g) [] := by
    refine (obeys_callLoop (.attempt (Nat.zero_le _) .nil)).and_notes ?_ nofun
    rintro g sent _ _ hg - ⟨r', -, -, rfl⟩
    exact List.forall_mem_cons.mpr ⟨⟨sent, rfl⟩, hg⟩
  exact hloop.bind fun e g hg => ⟨hg.1, e.1, e.2, hg.2, rfl⟩

/-- Whatever a call may return is the outcome of some exchanges. -/
theorem exists_isOf_of_returns {o : Outcome} (h : (execute t policy r).Returns o) :
    ∃ g, o.IsOf t policy r g :=
  (obeys_execute t policy r).of_returns (fun _ _ => trivial) h

namespace Outcome.IsOf

variable {o : Outcome} {g : List Exchange}

/-- All that a call sends is counted. -/
theorem attempts_eq (h : o.IsOf t policy r g) : o.attempts = g.length := by
  obtain ⟨-, state, c, ⟨hreached, hfinal⟩, rfl⟩ := h
  cases hreached with
  | success _ hg => exact congrArg (· + 1) hg.length_eq.symm
  | legacySuccess hg => exact congrArg (· + 1) hg.length_eq.symm
  | failed hg => exact congrArg (· + 1) hg.length_eq.symm
  | _ => simp at hfinal

/-- A call sends its request. -/
theorem exists_mem (h : o.IsOf t policy r g) : ∃ e ∈ g, e.request = r := by
  obtain ⟨-, state, c, ⟨hreached, hfinal⟩, rfl⟩ := h
  have hrefused : ∀ {n g e}, Refused r (n + 1) g → ∃ e' ∈ e :: g, e'.request = r := by
    intro n g e hg
    obtain ⟨e', g', rfl⟩ := List.exists_cons_of_length_eq_add_one hg.length_eq
    exact ⟨e', List.mem_cons_of_mem _ List.mem_cons_self, hg.request_eq List.mem_cons_self⟩
  cases hreached with
  | success _ hg => exact ⟨_, List.mem_cons_self, rfl⟩
  | legacySuccess hg => exact hrefused hg
  | failed hg => exact hrefused hg
  | _ => simp at hfinal

/-- An answer is complete unless it has the older shape and this one leaves out an included type. -/
theorem complete_eq (h : o.IsOf t policy r g) :
    o.complete = !(o.usedLegacy && r.legacyDropsIncluded) := by
  obtain ⟨-, state, c, -, rfl⟩ := h
  rfl

/-- The dataset of an answer is made of features, and has the cursor of the answer. -/
theorem exists_ofFeatures (h : o.IsOf t policy r g) :
    ∃ fs, o.dataset = (Dataset.ofFeatures fs).withNextCursor o.nextCursor := by
  obtain ⟨-, state, c, -, rfl⟩ := h
  obtain ⟨attempts, backoffs, usedLegacy, _ | body⟩ := c
  · exact ⟨_, rfl⟩
  · exact ⟨_, rfl⟩

theorem nextCursor_dataset (h : o.IsOf t policy r g) : o.dataset.nextCursor = o.nextCursor := by
  obtain ⟨fs, hfs⟩ := h.exists_ofFeatures
  rw [hfs, Dataset.withNextCursor]

/-- If every attempt would have success, the first one is the only one. -/
theorem eq_of_answered (h : o.IsOf t policy r g) (hanswers : ∀ sent, (t sent r).Succeeds) :
    ∃ sent body, t sent r = .answered 200 body ∧
      o = .ofRecord r .success { attempts := 1, body := some body } := by
  obtain ⟨hreplies, state, c, ⟨hreached, hfinal⟩, rfl⟩ := h
  have hnone : ∀ {n g}, Refused r n g → (∀ e ∈ g, ∃ sent, e.reply = t sent e.request) →
      n = 0 := by
    intro n g hg hreplies
    cases n with
    | zero => rfl
    | succ n =>
      obtain ⟨e, g', rfl⟩ := List.exists_cons_of_length_eq_add_one hg.length_eq
      obtain ⟨sent, hreply⟩ := hreplies e List.mem_cons_self
      refine absurd ?_ (hg.failed e List.mem_cons_self)
      rw [hreply, hg.request_eq List.mem_cons_self]
      exact hanswers sent
  cases hreached with
  | @success n g body _ hg =>
    obtain ⟨hreply, hbefore⟩ := List.forall_mem_cons.mp hreplies
    obtain ⟨sent, hreply⟩ := hreply
    obtain rfl := hnone hg hbefore
    exact ⟨sent, body, hreply.symm, rfl⟩
  | legacySuccess hg => exact absurd (hnone hg (List.forall_mem_cons.mp hreplies).2) (by simp)
  | failed hg => exact absurd (hnone hg (List.forall_mem_cons.mp hreplies).2) (by simp)
  | _ => simp at hfinal

end Outcome.IsOf

/-! ## The course of a call by itself -/

/-- With nothing in between, the exchanges of a call are the last ones of the log, and each reply is
the one to its request after those before it. -/
theorem exists_run_execute (t : Transport) (policy : RetryPolicy) (r : Request)
    (sent : List Request) :
    ∃ g : List Exchange, ((execute t policy r).run sent).2 = g.map (·.request) ++ sent ∧
      g.map (·.reply) = t.replies sent (g.map (·.request)) ∧
      ((execute t policy r).run sent).1.IsOf t policy r g := by
  obtain ⟨g, houtcome, hlog, hreplies⟩ := (obeys_execute t policy r).run
    (I := fun g log => log = g.map (·.request) ++ sent ∧
      g.map (·.reply) = t.replies sent (g.map (·.request)))
    (fun _ => trivial)
    (by
      rintro g log _ _ ⟨rfl, hreplies⟩ ⟨r', -, rfl, rfl⟩
      exact ⟨rfl, congrArg (_ :: ·) hreplies⟩)
    (s := sent) ⟨rfl, rfl⟩
  exact ⟨g, hlog, hreplies, houtcome⟩

/-- An answer is complete unless it has the older shape and this one leaves out an included type. -/
theorem complete_execute :
    ((execute t policy r).run sent).1.complete =
      !(((execute t policy r).run sent).1.usedLegacy && r.legacyDropsIncluded) := by
  obtain ⟨g, -, -, houtcome⟩ := exists_run_execute t policy r sent
  exact houtcome.complete_eq

/-- An outcome tells how its call went.  The call had the exchanges `g`, latest first: its request
`r` was sent and then repeated `n` times, up to the first reply that had success, and if none had,
the older shape of `r` was sent once. -/
structure Outcome.Tells (o : Outcome) (policy : RetryPolicy) (r : Request) (g : List Exchange)
    (n : Nat) : Prop where
  repetitions_le : n ≤ policy.maxRetries
  ending :
    (∃ e before, g = e :: before ∧ Refused r n before ∧ e.request = r ∧ e.reply.Succeeds) ∧
        o.usedLegacy = false ∨
      (∃ e before, g = e :: before ∧ Refused r (n + 1) before ∧ e.request = r.toLegacy) ∧
        n = policy.maxRetries ∧ o.usedLegacy = true
  attempts_eq : o.attempts = g.length
  attempts_le : o.attempts ≤ policy.maxRetries + 2
  backoffs_eq : o.backoffs = (List.range n).map policy.delay
  success_iff : o.state = .success ↔ ∃ e ∈ g, e.reply.Succeeds
  failed_iff : o.state = .failed ↔ ∀ e ∈ g, ¬e.reply.Succeeds
  of_failed : o.state = .failed →
    o.nextCursor = none ∧ o.dataset.features = [Feature.failed] ∧ o.dataset.ids = ["failed"]

/-- Every outcome tells how its call went. -/
theorem Outcome.IsOf.exists_tells {o : Outcome} {g : List Exchange} (h : o.IsOf t policy r g) :
    ∃ n, o.Tells policy r g n := by
  have hattempts := h.attempts_eq
  obtain ⟨-, state, c, ⟨hreached, hfinal⟩, rfl⟩ := h
  cases hreached with
  | @success n g body hn hg =>
    have hsucceeds : (Reply.answered 200 body).Succeeds := ⟨body, rfl⟩
    exact ⟨n, {
      repetitions_le := hn
      ending := .inl ⟨⟨_, g, rfl, hg, rfl, hsucceeds⟩, rfl⟩
      attempts_eq := hattempts
      attempts_le := Nat.succ_le_succ (Nat.le_succ_of_le hn)
      backoffs_eq := rfl
      success_iff := iff_of_true rfl ⟨_, List.mem_cons_self, hsucceeds⟩
      failed_iff := iff_of_false nofun fun hall => hall _ List.mem_cons_self hsucceeds
      of_failed := nofun }⟩
  | @legacySuccess g body hg =>
    have hsucceeds : (Reply.answered 200 body).Succeeds := ⟨body, rfl⟩
    exact ⟨policy.maxRetries, {
      repetitions_le := Nat.le_refl _
      ending := .inr ⟨⟨_, g, rfl, hg, rfl⟩, rfl, rfl⟩
      attempts_eq := hattempts
      attempts_le := Nat.le_refl _
      backoffs_eq := rfl
      success_iff := iff_of_true rfl ⟨_, List.mem_cons_self, hsucceeds⟩
      failed_iff := iff_of_false nofun fun hall => hall _ List.mem_cons_self hsucceeds
      of_failed := nofun }⟩
  | @failed g reply hg hreply =>
    have hall : ∀ e ∈ ⟨r.toLegacy, reply⟩ :: g, ¬Reply.Succeeds (Exchange.reply e) :=
      List.forall_mem_cons.mpr ⟨hreply, hg.failed⟩
    exact ⟨policy.maxRetries, {
      repetitions_le := Nat.le_refl _
      ending := .inr ⟨⟨_, g, rfl, hg, rfl⟩, rfl, rfl⟩
      attempts_eq := hattempts
      attempts_le := Nat.le_refl _
      backoffs_eq := rfl
      success_iff := iff_of_false nofun fun ⟨e, he, hsucceeds⟩ => hall e he hsucceeds
      failed_iff := iff_of_true rfl hall
      of_failed := fun _ => ⟨rfl, rfl, rfl⟩ }⟩
  | _ => simp at hfinal

/-- A call by itself sends its request until it has success or all repetitions are used up, and
then, only if none had success, the older shape once.  Its outcome tells of this: the log ends with
the exchanges of the call, in which each reply is what the transport gives after the requests before
it.  The number of requests is at most two more than that of repetitions, so it fits whatever these
two more fit. -/
theorem exists_tells_execute (t : Transport) (policy : RetryPolicy) (r : Request)
    (sent : List Request) :
    ∃ g n, ((execute t policy r).run sent).2 = g.map (·.request) ++ sent ∧
      g.map (·.reply) = t.replies sent (g.map (·.request)) ∧
      ((execute t policy r).run sent).1.Tells policy r g n := by
  obtain ⟨g, hlog, hreplies, houtcome⟩ := exists_run_execute t policy r sent
  obtain ⟨n, htells⟩ := houtcome.exists_tells
  exact ⟨g, n, hlog, hreplies, htells⟩

/-- Two refusals, then an answer. -/
example :
    ((execute (fun sent _ => .answered (if sent.length < 2 then 429 else 200) .null) {}
      (.details "x")).run []).1.backoffs = [.ofMillis 500, .ofMillis 1000] := by
  decide +kernel

end PlaceSearch
