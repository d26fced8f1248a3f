import MachineFleet.Http.Client

namespace MachineFleet.Http

def Redirects (request : Request) (response : Response) : Prop :=
  isRedirect response.status = true ∧ (location? request.url response).isSome

/-- The requests of a client with their answers, each of which but the last sends it on to the next
request. -/
inductive Course (network : Network) : Request → List (Request × Reply) → Prop
  | arrived {request : Request} {reply : Reply} (answered : network request = some reply)
      (stays : ¬ Redirects request reply.response) : Course network request [(request, reply)]
  | onward {request next : Request} {reply : Reply} {steps : List (Request × Reply)}
      (answered : network request = some reply)
      (follows : follow? request reply.response = some next) (rest : Course network next steps) :
      Course network request ((request, reply) :: steps)

def totalDelay : List (Request × Reply) → Duration
  | [] => 0
  | (_, reply) :: steps => reply.delay + totalDelay steps

variable {network : Network} {request next : Request} {reply : Reply} {response : Response}
  {limit left? : Option Duration} {left : Nat} {steps : List (Request × Reply)}

theorem follow?_eq_none_iff : follow? request response = none ↔ ¬ Redirects request response := by
  unfold follow? Redirects
  split
  · rename_i hstatus
    simp [hstatus]
  · rename_i hstatus
    simp [hstatus]

theorem not_redirects_of_isSuccess (h : response.isSuccess = true) :
    ¬ Redirects request response := by
  rintro ⟨hstatus, -⟩
  simp only [isRedirect, List.contains_cons, List.contains_nil, Bool.or_false, Bool.or_eq_true,
    beq_iff_eq] at hstatus
  rcases hstatus with hstatus | hstatus | hstatus | hstatus | hstatus <;>
    simp [Response.isSuccess, hstatus] at h

theorem remaining?_eq_some (h : remaining? limit reply.delay = some left?) (d : Duration) :
    (∀ bound ∈ left?, d ≤ bound) ↔ ∀ bound ∈ limit, reply.delay + d ≤ bound := by
  cases limit with
  | none =>
    obtain rfl := Option.some.inj h
    simp
  | some bound =>
    simp only [remaining?] at h
    split at h
    · rename_i hle
      obtain rfl := Option.some.inj h
      simpa using Nat.le_sub_iff_add_le' hle
    · cases h

theorem remaining?_isSome_iff (limit : Option Duration) (d : Duration) :
    (remaining? limit d).isSome ↔ ∀ bound ∈ limit, d ≤ bound := by
  cases limit with
  | none => simp [remaining?]
  | some bound => by_cases hd : d ≤ bound <;> simp [remaining?, hd]

theorem head?_exchange (network : Network) (limit : Option Duration) (left : Nat)
    (request : Request) : (exchange network limit left request).1.head? = some request := by
  unfold exchange
  repeat' split
  all_goals rfl

theorem exchange_cases {sent : List Request}
    (h : exchange network limit left request = (sent, some response)) :
    ∃ reply rest, network request = some reply ∧ remaining? limit reply.delay = some rest ∧
      (¬ Redirects request reply.response ∧ sent = [request] ∧ response = reply.response ∨
        ∃ fewer next more, left = fewer + 1 ∧ follow? request reply.response = some next ∧
          exchange network rest fewer next = (more, some response) ∧ sent = request :: more) := by
  unfold exchange at h
  split at h
  · cases h
  rename_i reply answered
  split at h
  · cases h
  rename_i rest htime
  refine ⟨reply, rest, answered, htime, ?_⟩
  split at h
  · rename_i stays
    cases h
    exact .inl ⟨follow?_eq_none_iff.1 stays, rfl, rfl⟩
  rename_i next follows
  split at h
  · cases h
  · rename_i fewer
    cases hmore : exchange network rest fewer next with
    | mk more answer =>
      rw [hmore] at h
      cases h
      exact .inr ⟨fewer, next, more, rfl, follows, hmore, rfl⟩

/-- A client that is given a response has made a course to it: not more redirections than it may
follow, not more time than it has. -/
theorem exists_course_of_exchange {sent : List Request}
    (h : exchange network limit left request = (sent, some response)) :
    ∃ steps last, Course network request steps ∧ steps.length ≤ left + 1 ∧
      (∀ bound ∈ limit, totalDelay steps ≤ bound) ∧ sent = steps.map (·.1) ∧
      steps.getLast? = some last ∧ last.2.response = response := by
  -- Every redirection leaves one fewer, for a rest of the limit.
  induction left using Nat.strongRecOn generalizing request limit sent with
  | ind left ih =>
    obtain ⟨reply, rest, answered, htime,
      ⟨stays, rfl, rfl⟩ | ⟨fewer, next, more, rfl, follows, hmore, rfl⟩⟩ := exchange_cases h
    · have hquick : ∀ bound ∈ limit, totalDelay [(request, reply)] ≤ bound :=
        (remaining?_isSome_iff limit reply.delay).1 (by rw [htime]; rfl)
      exact ⟨_, _, .arrived answered stays, by simp, hquick, rfl, rfl, rfl⟩
    · obtain ⟨steps, last, course, hshort, hquick, rfl, hlast, rfl⟩ := ih fewer (by omega) hmore
      rw [remaining?_eq_some htime] at hquick
      have hend : ((request, reply) :: steps).getLast? = some last := by
        rw [List.getLast?_cons, hlast]
        rfl
      exact ⟨_, last, .onward answered follows course, by simpa using hshort, hquick, rfl, hend, rfl⟩

theorem Course.length_pos (h : Course network request steps) : 0 < steps.length := by
  cases h <;> simp

theorem exchange_of_course {last : Request × Reply} (course : Course network request steps)
    (hshort : steps.length ≤ left + 1) (hquick : ∀ bound ∈ limit, totalDelay steps ≤ bound)
    (hlast : steps.getLast? = some last) :
    exchange network limit left request = (steps.map (·.1), some last.2.response) := by
  -- The course is what gets shorter: the bounds only have to leave room for the rest of it.
  induction course generalizing limit left with
  | @arrived request reply answered stays =>
    obtain ⟨rest, htime⟩ := Option.isSome_iff_exists.1
      ((remaining?_isSome_iff limit reply.delay).2 hquick)
    obtain rfl : (request, reply) = last := Option.some.inj hlast
    unfold exchange
    simp only [answered, htime, follow?_eq_none_iff.2 stays]
    rfl
  | @onward request next reply steps answered follows more ih =>
    have hpos := more.length_pos
    obtain ⟨fewer, rfl⟩ : ∃ fewer, left = fewer + 1 := by
      obtain _ | fewer := left
      · rw [List.length_cons] at hshort
        omega
      · exact ⟨fewer, rfl⟩
    have hin : ∀ bound ∈ limit, reply.delay ≤ bound := fun bound hbound =>
      Nat.le_trans (Nat.le_add_right ..) (hquick bound hbound)
    obtain ⟨rest, htime⟩ := Option.isSome_iff_exists.1 ((remaining?_isSome_iff limit _).2 hin)
    have hend : steps.getLast? = some last := by
      obtain ⟨step, steps, rfl⟩ := List.exists_cons_of_length_pos hpos
      rwa [List.getLast?_cons_cons] at hlast
    have hmore := ih (by simpa using hshort) ((remaining?_eq_some htime _).2 hquick) hend
    rw [exchange]
    simp only [answered, htime, follows, hmore]
    rfl

/-- What a client is given is the last answer of a course, and every course within its limits is
made. -/
theorem exchange_eq_some_iff {sent : List Request} :
    exchange network limit left request = (sent, some response) ↔
      ∃ steps last, Course network request steps ∧ steps.length ≤ left + 1 ∧
        (∀ bound ∈ limit, totalDelay steps ≤ bound) ∧ sent = steps.map (·.1) ∧
        steps.getLast? = some last ∧ last.2.response = response := by
  constructor
  · exact exists_course_of_exchange
  · rintro ⟨steps, last, course, hshort, hquick, rfl, hlast, rfl⟩
    exact exchange_of_course course hshort hquick hlast

theorem exchange_fst_of_not_redirects
    (h : ∀ reply ∈ network request, (∀ bound ∈ limit, reply.delay ≤ bound) →
      ¬ Redirects request reply.response) :
    (exchange network limit left request).1 = [request] := by
  unfold exchange
  split
  · rfl
  rename_i reply answered
  split
  · rfl
  rename_i rest htime
  have hin : ∀ bound ∈ limit, reply.delay ≤ bound :=
    (remaining?_isSome_iff limit _).1 (by rw [htime]; rfl)
  rw [follow?_eq_none_iff.2 (h reply answered hin)]

theorem exists_send_of_redirects (hreply : network request = some reply)
    (h : Redirects request reply.response) :
    ∃ next sent, follow? request reply.response = some next ∧
      (send network none request).1 = request :: next :: sent := by
  cases hnext : follow? request reply.response with
  | none => exact absurd h (follow?_eq_none_iff.1 hnext)
  | some next =>
    obtain ⟨sent, hsent⟩ := List.head?_eq_some_iff.1 (head?_exchange network none 9 next)
    refine ⟨next, sent, rfl, ?_⟩
    rw [send, maxRedirects, exchange, hreply]
    simp only [remaining?, hnext, hsent]

theorem send_of_not_redirects (hreply : network request = some reply)
    (h : ¬ Redirects request reply.response) :
    send network none request = ([request], some reply.response) :=
  exchange_of_course (.arrived hreply h) (by simp) (by simp) rfl

end MachineFleet.Http
