import MachineFleet.Proofs.Fleet.Causes
import MachineFleet.Proofs.Fleet.Events

namespace MachineFleet.Fleet

def Action.request? : Action → Option Request
  | .request r => some r
  | _ => none

def requests (history : List Episode) : List Request := history.filterMap (·.input.request?)

def Action.call? : Action → Option Nat
  | .create k _ => some k
  | .proceed k => some k
  | .route k _ => some k
  | .respond k _ => some k
  | .drain k _ => some k
  | .expire k => some k
  | .abandon k => some k
  | _ => none

def Effect.relay? (k : Nat) : Effect → Option (Endpoint × WorkloadRequest)
  | .relay call endpoint request => if call = k then some (endpoint, request) else none
  | _ => none

def relays (history : List Episode) (k : Nat) : List (Endpoint × WorkloadRequest) :=
  history.flatMap (·.effects.filterMap (·.relay? k))

def Call.isInvoking : Call → Bool
  | selecting _ => true
  | relaying _ => true
  | finished _ => true
  | abandoned => true
  | _ => false

section Calls

variable {f f' f₁ : Fleet} {a : Action} {effects : List Effect} {k i : Nat} {call old new : Call}
  {history : List Episode}

theorem relays_snoc (history : List Episode) (f : Fleet) (a : Action) (effects : List Effect)
    (k : Nat) : relays (history ++ [⟨f, a, effects⟩]) k =
      relays history k ++ effects.filterMap (·.relay? k) := by
  simp [relays]

theorem requests_append (earlier later : List Episode) :
    requests (earlier ++ later) = requests earlier ++ requests later := List.filterMap_append

theorem requests_snoc (history : List Episode) (f : Fleet) (a : Action) (effects : List Effect) :
    requests (history ++ [⟨f, a, effects⟩]) = requests history ++ a.request?.toList := by
  rw [requests_append]
  cases h : a.request? <;> simp [requests, h]

theorem Call.deliverAll_of_isInvoking (h : call.isInvoking = true)
    (made : List Controller.Effect) : call.deliverAll made = call := by
  apply deliverAll_of_deliver
  intro r answer
  cases call with
  | awaiting => cases h
  | stopping => cases h
  | _ => rfl

/-- How a step concerns a call for work. -/
inductive InvokeStep (f : Fleet) (k : Nat) : Action → Call → Call → List Effect → Prop where
  | apart {a : Action} {call : Call} {effects : List Effect} (other : a.call? ≠ some k)
      (silent : effects.filterMap (·.relay? k) = []) : InvokeStep f k a call call effects
  | relay (request : WorkloadRequest) (entry : Entry Nat) (pick : Nat)
      (chosen : f.registry.readyEntries[pick]? = some entry) :
      InvokeStep f k (.route k pick) (.selecting request)
        (.relaying (f.registry.readyEntries.map (·.controller)))
        [.relay k ⟨entry.address, f.config.workloadPort⟩ request]
  | refuse (request : WorkloadRequest) (pick : Nat)
      (out : f.registry.readyEntries[pick]? = none) :
      InvokeStep f k (.route k pick) (.selecting request)
        (.finished (.invoked (.error .noReadyBackend))) []
  | respond (held : List Nat) (result : Except Error WorkloadResponse) :
      InvokeStep f k (.respond k result) (.relaying held) (.finished (.invoked result)) []
  | abandon (call : Call) (waits : call.isSuspended = true) :
      InvokeStep f k (.abandon k) call .abandoned []

theorem silent_turn (ht : Turn f i a old new f₁ effects) (hik : i ≠ k) :
    a.call? ≠ some k ∧ effects.filterMap (·.relay? k) = [] := by
  cases ht <;> simp [Action.call?, sentEffects, Effect.relay?, hik]

theorem invokeStep_of_move (hm : Move f a f' effects) (hk : f.calls[k]? = some call)
    (hcall : call.isInvoking = true) :
    ∃ call', f'.calls[k]? = some call' ∧ InvokeStep f k a call call' effects ∧
      (a.call? = some k → f'.registry = f.registry) := by
  have hsame {g : Fleet} (hg : g.calls[k]? = some call) (ha : a.call? ≠ some k)
      (hs : effects.filterMap (·.relay? k) = []) :
      ∃ call', g.calls[k]? = some call' ∧ InvokeStep f k a call call' effects ∧
        (a.call? = some k → g.registry = f.registry) :=
    ⟨call, hg, .apart ha hs, fun h => absurd h ha⟩
  cases hm with
  | turned i a old new f₁ effects hi ht =>
    have hi₁ : f₁.calls[i]? = some old := by rw [calls_turn ht, hi]
    by_cases hik : i = k
    · subst hik
      obtain rfl : old = call := Option.some.inj (hi.symm.trans hk)
      refine ⟨new, by rw [getElem?_setCall hi₁, if_pos rfl], ?_⟩
      cases ht with
      | relay request entry pick he => exact ⟨.relay request entry pick he, fun _ => rfl⟩
      | noBackend request pick hn => exact ⟨.refuse request pick hn, fun _ => rfl⟩
      | respond held result => exact ⟨.respond held result, fun _ => rfl⟩
      | abandon _ hs => exact ⟨.abandon _ hs, fun _ => rfl⟩
      | _ => cases hcall
    · -- Another call has its turn, which leaves this one where it is.
      obtain ⟨ha, hs⟩ := silent_turn ht hik
      refine hsame ?_ ha hs
      rw [getElem?_setCall hi₁, if_neg hik, calls_turn ht, hk]
  | request r he => exact hsame (getElem?_concat_eq_some.2 (.inl hk)) (by simp [Action.call?]) rfl
  | created i hi =>
    -- Machines are made for calls that start one, and this call does not.
    have hik : i ≠ k := by
      rintro rfl
      cases hi.symm.trans hk
      cases hcall
    refine hsame ?_ (by simpa [Action.call?] using hik) rfl
    rw [List.getElem?_set_ne hik, hk]
  | worked c did old new made hc hmove =>
    refine hsame ?_ (by simp [Action.call?]) ?_
    · rw [calls_worked, hk, Option.map_some, Call.deliverAll_of_isInvoking hcall]
    · simp [Effect.relay?]
  | _ => exact hsame hk (by simp [Action.call?]) rfl

end Calls

def handled? (f : Fleet) : Action → Option FleetEvent
  | .handleEvent => f.events.head?
  | _ => none

/-- An event was handled that a machine is ready, while the machine was registered with this
controller and at this address. As long as no two drivers report one identity, this controller has
sent it. -/
def HeardReady (earlier : List Episode) (x : Episode) (entry : Entry Nat) : Prop :=
  ∃ machine, x.before.handled? x.input = some (.ready machine) ∧ machine.id = entry.id ∧
    (∃ old, x.before.registry.get? entry.id = some old ∧ old.controller = entry.controller ∧
      old.address = entry.address) ∧
    (Distinct (reports earlier) →
      (sent earlier)[handled earlier]? = some (entry.controller, .ready machine))

/-- The last event about a machine that was handled is that it is ready, and the machine has been
ready in the registry ever since. -/
def LastNewsIsReady (history : List Episode) (entry : Entry Nat) : Prop :=
  ∃ earlier x since, history = earlier ++ x :: since ∧ HeardReady earlier x entry ∧
    ∀ y ∈ since, y.before.registry.get? entry.id = some entry ∧
      ∀ event, y.before.handled? y.input = some event → event.id ≠ entry.id

section News

variable {f f' : Fleet} {a : Action} {effects : List Effect} {history : List Episode} {id : String}
  {e : Entry Nat}

theorem LastNewsIsReady.snoc (h : LastNewsIsReady history e) {x : Episode}
    (hx : x.before.registry.get? e.id = some e)
    (hother : ∀ event, x.before.handled? x.input = some event → event.id ≠ e.id) :
    LastNewsIsReady (history ++ [x]) e := by
  obtain ⟨earlier, y, since, rfl, hheard, hsince⟩ := h
  refine ⟨earlier, y, since ++ [x], by simp, hheard, ?_⟩
  intro z hz
  rcases List.mem_append.1 hz with hz | hz
  · exact hsince z hz
  · rw [List.mem_singleton.1 hz]
    exact ⟨hx, hother⟩

theorem ready_cases (hm : Move f a f' effects) (he : f'.registry.get? id = some e)
    (hr : e.ready = true) :
    (f.registry.get? id = some e ∧
      ∀ event, f.handled? a = some event → event.id ≠ id) ∨
    (∃ machine, f.handled? a = some (.ready machine) ∧
      machine.id = id ∧ ∃ old, f.registry.get? id = some old ∧ old.controller = e.controller ∧
        old.address = e.address) ∨
    a = .setReady id true := by
  cases hm with
  | turned k a old new f₁ effects hk ht =>
    rcases get?_turn ht he with he | ⟨machine, -, -, -, -, hnew, -⟩
    · have hnone : f.handled? a = none := by cases ht <;> rfl
      refine .inl ⟨he, fun event hevent => ?_⟩
      cases hnone.symm.trans hevent
    · -- A machine that was just taken in is not ready.
      rw [hnew] at hr
      cases hr
  | handled event rest hl hev =>
    have hhandled : f.handled? .handleEvent = some event := by rw [handled?, hev, List.head?_cons]
    by_cases hid : event.id = id
    · cases event with
      -- A machine that has stopped is taken out and could not be there.
      | stopped id' => exact absurd hid.symm (get?_remove_some he).1
      | ready machine =>
        obtain ⟨old, hold, hc, ha⟩ := get?_setReady_some he
        exact .inr (.inl ⟨machine, hhandled, hid, old, hold, hc, ha⟩)
      -- Nor could one be ready that has just been found unready.
      | unready machine =>
        have hset : (f.registry.setReady machine.id false).get? id = some e := he
        have hmachine : id = machine.id := hid.symm
        rw [Registry.get?_setReady, if_pos hmachine] at hset
        obtain ⟨old, -, rfl⟩ := Option.map_eq_some_iff.1 hset
        cases hr
    · refine .inl ⟨?_, ?_⟩
      · rwa [← get?_applyEvent_of_ne (Ne.symm hid)]
      · intro event' hevent'
        rw [hhandled] at hevent'
        cases hevent'
        exact hid
  | removed id' => exact .inl ⟨(get?_remove_some he).2, by simp [handled?]⟩
  | readied id' ready =>
    have hset : (f.registry.setReady id' ready).get? id = some e := he
    rw [Registry.get?_setReady] at hset
    split at hset
    · rename_i hid
      obtain ⟨old, -, rfl⟩ := Option.map_eq_some_iff.1 hset
      cases hr
      exact .inr (.inr (hid ▸ rfl))
    · exact .inl ⟨hset, by simp [handled?]⟩
  | vanished => cases he
  | _ => exact .inl ⟨he, by simp [handled?]⟩

theorem sender_eq_of_distinct {config : FleetConfig} {event : FleetEvent}
    (run : Run step (start config) history f) (hstep : f.step a = some (f', effects))
    (hhandled : f.handled? a = some event) (he : f.registry.get? event.id = some e)
    (hd : Distinct (reports history)) :
    (sent history)[handled history]? = some (e.controller, event) := by
  cases move_of_step hstep with
  | turned k a old new f₁ effects hk ht => cases ht <;> cases hhandled
  | handled event' rest hl hev =>
    obtain rfl : event' = event := by
      rw [handled?, hev] at hhandled
      exact Option.some.inj hhandled
    obtain ⟨c, hsent⟩ := exists_sender run hl hev
    obtain ⟨machine, hreport, hid⟩ := exists_machine_of_sent run (List.mem_of_getElem? hsent)
    -- Both the sender and the controller of the entry have started a machine of this identity.
    have hentry := mem_reports_of_get? run he
    have hc : e.controller = c := (hd.eq hentry hreport hid).1
    rw [hsent, hc]
  | _ => cases hhandled

theorem lastNewsIsReady_of_run {config : FleetConfig} (run : Run step (start config) history f)
    (he : f.registry.get? e.id = some e) (hr : e.ready = true)
    (hset : ∀ x ∈ history, ∀ ready, x.input ≠ .setReady e.id ready) :
    LastNewsIsReady history e := by
  induction run with
  | nil => cases he
  | @snoc history f f' a effects run hstep ih =>
    have hbefore : ∀ x ∈ history, ∀ ready, x.input ≠ .setReady e.id ready :=
      fun x hx => hset x (List.mem_append_left _ hx)
    rcases ready_cases (move_of_step hstep) he hr with
      ⟨hold, hother⟩ | ⟨machine, hhandled, hid, old, hold, hc, ha⟩ | ha
    · exact (ih hold hbefore).snoc hold hother
    · -- The news is heard in this very step, and nothing has happened since.
      refine ⟨history, ⟨f, a, effects⟩, [], rfl, ?_, by simp⟩
      refine ⟨machine, hhandled, hid, ⟨old, hold, hc, ha⟩, ?_⟩
      intro hd
      have hentry : f.registry.get? machine.id = some old := by rw [hid, hold]
      rw [← hc]
      exact sender_eq_of_distinct run hstep hhandled hentry hd
    · exact absurd ha (hset ⟨f, a, effects⟩ (by simp) true)

end News

/-- The request of a call is relayed in one step of its history, and in no other: unmodified, to the
machine that is picked there among those that are ready, which is registered then and of which the
last event says that it is ready. -/
def Selection (config : FleetConfig) (history : List Episode) (k : Nat)
    (request : WorkloadRequest) (later : List Episode) : Prop :=
  ∃ past x pick entry, history = past ++ x :: later ∧
    x.input = .route k pick ∧ x.before.registry.readyEntries[pick]? = some entry ∧
    x.before.registry.get? entry.id = some entry ∧
    relays history k = [(⟨entry.address, config.workloadPort⟩, request)] ∧
    ((∀ y ∈ past, ∀ ready, y.input ≠ .setReady entry.id ready) → LastNewsIsReady past entry)

/-- Where a call for work stands after its request was relayed. -/
inductive AfterRelay (later : List Episode) (k : Nat) : Call → Prop where
  | waiting (held : List Nat) : AfterRelay later k (.relaying held)
  | answered (x : Episode) (result : Except Error WorkloadResponse) (hx : x ∈ later)
      (input : x.input = .respond k result) : AfterRelay later k (.finished (.invoked result))
  | abandoned : AfterRelay later k .abandoned

inductive Invocation (config : FleetConfig) (history : List Episode) (k : Nat)
    (request : WorkloadRequest) : Call → Prop where
  | selecting (none : relays history k = []) : Invocation config history k request (.selecting request)
  | abandoned (none : relays history k = []) : Invocation config history k request .abandoned
  | refused (past later : List Episode) (x : Episode) (pick : Nat)
      (split : history = past ++ x :: later) (input : x.input = .route k pick)
      (out : x.before.registry.readyEntries[pick]? = none) (none : relays history k = []) :
      Invocation config history k request (.finished (.invoked (.error .noReadyBackend)))
  | relayed {call : Call} (later : List Episode)
      (selection : Selection config history k request later) (after : AfterRelay later k call) :
      Invocation config history k request call

/-- A call for work that has not ended can go on: with any pick, and with any answer of the client. -/
def GoesOn (f : Fleet) (k : Nat) : Call → Prop
  | .selecting request => ∀ pick,
    match f.registry.readyEntries[pick]? with
    | some entry => ∃ f' held, f.step (.route k pick) =
        some (f', [.relay k ⟨entry.address, f.config.workloadPort⟩ request]) ∧
        f'.calls[k]? = some (.relaying held)
    | none => ∃ f', f.step (.route k pick) = some (f', []) ∧
        f'.calls[k]? = some (.finished (.invoked (.error .noReadyBackend)))
  | .relaying _ => ∀ result, ∃ f', f.step (.respond k result) = some (f', []) ∧
      f'.calls[k]? = some (.finished (.invoked result))
  | _ => True

section Invocations

variable {config : FleetConfig} {history later : List Episode} {f f' : Fleet} {a : Action}
  {effects : List Effect} {k : Nat} {request : WorkloadRequest} {call call' : Call} {x : Episode}

theorem goesOn_of_getElem? (hk : f.calls[k]? = some call) : GoesOn f k call := by
  have hset (call' : Call) : (f.setCall k call').calls[k]? = some call' := by
    rw [getElem?_setCall hk, if_pos rfl]
  cases call with
  | selecting request =>
    intro pick
    simp only [step, hk, route]
    cases f.registry.readyEntries[pick]? with
    | some entry => exact ⟨_, _, rfl, hset _⟩
    | none => exact ⟨_, rfl, hset _⟩
  | relaying held =>
    intro result
    simp only [step, hk]
    exact ⟨_, rfl, hset _⟩
  | _ => trivial

theorem Selection.snoc (h : Selection config history k request later)
    (hs : x.effects.filterMap (·.relay? k) = []) :
    Selection config (history ++ [x]) k request (later ++ [x]) := by
  obtain ⟨past, y, pick, entry, rfl, hinput, hready, hentry, hrelays, hnews⟩ := h
  refine ⟨past, y, pick, entry, by simp, hinput, hready, hentry, ?_, hnews⟩
  rw [relays_snoc, hrelays, hs, List.append_nil]

theorem AfterRelay.mono (h : AfterRelay later k call) (x : Episode) :
    AfterRelay (later ++ [x]) k call := by
  cases h with
  | waiting held => exact .waiting held
  | answered y result hy input => exact .answered y result (List.mem_append_left _ hy) input
  | abandoned => exact .abandoned

theorem Invocation.isInvoking (h : Invocation config history k request call) :
    call.isInvoking = true := by
  cases h with
  | relayed later selection after => cases after <;> rfl
  | _ => rfl

/-- What happens apart from a call for work leaves it where it was. -/
theorem Invocation.apart (h : Invocation config history k request call)
    (hs : x.effects.filterMap (·.relay? k) = []) :
    Invocation config (history ++ [x]) k request call := by
  have hrelays (hnone : relays history k = []) : relays (history ++ [x]) k = [] := by
    rw [relays_snoc, hnone, hs, List.append_nil]
  cases h with
  | selecting hnone => exact .selecting (hrelays hnone)
  | abandoned hnone => exact .abandoned (hrelays hnone)
  | refused past later y pick split input out hnone =>
    exact .refused past (later ++ [x]) y pick (by simp [split]) input out (hrelays hnone)
  | relayed later selection after => exact .relayed _ (selection.snoc hs) (after.mono x)

theorem Invocation.step (run : Run step (start config) history f)
    (h : Invocation config history k request call) (hs : InvokeStep f k a call call' effects) :
    Invocation config (history ++ [⟨f, a, effects⟩]) k request call' := by
  cases hs with
  | apart other silent => exact h.apart silent
  | relay request' entry pick chosen =>
    -- Only a call that is still selecting can be routed, and nothing was relayed for it yet.
    cases h with
    | selecting hnone =>
      obtain ⟨hentry, hr⟩ := Registry.mem_readyEntries.1 (List.mem_of_getElem? chosen)
      have hrelays : relays (history ++ [⟨f, .route k pick,
          [.relay k ⟨entry.address, f.config.workloadPort⟩ request]⟩]) k =
            [(⟨entry.address, config.workloadPort⟩, request)] := by
        simp [relays_snoc, hnone, Effect.relay?, config_of_run run]
      refine .relayed [] ⟨history, _, pick, entry, rfl, rfl, chosen, hentry, hrelays, ?_⟩
        (.waiting _)
      exact lastNewsIsReady_of_run run hentry hr
    | relayed later selection after => cases after
  | refuse request' pick out =>
    cases h with
    | selecting hnone =>
      refine .refused history [] _ pick rfl rfl out ?_
      rw [relays_snoc, hnone]
      rfl
    | relayed later selection after => cases after
  | respond held result =>
    cases h with
    | relayed later selection after =>
      refine .relayed _ (selection.snoc rfl) (.answered ⟨f, .respond k result, []⟩ result ?_ rfl)
      exact List.mem_append_right _ (List.mem_singleton.2 rfl)
  | abandon call waits =>
    cases h with
    | selecting hnone =>
      apply Invocation.abandoned
      rw [relays_snoc, hnone]
      rfl
    | relayed later selection after => exact .relayed _ (selection.snoc rfl) .abandoned
    | _ => cases waits

structure Ledger (history : List Episode) (f : Fleet) : Prop where
  length : f.calls.length = (requests history).length
  silent (k : Nat) (hk : f.calls[k]? = none) : relays history k = []

theorem length_calls_move (hm : Move f a f' effects) :
    f'.calls.length = f.calls.length + a.request?.toList.length := by
  cases hm with
  | turned i a old new f₁ effects hi ht =>
    have hnone : a.request? = none := by cases ht <;> rfl
    rw [setCall, List.length_set, calls_turn ht, hnone]
    rfl
  | request r he => exact List.length_append
  | created i hi => exact List.length_set
  | worked c did old new made hc hmove => exact List.length_map _
  | _ => rfl

theorem silent_of_none (hm : Move f a f' effects) (hk : f.calls[k]? = none) :
    effects.filterMap (·.relay? k) = [] := by
  cases hm with
  | turned i a old new f₁ effects hi ht =>
    have hik : i ≠ k := by
      rintro rfl
      cases hk.symm.trans hi
    exact (silent_turn ht hik).2
  | worked c did old new made hc hmove => simp [Effect.relay?]
  | _ => rfl

theorem ledger_of_run (run : Run step (start config) history f) : Ledger history f := by
  apply run.invariant (P := Ledger)
  · exact ⟨rfl, fun k hk => rfl⟩
  · intro history f a f' effects ih hstep
    have hm := move_of_step hstep
    have hlength := length_calls_move hm
    refine ⟨?_, ?_⟩
    · rw [requests_snoc, List.length_append, hlength, ih.length]
    · intro k hk
      -- A call that is not there after the step was not there before it.
      have hnone : f.calls[k]? = none := by
        rw [List.getElem?_eq_none_iff] at hk ⊢
        omega
      rw [relays_snoc, ih.silent k hnone, silent_of_none hm hnone]
      rfl

theorem eq_of_getElem?_request {i : Nat} {r : Request}
    (h : (a.request?.toList)[i]? = some r) : a = .request r ∧ i = 0 := by
  cases a with
  | request r' =>
    cases i with
    | zero =>
      cases h
      exact ⟨rfl, rfl⟩
    | succ i => cases h
  | _ => cases h

theorem invocation_of_run (run : Run step (start config) history f)
    (hk : (requests history)[k]? = some (.invoke request)) :
    ∃ call, f.calls[k]? = some call ∧ Invocation config history k request call := by
  induction run with
  | nil => cases hk
  | @snoc history f f' a effects run hstep ih =>
    have hm := move_of_step hstep
    have hledger := ledger_of_run run
    rw [requests_snoc] at hk
    by_cases hlt : k < (requests history).length
    · rw [List.getElem?_append_left hlt] at hk
      obtain ⟨call, hcall, hinvocation⟩ := ih hk
      obtain ⟨call', hcall', hs, -⟩ := invokeStep_of_move hm hcall hinvocation.isInvoking
      exact ⟨call', hcall', hinvocation.step run hs⟩
    · -- The call is begun by this very step.
      rw [List.getElem?_append_right (Nat.not_lt.1 hlt)] at hk
      obtain ⟨rfl, hzero⟩ := eq_of_getElem?_request hk
      have hlength : k = f.calls.length := by
        rw [hledger.length]
        omega
      have hbegun : f'.calls = f.calls ++ [.selecting request] := by
        simp only [Fleet.step] at hstep
        split at hstep
        · cases hstep
          rfl
        · cases hstep
      have hnone : f.calls[k]? = none := List.getElem?_eq_none_iff.2 (Nat.le_of_eq hlength.symm)
      refine ⟨.selecting request, ?_, .selecting ?_⟩
      · rw [hbegun, hlength, List.getElem?_concat_length]
      · rw [relays_snoc, hledger.silent k hnone, silent_of_none hm hnone]
        rfl

theorem exists_of_call? (hm : Move f a f' effects) (ha : a.call? = some k) :
    ∃ call, f.calls[k]? = some call := by
  cases hm with
  | created i hi =>
    cases ha
    exact ⟨_, hi⟩
  | turned i a old new f₁ effects hi ht =>
    have hik : i = k := by cases ht <;> exact Option.some.inj ha
    exact ⟨old, hik ▸ hi⟩
  | _ => cases ha

theorem registry_of_call? (run : Run step (start config) history f)
    (hk : (requests history)[k]? = some (.invoke request)) (hx : x ∈ history)
    (ha : x.input.call? = some k) :
    ∃ after, x.before.step x.input = some (after, x.effects) ∧
      after.registry = x.before.registry := by
  obtain ⟨earlier, later, after, rfl, hearlier, hstep, -⟩ := run.split hx
  have hm := move_of_step hstep
  obtain ⟨call, hcall⟩ := exists_of_call? hm ha
  -- The call was there already, so it was begun before by the same request.
  have hlt : k < (requests earlier).length := by
    rw [← (ledger_of_run hearlier).length]
    exact (List.getElem?_eq_some_iff.1 hcall).1
  have hbegun : (requests earlier)[k]? = some (.invoke request) := by
    rwa [requests_append, List.getElem?_append_left hlt] at hk
  obtain ⟨call', hcall', hinvocation⟩ := invocation_of_run hearlier hbegun
  obtain ⟨-, -, -, hregistry⟩ := invokeStep_of_move hm hcall' hinvocation.isInvoking
  exact ⟨after, hstep, hregistry ha⟩

theorem Invocation.length_relays_le (h : Invocation config history k request call) :
    (relays history k).length ≤ 1 := by
  have hnone (h : relays history k = []) : (relays history k).length ≤ 1 := by simp [h]
  cases h with
  | selecting none => exact hnone none
  | abandoned none => exact hnone none
  | refused past later x pick split input out none => exact hnone none
  | relayed later selection after =>
    obtain ⟨past, x, pick, entry, -, -, -, -, hrelays, -⟩ := selection
    rw [hrelays]
    exact Nat.le_refl 1

/-- A call for work is at every time on its way from the request to the answer, and can go on with
any pick and any answer of the client. It leaves the registry as it is and asks the client once at
most. If its pick is not among the machines that are ready, it ends without asking the client;
otherwise the client gets its request, unmodified, for the machine that was picked, and its answer
is the answer of the call. The machine is registered when it is picked, and the last event about it
that was handled is that it is ready. -/
theorem invoke_relays_to_ready_machine (run : Run step (start config) history f)
    (hk : (requests history)[k]? = some (.invoke request)) :
    ∃ call, f.calls[k]? = some call ∧ Invocation config history k request call ∧ GoesOn f k call ∧
      (relays history k).length ≤ 1 ∧
      ∀ x ∈ history, x.input.call? = some k → ∃ after,
        x.before.step x.input = some (after, x.effects) ∧ after.registry = x.before.registry := by
  obtain ⟨call, hcall, hinvocation⟩ := invocation_of_run run hk
  refine ⟨call, hcall, hinvocation, goesOn_of_getElem? hcall, hinvocation.length_relays_le, ?_⟩
  intro x hx ha
  exact registry_of_call? run hk hx ha

/-- Two calls for work beside two machines of which only the first is ready. The second call picks a
machine that is not there. -/
def twoCalls (answer : WorkloadResponse) : List Action :=
  checkedMachines ++ [.request (.invoke default), .request (.invoke default), .route 2 0, .route 3 1,
    .respond 2 (.ok answer)]

theorem first_call_reaches_ready_machine :
    ∃ history f, Run step (start (.defaults "/")) history f ∧
      (requests history)[2]? = some (.invoke default) ∧
      relays history 2 = [(⟨.v4 (.ofBytes 10 0 0 2), 8080⟩, default)] ∧ relays history 3 = [] ∧
      ∃ call, f.calls[2]? = some call ∧ Invocation (.defaults "/") history 2 default call ∧
        GoesOn f 2 call ∧ (relays history 2).length ≤ 1 ∧
        ∀ x ∈ history, x.input.call? = some 2 → ∃ after,
          x.before.step x.input = some (after, x.effects) ∧
          after.registry = x.before.registry := by
  obtain ⟨⟨history, f⟩, hr⟩ :
      ∃ r, replay step (start (.defaults "/")) (twoCalls ⟨200, ∅, ∅, [], "", false⟩) = some r :=
    Option.isSome_iff_exists.1 (by decide +kernel)
  have run := Run.of_replay hr
  have hof {β : Type} (g : List Episode → β) {b : β} := history_of_replay hr g (b := b)
  have hrequest : (requests history)[2]? = some (.invoke default) :=
    hof (fun history => (requests history)[2]?) (by decide +kernel)
  have hrelays : relays history 2 = [(⟨.v4 (.ofBytes 10 0 0 2), 8080⟩, default)] :=
    hof (relays · 2) (by decide +kernel)
  have hnone : relays history 3 = [] := hof (relays · 3) (by decide +kernel)
  exact ⟨history, f, run, hrequest, hrelays, hnone, invoke_relays_to_ready_machine run hrequest⟩

end Invocations

end MachineFleet.Fleet
