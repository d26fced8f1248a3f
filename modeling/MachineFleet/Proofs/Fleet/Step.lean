import MachineFleet.Fleet.Supervisor
import MachineFleet.Proofs.Data.Lists
import MachineFleet.Proofs.Lifecycle.Step
import MachineFleet.Proofs.Run

/-!
What one step of a fleet can do: one rule for each way a step goes, with the changes of a call that
concern nothing else gathered in a relation of their own.
-/
namespace MachineFleet.Fleet

def posted (c : Controller) (m : Message) : Controller := (c.post? m).getD c

theorem posted_eq (c : Controller) (m : Message) :
    posted c m = if c.isOpen then { c with mailbox := c.mailbox ++ [m] } else c := by
  unfold posted Controller.post?
  split <;> rfl

@[simp] theorem posted_phase (c : Controller) (m : Message) : (posted c m).phase = c.phase := by
  rw [posted_eq]
  split <;> rfl

@[simp] theorem posted_isOpen (c : Controller) (m : Message) :
    (posted c m).isOpen = c.isOpen := by
  rw [posted_eq]
  split <;> rfl

@[simp] theorem posted_probeConfig (c : Controller) (m : Message) :
    (posted c m).probeConfig = c.probeConfig := by
  rw [posted_eq]
  split <;> rfl

theorem mem_posted_mailbox {c : Controller} {m m' : Message} (h : m' ∈ (posted c m).mailbox) :
    m' ∈ c.mailbox ∨ m' = m := by
  rw [posted_eq] at h
  split at h
  · simpa using h
  · exact .inl h

theorem exists_of_isOpen {f : Fleet} {c : Nat} (ho : f.isOpen c = true) :
    ∃ controller, f.controllers[c]? = some controller := by
  unfold isOpen at ho
  split at ho
  · exact ⟨_, ‹_›⟩
  · cases ho

def sentEffects (f : Fleet) (c : Nat) (m : Message) : List Effect :=
  if f.isOpen c then [.sent c m] else []

def post (f : Fleet) (c : Nat) (m : Message) : Fleet :=
  { f with controllers := f.controllers.modify c (posted · m) }

theorem getElem?_post (f : Fleet) (c i : Nat) (m : Message) :
    (f.post c m).controllers[i]? =
      (f.controllers[i]?).map fun controller =>
        if c = i then posted controller m else controller := by
  simp [post, List.getElem?_modify]

theorem sentEffects_of_isOpen {f g : Fleet} {c : Nat} {m : Message}
    (hg : g.controllers = f.controllers) (h : f.isOpen c = true) :
    g.sentEffects c m = [.sent c m] := by
  unfold isOpen at h
  simp only [sentEffects, isOpen, hg, h, ↓reduceIte]

theorem post_append {f g : Fleet} {c : Controller} {m : Message} (ho : c.isOpen = true)
    (hg : g.controllers = f.controllers ++ [c]) :
    g.post f.controllers.length m =
      { g with controllers := f.controllers ++ [{ c with mailbox := c.mailbox ++ [m] }] } := by
  have hm : (f.controllers ++ [c]).modify f.controllers.length (posted · m) =
      f.controllers ++ [{ c with mailbox := c.mailbox ++ [m] }] := by
    simp [List.modify_eq_take_drop, posted_eq, ho]
  rw [post, hg, hm]

theorem sentEffects_append {f g : Fleet} {c : Controller} {m : Message} (ho : c.isOpen = true)
    (hg : g.controllers = f.controllers ++ [c]) :
    g.sentEffects f.controllers.length m = [.sent f.controllers.length m] := by
  simp [sentEffects, isOpen, hg, ho]

theorem send_eq (f : Fleet) (c : Nat) (m : Message) :
    f.send c m = (f.post c m, f.sentEffects c m) := by
  have hcontrollers (g : Fleet) (h : g.controllers = (f.post c m).controllers)
      (he : g = { f with controllers := g.controllers }) : g = f.post c m := by
    rw [he, h]
    rfl
  unfold send sentEffects isOpen
  cases hc : f.controllers[c]? with
  | none =>
    have hl : f.controllers.length ≤ c := List.getElem?_eq_none_iff.1 hc
    simp only [Option.bind_none, Prod.mk.injEq]
    exact ⟨hcontrollers f (List.modify_eq_self hl).symm rfl, rfl⟩
  | some controller =>
    by_cases ho : controller.isOpen = true
    · simp only [Option.bind_some, Controller.post?, ho, ↓reduceIte, Prod.mk.injEq, and_true]
      refine hcontrollers _ (List.ext_getElem? fun i => ?_) rfl
      rw [getElem?_post]
      by_cases hi : c = i
      · subst hi
        rw [List.getElem?_set_self (List.getElem?_eq_some_iff.1 hc).1, hc]
        simp [posted_eq, ho]
      · rw [List.getElem?_set_ne hi]
        simp [hi]
    · simp only [Option.bind_some, Controller.post?, ho, Bool.false_eq_true, ↓reduceIte,
        Prod.mk.injEq, and_true]
      refine hcontrollers f (List.ext_getElem? fun i => ?_) rfl
      rw [getElem?_post]
      by_cases hi : c = i
      · subst hi
        simp [hc, posted_eq, ho]
      · simp [hi]

def event? : Controller.Effect → Option FleetEvent
  | .event e => some e
  | _ => none

def Call.deliverAll (effects : List Controller.Effect) (call : Call) : Call :=
  effects.foldl (fun call e =>
    match e with
    | .answer reply answer => call.deliver reply answer
    | _ => call) call

def answer? (r : ReplyId) : Controller.Effect → Option Answer
  | .answer reply answer => if reply = r then some answer else none
  | _ => none

namespace Call

variable {effects : List Controller.Effect}

theorem deliverAll_cons (e : Controller.Effect) (call : Call) :
    call.deliverAll (e :: effects) =
      (match e with
        | .answer reply answer => call.deliver reply answer
        | _ => call).deliverAll effects := rfl

/-- What no single answer changes stays as it is. -/
theorem deliverAll_congr {β : Type} (g : Call → β)
    (hg : ∀ call r answer, g (Call.deliver r answer call) = g call) (call : Call) :
    g (call.deliverAll effects) = g call := by
  induction effects generalizing call with
  | nil => rfl
  | cons e rest ih =>
    rw [deliverAll_cons, ih]
    cases e with
    | answer reply answer => exact hg call reply answer
    | _ => rfl

theorem deliverAll_of_deliver {call : Call} (h : ∀ r answer, call.deliver r answer = call) :
    call.deliverAll effects = call := by
  induction effects with
  | nil => rfl
  | cons e rest ih =>
    rw [deliverAll_cons]
    cases e with
    | answer reply answer => simpa only [h] using ih
    | _ => exact ih

theorem deliverAll_slot (call : Option Answer → Call) {r : ReplyId}
    (hn : ∀ reply given, (call none).deliver reply given =
      call (if r = reply then some given else none))
    (hs : ∀ answer reply given, (call (some answer)).deliver reply given = call (some answer))
    (answer : Option Answer) :
    (call answer).deliverAll effects = call (answer.or (effects.findSome? (answer? r))) := by
  -- Once a call has an answer it keeps it, so the statement is about any answer so far.
  induction effects generalizing answer with
  | nil => cases answer <;> rfl
  | cons e rest ih =>
    rw [deliverAll_cons, List.findSome?_cons]
    cases e with
    | answer reply given =>
      cases answer with
      | some a => simp only [hs, ih, Option.some_or]
      | none =>
        by_cases hr : r = reply
        · simp [hn, answer?, hr, ih]
        · simp [hn, answer?, hr, Ne.symm hr, ih]
    | _ => simpa [answer?] using ih answer

theorem deliverAll_awaiting (c : Nat) (r : ReplyId) (deadline : Instant) (answer : Option Answer) :
    (Call.awaiting c r deadline answer).deliverAll effects =
      .awaiting c r deadline (answer.or (effects.findSome? (answer? r))) :=
  deliverAll_slot (.awaiting c r deadline) (fun _ _ => rfl) (fun _ _ _ => rfl) answer

theorem deliverAll_stopping (entry : Entry Nat) (r : ReplyId) (deadline : Instant)
    (answer : Option Answer) (rest : List (Entry Nat)) :
    (Call.stopping entry r deadline answer rest).deliverAll effects =
      .stopping entry r deadline (answer.or (effects.findSome? (answer? r))) rest :=
  deliverAll_slot (Call.stopping entry r deadline · rest) (fun _ _ => rfl) (fun _ _ _ => rfl) answer

end Call

theorem foldl_absorb (f : Fleet) (effects : List Controller.Effect) :
    effects.foldl absorb f =
      { f with
        calls := f.calls.map (·.deliverAll effects)
        events := if f.eventLoop then f.events ++ effects.filterMap event? else f.events } := by
  -- On the effects: each of them changes the calls or the events, and never both.
  induction effects generalizing f with
  | nil => cases f; simp [Call.deliverAll]
  | cons e rest ih =>
    rw [List.foldl_cons, ih]
    cases e with
    | answer reply answer =>
      simp only [absorb, List.map_map]
      rfl
    | event e => by_cases hl : f.eventLoop = true <;> simp [absorb, Call.deliverAll, event?, hl]
    | _ => rfl

def worked (f : Fleet) (c : Nat) (controller : Controller) (effects : List Controller.Effect) :
    Fleet :=
  { f with
    controllers := f.controllers.set c controller
    calls := f.calls.map (·.deliverAll effects)
    events := if f.eventLoop then f.events ++ effects.filterMap event? else f.events }

theorem controllers_worked {f : Fleet} {c : Nat} {old new : Controller}
    {effects : List Controller.Effect} (hc : f.controllers[c]? = some old) (i : Nat) :
    (f.worked c new effects).controllers[i]? = if c = i then some new else f.controllers[i]? := by
  have hlt : c < f.controllers.length := (List.getElem?_eq_some_iff.1 hc).1
  rw [worked, List.getElem?_set]
  split
  · rename_i h
    subst h
    rfl
  · rfl

theorem calls_worked (f : Fleet) (c : Nat) (new : Controller) (effects : List Controller.Effect)
    (k : Nat) :
    (f.worked c new effects).calls[k]? = (f.calls[k]?).map (·.deliverAll effects) :=
  List.getElem?_map ..

/-- How a call goes on, and what that does to the rest of the fleet. -/
inductive Turn (f : Fleet) (k : Nat) : Action → Call → Call → Fleet → List Effect → Prop where
  | createFailed (e : Error) :
      Turn f k (.create k (.error e)) .creating (.finished (.started (.error e))) f []
  | takeStarted (c : Nat) (reply : ReplyId) (deadline : Instant) (machine : Metadata) :
      Turn f k (.proceed k) (.awaiting c reply deadline (some (.started machine)))
        (.registering c machine) f []
  | takeFailed (c : Nat) (reply : ReplyId) (deadline : Instant) (e : Error) :
      Turn f k (.proceed k) (.awaiting c reply deadline (some (.failed e)))
        (.finished (.started (.error e))) f []
  | takeNothing (c : Nat) (reply : ReplyId) (deadline : Instant) (answer : Answer)
      (hs : ∀ machine, answer ≠ .started machine) (hf : ∀ e, answer ≠ .failed e) :
      Turn f k (.proceed k) (.awaiting c reply deadline (some answer))
        (.finished (.started (.error .controllerUnavailable))) f []
  | expire (c : Nat) (reply : ReplyId) (deadline : Instant) (hd : deadline ≤ f.now) :
      Turn f k (.expire k) (.awaiting c reply deadline none) (.expiring c reply) f []
  | giveUp (c : Nat) (reply : ReplyId) :
      Turn f k (.proceed k) (.expiring c reply)
        (.retiring c (.startTimeout f.config.startTimeout)) f []
  | refused (c : Nat) (machine : Metadata) (e : Error)
      (ha : f.registry.add machine.id c (!f.isOpen c) machine.address = .error e) :
      Turn f k (.proceed k) (.registering c machine) (.retiring c e) f []
  | registered (c : Nat) (machine : Metadata) (registry : Registry Nat)
      (ha : f.registry.add machine.id c (!f.isOpen c) machine.address = .ok registry) :
      Turn f k (.proceed k) (.registering c machine) (.announcing c machine) { f with registry } []
  | announced (c : Nat) (machine : Metadata) :
      Turn f k (.proceed k) (.announcing c machine) (.leaving c (.ok machine))
        (f.post c .registered) (f.sentEffects c .registered)
  | retired (c : Nat) (e : Error) :
      Turn f k (.proceed k) (.retiring c e) (.leaving c (.error e))
        (f.post c .retire) (f.sentEffects c .retire)
  | leave (c : Nat) (result : Except Error Metadata) :
      Turn f k (.proceed k) (.leaving c result) (.finished (.started result)) f []
  | relay (request : WorkloadRequest) (entry : Entry Nat) (pick : Nat)
      (he : f.registry.readyEntries[pick]? = some entry) :
      Turn f k (.route k pick) (.selecting request)
        (.relaying (f.registry.readyEntries.map (·.controller))) f
        [.relay k ⟨entry.address, f.config.workloadPort⟩ request]
  | noBackend (request : WorkloadRequest) (pick : Nat)
      (hn : f.registry.readyEntries[pick]? = none) :
      Turn f k (.route k pick) (.selecting request) (.finished (.invoked (.error .noReadyBackend)))
        f []
  | respond (held : List Nat) (result : Except Error WorkloadResponse) :
      Turn f k (.respond k result) (.relaying held) (.finished (.invoked result)) f []
  | closing :
      Turn f k (.proceed k) .closing .snapshotting { f with health := f.health.setDown } []
  | snapshot : Turn f k (.proceed k) .snapshotting (.draining f.registry.snapshot) f []
  | stopSent (id : String) (all : List (Entry Nat)) (entry : Entry Nat)
      (he : all.find? (·.id == id) = some entry) (ho : f.isOpen entry.controller = true) :
      Turn f k (.drain k id) (.draining all)
        (.stopping entry f.nextReply (f.now + f.config.stopTimeout) none
          (all.filter (·.id != id)))
        ({ f with nextReply := f.nextReply + 1 }.post entry.controller (.stop f.nextReply))
        [.sent entry.controller (.stop f.nextReply)]
  | skipped (id : String) (all : List (Entry Nat)) (entry : Entry Nat)
      (he : all.find? (·.id == id) = some entry) (ho : f.isOpen entry.controller = false) :
      Turn f k (.drain k id) (.draining all) (.draining (all.filter (·.id != id)))
        { f with registry := f.registry.remove entry.id } []
  | stopped (entry : Entry Nat) (reply : ReplyId) (deadline : Instant) (answer : Answer)
      (rest : List (Entry Nat)) :
      Turn f k (.proceed k) (.stopping entry reply deadline (some answer) rest) (.draining rest)
        { f with registry := f.registry.remove entry.id } []
  | overdue (entry : Entry Nat) (reply : ReplyId) (deadline : Instant) (rest : List (Entry Nat))
      (hd : deadline ≤ f.now) :
      Turn f k (.expire k) (.stopping entry reply deadline none rest) (.draining rest)
        { f with registry := f.registry.remove entry.id } []
  | closed : Turn f k (.proceed k) (.draining []) (.finished .closed) f.endEvents []
  | abandon (call : Call) (hs : call.isSuspended = true) :
      Turn f k (.abandon k) call .abandoned f []

inductive Move (f : Fleet) : Action → Fleet → List Effect → Prop where
  | request (r : Request) (he : f.existence = .alive) :
      Move f (.request r) { f with calls := f.calls ++ [r.begin] } []
  | created (k : Nat) (hk : f.calls[k]? = some .creating) :
      Move f (.create k (.ok ()))
        { f with
          controllers := f.controllers ++
            [{ Controller.new f.config.probe f.config.machine.shutdownTimeout with
              mailbox := [.start f.nextReply] }]
          nextReply := f.nextReply + 1
          calls := f.calls.set k
            (.awaiting f.controllers.length f.nextReply (f.now + f.config.startTimeout) none) }
        [.sent f.controllers.length (.start f.nextReply)]
  | turned (k : Nat) (a : Action) (old new : Call) (f₁ : Fleet) (effects : List Effect)
      (hk : f.calls[k]? = some old) (ht : Turn f k a old new f₁ effects) :
      Move f a (f₁.setCall k new) effects
  | worked (c : Nat) (a : Controller.Action) (old new : Controller)
      (effects : List Controller.Effect) (hc : f.controllers[c]? = some old)
      (hm : Controller.Move (f.surroundings c) old a new effects) :
      Move f (.controller c a) (f.worked c new effects) (effects.map (.controller c))
  | handled (event : FleetEvent) (rest : List FleetEvent) (hl : f.eventLoop = true)
      (he : f.events = event :: rest) :
      Move f .handleEvent { f with events := rest, registry := applyEvent f.registry event } []
  | removed (id : String) :
      Move f (.remove id) { f with registry := f.registry.remove id } []
  | readied (id : String) (ready : Bool) :
      Move f (.setReady id ready) { f with registry := f.registry.setReady id ready } []
  | dropped (he : f.existence = .alive) : Move f .drop { f with existence := .dropping } []
  | vanished (he : f.existence = .dropping) (hc : f.calls.any (·.isUnfinished) = false) :
      Move f .vanish f.vanish []
  | elapsed (d : Duration) : Move f (.elapse d) { f with now := f.now + d } []

section Move

variable {f f' f₁ : Fleet} {a : Action} {k : Nat} {old new : Call} {effects : List Effect}

theorem calls_turn (h : Turn f k a old new f₁ effects) : f₁.calls = f.calls := by
  cases h <;> rfl

theorem isUnfinished_turn (h : Turn f k a old new f₁ effects) : old.isUnfinished = true := by
  cases h with
  | abandon call hs => cases old <;> first | rfl | cases hs
  | _ => rfl

theorem length_controllers_turn (h : Turn f k a old new f₁ effects) :
    f₁.controllers.length = f.controllers.length := by
  cases h <;> simp [post, endEvents]

theorem getElem?_setCall {call : Call} (hk : f.calls[k]? = some old) (i : Nat) :
    (f.setCall k call).calls[i]? = if k = i then some call else f.calls[i]? := by
  have hlt : k < f.calls.length := (List.getElem?_eq_some_iff.1 hk).1
  rw [setCall, List.getElem?_set]
  split
  · rename_i h
    subst h
    rfl
  · rfl

theorem move_of_create {driver : Except Error Unit}
    (h : f.step (.create k driver) = some (f', effects)) :
    Move f (.create k driver) f' effects := by
  simp only [step] at h
  split at h
  · rename_i hk
    cases driver with
    | error e =>
      cases h
      exact .turned k _ _ _ _ _ hk (.createFailed e)
    | ok u =>
      simp only [create, send_eq, Nat.add_sub_cancel, Option.some.injEq, Prod.mk.injEq] at h
      obtain ⟨rfl, rfl⟩ := h
      -- The controller is new, so its mailbox is open and takes the request.
      rw [post_append rfl rfl, sentEffects_append rfl rfl]
      exact .created k hk
  · cases h

theorem move_of_proceed (h : f.proceed k = some (f', effects)) :
    Move f (.proceed k) f' effects := by
  unfold proceed at h
  split at h
  · rename_i c reply deadline answer hk
    cases h
    cases answer with
    | started machine => exact .turned k _ _ _ _ _ hk (.takeStarted c reply deadline machine)
    | failed e => exact .turned k _ _ _ _ _ hk (.takeFailed c reply deadline e)
    | stopped id =>
      exact .turned k _ _ _ _ _ hk (.takeNothing c reply deadline _ (by simp) (by simp))
    | dropped =>
      exact .turned k _ _ _ _ _ hk (.takeNothing c reply deadline _ (by simp) (by simp))
  · rename_i c reply hk
    cases h
    exact .turned k _ _ _ _ _ hk (.giveUp c reply)
  · rename_i c machine hk
    cases h
    unfold register
    split
    · rename_i registry ha
      exact .turned k _ _ _ _ _ hk (.registered c machine registry ha)
    · rename_i e ha
      exact .turned k _ _ _ _ _ hk (.refused c machine e ha)
  · rename_i c machine hk
    rw [send_eq] at h
    cases h
    exact .turned k _ _ _ _ _ hk (.announced c machine)
  · rename_i c e hk
    rw [send_eq] at h
    cases h
    exact .turned k _ _ _ _ _ hk (.retired c e)
  · rename_i c result hk
    cases h
    exact .turned k _ _ _ _ _ hk (.leave c result)
  · rename_i hk
    cases h
    exact .turned k _ _ _ _ _ hk .closing
  · rename_i hk
    cases h
    exact .turned k _ _ _ _ _ hk .snapshot
  · rename_i entry reply deadline answer rest hk
    cases h
    exact .turned k _ _ _ _ _ hk (.stopped entry reply deadline answer rest)
  · rename_i hk
    cases h
    exact .turned k _ _ _ _ _ hk .closed
  · cases h

theorem move_of_drain {id : String} (h : f.drain k id = some (f', effects)) :
    Move f (.drain k id) f' effects := by
  unfold drain at h
  split at h
  · rename_i all hk
    simp only [Option.map_eq_some_iff] at h
    obtain ⟨entry, he, h⟩ := h
    unfold stopOne at h
    split at h
    · rename_i ho
      simp only [send_eq, Prod.mk.injEq] at h
      obtain ⟨rfl, rfl⟩ := h
      rw [sentEffects_of_isOpen (f := f) ?_ ho]
      · exact .turned k _ _ _ _ _ hk (.stopSent id all entry he ho)
      · rfl
    · rename_i ho
      cases h
      exact .turned k _ _ _ _ _ hk (.skipped id all entry he (by simpa using ho))
  · cases h

theorem move_of_expire (h : f.expire k = some (f', effects)) : Move f (.expire k) f' effects := by
  unfold expire at h
  split at h
  · rename_i c reply deadline hk
    split at h
    · rename_i hd
      cases h
      exact .turned k _ _ _ _ _ hk (.expire c reply deadline hd)
    · cases h
  · rename_i entry reply deadline rest hk
    split at h
    · rename_i hd
      cases h
      exact .turned k _ _ _ _ _ hk (.overdue entry reply deadline rest hd)
    · cases h
  · cases h

theorem move_of_step (h : f.step a = some (f', effects)) : Move f a f' effects := by
  cases a with
  | request r =>
    simp only [step] at h
    split at h
    · rename_i he
      cases h
      exact .request r he
    · cases h
  | create k driver => exact move_of_create h
  | proceed k => exact move_of_proceed h
  | route k pick =>
    simp only [step] at h
    split at h
    · rename_i request hk
      simp only [route] at h
      split at h
      · rename_i entry he
        cases h
        exact .turned k _ _ _ _ _ hk (.relay request entry pick he)
      · rename_i hn
        cases h
        exact .turned k _ _ _ _ _ hk (.noBackend request pick hn)
    · cases h
  | respond k result =>
    simp only [step] at h
    split at h
    · rename_i held hk
      cases h
      exact .turned k _ _ _ _ _ hk (.respond held result)
    · cases h
  | drain k id => exact move_of_drain h
  | expire k => exact move_of_expire h
  | abandon k =>
    simp only [step] at h
    split at h
    · rename_i call hk
      split at h
      · rename_i hs
        cases h
        exact .turned k _ _ _ _ _ hk (.abandon call hs)
      · cases h
    · cases h
  | controller c a =>
    simp only [step, stepController] at h
    split at h
    · cases h
    · rename_i old hc
      simp only [Option.map_eq_some_iff, Prod.exists] at h
      obtain ⟨new, made, hs, h⟩ := h
      rw [foldl_absorb] at h
      cases h
      exact .worked c a old new made hc (Controller.move_of_step hs)
  | handleEvent =>
    simp only [step] at h
    split at h
    · rename_i event rest hl he
      cases h
      exact .handled event rest hl he
    · cases h
  | remove id => cases h; exact .removed id
  | setReady id ready => cases h; exact .readied id ready
  | drop =>
    simp only [step] at h
    split at h
    · rename_i he
      cases h
      exact .dropped he
    · cases h
  | vanish =>
    simp only [step] at h
    split at h
    · rename_i hv
      cases h
      exact .vanished hv.1 (by simpa using hv.2)
    · cases h
  | elapse d => cases h; exact .elapsed d

theorem config_move (h : Move f a f' effects) : f'.config = f.config := by
  cases h with
  | turned k a old new f₁ effects hk ht => cases ht <;> rfl
  | _ => rfl

theorem move_of_controller {i : Nat} {did : Controller.Action}
    (hm : Move f (.controller i did) f' effects) : ∃ before after made,
      f.controllers[i]? = some before ∧ f' = f.worked i after made ∧
        effects = made.map (.controller i) ∧
        Controller.Move (f.surroundings i) before did after made := by
  cases hm with
  | turned k a old new f₁ effects hk ht => cases ht
  | worked c a old new made hc hm => exact ⟨old, new, made, hc, rfl, rfl, hm⟩

/-- A call goes on by a step of its own, or makes its controller. Any other step leaves it as it is,
or brings it what a controller answers. -/
theorem call_cases {call : Call} (h : Move f a f' effects) (hk : f.calls[k]? = some call) :
    (∃ call' f₁, Turn f k a call call' f₁ effects ∧ f' = f₁.setCall k call' ∧
      f'.calls[k]? = some call') ∨
    call = .creating ∨
    ∃ made : List Controller.Effect, f'.calls[k]? = some (call.deliverAll made) ∧
      ∀ e ∈ made, ∃ c, .controller c e ∈ effects := by
  have hsame {g : Fleet} (hg : g.calls[k]? = some call) :
      ∃ made : List Controller.Effect, g.calls[k]? = some (call.deliverAll made) ∧
        ∀ e ∈ made, ∃ c, .controller c e ∈ effects :=
    ⟨[], hg, fun e he => by cases he⟩
  cases h with
  | request r he => exact .inr (.inr (hsame (getElem?_concat_eq_some.2 (.inl hk))))
  | created i hi =>
    by_cases hik : i = k
    · subst hik
      rw [hi] at hk
      cases hk
      exact .inr (.inl rfl)
    · exact .inr (.inr (hsame (by rw [List.getElem?_set_ne hik, hk])))
  | turned i a old new f₁ effects hi ht =>
    have hi₁ : f₁.calls[i]? = some old := by rw [calls_turn ht, hi]
    by_cases hik : i = k
    · subst hik
      rw [hi] at hk
      cases hk
      exact .inl ⟨new, f₁, ht, rfl, by rw [getElem?_setCall hi₁, if_pos rfl]⟩
    · refine .inr (.inr (hsame ?_))
      rw [getElem?_setCall hi₁, if_neg hik, calls_turn ht, hk]
  | worked c did old new made hc hm =>
    refine .inr (.inr ⟨made, by rw [calls_worked, hk]; rfl, ?_⟩)
    intro e he
    exact ⟨c, List.mem_map_of_mem he⟩
  | _ => exact .inr (.inr (hsame hk))

/-- A call is where it is since this very step, which it was asked for, has made its controller or
has gone on with; or it was there before, but for what a controller answers. -/
theorem call_of_move {call : Call} (h : Move f a f' effects) (hk : f'.calls[k]? = some call) :
    (∃ r : Request, call = r.begin) ∨
    (∃ c reply deadline, call = .awaiting c reply deadline none) ∨
    (∃ old f₁, f.calls[k]? = some old ∧ Turn f k a old call f₁ effects ∧
      f' = f₁.setCall k call) ∨
    ∃ old made, f.calls[k]? = some old ∧ call = Call.deliverAll made old := by
  have hsame (hk : f.calls[k]? = some call) :
      ∃ old made, f.calls[k]? = some old ∧ call = Call.deliverAll made old :=
    ⟨call, [], hk, rfl⟩
  cases h with
  | request r he =>
    rcases getElem?_concat_eq_some.1 hk with hk | ⟨-, rfl⟩
    · exact .inr (.inr (.inr (hsame hk)))
    · exact .inl ⟨r, rfl⟩
  | created i hi =>
    rw [List.getElem?_set] at hk
    split at hk
    · split at hk
      · cases hk
        exact .inr (.inl ⟨_, _, _, rfl⟩)
      · cases hk
    · exact .inr (.inr (.inr (hsame hk)))
  | turned i a old new f₁ effects hi ht =>
    have hi₁ : f₁.calls[i]? = some old := by rw [calls_turn ht, hi]
    rw [getElem?_setCall hi₁, calls_turn ht] at hk
    split at hk
    · rename_i he
      subst he
      cases hk
      exact .inr (.inr (.inl ⟨old, f₁, hi, ht, rfl⟩))
    · exact .inr (.inr (.inr (hsame hk)))
  | worked c did old new made hc hm =>
    rw [calls_worked] at hk
    obtain ⟨before, hb, rfl⟩ := Option.map_eq_some_iff.1 hk
    exact .inr (.inr (.inr ⟨before, made, hb, rfl⟩))
  | _ => exact .inr (.inr (.inr (hsame hk)))

theorem call_move {P : Call → Prop} {call : Call} (h : Move f a f' effects)
    (hk : f.calls[k]? = some call) (hp : P call) (hc : ¬ P .creating)
    (ht : ∀ {a old new f₁ effects}, Turn f k a old new f₁ effects → P old → P new)
    (hd : ∀ call effects, P call → P (Call.deliverAll effects call)) :
    ∃ call', f'.calls[k]? = some call' ∧ P call' := by
  rcases call_cases h hk with ⟨call', f₁, turn, -, hk'⟩ | rfl | ⟨made, hk', -⟩
  · exact ⟨call', hk', ht turn hp⟩
  · exact absurd hp hc
  · exact ⟨_, hk', hd call made hp⟩

end Move

end MachineFleet.Fleet
