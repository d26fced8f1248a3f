import Mathlib.Data.List.Basic
import MachineFleet.Proofs.Fleet.Membership
import MachineFleet.Proofs.Lifecycle.Tracking

/-!
The readiness of registered machines: while the fleet is open, no news of a machine is lost on its
way from the judgement to the registry, overtakes another, or comes to another machine.
-/
namespace MachineFleet

def FleetEvent.id : FleetEvent → String
  | stopped id => id
  | ready machine => machine.id
  | unready machine => machine.id

def FleetEvent.newsAbout? (id : String) (event : FleetEvent) : Option Bool :=
  if event.id = id then event.news? else none

namespace Fleet

def outcome? (c : Nat) : Action → Option Signal
  | .controller i did => if i = c then did.outcome? else none
  | _ => none

def Effect.newsAbout? (id : String) : Effect → Option Bool
  | .controller _ (.event event) => event.newsAbout? id
  | _ => none

def outcomes (history : List Episode) (c : Nat) : List Signal :=
  history.filterMap fun x => outcome? c x.input

/-- The controller is not probed, and its mailbox holds neither the news of its registration nor
any of its machine. -/
def Unprobed (f : Fleet) (c : Nat) : Prop :=
  ∀ controller, f.controllers[c]? = some controller → controller.probe? = none ∧
    ∀ m ∈ controller.mailbox, m ≠ .registered ∧ m.news? = none

/-- How news of readiness gets from the controllers to the registry. -/
structure Followed (config : FleetConfig) (known : List (Nat × Metadata)) (made : List Making)
    (outs : Nat → List Signal) (f : Fleet) : Prop where
  settings : f.config = config
  sound : ∀ (c : Nat) (controller : Controller), f.controllers[c]? = some controller →
    controller.Sound ∧ controller.probeConfig = config.probe
  mail : ∀ (c : Nat) (controller : Controller) (m : Message) (machine : Metadata),
    f.controllers[c]? = some controller → m ∈ controller.mailbox →
      m = .ready machine ∨ m = .unready machine → (c, machine) ∈ known ∧
        ∀ run, controller.phase.running? = some run → run.machine = machine
  events : ∀ (event : FleetEvent) (machine : Metadata), event ∈ f.events →
    event = .ready machine ∨ event = .unready machine →
      ∃ c, (c, machine) ∈ known ∧ Registered made f c
  unprobed : ∀ c, Registered made f c ∨ outs c = [] ∧ Unprobed f c
  entries : ∀ (id : String) (e : Entry Nat) (controller : Controller) (run : Running),
    f.registry.get? id = some e → f.controllers[e.controller]? = some controller →
      controller.phase = .started run →
        controller.Tracks
          (.new config.probe.successThreshold.toNat config.probe.failureThreshold.toNat)
          (outs e.controller) (settle e.ready (f.events.filterMap (·.newsAbout? id)))

section Followed

variable {f f' f₁ : Fleet} {a : Action} {effects : List Effect} {k c : Nat} {old new : Call}
  {known : List (Nat × Metadata)} {made : List Making} {id : String} {e : Entry Nat}
  {config : FleetConfig} {outs : Nat → List Signal}

theorem probe?_posted (controller : Controller) (m : Message) :
    (posted controller m).probe? = controller.probe? := by
  rw [Controller.probe?_eq, Controller.probe?_eq, posted_phase]

theorem sound_posted {controller : Controller} {m : Message} (h : controller.Sound) :
    (posted controller m).Sound :=
  ⟨by simpa using h.isOpen, by simpa using h.probing, by simpa using h.machine⟩

theorem Followed.sound_move (h : Followed config known made outs f) (hm : Move f a f' effects)
    {controller' : Controller} (hc : f'.controllers[c]? = some controller') :
    controller'.Sound ∧ controller'.probeConfig = config.probe := by
  rcases controller_move hm hc with ⟨controller, hf, hch⟩ | ⟨rfl, rfl⟩
  · obtain ⟨hs, hp⟩ := h.sound c controller hf
    rcases hch with rfl | ⟨k, old, new, m, -, -, -, rfl⟩ | ⟨did, made, -, -, hstep⟩
    · exact ⟨hs, hp⟩
    · exact ⟨sound_posted hs, by simpa using hp⟩
    · exact ⟨hs.move hstep, (Controller.settings_move hstep).1.trans hp⟩
  · refine ⟨.of_not_running rfl fun _ => rfl, ?_⟩
    rw [← h.settings]
    rfl

theorem Posting.news? {m : Message} (h : Posting f c old new m) : m.news? = none := by
  cases h <;> rfl

theorem news?_of_machine {m : Message} {machine : Metadata}
    (h : m = .ready machine ∨ m = .unready machine) : m.news? ≠ none := by
  rcases h with rfl | rfl <;> simp [Message.news?]

theorem Followed.mail_move (h : Followed config known made outs f) (b : Books made f)
    (r : Roll known made f) (hm : Move f a f' effects) {controller' : Controller} {m : Message}
    {machine : Metadata} (hc : f'.controllers[c]? = some controller')
    (hmem : m ∈ controller'.mailbox) (hmach : m = .ready machine ∨ m = .unready machine) :
    (c, machine) ∈ known ∧
      ∀ run, controller'.phase.running? = some run → run.machine = machine := by
  rcases controller_move hm hc with ⟨controller, hf, hch⟩ | ⟨rfl, rfl⟩
  · have hold := h.mail c controller m machine hf
    rcases hch with rfl | ⟨k, old, new, m', -, -, hp, rfl⟩ | ⟨did, made, -, -, hstep⟩
    · exact hold hmem hmach
    · rcases mem_posted_mailbox hmem with hmem | rfl
      · simpa using hold hmem hmach
      · exact absurd hp.news? (news?_of_machine hmach)
    · rcases Controller.mailbox_move hstep hmem with hmem | ⟨failure, rfl⟩ | ⟨p, change, hp, rfl⟩
      · obtain ⟨hknown, hrun⟩ := hold hmem hmach
        refine ⟨hknown, fun run hr => ?_⟩
        rcases Controller.running?_move hstep hr with ⟨before, hb, he⟩ | ⟨reply, hp, -⟩
        · rw [← he]
          exact hrun before hb
        · -- There is no news before the machine has started.
          exfalso
          rcases h.unprobed c with hreg | ⟨-, hun⟩
          · exact (b.begun c controller hf hreg).ne_starting reply hp
          · exact news?_of_machine hmach ((hun controller hf).2 m hmem).2
      · rcases hmach with hmach | hmach <;> cases hmach
      · rw [Controller.probe?_eq] at hp
        obtain ⟨run, hr, hp⟩ := Option.bind_eq_some_iff.1 hp
        have hmachine : p.machine = machine := by
          cases change <;> rcases hmach with hmach | hmach <;> cases hmach <;> rfl
        have hown := (h.sound c controller hf).1.machine run p hr hp
        rw [← hmachine, hown]
        refine ⟨r.running c controller run hf hr, fun run' hr' => ?_⟩
        rcases Controller.running?_move hstep hr' with ⟨before, hb, he⟩ | ⟨reply, hp, -⟩
        · rw [hr] at hb
          cases hb
          exact he.symm
        · rw [hp] at hr
          cases hr
  · simp only [List.mem_singleton] at hmem
    rw [hmem] at hmach
    rcases hmach with hmach | hmach <;> cases hmach

theorem Followed.events_move (h : Followed config known made outs f) (hm : Move f a f' effects)
    {event : FleetEvent} {machine : Metadata} (hmem : event ∈ f'.events)
    (hmach : event = .ready machine ∨ event = .unready machine) :
    ∃ c, (c, machine) ∈ known ∧ Registered (made ++ (making? f a).toList) f' c := by
  rcases event_mem_move hm hmem with hmem | ⟨c, did, before, after, made', hc, -, -, -, hstep, he⟩
  · obtain ⟨c, hknown, hreg⟩ := h.events event machine hmem hmach
    exact ⟨c, hknown, hreg.move hm⟩
  · rcases Controller.event_move hstep he with ⟨run, -, rfl, -⟩ | ⟨machine', rest, -, -, hcase⟩
    · rcases hmach with hmach | hmach <;> cases hmach
    · have hmail : ∃ m ∈ before.mailbox, m = .ready machine ∨ m = .unready machine := by
        rcases hcase with ⟨hb, rfl⟩ | ⟨hb, rfl⟩
        · rcases hmach with hmach | hmach
          · cases hmach
            exact ⟨.ready machine, by simp [hb], .inl rfl⟩
          · cases hmach
        · rcases hmach with hmach | hmach
          · cases hmach
          · cases hmach
            exact ⟨.unready machine, by simp [hb], .inr rfl⟩
      obtain ⟨m, hm', hmach'⟩ := hmail
      refine ⟨c, (h.mail c before m machine hc hm' hmach').1, ?_⟩
      rcases h.unprobed c with hreg | ⟨-, hun⟩
      · exact hreg.move hm
      · exact absurd ((hun before hc).2 m hm').2 (news?_of_machine hmach')

theorem controller_of_mem {i : Nat} {effect : Controller.Effect} (hm : Move f a f' effects)
    (he : .controller i effect ∈ effects) : ∃ did, a = .controller i did := by
  cases hm with
  | turned k a old new f₁ effects hk ht =>
    cases ht <;> simp [sentEffects] at he
  | worked c did old new made hc hm =>
    obtain ⟨effect', -, heq⟩ := List.mem_map.1 he
    cases heq
    exact ⟨did, rfl⟩
  | _ => simp at he

theorem probe?_of_outcome {outcome : Signal} (hm : Move f a f' effects)
    (ho : outcome? c a = some outcome) :
    ∃ controller p, f.controllers[c]? = some controller ∧ controller.probe? = some p := by
  cases a with
  | controller i did =>
    simp only [outcome?] at ho
    split at ho
    · rename_i hi
      subst hi
      obtain ⟨before, after, made, hc, -, -, hstep⟩ := move_of_controller hm
      cases hstep with
      | checkEnded p p' outcome hp => exact ⟨before, p, hc, hp⟩
      | _ => cases ho
    · cases ho
  | _ => cases ho

theorem Unprobed.move (h : Unprobed f c) (b : Books made f) (hm : Move f a f' effects)
    (hn : ¬ Registered (made ++ (making? f a).toList) f' c) : Unprobed f' c := by
  intro controller' hc
  rcases controller_move hm hc with ⟨controller, hf, hch⟩ | ⟨-, rfl⟩
  · obtain ⟨hp, hmail⟩ := h controller hf
    rcases hch with rfl | ⟨k, old, new, m, hk, hk', hpost, rfl⟩ | ⟨did, made, -, -, hstep⟩
    · exact ⟨hp, hmail⟩
    · refine ⟨(probe?_posted controller m).trans hp, fun m' hm' => ?_⟩
      rcases mem_posted_mailbox hm' with hm' | rfl
      · exact hmail m' hm'
      · refine ⟨?_, hpost.news?⟩
        rintro rfl
        -- The call that tells of the registration has made it.
        cases hpost with
        | registered machine =>
          obtain ⟨mk, hmk, rfl⟩ := b.makers.own k _ c hk rfl
          refine hn ⟨mk, _, ?_, hk', rfl⟩
          rw [List.getElem?_append_left (List.getElem?_eq_some_iff.1 hmk).1, hmk]
    · have hreg : .registered ∉ controller.mailbox := fun hm => (hmail _ hm).1 rfl
      refine ⟨Controller.probe?_move hstep hp hreg, fun m hm' => ?_⟩
      rcases Controller.mailbox_move hstep hm' with hm' | ⟨failure, rfl⟩ | ⟨p, change, hp', -⟩
      · exact hmail m hm'
      · exact ⟨by simp, rfl⟩
      · cases hp.symm.trans hp'
  · exact ⟨rfl, by simp [Message.news?]⟩

theorem Followed.unprobed_move (h : Followed config known made outs f) (b : Books made f)
    (hm : Move f a f' effects) (c : Nat) :
    Registered (made ++ (making? f a).toList) f' c ∨
      outs c ++ (outcome? c a).toList = [] ∧ Unprobed f' c := by
  rcases h.unprobed c with hr | ⟨ho, hun⟩
  · exact .inl (hr.move hm)
  by_cases hn : Registered (made ++ (making? f a).toList) f' c
  · exact .inl hn
  refine .inr ⟨?_, hun.move b hm hn⟩
  -- A check ends only where there is a probe, and there is none before the registration.
  cases hout : outcome? c a with
  | none => simp [ho]
  | some outcome =>
    obtain ⟨controller, p, hc, hp⟩ := probe?_of_outcome hm hout
    cases (hun controller hc).1.symm.trans hp

/-- The readiness of a registered machine once all its events are handled. -/
def awaited (f : Fleet) (id : String) (e : Entry Nat) : Bool :=
  settle e.ready (f.events.filterMap (·.newsAbout? id))

theorem get?_applyEvent {event : FleetEvent} {r : Registry Nat}
    (he : (applyEvent r event).get? id = some e) :
    ∃ e', r.get? id = some e' ∧ e'.controller = e.controller ∧
      e.ready = settle e'.ready (event.newsAbout? id).toList := by
  have hset {id' : String} {ready : Bool} (he : (r.setReady id' ready).get? id = some e) :
      ∃ e', r.get? id = some e' ∧ e'.controller = e.controller ∧
        e.ready = settle e'.ready (if id' = id then some ready else none).toList := by
    rw [Registry.get?_setReady] at he
    by_cases hid : id = id'
    · rw [if_pos hid] at he
      obtain ⟨e', he', rfl⟩ := Option.map_eq_some_iff.1 he
      exact ⟨e', he', rfl, by simp [hid]⟩
    · rw [if_neg hid] at he
      exact ⟨e, he, rfl, by simp [Ne.symm hid]⟩
  cases event with
  | stopped id' =>
    refine ⟨e, (get?_remove_some he).2, rfl, ?_⟩
    simp [FleetEvent.newsAbout?, FleetEvent.news?]
  | ready machine => exact hset he
  | unready machine => exact hset he

theorem awaited_move (ho : Open f) (hm : Move f a f' effects) (ha : a.isOrdinary = true)
    (he : f'.registry.get? id = some e) :
    (∃ e', f.registry.get? id = some e' ∧ e'.controller = e.controller ∧
      f'.awaited id e = settle (f.awaited id e') (effects.filterMap (·.newsAbout? id))) ∨
    ∃ (k : Nat) (machine : Metadata), f.calls[k]? = some (.registering e.controller machine) ∧
      f.isOpen e.controller = true ∧ e.ready = false ∧ id = machine.id ∧
      f'.controllers = f.controllers ∧ f'.events = f.events ∧ a = .proceed k := by
  cases hm with
  | turned k a old new f₁ effects hk ht =>
    have hev := (events_turn ht (ho.calls old (List.mem_of_getElem? hk))).1
    have hnews : effects.filterMap (·.newsAbout? id) = [] := by
      cases ht <;> simp [sentEffects, Effect.newsAbout?]
    rcases get?_turn ht he with he | ⟨machine, rfl, rfl, hopen, hid, heq, hc⟩
    · refine .inl ⟨e, he, rfl, ?_⟩
      rw [hnews, settle_nil, awaited, awaited, setCall, hev]
    · refine .inr ⟨k, machine, hk, hopen, by rw [heq], hid, hc, hev, ?_⟩
      cases ht
      rfl
  | worked c did before after made hc hm =>
    have hloop : f.eventLoop = true := by
      refine ho.loop.resolve_right fun h => ?_
      rw [worked, h.2.2.1] at he
      cases he
    refine .inl ⟨e, he, rfl, ?_⟩
    rw [awaited, awaited, worked, if_pos hloop, List.filterMap_append, settle_append,
      List.filterMap_filterMap, List.filterMap_map]
    congr 1
    refine List.filterMap_congr fun effect _ => ?_
    cases effect <;> rfl
  | handled event rest hl hev =>
    obtain ⟨e', he', hc, hr⟩ := get?_applyEvent he
    refine .inl ⟨e', he', hc, ?_⟩
    -- The event goes from the queue into the entry, so what is awaited stays the same.
    rw [awaited, awaited, hr, hev, List.filterMap_cons]
    cases event.newsAbout? id <;> rfl
  | removed => cases ha
  | readied => cases ha
  | vanished => cases he
  | _ => exact .inl ⟨e, he, rfl, rfl⟩

theorem Followed.machine_of_event (h : Followed config known made outs f) {i : Nat}
    {did : Controller.Action} {before after : Controller} {event : FleetEvent}
    {made' : List Controller.Effect} (hc : f.controllers[i]? = some before)
    (hm : Controller.Move (f.surroundings i) before did after made')
    (he : .event event ∈ made') (hn : event.news? ≠ none) :
    ∃ machine, event.id = machine.id ∧ (i, machine) ∈ known ∧
      ∀ run, before.phase.running? = some run → run.machine = machine := by
  rcases Controller.event_move hm he with ⟨run, -, rfl, -⟩ | ⟨machine, rest, -, -, hcase⟩
  · exact absurd rfl hn
  · rcases hcase with ⟨hb, rfl⟩ | ⟨hb, rfl⟩
    · obtain ⟨hk, hr⟩ := h.mail i before _ machine hc (by rw [hb]; exact .head _) (.inl rfl)
      exact ⟨machine, rfl, hk, hr⟩
    · obtain ⟨hk, hr⟩ := h.mail i before _ machine hc (by rw [hb]; exact .head _) (.inr rfl)
      exact ⟨machine, rfl, hk, hr⟩

/-- The news of a registered machine comes from its own controller. -/
theorem Followed.news_of_other (h : Followed config known made outs f) (hd : Distinct known)
    (hm : Move f a f' effects) {machine : Metadata} (hk : (c, machine) ∈ known)
    (hid : machine.id = id) (hn : ∀ did, a ≠ .controller c did) :
    effects.filterMap (·.newsAbout? id) = [] := by
  rw [List.filterMap_eq_nil_iff]
  intro effect hmem
  cases effect with
  | controller i effect =>
    obtain ⟨did, rfl⟩ := controller_of_mem hm hmem
    obtain ⟨before, after, made', hc, -, rfl, hstep⟩ := move_of_controller hm
    cases effect with
    | event event =>
      have hmem' : .event event ∈ made' := by simpa using hmem
      by_cases hnews : event.news? = none
      · simp [Effect.newsAbout?, FleetEvent.newsAbout?, hnews]
      · obtain ⟨machine', hid', hk', -⟩ := h.machine_of_event hc hstep hmem' hnews
        by_cases heq : event.id = id
        · obtain ⟨rfl, -⟩ := hd.eq hk hk' (by rw [hid, ← heq, hid'])
          exact absurd rfl (hn did)
        · simp [Effect.newsAbout?, FleetEvent.newsAbout?, heq]
    | _ => rfl
  | _ => rfl

theorem Followed.entry_worked (h : Followed config known made outs f) (b : Books made f)
    (r : Roll known made f) {did : Controller.Action} {before after : Controller}
    {made' : List Controller.Effect} {run : Running} (he : f.registry.get? id = some e)
    (hc : f.controllers[e.controller]? = some before)
    (hm : Controller.Move (f.surroundings e.controller) before did after made')
    (hp : after.phase = .started run) :
    after.Tracks (.new config.probe.successThreshold.toNat config.probe.failureThreshold.toNat)
      (outs e.controller ++ did.outcome?.toList)
      (settle (f.awaited id e)
        ((made'.map (Effect.controller e.controller)).filterMap (·.newsAbout? id))) := by
  have hbegun := b.begun _ before hc (b.listing _ (.inl ⟨id, e, he, rfl⟩))
  obtain ⟨before', hb, -⟩ := Controller.started_of_begun hm hbegun hp
  obtain ⟨hsound, hconfig⟩ := h.sound _ before hc
  have hmachine : before'.machine.id = id := by rw [r.machine_of_get? he hc hb]
  have hnews : (made'.map (Effect.controller e.controller)).filterMap (·.newsAbout? id) =
      made'.filterMap Controller.Effect.news? := by
    rw [List.filterMap_map]
    refine List.filterMap_congr fun effect hmem => ?_
    cases effect with
    | event event =>
      by_cases hn : event.news? = none
      · simp [Effect.newsAbout?, FleetEvent.newsAbout?, Controller.Effect.news?, hn]
      · -- All that a controller passes on is about the machine that it runs.
        obtain ⟨machine, hid, -, hown⟩ := h.machine_of_event hc hm hmem hn
        have hid : event.id = id := by
          rw [hid, ← hown before' (by rw [hb]; rfl), hmachine]
        simp [Effect.newsAbout?, FleetEvent.newsAbout?, Controller.Effect.news?, hid]
    | _ => rfl
  rw [hnews]
  exact (h.entries id e before before' he hc hb).move hsound hm (held_of_get? he)
    (by rw [hconfig]) hp

theorem Followed.entry_new (h : Followed config known made outs f) (b : Books made f)
    (r : Roll known made f) (hd : Distinct known) {machine : Metadata} {controller : Controller}
    (hk : f.calls[k]? = some (.registering c machine)) (ho : f.isOpen c = true)
    (hc : f.controllers[c]? = some controller) :
    controller.Tracks (.new config.probe.successThreshold.toNat config.probe.failureThreshold.toNat)
      (outs c) (settle false (f.events.filterMap (·.newsAbout? machine.id))) := by
  obtain ⟨hp, hmail⟩ := b.phase_of_registering hk ho hc
  have hn : ¬ Registered made f c := b.not_registered_of_registering hk
  have hout := ((h.unprobed c).resolve_left hn).1
  have hknown := r.running c controller _ hc (by rw [hp]; rfl)
  have hevents : f.events.filterMap (·.newsAbout? machine.id) = [] := by
    rw [List.filterMap_eq_nil_iff]
    intro event hmem
    have hnone (machine' : Metadata) (hm : event = .ready machine' ∨ event = .unready machine')
        (hid : event.id = machine'.id) : event.newsAbout? machine.id = none := by
      obtain ⟨c', hk', hr⟩ := h.events event machine' hmem hm
      rw [FleetEvent.newsAbout?, if_neg]
      intro heq
      obtain ⟨rfl, -⟩ := hd.eq hknown hk' (by rw [← hid, heq])
      exact hn hr
    cases event with
    | stopped id' => simp [FleetEvent.newsAbout?, FleetEvent.news?]
    | ready machine' => exact hnone machine' (.inl rfl) rfl
    | unready machine' => exact hnone machine' (.inr rfl) rfl
  have hquiet : controller.mailbox.filterMap Message.news? = [] := by
    rw [List.filterMap_eq_nil_iff]
    intro m hm
    obtain ⟨failure, rfl⟩ := hmail m hm
    rfl
  refine ⟨_, [], [], hp, hout, ⟨rfl, rfl⟩, ?_⟩
  rw [hevents, hquiet]
  rfl

theorem tracks_posted {fresh : ReadinessTracker} {outcomes : List Signal}
    {ready : Bool} {controller : Controller} {m : Message}
    (h : controller.Tracks fresh outcomes ready) (hm : m.news? = none) :
    (posted controller m).Tracks fresh outcomes ready := by
  obtain ⟨run, judged, waiting, hp, hout, hprobe, hset⟩ := h
  refine ⟨run, judged, waiting, by simpa using hp, hout, hprobe, ?_⟩
  rw [posted_eq]
  split
  · simpa [List.filterMap_append, hm] using hset
  · exact hset

theorem Followed.entries_move (h : Followed config known made outs f) (b : Books made f)
    (ho : Open f) (r : Roll known made f) (hm : Move f a f' effects) (ha : a.isOrdinary = true)
    (hd : Distinct known) {controller' : Controller} {run : Running}
    (he : f'.registry.get? id = some e) (hc : f'.controllers[e.controller]? = some controller')
    (hp : controller'.phase = .started run) :
    controller'.Tracks
      (.new config.probe.successThreshold.toNat config.probe.failureThreshold.toNat)
      (outs e.controller ++ (outcome? e.controller a).toList) (f'.awaited id e) := by
  rcases awaited_move ho hm ha he with ⟨e', he', hce, haw⟩ |
    ⟨k, machine, hk, hopen, hready, rfl, hcs, hev, rfl⟩
  · rw [haw, ← hce]
    rw [← hce] at hc
    -- Only a step of the machine's own controller can bring an outcome or news of it.
    by_cases hown : ∃ did, a = .controller e'.controller did
    · obtain ⟨did, rfl⟩ := hown
      obtain ⟨before, after, made', hb, rfl, rfl, hstep⟩ := move_of_controller hm
      rw [controllers_worked hb, if_pos rfl] at hc
      cases hc
      simpa [outcome?] using h.entry_worked b r he' hb hstep hp
    · obtain ⟨controller, hf, -⟩ := r.entries id e' he'
      rcases controller_move hm hc with ⟨before, hb, hch⟩ | ⟨hl, -⟩
      · have hout : outcome? e'.controller a = none := by
          cases a with
          | controller i did =>
            rw [outcome?, if_neg]
            rintro rfl
            exact hown ⟨did, rfl⟩
          | _ => rfl
        rw [hout, Option.toList_none, List.append_nil]
        rw [hf] at hb
        cases hb
        have hquiet {running : Running} (hs : controller.phase = .started running) :
            effects.filterMap (·.newsAbout? id) = [] := by
          have hrunning : controller.phase.running? = some running := by
            rw [hs]
            rfl
          refine h.news_of_other hd hm (r.running _ controller running hf hrunning) ?_
            fun did hdid => hown ⟨did, hdid⟩
          rw [r.machine_of_get? he' hf hs]
        rcases hch with rfl | ⟨k, old, new, m, -, -, hpost, rfl⟩ | ⟨did, made', rfl, -, -⟩
        · rw [hquiet hp, settle_nil]
          exact h.entries id e' _ run he' hf hp
        · rw [posted_phase] at hp
          rw [hquiet hp, settle_nil]
          exact tracks_posted (h.entries id e' controller run he' hf hp) hpost.news?
        · exact absurd ⟨did, rfl⟩ hown
      · exact absurd hl (Nat.ne_of_lt (List.getElem?_eq_some_iff.1 hf).1)
  · rw [awaited, hready, hev]
    rw [hcs] at hc
    simpa [outcome?] using h.entry_new b r hd hk hopen hc

theorem Followed.move (h : Followed config known made outs f) (b : Books made f) (ho : Open f)
    (r : Roll known made f) (hm : Move f a f' effects) (ha : a.isOrdinary = true)
    (hd : Distinct known) :
    Followed config (known ++ (report? a).toList) (made ++ (making? f a).toList)
      (fun c => outs c ++ (outcome? c a).toList) f' where
  settings := (config_move hm).trans h.settings
  sound _ _ hc := h.sound_move hm hc
  mail _ _ _ _ hc hmem hmach := by
    obtain ⟨hk, hr⟩ := h.mail_move b r hm hc hmem hmach
    exact ⟨List.mem_append_left _ hk, hr⟩
  events _ _ hmem hmach := by
    obtain ⟨c, hk, hr⟩ := h.events_move hm hmem hmach
    exact ⟨c, List.mem_append_left _ hk, hr⟩
  unprobed c := h.unprobed_move b hm c
  entries _ _ _ _ he hc hp := h.entries_move b ho r hm ha hd he hc hp

end Followed

section Runs

variable {config : FleetConfig} {history : List Episode} {f : Fleet} {c : Nat}

theorem outcomes_snoc (history : List Episode) (f : Fleet) (a : Action) (effects : List Effect)
    (c : Nat) :
    outcomes (history ++ [⟨f, a, effects⟩]) c = outcomes history c ++ (outcome? c a).toList :=
  filterMap_concat _ _ _

theorem followed_start (config : FleetConfig) :
    Followed config [] [] (outcomes []) (start config) where
  settings := rfl
  sound c controller hc := by cases hc
  mail c controller m machine hc := by cases hc
  events event machine hmem := by cases hmem
  unprobed c := .inr ⟨rfl, fun controller hc => by cases hc⟩
  entries id e controller run he := by cases he

theorem followed_of_run (run : Run step (start config) history f) (ho : IsOrdinary history)
    (hd : Distinct (reports history)) :
    Followed config (reports history) (makings history) (outcomes history) f := by
  induction run with
  | nil => exact followed_start config
  | @snoc history f f' a effects run h ih =>
    have hout : outcomes (history ++ [⟨f, a, effects⟩]) =
        fun c => outcomes history c ++ (outcome? c a).toList := by
      funext c
      exact outcomes_snoc history f a effects c
    rw [reports_snoc] at hd ⊢
    rw [makings_snoc, hout]
    have ho' : IsOrdinary history := fun x hx => ho x (List.mem_append_left _ hx)
    obtain ⟨hopen, roll⟩ := roll_of_run run ho' hd.of_append
    exact (ih ho' hd.of_append).move (books_of_run run) hopen roll (move_of_step h)
      (ho ⟨f, a, effects⟩ (by simp)) hd.of_append

/-- No news is under way: there is no event, no message or outcome that a controller could take, and
no exit that is about to be reported. -/
structure Settled (f : Fleet) : Prop where
  events : f.events = []
  taken : ∀ c, f.step (.controller c .receive) = none
  judged : ∀ c, f.step (.controller c .judge) = none
  reported : ∀ c, f.step (.controller c .reportExit) = none

theorem Settled.started_of_get? {known : List (Nat × Metadata)} {made : List Making} {id : String}
    {e : Entry Nat} (hs : Settled f) (r : Roll known made f) (he : f.registry.get? id = some e) :
    ∃ controller running, f.controllers[e.controller]? = some controller ∧
      controller.phase = .started running ∧ running.machine = ⟨id, e.address⟩ := by
  obtain ⟨controller, hc, ⟨running, hr, hm⟩ | ⟨-, hstopped⟩⟩ := r.entries id e he
  · refine ⟨controller, running, hc, ?_, hm⟩
    have hreported := hs.reported e.controller
    simp only [step, stepController, hc, Option.map_eq_none_iff, Controller.step] at hreported
    cases hp : controller.phase with
    | started running' =>
      rw [hp] at hr
      cases hr
      rfl
    | exiting running' => simp [hp] at hreported
    | _ =>
      rw [hp] at hr
      cases hr
  · rw [hs.events] at hstopped
    cases hstopped

theorem Settled.mailbox_eq_nil {controller : Controller} {running : Running} (hs : Settled f)
    (hc : f.controllers[c]? = some controller) (hp : controller.phase = .started running) :
    controller.mailbox = [] := by
  have htaken := hs.taken c
  simp only [step, stepController, hc, Option.map_eq_none_iff, Controller.step,
    Controller.receive?, hp] at htaken
  cases hm : controller.mailbox with
  | nil => rfl
  | cons m rest => simp [hm] at htaken

theorem Settled.outcomes_eq_nil {controller : Controller} {p : Probe} {tracker : ReadinessTracker}
    (hs : Settled f) (hc : f.controllers[c]? = some controller) (hp : controller.probe? = some p)
    (ht : p.tracker = some tracker) : p.outcomes = [] := by
  have hjudged := hs.judged c
  simp only [step, stepController, hc, Option.map_eq_none_iff, Controller.step, hp,
    Option.bind_eq_bind, Option.bind_some, Option.bind_eq_none_iff] at hjudged
  cases ho : p.outcomes with
  | nil => rfl
  | cons outcome rest =>
    exfalso
    cases hj : p.judge? ((f.surroundings c).held && controller.isOpen) with
    | none =>
      unfold Probe.judge? at hj
      rw [ht, ho] at hj
      simp only at hj
      split at hj
      · cases hj
      · split at hj <;> cases hj
    | some judged => exact absurd (hjudged judged hj) (by simp)

/-- Before a close, once no news is under way, every registered machine is as ready as a judgement
that has begun afresh and has taken in the outcomes of all its checks, one after the other. It is
not ready if it is not probed. -/
theorem ready_eq_judgement (run : Run step (start config) history f) (ho : IsOrdinary history)
    (hd : Distinct (reports history)) (hs : Settled f) (id : String) (e : Entry Nat)
    (he : f.registry.get? id = some e) :
    ∃ controller running, f.controllers[e.controller]? = some controller ∧
      controller.phase = .started running ∧ running.machine = ⟨id, e.address⟩ ∧
      e.ready = ((ReadinessTracker.new config.probe.successThreshold.toNat
        config.probe.failureThreshold.toNat).after (outcomes history e.controller)).isReady ∧
      (running.probe = none → e.ready = false) := by
  obtain ⟨-, roll⟩ := roll_of_run run ho hd
  have followed := followed_of_run run ho hd
  obtain ⟨controller, running, hc, hp, hm⟩ := hs.started_of_get? roll he
  obtain ⟨running', judged, waiting, hp', hout, hprobe, hset⟩ :=
    followed.entries id e controller running he hc hp
  rw [hp] at hp'
  cases hp'
  -- With no message and no event left, the entry itself is as ready as the judgement.
  rw [hs.mailbox_eq_nil hc hp, hs.events] at hset
  have hready : e.ready = ((ReadinessTracker.new config.probe.successThreshold.toNat
      config.probe.failureThreshold.toNat).after judged).isReady := hset
  refine ⟨controller, running, hc, hp, hm, ?_, fun hn => ?_⟩
  · have hwaiting : waiting = [] := by
      cases hq : running.probe with
      | none =>
        rw [hq] at hprobe
        exact hprobe.2
      | some p =>
        rw [hq] at hprobe
        rw [← hprobe.1]
        refine hs.outcomes_eq_nil hc ?_ hprobe.2
        rw [Controller.probe?_eq, hp]
        exact hq
    rw [hout, hwaiting, List.append_nil]
    exact hready
  · rw [hn] at hprobe
    rw [hready, hprobe.1]
    rfl

/-- Two machines are checked at the same time. Only the first turns out to be ready. -/
def checkedMachines : List Action :=
  [.request .start, .request .start, .create 0 (.ok ()), .create 1 (.ok ()),
    .controller 0 .receive, .controller 1 .receive,
    .controller 1 (.driverStarted (.ok ⟨"m2", .v4 (.ofBytes 10 0 0 3)⟩)),
    .controller 0 (.driverStarted (.ok ⟨"m1", .v4 (.ofBytes 10 0 0 2)⟩)),
    .proceed 0, .proceed 1, .proceed 1, .proceed 0, .proceed 0, .proceed 1,
    .controller 1 .receive, .controller 0 .receive, .controller 0 .tick, .controller 1 .tick,
    .controller 1 (.checkEnded .unready), .controller 0 (.checkEnded .ready),
    .controller 0 .judge, .controller 1 .judge, .controller 0 .receive, .handleEvent]

theorem one_of_two_machines_is_ready :
    ∃ history f, Run step (start (.defaults "/")) history f ∧ IsOrdinary history ∧
      Distinct (reports history) ∧ Settled f ∧
      (∃ e, f.registry.get? "m1" = some e ∧ e.ready = true ∧
        ((ReadinessTracker.new 1 3).after (outcomes history e.controller)).isReady = true) ∧
      ∃ e, f.registry.get? "m2" = some e ∧ e.ready = false ∧
        ((ReadinessTracker.new 1 3).after (outcomes history e.controller)).isReady = false := by
  obtain ⟨⟨history, f⟩, hr⟩ :
      ∃ r, replay step (start (.defaults "/")) checkedMachines = some r :=
    Option.isSome_iff_exists.1 (by decide +kernel)
  have run := Run.of_replay hr
  have hlast {β : Type} (g : Fleet → β) {b : β} := last_of_replay hr g (b := b)
  have ho : IsOrdinary history :=
    isOrdinary_of_replay hr (by simp [checkedMachines, Action.isOrdinary])
  have hd : Distinct (reports history) := by
    rw [reports_of_replay hr, Distinct]
    decide
  have hquiet (a : Controller.Action) (h₀ : (f.step (.controller 0 a)).isNone = true)
      (h₁ : (f.step (.controller 1 a)).isNone = true) (c : Nat) :
      f.step (.controller c a) = none := by
    rcases c with _ | _ | n
    · exact Option.isNone_iff_eq_none.1 h₀
    · exact Option.isNone_iff_eq_none.1 h₁
    · have hl : f.controllers.length = 2 := hlast (·.controllers.length) (by decide +kernel)
      have hn : f.controllers[n + 1 + 1]? = none := List.getElem?_eq_none (by omega)
      simp [step, stepController, hn]
  have hs : Settled f := by
    refine ⟨?_, hquiet _ ?_ ?_, hquiet _ ?_ ?_, hquiet _ ?_ ?_⟩
    · have h : f.events.isEmpty = true := hlast (·.events.isEmpty) (by decide +kernel)
      simpa using h
    · exact hlast (fun f => (f.step (.controller 0 .receive)).isNone) (by decide +kernel)
    · exact hlast (fun f => (f.step (.controller 1 .receive)).isNone) (by decide +kernel)
    · exact hlast (fun f => (f.step (.controller 0 .judge)).isNone) (by decide +kernel)
    · exact hlast (fun f => (f.step (.controller 1 .judge)).isNone) (by decide +kernel)
    · exact hlast (fun f => (f.step (.controller 0 .reportExit)).isNone) (by decide +kernel)
    · exact hlast (fun f => (f.step (.controller 1 .reportExit)).isNone) (by decide +kernel)
  have hready (id : String) (e : Entry Nat) (he : f.registry.get? id = some e) :
      e.ready = ((ReadinessTracker.new 1 3).after (outcomes history e.controller)).isReady := by
    obtain ⟨-, -, -, -, -, h, -⟩ := ready_eq_judgement run ho hd hs id e he
    exact h
  have hfirst : f.registry.get? "m1" = some ⟨"m1", 0, .v4 (.ofBytes 10 0 0 2), true⟩ :=
    hlast (·.registry.get? "m1") (by decide +kernel)
  have hsecond : f.registry.get? "m2" = some ⟨"m2", 1, .v4 (.ofBytes 10 0 0 3), false⟩ :=
    hlast (·.registry.get? "m2") (by decide +kernel)
  exact ⟨history, f, run, ho, hd, hs, ⟨_, hfirst, rfl, (hready _ _ hfirst).symm⟩,
    ⟨_, hsecond, rfl, (hready _ _ hsecond).symm⟩⟩

end Runs

end Fleet

end MachineFleet
