import MachineFleet.Proofs.Config
import MachineFleet.Proofs.Lifecycle.Checks
import MachineFleet.Proofs.Probe.Target

namespace MachineFleet.Controller

variable {s : Surroundings} {c c' : Controller} {a : Action} {effects : List Effect}
  {run : Running} {config : ProbeConfig} {history : List Episode}

/-- A machine that runs after a step has just been started, or ran before and is probed as it was,
from now on, or on with the same URL. -/
theorem running_move (h : Move s c a c' effects) (hr : c'.phase.running? = some run) :
    (∃ machine, a = .driverStarted (.ok machine) ∧ run = ⟨machine, none, false⟩) ∨
      ∃ before, c.phase.running? = some before ∧
        (run = before ∨ run = beginProbing s.now c.probeConfig before ∨
          ∃ p p', before.probe = some p ∧ p'.url = p.url ∧
            run = { before with probe := some p' }) := by
  have hset {p p' : Probe} (hp : c.probe? = some p) (hurl : p'.url = p.url)
      (hr : (c.setProbe p').phase.running? = some run) :
      ∃ before, c.phase.running? = some before ∧ ∃ p p', before.probe = some p ∧
        p'.url = p.url ∧ run = { before with probe := some p' } := by
    rw [running?_setProbe] at hr
    obtain ⟨before, hb, rfl⟩ := Option.map_eq_some_iff.1 hr
    rw [probe?_eq, hb] at hp
    exact ⟨before, hb, p, p', hp, hurl, rfl⟩
  cases h with
  | takeRegistered before rest hp =>
    cases hr
    exact .inr ⟨before, by rw [hp]; rfl, .inr (.inl rfl)⟩
  | takeExit before failure rest hp =>
    cases hr
    exact .inr ⟨run, by rw [hp]; rfl, .inl rfl⟩
  | startTaken reply machine hp =>
    cases hr
    exact .inl ⟨machine, rfl, rfl⟩
  | skip | passReady | passUnready | refuseStart => exact .inr ⟨run, hr, .inl rfl⟩
  | exited => exact .inr ⟨run, by simpa using hr, .inl rfl⟩
  | tick p p' hp ht =>
    obtain ⟨before, hb, h⟩ := hset hp (Probe.url_tick? ht) hr
    exact .inr ⟨before, hb, .inr (.inr h)⟩
  | checkEnded p p' outcome hp hf =>
    obtain ⟨before, hb, h⟩ := hset hp (Probe.url_finish? hf) hr
    exact .inr ⟨before, hb, .inr (.inr h)⟩
  | judged p p' report hp hj =>
    obtain ⟨before, hb, h⟩ := hset hp (Probe.url_judge? hj) (by cases report <;> simpa using hr)
    exact .inr ⟨before, hb, .inr (.inr h)⟩
  -- After all other steps no machine runs.
  | _ => cases hr

/-- A machine that runs is probed where it is as soon as probing has begun. -/
structure Aims (port : UInt16) (run : Running) : Prop where
  probed : run.probing = true → ∃ p, run.probe = some p
  names : ∀ p, run.probe = some p → p.url.Names run.machine.address port

theorem Aims.beginProbing (h : Aims config.port run) (hc : config.Reaches) (now : Instant) :
    Aims config.port (beginProbing now config run) := by
  unfold Controller.beginProbing
  split
  · exact h
  · obtain ⟨p, hspawn, hnames⟩ := hc run.machine now
    rw [hspawn]
    refine ⟨fun _ => ⟨p, rfl⟩, fun q hq => ?_⟩
    cases hq
    exact hnames

theorem Aims.move (hc : c.probeConfig.Reaches)
    (hbefore : ∀ before, c.phase.running? = some before → Aims c.probeConfig.port before)
    (h : Move s c a c' effects) (hr : c'.phase.running? = some run) :
    Aims c.probeConfig.port run := by
  rcases running_move h hr with ⟨machine, -, rfl⟩ | ⟨before, hb, rfl | rfl | ⟨p, p', hp, hu, rfl⟩⟩
  · exact ⟨fun h => absurd h Bool.false_ne_true, fun p h => absurd h.symm (Option.some_ne_none p)⟩
  · exact hbefore _ hb
  · exact (hbefore _ hb).beginProbing hc s.now
  · refine ⟨fun _ => ⟨p', rfl⟩, fun q hq => ?_⟩
    cases hq
    rw [hu]
    exact (hbefore _ hb).names p hp

section Runs

variable {timeout : Duration} {url : Url} {limit : Duration}

theorem probeConfig_of_run (r : Run feed (Controller.new config timeout) history c) :
    c.probeConfig = config := by
  refine r.invariant (P := fun _ c => c.probeConfig = config) rfl ?_
  intro history c i c' effects hc h
  rcases feed_cases h with ⟨m, -, rfl, -⟩ | ⟨s, a, -, hm⟩
  · exact (settings_postIfHeld ..).1.trans hc
  · exact (settings_move hm).1.trans hc

theorem aims_of_run (hc : config.Reaches) (r : Run feed (Controller.new config timeout) history c) :
    ∀ run, c.phase.running? = some run → Aims config.port run := by
  induction r with
  | nil =>
    intro run hr
    cases hr
  | @snoc history c c' i effects r h ih =>
    rcases feed_cases h with ⟨m, -, rfl, -⟩ | ⟨s, a, -, hm⟩
    · rwa [phase_postIfHeld]
    · obtain rfl := probeConfig_of_run r
      exact fun run hr => Aims.move hc ih hm hr

theorem exists_started_of_run (r : Run feed (Controller.new config timeout) history c) :
    ∀ run, c.phase.running? = some run →
      ∃ x ∈ history, Episode.did x (.driverStarted (.ok run.machine)) := by
  induction r with
  | nil =>
    intro run hr
    cases hr
  | @snoc history c c' i effects r h ih =>
    intro run hr
    rcases feed_cases h with ⟨m, -, rfl, -⟩ | ⟨s, a, rfl, hm⟩
    · obtain ⟨x, hx, hdid⟩ := ih run (by simpa using hr)
      exact ⟨x, List.mem_append_left _ hx, hdid⟩
    · rcases running?_move hm hr with ⟨before, hb, he⟩ | ⟨reply, -, rfl⟩
      · obtain ⟨x, hx, hdid⟩ := ih before hb
        exact ⟨x, List.mem_append_left _ hx, he ▸ hdid⟩
      · exact ⟨_, List.mem_append_right _ List.mem_cons_self, s, rfl⟩

theorem names_of_check (hc : config.Reaches)
    (r : Run feed (Controller.new config timeout) history c)
    (he : .check url limit ∈ trace history) :
    ∃ x ∈ history, ∃ machine, Episode.did x (.driverStarted (.ok machine)) ∧
      url.Names machine.address config.port := by
  obtain ⟨earlier, before, s, a, after, effects, hearlier, hbefore, hmove, hmem⟩ :=
    exists_move_of_mem_trace r he
  obtain ⟨rfl, rfl, -⟩ := check_move hmove hmem rfl
  cases hmove with
  | tick p p' hp ht =>
    rw [probe?_eq] at hp
    obtain ⟨run, hr, hp⟩ := Option.bind_eq_some_iff.1 hp
    obtain ⟨x, hx, hdid⟩ := exists_started_of_run hbefore run hr
    exact ⟨x, hearlier.subset hx, run.machine, hdid,
      (aims_of_run hc hbefore run hr).names p hp⟩

end Runs

/-- An accepted configuration has every machine probed at its own address and at the configured
port exactly if its scheme is one of servers. Then no controller fails to begin probing, and its
checks ask the machine that its driver has reported and nobody else. -/
theorem accepted_config_probes_started_machine {config : FleetConfig}
    (hc : config.validate = .ok ()) :
    (config.probe.Reaches ↔ Url.isServerScheme config.probe.scheme = true) ∧
    (Url.isServerScheme config.probe.scheme = true →
      ∀ timeout history c, Run feed (Controller.new config.probe timeout) history c →
        (∀ run, c.phase.running? = some run → run.probing = true → ∃ p, run.probe = some p) ∧
        ∀ url limit, .check url limit ∈ trace history →
          ∃ x ∈ history, ∃ machine, Episode.did x (.driverStarted (.ok machine)) ∧
            url.Names machine.address config.probe.port) := by
  obtain ⟨-, -, -, hprobe, -⟩ := FleetConfig.validate_eq_ok.1 hc
  have hreaches := ProbeConfig.reaches_iff (ProbeConfig.check_eq_ok.1 hprobe).1
  refine ⟨hreaches, fun hscheme timeout history c r => ⟨fun run hr => ?_, fun url limit he => ?_⟩⟩
  · exact (aims_of_run (hreaches.2 hscheme) r run hr).probed
  · exact names_of_check (hreaches.2 hscheme) r he

example : Url.isServerScheme "http" = true := by decide

example : Url.isServerScheme "HTTPS" = true := by decide

def firstCheck : List Input :=
  let s : Surroundings := ⟨0, true, fun _ => true⟩
  [.post (.start 0), .act s .receive,
    .act s (.driverStarted (.ok ⟨"m1", .v4 (.ofBytes 10 0 0 2)⟩)), .post .registered,
    .act s .receive, .act s .tick]

theorem default_config_probes_started_machine :
    (FleetConfig.defaults "/home/fleet").validate = .ok () ∧
      ∃ history c url limit machine, Run feed (Controller.new .defaults 5) history c ∧
        .check url limit ∈ trace history ∧
        (∃ x ∈ history, Episode.did x (.driverStarted (.ok machine))) ∧
        url.Names machine.address 8080 := by
  have hvalid := FleetConfig.validate_defaults "/home/fleet"
  obtain ⟨⟨history, c⟩, hr⟩ : ∃ r, replay feed (Controller.new .defaults 5) firstCheck = some r :=
    Option.isSome_iff_exists.1 (by decide +kernel)
  have run := Run.of_replay hr
  have hchecks : (trace history).any Effect.isCheck = true :=
    history_of_replay hr (fun history => (trace history).any Effect.isCheck) (by decide +kernel)
  obtain ⟨e, he, hcheck⟩ := List.any_eq_true.1 hchecks
  cases e with
  | check url limit =>
    obtain ⟨-, hnames⟩ :=
      (accepted_config_probes_started_machine hvalid).2 (by decide) 5 history c run
    obtain ⟨x, hx, machine, hdid, hat⟩ := hnames url limit he
    exact ⟨hvalid, history, c, url, limit, machine, run, he, ⟨x, hx, hdid⟩, hat⟩
  | _ => cases hcheck

def defaultsWith (scheme : String) : FleetConfig :=
  (FleetConfig.defaults "/home/fleet").withScheme scheme

theorem validate_defaultsWith (scheme : String) : (defaultsWith scheme).validate = .ok () :=
  (FleetConfig.validate_withScheme _ scheme).trans (FleetConfig.validate_defaults _)

def probeWith? (scheme : String) : Option Probe :=
  let machine : Metadata := ⟨"m1", .v4 (.ofBytes 10 0 0 2)⟩
  (Probe.spawn ((defaultsWith scheme).probe.toSpec machine.address) machine 0).toOption

/-- Settings are accepted by which another host is probed, or none. -/
theorem accepted_config_probes_other_host :
    (defaultsWith "http://10.9.9.9/#").validate = .ok () ∧
      (probeWith? "http://10.9.9.9/#").map (·.url.host) = some (some (.v4 (.ofBytes 10 9 9 9))) ∧
      (defaultsWith "not a scheme").validate = .ok () ∧ probeWith? "not a scheme" = none :=
  ⟨validate_defaultsWith _, by decide +kernel, validate_defaultsWith _, by decide +kernel⟩

end MachineFleet.Controller
