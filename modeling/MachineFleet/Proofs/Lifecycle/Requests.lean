import MachineFleet.Proofs.Data.Lists
import MachineFleet.Proofs.Lifecycle.Journal

namespace MachineFleet

inductive Wish where
  | start
  | stop

def Wish.message (r : ReplyId) : Wish → Message
  | start => .start r
  | stop => .stop r

@[simp] theorem Wish.reply?_message (w : Wish) (r : ReplyId) : (w.message r).reply? = some r := by
  cases w <;> rfl

theorem Wish.message_inj {w w' : Wish} {r : ReplyId} (h : w.message r = w'.message r) : w = w' := by
  cases w <;> cases w' <;> first | rfl | cases h

inductive Clientele.Standing where
  | pending
  | forsaken
  | refused
  | ended (answer : Answer)

structure Clientele.Request where
  wish : Wish
  standing : Clientele.Standing

/-- A controller, and the requests that were made of it. The place of a request is its number. -/
structure Clientele where
  controller : Controller
  requests : List Clientele.Request

def Answer.ofStart : Except Error Metadata → Answer
  | .ok machine => .started machine
  | .error e => .failed e

def Controller.Effect.answer? (r : ReplyId) : Controller.Effect → Option Answer
  | .answer reply a => if reply = r then some a else none
  | _ => none

namespace Clientele.Request

def result? (q : Request) : Option (Option Answer) :=
  match q.standing with
  | .pending => none
  | .forsaken => none
  | .refused => some none
  | .ended .dropped => some none
  | .ended answer => some (some answer)

def stopResult? (q : Request) : Option (Except Error String) :=
  q.result?.map fun
    | some (.stopped id) => .ok id
    | _ => .error .controllerUnavailable

def leave (q : Request) : Request :=
  match q.standing with
  | .pending => { q with standing := .forsaken }
  | _ => q

/-- What some effects make of the request with this number: who waits hears the first answer. -/
def hear (r : ReplyId) (effects : List Controller.Effect) (q : Request) : Request :=
  match q.standing with
  | .pending =>
    match effects.findSome? (·.answer? r) with
    | some answer => { q with standing := .ended answer }
    | none => q
  | _ => q

end Clientele.Request

namespace Clientele

def new (config : ProbeConfig) (timeout : Duration) : Clientele where
  controller := .new config timeout
  requests := []

def awaits (s : Clientele) (r : ReplyId) : Bool :=
  match s.requests[r]? with
  | some ⟨_, .pending⟩ => true
  | _ => false

inductive Input where
  | ask (wish : Wish)
  | leave (r : ReplyId)
  | tell (m : Message)
  | act (now : Instant) (held : Bool) (a : Controller.Action)

def step (s : Clientele) : Input → Option (Clientele × List Controller.Effect)
  | .ask wish =>
    match s.controller.post? (wish.message s.requests.length) with
    | some controller => some (⟨controller, s.requests ++ [⟨wish, .pending⟩]⟩, [])
    | none => some ({ s with requests := s.requests ++ [⟨wish, .refused⟩] }, [])
  | .leave r => some ({ s with requests := s.requests.modify r (·.leave) }, [])
  | .tell m =>
    if m.reply?.isSome then none
    else (s.controller.post? m).map fun controller => ({ s with controller }, [])
  | .act now held a =>
    (s.controller.step ⟨now, held, s.awaits⟩ a).map fun (controller, effects) =>
      (⟨controller, s.requests.mapIdx fun r q => q.hear r effects⟩, effects)

/-- What a controller has done to its machine so far, and what came of it. -/
def journal (history : List (Happening Clientele Input Controller.Effect)) :
    List Controller.Entry :=
  history.flatMap fun x =>
    match x.input with
    | .act _ _ a => Controller.entriesOf a x.effects
    | _ => []

end Clientele

theorem Controller.Effect.answer?_eq_some {e : Controller.Effect} {r : ReplyId} {answer : Answer} :
    e.answer? r = some answer ↔ e = .answer r answer := by
  cases e <;> simp [answer?]

namespace Clientele.Request

variable {q : Request} {r : ReplyId} {effects : List Controller.Effect} {answer : Answer}

theorem result?_eq_some_some : q.result? = some (some answer) ↔
    q.standing = .ended answer ∧ answer ≠ .dropped := by
  unfold result?
  cases q.standing with
  | ended a => cases a <;> grind
  | _ => simp

@[simp] theorem wish_leave (q : Request) : q.leave.wish = q.wish := by
  unfold leave
  split <;> rfl

@[simp] theorem wish_hear : (q.hear r effects).wish = q.wish := by
  unfold hear
  split
  · split <;> rfl
  · rfl

end Clientele.Request

namespace Controller

/-- The steps at which a request gets what it is about: a start once the driver has tried, a stop
once the machine is cleaned up. -/
inductive Grants (c : Controller) : Action → Wish → ReplyId → Answer → Prop where
  | start (r : ReplyId) (result : Except Error Metadata) (hp : c.phase = .starting r) :
      Grants c (.driverStarted result) .start r (.ofStart result)
  | stop (t : Teardown) (r : ReplyId) (failure : Option Error) (hp : c.phase = .releasing t)
      (hr : t.reply = some r) :
      Grants c (.networkReleased failure none) .stop r (.stopped t.id)
  | stopIsolated (t : Teardown) (r : ReplyId) (failure : Option Error) (hp : c.phase = .removing t)
      (hr : t.reply = some r) :
      Grants c (.rootRemoved failure) .stop r (.stopped t.id)

/-- What is known once a request was granted. -/
def Granted (phase : Phase) (j : List Entry) : Wish → Answer → Prop
  | .start, answer => phase.HasBegun ∧ ∃ result, answer = .ofStart result ∧
      j.filter (·.isStart) = [.begun (.call .start), .ended (.driverStarted result)]
  | .stop, answer => phase = .terminated ∧ ∃ machine down up, answer = .stopped machine.id ∧
      j = launched machine ++ down ++ up ∧ BroughtDown down ∧ CleanedUp machine.id up

variable {s : Surroundings} {c c' : Controller} {a : Action} {effects : List Effect}
  {w : Wish} {r r' : ReplyId} {answer answer' : Answer} {j : List Entry}

theorem grants_of_answer (h : Move s c a c' effects) (ha : .answer r answer ∈ effects)
    (hd : answer ≠ .dropped) : ∃ w, Grants c a w r answer := by
  have hdropped {m : Message} (ha : .answer r answer ∈ dropReply m) : answer = .dropped := by
    unfold dropReply at ha
    split at ha
    · cases List.mem_singleton.1 ha
      rfl
    · cases ha
  cases h with
  | skip => exact absurd (hdropped ha) hd
  | giveUp => exact absurd (mem_terminate_answers.1 ha).1 hd
  | refuseStart =>
    cases List.mem_singleton.1 ha
    exact absurd rfl hd
  | startFailed reply e hp =>
    rcases List.mem_cons.1 ha with ha | ha
    · cases ha
      exact ⟨.start, .start r (.error e) hp⟩
    · exact absurd (mem_terminate_answers.1 ha).1 hd
  | startTaken reply machine hp =>
    cases List.mem_singleton.1 ha
    exact ⟨.start, .start r (.ok machine) hp⟩
  | released t failure hp =>
    rcases mem_finish_answers.1 ((List.mem_cons.1 ha).resolve_left (by simp)) with
      ⟨hr, rfl⟩ | ⟨rfl, -⟩
    · exact ⟨.stop, .stop t r failure hp hr⟩
    · exact absurd rfl hd
  | rootRemoved t failure hp =>
    rcases mem_finish_answers.1 ha with ⟨hr, rfl⟩ | ⟨rfl, -⟩
    · exact ⟨.stop, .stopIsolated t r failure hp hr⟩
    · exact absurd rfl hd
  | _ => simp at ha

theorem Grants.owes (hg : Grants c a w r answer) : c.Owes (w.message r) := by
  refine .inr ?_
  cases hg with
  | start r result hp =>
    rw [hp]
    rfl
  | stop t r failure hp hr | stopIsolated t r failure hp hr =>
    rw [hp]
    exact congrArg (Option.map Message.stop) hr

theorem Grants.unique (hg : Grants c a w r answer) (hg' : Grants c a w r' answer') : r = r' := by
  cases hg with
  | start r result hp =>
    cases hg' with
    | start r' result' hp' =>
      cases hp.symm.trans hp'
      rfl
  | stop t r failure hp hr =>
    cases hg' with
    | stop t' r' failure' hp' hr' =>
      cases hp.symm.trans hp'
      exact Option.some.inj (hr.symm.trans hr')
  | stopIsolated t r failure hp hr =>
    cases hg' with
    | stopIsolated t' r' failure' hp' hr' =>
      cases hp.symm.trans hp'
      exact Option.some.inj (hr.symm.trans hr')

theorem Grants.not_granted (hg : Grants c a w r answer) : ¬ Granted c.phase j w answer' := by
  cases hg with
  | start r result hp =>
    rintro ⟨hb, -⟩
    exact hb.ne_starting r hp
  | stop t r failure hp | stopIsolated t r failure hp =>
    rintro ⟨hq, -⟩
    cases hp.symm.trans hq

theorem Grants.granted (hg : Grants c a w r answer) (h : Move s c a c' effects)
    (hk : Keeps c.phase j) : Granted c'.phase (j ++ entriesOf a effects) w answer := by
  cases hg with
  | start r result hp =>
    rw [hp] at hk
    cases hk
    cases h with
    | startFailed reply e hq =>
      refine ⟨by simp [Phase.HasBegun, Phase.rank], .error e, rfl, ?_⟩
      simp [entriesOf, Action.isEnd, Entry.isStart]
    | startTaken reply machine hq =>
      exact ⟨by simp [Phase.HasBegun, Phase.rank], .ok machine, rfl, rfl⟩
    | startUnwanted reply machine hq =>
      exact ⟨by simp [Phase.HasBegun, Phase.rank], .ok machine, rfl, rfl⟩
  -- Somebody waits for the stop, so the machine has not just exited.
  | stop t r failure hp hr =>
    rw [hp] at hk
    cases hk with
    | releasing machine reply down hd =>
      obtain rfl : reply = some r := hr
      cases h with
      | released t failure hq =>
        refine ⟨rfl, machine, down, _, rfl, ?_, hd.broughtDown, .bare failure⟩
        simp [entriesOf, Action.isEnd]
  | stopIsolated t r failure hp hr =>
    rw [hp] at hk
    cases hk with
    | removing machine reply down hd failure' root =>
      obtain rfl : reply = some r := hr
      cases h with
      | rootRemoved t failure hq =>
        refine ⟨rfl, machine, down, _, rfl, ?_, hd.broughtDown, .isolated failure' root failure⟩
        simp [entriesOf, Action.isEnd]

theorem Granted.move (hg : Granted c.phase j w answer) (h : Move s c a c' effects) :
    Granted c'.phase (j ++ entriesOf a effects) w answer := by
  cases w with
  | start =>
    obtain ⟨hb, result, rfl, hj⟩ := hg
    refine ⟨Nat.le_trans hb (rank_move h), result, rfl, ?_⟩
    rw [List.filter_append, hj, filter_entriesOf_of_begun h hb, List.append_nil]
  | stop =>
    obtain ⟨hp, hg⟩ := hg
    rw [entriesOf_eq_nil_of_terminated h hp, List.append_nil]
    exact ⟨terminated_move h hp, hg⟩

end Controller

namespace Clientele

open Controller

/-- How the requests of some callers, their controller and the past go together. -/
structure Accounted (history : List (Happening Clientele Input Effect)) (s : Clientele) : Prop where
  keeps : Keeps s.controller.phase (journal history)
  shut : s.controller.IsShut
  owed (r : ReplyId) (w : Wish) : s.requests[r]? = some ⟨w, .pending⟩ →
    s.controller.Owes (w.message r)
  known (m : Message) (r : ReplyId) : m.reply? = some r → s.controller.Owes m →
    ∃ q, s.requests[r]? = some q ∧ q.wish.message r = m
  granted (r : ReplyId) (w : Wish) (answer : Answer) :
    s.requests[r]? = some ⟨w, .ended answer⟩ → answer ≠ .dropped →
    Granted s.controller.phase (journal history) w answer
  once (r r' : ReplyId) (w : Wish) (answer answer' : Answer) :
    s.requests[r]? = some ⟨w, .ended answer⟩ → s.requests[r']? = some ⟨w, .ended answer'⟩ →
    answer ≠ .dropped → answer' ≠ .dropped → r = r'

variable {config : ProbeConfig} {timeout : Duration} {s s' : Clientele} {i : Input}
  {effects : List Effect} {history : List (Happening Clientele Input Effect)}

theorem journal_snoc (x : Happening Clientele Input Effect) :
    journal (history ++ [x]) = journal history ++ journal [x] := by
  simp [journal]

theorem accounted_new : Accounted [] (new config timeout) where
  keeps := .stopped
  shut := nofun
  owed r w h := by simp [new] at h
  known m r _ ho := by simp [Owes, new, Controller.new, Phase.served?] at ho
  granted r w answer h := by simp [new] at h
  once r r' w answer answer' h := by simp [new] at h

theorem Accounted.of_calm (h : Accounted history s) {x : Happening Clientele Input Effect}
    (hx : journal [x] = []) (hp : s'.controller.phase = s.controller.phase)
    (hs : s'.controller.IsShut)
    (hended : ∀ (r : ReplyId) (w : Wish) (answer : Answer),
      s'.requests[r]? = some ⟨w, .ended answer⟩ → s.requests[r]? = some ⟨w, .ended answer⟩)
    (howed : ∀ (r : ReplyId) (w : Wish), s'.requests[r]? = some ⟨w, .pending⟩ →
      s'.controller.Owes (w.message r))
    (hknown : ∀ (m : Message) (r : ReplyId), m.reply? = some r → s'.controller.Owes m →
      ∃ q, s'.requests[r]? = some q ∧ q.wish.message r = m) :
    Accounted (history ++ [x]) s' := by
  have hj : journal (history ++ [x]) = journal history := by
    rw [journal_snoc, hx, List.append_nil]
  refine ⟨?_, hs, howed, hknown, ?_, ?_⟩
  · rw [hj, hp]
    exact h.keeps
  · intro r w answer hr hd
    rw [hj, hp]
    exact h.granted r w answer (hended r w answer hr) hd
  · intro r r' w answer answer' hr hr' hd hd'
    exact h.once r r' w answer answer' (hended _ _ _ hr) (hended _ _ _ hr') hd hd'

theorem post?_eq {c c' : Controller} {m : Message} (h : c.post? m = some c') :
    c' = c.postIfHeld true m ∧ c.isOpen = true := by
  have hopen : c.isOpen = true := by
    unfold post? at h
    split at h
    · assumption
    · cases h
  exact ⟨by simp [postIfHeld, h], hopen⟩

theorem isShut_post {c : Controller} {m : Message} (h : c.isOpen = true) (hs : c.IsShut) :
    (c.postIfHeld true m).IsShut := by
  intro hp
  rw [phase_postIfHeld] at hp
  exact absurd h (by simp [(hs hp).1])

theorem Accounted.ask (h : Accounted history s) {wish : Wish}
    (hs : step s (.ask wish) = some (s', effects)) :
    Accounted (history ++ [⟨s, .ask wish, effects⟩]) s' := by
  simp only [step] at hs
  split at hs
  · rename_i c' hc
    cases hs
    obtain ⟨rfl, hopen⟩ := post?_eq hc
    refine h.of_calm rfl (by simp) (isShut_post hopen h.shut) ?_ ?_ ?_
    · intro r w answer hr
      rcases getElem?_concat_eq_some.1 hr with hr | ⟨-, hq⟩
      · exact hr
      · cases hq
    · intro r w hr
      rcases getElem?_concat_eq_some.1 hr with hr | ⟨rfl, hq⟩
      · exact owes_postIfHeld (h.owed r w hr)
      · cases hq
        exact .inl (by simp [postIfHeld, post?, hopen])
    · intro m r hr ho
      rcases owes_of_postIfHeld ho with ho | rfl
      · obtain ⟨q, hq, hm⟩ := h.known m r hr ho
        exact ⟨q, getElem?_concat_eq_some.2 (.inl hq), hm⟩
      · rw [Wish.reply?_message] at hr
        cases hr
        exact ⟨_, getElem?_concat_eq_some.2 (.inr ⟨rfl, rfl⟩), rfl⟩
  · cases hs
    refine h.of_calm rfl rfl h.shut ?_ ?_ ?_
    · intro r w answer hr
      rcases getElem?_concat_eq_some.1 hr with hr | ⟨-, hq⟩
      · exact hr
      · cases hq
    · intro r w hr
      rcases getElem?_concat_eq_some.1 hr with hr | ⟨-, hq⟩
      · exact h.owed r w hr
      · cases hq
    · intro m r hr ho
      obtain ⟨q, hq, hm⟩ := h.known m r hr ho
      exact ⟨q, getElem?_concat_eq_some.2 (.inl hq), hm⟩

theorem Accounted.leave (h : Accounted history s) (r : ReplyId) :
    Accounted (history ++ [⟨s, .leave r, effects⟩])
      { s with requests := s.requests.modify r (·.leave) } := by
  -- A request whose caller has gone away is neither pending nor ended.
  have hback {r' : ReplyId} {w : Wish} {standing : Standing}
      (hq : (s.requests.modify r (·.leave))[r']? = some ⟨w, standing⟩) (hs : standing ≠ .forsaken) :
      s.requests[r']? = some ⟨w, standing⟩ := by
    rw [List.getElem?_modify] at hq
    obtain ⟨q, hq, hl⟩ := Option.map_eq_some_iff.1 hq
    split at hl
    · unfold Request.leave at hl
      split at hl
      · cases hl
        exact absurd rfl hs
      · rw [hq, hl]
    · rw [hq, hl]
  refine h.of_calm rfl rfl h.shut ?_ ?_ ?_
  · intro r' w answer hq
    exact hback hq (by simp)
  · intro r' w hq
    exact h.owed r' w (hback hq (by simp))
  · intro m r' hr ho
    obtain ⟨q, hq, hm⟩ := h.known m r' hr ho
    refine ⟨if r = r' then q.leave else q, ?_, ?_⟩
    · rw [List.getElem?_modify, hq]
      rfl
    · split
      · rw [Request.wish_leave, hm]
      · exact hm

theorem Accounted.tell (h : Accounted history s) {m : Message} (hm : m.reply? = none)
    {c' : Controller} (hc : s.controller.post? m = some c') :
    Accounted (history ++ [⟨s, .tell m, effects⟩]) { s with controller := c' } := by
  obtain ⟨rfl, hopen⟩ := post?_eq hc
  refine h.of_calm rfl (by simp) (isShut_post hopen h.shut) (fun _ _ _ hr => hr) ?_ ?_
  · intro r w hr
    exact owes_postIfHeld (h.owed r w hr)
  · intro m' r hr ho
    rcases owes_of_postIfHeld ho with ho | rfl
    · exact h.known m' r hr ho
    · cases hr.symm.trans hm

theorem heard_cases {r : ReplyId} {w : Wish} {standing : Standing}
    (h : (s.requests.mapIdx fun r q => q.hear r effects)[r]? = some ⟨w, standing⟩) :
    (s.requests[r]? = some ⟨w, standing⟩ ∧
      (standing = .pending → ∀ answer, .answer r answer ∉ effects)) ∨
    ∃ answer, s.requests[r]? = some ⟨w, .pending⟩ ∧ .answer r answer ∈ effects ∧
      standing = .ended answer := by
  rw [List.getElem?_mapIdx] at h
  obtain ⟨q, hq, hheard⟩ := Option.map_eq_some_iff.1 h
  unfold Request.hear at hheard
  split at hheard
  · rename_i hp
    split at hheard
    · rename_i answer hanswer
      cases hheard
      obtain ⟨e, he, hr⟩ := List.exists_of_findSome?_eq_some hanswer
      rw [Effect.answer?_eq_some] at hr
      subst hr
      refine .inr ⟨answer, ?_, he, rfl⟩
      rw [hq, ← hp]
    · rename_i hnone
      subst hheard
      refine .inl ⟨hq, fun _ answer ha => ?_⟩
      have hother := List.findSome?_eq_none_iff.1 hnone _ ha
      rw [Effect.answer?_eq_some.2 rfl] at hother
      cases hother
  · rename_i hp
    subst hheard
    exact .inl ⟨hq, fun hs => absurd hs hp⟩

theorem awaits_of_pending {r : ReplyId} {w : Wish} (h : s.requests[r]? = some ⟨w, .pending⟩) :
    s.awaits r = true := by
  unfold awaits
  rw [h]

theorem Accounted.act (h : Accounted history s) {now : Instant} {held : Bool} {a : Action}
    {c' : Controller} (hm : Move ⟨now, held, s.awaits⟩ s.controller a c' effects) :
    Accounted (history ++ [⟨s, .act now held a, effects⟩])
      ⟨c', s.requests.mapIdx fun r q => q.hear r effects⟩ := by
  have hj : journal (history ++ [⟨s, .act now held a, effects⟩]) =
      journal history ++ entriesOf a effects := by
    simp [journal]
  -- Whose request is answered was known to the controller by just that wish.
  have hgrants {r : ReplyId} {w : Wish} {answer : Answer}
      (hq : s.requests[r]? = some ⟨w, .pending⟩) (ha : .answer r answer ∈ effects)
      (hd : answer ≠ .dropped) : Grants s.controller a w r answer := by
    obtain ⟨w', hg⟩ := grants_of_answer hm ha hd
    obtain ⟨q, hq', hmessage⟩ := h.known _ r (Wish.reply?_message w' r) hg.owes
    cases hq.symm.trans hq'
    obtain rfl := Wish.message_inj hmessage
    exact hg
  refine ⟨?_, isShut_move hm h.shut, ?_, ?_, ?_, ?_⟩
  · rw [hj]
    exact keeps_move hm h.keeps
  · intro r w hr
    rcases heard_cases hr with ⟨hq, hnone⟩ | ⟨answer, -, -, hended⟩
    · rcases owes_stays hm (Wish.reply?_message w r) (h.owed r w hq) with ho | ⟨answer, ha⟩ | hgone
      · exact ho
      · exact absurd ha (hnone rfl answer)
      · cases (awaits_of_pending hq).symm.trans hgone
    · cases hended
  · intro m r hr ho
    obtain ⟨q, hq, hmessage⟩ := h.known m r hr (owes_move hm hr ho)
    refine ⟨q.hear r effects, ?_, by rw [Request.wish_hear, hmessage]⟩
    show (s.requests.mapIdx fun r q => q.hear r effects)[r]? = some (q.hear r effects)
    rw [List.getElem?_mapIdx, hq]
    rfl
  · intro r w answer hr hd
    rw [hj]
    rcases heard_cases hr with ⟨hq, -⟩ | ⟨answer', hq, ha, hended⟩
    · exact (h.granted r w answer hq hd).move hm
    · cases hended
      exact (hgrants hq ha hd).granted hm h.keeps
  · intro r r' w answer answer' hr hr' hd hd'
    rcases heard_cases hr with ⟨hq, -⟩ | ⟨first, hq, ha, hended⟩ <;>
      rcases heard_cases hr' with ⟨hq', -⟩ | ⟨second, hq', ha', hended'⟩
    · exact h.once r r' w answer answer' hq hq' hd hd'
    · cases hended'
      exact absurd (h.granted r w answer hq hd) (hgrants hq' ha' hd').not_granted
    · cases hended
      exact absurd (h.granted r' w answer' hq' hd') (hgrants hq ha hd).not_granted
    · cases hended
      cases hended'
      exact (hgrants hq ha hd).unique (hgrants hq' ha' hd')

theorem accounted_of_run (run : Run step (new config timeout) history s) :
    Accounted history s := by
  induction run with
  | nil => exact accounted_new
  | @snoc history s s' i effects run hs ih =>
    cases i with
    | ask wish => exact ih.ask hs
    | leave r =>
      cases hs
      exact ih.leave r
    | tell m =>
      simp only [step] at hs
      split at hs
      · cases hs
      · rename_i hm
        obtain ⟨c', hc, he⟩ := Option.map_eq_some_iff.1 hs
        cases he
        exact ih.tell (by simpa using hm) hc
    | act now held a =>
      simp only [step, Option.map_eq_some_iff, Prod.exists] at hs
      obtain ⟨c', effects', hc, he⟩ := hs
      cases he
      exact ih.act (move_of_step hc)

theorem Accounted.granted_of_result (h : Accounted history s) {r : ReplyId} {q : Request}
    {answer : Answer} (hq : s.requests[r]? = some q) (hr : q.result? = some (some answer)) :
    Granted s.controller.phase (journal history) q.wish answer := by
  obtain ⟨hs, hd⟩ := Request.result?_eq_some_some.1 hr
  refine h.granted r q.wish answer ?_ hd
  rw [hq, ← hs]

theorem Accounted.not_pending (h : Accounted history s) (hp : s.controller.phase = .terminated)
    {r : ReplyId} {w : Wish} : s.requests[r]? ≠ some ⟨w, .pending⟩ := by
  intro hq
  rcases h.owed r w hq with ho | ho
  · rw [(h.shut hp).2] at ho
    cases ho
  · rw [hp] at ho
    cases ho

/-- However many callers ask for starts and stops, whenever they do and whenever they go away: at
most one start is answered, with what came of the only start that the driver was called for. At most
one stop is answered, with the identity of the machine that was started, once that machine was shut
down, or killed where that failed, and cleaned up; all other stops fail. When the controller has
ended nobody waits any more, whether the request was made before that or after. -/
theorem requests_are_settled (run : Run step (new config timeout) history s) :
    (∀ (r : ReplyId) (q : Request) (answer : Answer), s.requests[r]? = some q → q.wish = .start →
      q.result? = some (some answer) → ∃ result, answer = .ofStart result ∧
        (journal history).filter (·.isStart) =
          [.begun (.call .start), .ended (.driverStarted result)]) ∧
    (∀ (r : ReplyId) (q : Request) (value : Option Answer), s.requests[r]? = some q →
      q.wish = .stop → q.result? = some value →
      value = none ∧ q.stopResult? = some (.error .controllerUnavailable) ∨
        s.controller.phase = .terminated ∧ ∃ machine down up,
          value = some (.stopped machine.id) ∧ q.stopResult? = some (.ok machine.id) ∧
          journal history = launched machine ++ down ++ up ∧ BroughtDown down ∧
          CleanedUp machine.id up) ∧
    (∀ (r r' : ReplyId) (q q' : Request) (answer answer' : Answer), s.requests[r]? = some q →
      s.requests[r']? = some q' → q.wish = q'.wish → q.result? = some (some answer) →
      q'.result? = some (some answer') → r = r') ∧
    (s.controller.phase = .terminated → ∀ (r : ReplyId) (q : Request), s.requests[r]? = some q →
      q.standing = .forsaken ∨ q.result?.isSome = true) := by
  have h := accounted_of_run run
  refine ⟨?_, ?_, ?_, ?_⟩
  · intro r q answer hq hw hr
    have hg := h.granted_of_result hq hr
    rw [hw] at hg
    exact hg.2
  · intro r q value hq hw hr
    cases value with
    | none => exact .inl ⟨rfl, by rw [Request.stopResult?, hr]; rfl⟩
    | some answer =>
      have hg := h.granted_of_result hq hr
      rw [hw] at hg
      obtain ⟨hp, machine, down, up, rfl, hj, hdown, hup⟩ := hg
      have hstop : q.stopResult? = some (.ok machine.id) := by
        rw [Request.stopResult?, hr]
        rfl
      exact .inr ⟨hp, machine, down, up, rfl, hstop, hj, hdown, hup⟩
  · intro r r' q q' answer answer' hq hq' hw hr hr'
    obtain ⟨hs, hd⟩ := Request.result?_eq_some_some.1 hr
    obtain ⟨hs', hd'⟩ := Request.result?_eq_some_some.1 hr'
    refine h.once r r' q.wish answer answer' ?_ ?_ hd hd'
    · rw [hq, ← hs]
    · rw [hq', hw, ← hs']
  · intro hp r q hq
    obtain ⟨w, standing⟩ := q
    cases standing with
    | pending => exact absurd hq (h.not_pending hp)
    | forsaken => exact .inl rfl
    | refused => exact .inr rfl
    | ended answer => cases answer <;> exact .inr rfl

/-- A machine that has to be killed, and more callers than it has answers for. -/
def contendedMachine : List Input :=
  let fault : Option Error := some (.custom "refused" [])
  [.ask .start, .ask .start, .ask .stop, .act 0 true .receive, .ask .stop,
    .act 0 true (.driverStarted (.ok ⟨"m1", .v4 (.ofBytes 10 0 0 2)⟩)), .act 1 true .receive,
    .ask .stop, .act 1 true .receive, .leave 3, .act 2 true (.driverShutDown fault),
    .act 3 true (.driverKilled none), .act 3 true (.networkReleased none (some "/srv/m1")),
    .act 4 true (.rootRemoved none), .ask .stop, .ask .start]

theorem contended_machine_settles_requests :
    ∃ history s, Run step (new .defaults 5) history s ∧ s.controller.phase = .terminated ∧
      s.requests.map (·.result?) = [some (some (.started ⟨"m1", .v4 (.ofBytes 10 0 0 2)⟩)),
        some none, some (some (.stopped "m1")), none, some none, some none, some none] ∧
      (journal history).filter (·.isStart) = [.begun (.call .start),
        .ended (.driverStarted (.ok ⟨"m1", .v4 (.ofBytes 10 0 0 2)⟩))] ∧
      ∃ machine down up, machine.id = "m1" ∧ BroughtDown down ∧ CleanedUp "m1" up ∧
        journal history = launched machine ++ down ++ up := by
  obtain ⟨⟨history, s⟩, hr⟩ :
      ∃ r, replay step (new .defaults 5) contendedMachine = some r := ⟨_, rfl⟩
  have run := Run.of_replay hr
  have hp : s.controller.phase = .terminated := last_of_replay hr (·.controller.phase) rfl
  have hresults : s.requests.map (·.result?) =
      [some (some (.started ⟨"m1", .v4 (.ofBytes 10 0 0 2)⟩)), some none,
        some (some (.stopped "m1")), none, some none, some none, some none] :=
    last_of_replay hr (fun s => s.requests.map (·.result?)) rfl
  have hfirst : s.requests[0]? =
      some ⟨.start, .ended (.started ⟨"m1", .v4 (.ofBytes 10 0 0 2)⟩)⟩ :=
    last_of_replay hr (fun s => s.requests[0]?) rfl
  have hthird : s.requests[2]? = some ⟨.stop, .ended (.stopped "m1")⟩ :=
    last_of_replay hr (fun s => s.requests[2]?) rfl
  obtain ⟨hstarts, hstops, -, -⟩ := requests_are_settled run
  obtain ⟨result, hanswer, hjournal⟩ := hstarts 0 _ _ hfirst rfl rfl
  obtain ⟨hnone, -⟩ | ⟨-, machine, down, up, hid, -, hj, hdown, hup⟩ := hstops 2 _ _ hthird rfl rfl
  · cases hnone
  · cases result with
    | error e => cases hanswer
    | ok started =>
      cases hanswer
      have hmachine : "m1" = machine.id := Answer.stopped.inj (Option.some.inj hid)
      refine ⟨history, s, run, hp, hresults, hjournal, machine, down, up, hmachine.symm, hdown, ?_,
        hj⟩
      rw [hmachine]
      exact hup

end Clientele

end MachineFleet
