import MachineFleet.Proofs.Lifecycle.Step
import MachineFleet.Proofs.Probe

namespace MachineFleet.Controller

def Phase.served? : Phase → Option Message
  | starting reply => some (.start reply)
  | shuttingDown t _ => t.reply.map .stop
  | killing t => t.reply.map .stop
  | releasing t => t.reply.map .stop
  | removing t => t.reply.map .stop
  | _ => none

def Owes (c : Controller) (m : Message) : Prop := m ∈ c.mailbox ∨ c.phase.served? = some m

/-- The controller was asked to start a machine, and nothing else has happened to it. -/
def Fresh (c : Controller) (r : ReplyId) : Prop :=
  c.isOpen = true ∧ c.watching = false ∧
    (c.phase = .stopped ∧ c.mailbox = [.start r] ∨ c.phase = .starting r ∧ c.mailbox = [])

/-- The controller has started a machine, of which the fleet does not know yet. It may have exited
since. -/
def Offers (c : Controller) (machine : Metadata) : Prop :=
  c.isOpen = true → c.phase = .started ⟨machine, none, false⟩ ∧
    ∀ m ∈ c.mailbox, ∃ failure, m = .runFinished failure

section Answers

variable {s : Surroundings} {c c' : Controller} {a : Action} {effects : List Effect} {m : Message}
  {r : ReplyId}

theorem mailbox_setProbe (c : Controller) (p : Probe) : (c.setProbe p).mailbox = c.mailbox := by
  unfold setProbe
  split <;> rfl

theorem isOpen_setProbe (c : Controller) (p : Probe) : (c.setProbe p).isOpen = c.isOpen := by
  unfold setProbe
  split <;> rfl

theorem served?_setProbe (c : Controller) (p : Probe) :
    (c.setProbe p).phase.served? = c.phase.served? := by
  rcases phase_setProbe c p with h | ⟨run, h, h'⟩ | ⟨run, h, h'⟩
  · rw [h]
  · rw [h, h']
    rfl
  · rw [h, h']
    rfl

theorem mem_postIfHeld_mailbox {held : Bool} {m' : Message}
    (h : m ∈ (c.postIfHeld held m').mailbox) : m ∈ c.mailbox ∨ m = m' := by
  unfold postIfHeld post? at h
  split at h
  · split at h
    · simpa using h
    · exact .inl h
  · exact .inl h

theorem mem_postIfHeld_of_mem {held : Bool} {m' : Message} (hm : m ∈ c.mailbox) :
    m ∈ (c.postIfHeld held m').mailbox := by
  unfold postIfHeld post?
  split
  · split
    · exact List.mem_append_left _ hm
    · exact hm
  · exact hm

theorem owes_postIfHeld {held : Bool} {m' : Message} (ho : c.Owes m) :
    (c.postIfHeld held m').Owes m := by
  rcases ho with ho | ho
  · exact .inl (mem_postIfHeld_of_mem ho)
  · exact .inr (by simpa using ho)

theorem owes_of_postIfHeld {held : Bool} {m' : Message} (ho : (c.postIfHeld held m').Owes m) :
    c.Owes m ∨ m = m' := by
  rcases ho with ho | ho
  · exact (mem_postIfHeld_mailbox ho).imp_left .inl
  · exact .inl (.inr (by simpa using ho))

theorem owes_move (h : Move s c a c' effects) (hr : m.reply? = some r) (ho : c'.Owes m) :
    c.Owes m := by
  have hset {p : Probe} (ho : (c.setProbe p).Owes m) : c.Owes m := by
    unfold Owes at ho
    rwa [mailbox_setProbe, served?_setProbe] at ho
  cases h with
  | exited failure =>
    have hne : m ≠ .runFinished failure := by
      rintro rfl
      cases hr
    exact (owes_of_postIfHeld (c := { c with watching := false }) ho).resolve_right hne
  | tick => exact hset ho
  | checkEnded => exact hset ho
  | judged p p' report hp hj =>
    cases report with
    | none => exact hset ho
    | some m' =>
      obtain ⟨change, rfl⟩ := Probe.exists_change hj
      refine hset ((owes_of_postIfHeld ho).resolve_right ?_)
      rintro rfl
      simp at hr
  | _ => grind [Owes, Phase.served?, terminate, finish]

theorem mem_terminate_answers {answer : Answer} :
    .answer r answer ∈ c.terminate.2 ↔
      answer = .dropped ∧ ∃ m ∈ c.mailbox, m.reply? = some r := by
  simp only [terminate, List.mem_flatMap, dropReply]
  constructor
  · rintro ⟨m, hm, ha⟩
    split at ha
    · rename_i reply hr
      cases List.mem_singleton.1 ha
      exact ⟨rfl, m, hm, hr⟩
    · cases ha
  · rintro ⟨rfl, m, hm, hr⟩
    exact ⟨m, hm, by simp [hr]⟩

theorem mem_finish_answers {t : Teardown} {answer : Answer} :
    .answer r answer ∈ (c.finish t).2 ↔
      (t.reply = some r ∧ answer = .stopped t.id) ∨
        answer = .dropped ∧ ∃ m ∈ c.mailbox, m.reply? = some r := by
  have hsplit : .answer r answer ∈ (c.finish t).2 ↔
      (t.reply = some r ∧ answer = .stopped t.id) ∨ .answer r answer ∈ c.terminate.2 := by
    unfold finish
    cases t.reply with
    | none => simp
    | some reply => simp [eq_comm]
  rw [hsplit, mem_terminate_answers]

theorem owes_of_answer {answer : Answer} (h : Move s c a c' effects)
    (ha : .answer r answer ∈ effects) : ∃ m, m.reply? = some r ∧ c.Owes m := by
  have hleft (hm : ∃ m ∈ c.mailbox, m.reply? = some r) : ∃ m, m.reply? = some r ∧ c.Owes m := by
    obtain ⟨m, hm, hr⟩ := hm
    exact ⟨m, hr, .inl hm⟩
  have hfinish {t : Teardown} (hp : c.phase.served? = t.reply.map .stop)
      (ha : .answer r answer ∈ (c.finish t).2) : ∃ m, m.reply? = some r ∧ c.Owes m := by
    rcases mem_finish_answers.1 ha with ⟨hr, -⟩ | ⟨-, hm⟩
    · exact ⟨.stop r, rfl, .inr (by rw [hp, hr]; rfl)⟩
    · exact hleft hm
  cases h with
  | skip m rest hp hm =>
    refine hleft ⟨m, by simp [hm], ?_⟩
    unfold dropReply at ha
    split at ha
    · rename_i reply hr
      cases List.mem_singleton.1 ha
      exact hr
    · cases ha
  | giveUp => exact hleft (mem_terminate_answers.1 ha).2
  | refuseStart run reply rest hp hm =>
    cases List.mem_singleton.1 ha
    exact hleft ⟨.start r, by simp [hm], rfl⟩
  | startFailed reply e hp =>
    rcases List.mem_cons.1 ha with ha | ha
    · cases ha
      exact ⟨.start r, rfl, .inr (by rw [hp]; rfl)⟩
    · exact hleft (mem_terminate_answers.1 ha).2
  | startTaken reply machine hp =>
    cases List.mem_singleton.1 ha
    exact ⟨.start r, rfl, .inr (by rw [hp]; rfl)⟩
  | released t failure hp =>
    exact hfinish (by rw [hp]; rfl) ((List.mem_cons.1 ha).resolve_left (by simp))
  | rootRemoved t failure hp => exact hfinish (by rw [hp]; rfl) ha
  | _ => simp at ha

/-- A request stays owed an answer until it gets one, or nobody waits for it any more. -/
theorem owes_stays (h : Move s c a c' effects) (hr : m.reply? = some r) (ho : c.Owes m) :
    c'.Owes m ∨ (∃ answer, .answer r answer ∈ effects) ∨ s.awaits r = false := by
  have hset (p : Probe) : (c.setProbe p).Owes m := by
    unfold Owes
    rwa [mailbox_setProbe, served?_setProbe]
  have hleft (hm : m ∈ c.mailbox) : ∃ answer, .answer r answer ∈ c.terminate.2 :=
    ⟨.dropped, mem_terminate_answers.2 ⟨rfl, m, hm, hr⟩⟩
  have hfinish {t : Teardown} (hp : c.phase.served? = t.reply.map .stop) :
      ∃ answer, .answer r answer ∈ (c.finish t).2 := by
    rcases ho with ho | ho
    · exact ⟨.dropped, mem_finish_answers.2 (.inr ⟨rfl, m, ho, hr⟩)⟩
    · rw [hp] at ho
      obtain ⟨reply, hreply, rfl⟩ := Option.map_eq_some_iff.1 ho
      cases hr
      exact ⟨.stopped t.id, mem_finish_answers.2 (.inl ⟨hreply, rfl⟩)⟩
  cases h with
  | skip head rest hp hm =>
    rcases ho with ho | ho
    · rw [hm] at ho
      rcases List.mem_cons.1 ho with rfl | ho
      · exact .inr (.inl ⟨.dropped, by simp [dropReply, hr]⟩)
      · exact .inl (.inl ho)
    · rw [hp] at ho
      cases ho
  | startFailed reply e hp =>
    refine .inr (.inl ?_)
    rcases ho with ho | ho
    · obtain ⟨answer, ha⟩ := hleft ho
      exact ⟨answer, List.mem_cons_of_mem _ ha⟩
    · rw [hp] at ho
      cases ho
      cases hr
      exact ⟨.failed e, List.mem_cons_self⟩
  | startTaken reply machine hp =>
    rcases ho with ho | ho
    · exact .inl (.inl ho)
    · rw [hp] at ho
      cases ho
      cases hr
      exact .inr (.inl ⟨.started machine, List.mem_cons_self⟩)
  -- The only request that goes away without an answer: nobody waits for the machine that started.
  | startUnwanted reply machine hp ha =>
    rcases ho with ho | ho
    · exact .inl (.inl ho)
    · rw [hp] at ho
      cases ho
      cases hr
      exact .inr (.inr ha)
  | released t failure hp =>
    obtain ⟨answer, ha⟩ := hfinish (t := t) (by rw [hp]; rfl)
    exact .inr (.inl ⟨answer, List.mem_cons_of_mem _ ha⟩)
  | rootRemoved t failure hp => exact .inr (.inl (hfinish (t := t) (by rw [hp]; rfl)))
  | exited failure => exact .inl (owes_postIfHeld (c := { c with watching := false }) ho)
  | tick p p' => exact .inl (hset p')
  | checkEnded p p' => exact .inl (hset p')
  | judged p p' report =>
    cases report with
    | none => exact .inl (hset p')
    | some m' => exact .inl (owes_postIfHeld (hset p'))
  | _ => grind [Owes, Phase.served?, Message.reply?]

theorem isOpen_move (h : Move s c a c' effects) (ho : c'.isOpen = true) : c.isOpen = true := by
  have hpost (c : Controller) (m : Message) : (c.postIfHeld s.held m).isOpen = c.isOpen := by
    unfold postIfHeld post?
    split
    · split <;> rfl
    · rfl
  cases h with
  | exited => rwa [hpost] at ho
  | tick => rwa [isOpen_setProbe] at ho
  | checkEnded => rwa [isOpen_setProbe] at ho
  | judged p p' report =>
    cases report with
    | none => rwa [Option.map_none, Option.getD_none, isOpen_setProbe] at ho
    | some m => rwa [Option.map_some, Option.getD_some, hpost, isOpen_setProbe] at ho
  | _ => first | exact ho | cases ho

def IsShut (c : Controller) : Prop := c.phase = .terminated → c.isOpen = false ∧ c.mailbox = []

theorem postIfHeld_of_closed {held : Bool} (ho : c.isOpen = false) : c.postIfHeld held m = c := by
  unfold postIfHeld post?
  split
  · simp [ho]
  · rfl

theorem isShut_move (h : Move s c a c' effects) (hs : c.IsShut) : c'.IsShut := by
  -- A probe goes on only before the end.
  have hset {p : Probe} (hq : c.probe? = some p) (p' : Probe) :
      (c.setProbe p').phase ≠ .terminated := by
    intro ht
    rw [probe?, phase_of_setProbe ht (by simp) (by simp)] at hq
    cases hq
  intro hp
  cases h with
  | giveUp | startFailed | released | rootRemoved => exact ⟨rfl, rfl⟩
  | exited failure =>
    rw [phase_postIfHeld] at hp
    have hclosed := hs hp
    rw [postIfHeld_of_closed (c := { c with watching := false }) hclosed.1]
    exact hclosed
  | tick p p' hq => exact absurd hp (hset hq p')
  | checkEnded p p' outcome hq => exact absurd hp (hset hq p')
  | judged p p' report hq =>
    refine absurd ?_ (hset hq p')
    cases report <;> simpa using hp
  | _ => simp_all

theorem fresh_move (h : Move s c a c' effects) (hf : c.Fresh r) :
    (c'.Fresh r ∧ effects = [.call .start]) ∨
    (∃ e, a = .driverStarted (.error e) ∧ effects = [.answer r (.failed e)] ∧
      c'.phase = .terminated) ∨
    ∃ machine, a = .driverStarted (.ok machine) ∧
      (s.awaits r = true ∧ effects = [.answer r (.started machine)] ∧ c'.Offers machine ∨
        s.awaits r = false ∧ effects = [.call .shutdown]) := by
  obtain ⟨ho, hw, hf⟩ := hf
  have hp : c.probe? = none := by
    unfold probe?
    rcases hf with ⟨hp, -⟩ | ⟨hp, -⟩ <;> simp [hp]
  cases h with
  | takeStart reply rest hq hm =>
    rcases hf with ⟨-, hf⟩ | ⟨hf, -⟩
    · cases hm.symm.trans hf
      exact .inl ⟨⟨ho, hw, .inr ⟨rfl, rfl⟩⟩, rfl⟩
    · cases hq.symm.trans hf
  | skip m rest hq hm hs =>
    rcases hf with ⟨-, hf⟩ | ⟨hf, -⟩
    · cases hm.symm.trans hf
      exact absurd rfl (hs r)
    · cases hq.symm.trans hf
  | giveUp hq hm =>
    rcases hf with ⟨-, hf⟩ | ⟨hf, -⟩
    · cases hm.symm.trans hf
    · cases hq.symm.trans hf
  | startFailed reply e hq =>
    rcases hf with ⟨hf, -⟩ | ⟨hf, hm⟩
    · cases hq.symm.trans hf
    · cases hq.symm.trans hf
      exact .inr (.inl ⟨e, rfl, by simp [terminate, hm], rfl⟩)
  -- The only two ways on from a started driver: the call takes the news, or nobody waits for it.
  | startTaken reply machine hq ha =>
    rcases hf with ⟨hf, -⟩ | ⟨hf, hm⟩
    · cases hq.symm.trans hf
    · cases hq.symm.trans hf
      exact .inr (.inr ⟨machine, rfl, .inl ⟨ha, rfl, fun _ => ⟨rfl, by simp [hm]⟩⟩⟩)
  | startUnwanted reply machine hq ha =>
    rcases hf with ⟨hf, -⟩ | ⟨hf, hm⟩
    · cases hq.symm.trans hf
    · cases hq.symm.trans hf
      exact .inr (.inr ⟨machine, rfl, .inr ⟨ha, rfl⟩⟩)
  | exited failure hw' => cases hw.symm.trans hw'
  | tick p p' hq => cases hp.symm.trans hq
  | checkEnded p p' outcome hq => cases hp.symm.trans hq
  | judged p p' report hq => cases hp.symm.trans hq
  | _ => grind

theorem offers_move {machine : Metadata} (h : Move s c a c' effects) (ho : c.Offers machine)
    (hh : s.held = true) : c'.Offers machine := by
  intro hopen
  obtain ⟨hp, hm⟩ := ho (isOpen_move h hopen)
  have hq : c.probe? = none := by
    unfold probe?
    rw [hp]
  have hhead (m : Message) (rest : List Message) (hc : c.mailbox = m :: rest) :
      ∃ failure, m = .runFinished failure := hm m (by simp [hc])
  cases h with
  | takeExit => cases hopen
  | exited failure =>
    refine ⟨by simpa using hp, fun m hmem => ?_⟩
    rcases mem_postIfHeld_mailbox hmem with hmem | rfl
    · exact hm m hmem
    · exact ⟨failure, rfl⟩
  | letGo run hp hm hl => cases hh.symm.trans hl
  | tick p p' ht => cases hq.symm.trans ht
  | checkEnded p p' outcome ht => cases hq.symm.trans ht
  | judged p p' report ht => cases hq.symm.trans ht
  | _ => grind

end Answers

end MachineFleet.Controller
