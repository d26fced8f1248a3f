import MachineFleet.Proofs.Fleet.Step
import MachineFleet.Proofs.Lifecycle.Answers

/-!
Which call has made which controller, and which request a number stands for. A call makes one
controller at most, and keeps to it; a number is used once.
-/
namespace MachineFleet.Fleet

abbrev Episode := Happening Fleet Action Effect

structure Making where
  call : Nat
  reply : ReplyId
  deadline : Instant

def making? (f : Fleet) : Action → Option Making
  | .create k (.ok ()) => some ⟨k, f.nextReply, f.now + f.config.startTimeout⟩
  | _ => none

def makings (history : List Episode) : List Making :=
  history.filterMap fun x => making? x.before x.input

def Call.own? : Call → Option Nat
  | awaiting c .. => some c
  | expiring c _ => some c
  | registering c _ => some c
  | announcing c _ => some c
  | retiring c _ => some c
  | leaving c _ => some c
  | _ => none

@[simp] theorem Call.own?_deliverAll (effects : List Controller.Effect) (call : Call) :
    (call.deliverAll effects).own? = call.own? := by
  refine deliverAll_congr own? (fun call r answer => ?_) call
  unfold deliver
  split <;> rfl

def Call.isCreating : Call → Bool
  | creating => true
  | _ => false

@[simp] theorem Call.isCreating_deliverAll (effects : List Controller.Effect) (call : Call) :
    (call.deliverAll effects).isCreating = call.isCreating := by
  refine deliverAll_congr isCreating (fun call r answer => ?_) call
  unfold deliver
  split <;> rfl

/-- How calls and the controllers that they have made go together. -/
structure Makers (made : List Making) (f : Fleet) : Prop where
  length : made.length = f.controllers.length
  past : ∀ mk ∈ made, ∃ call : Call, f.calls[mk.call]? = some call ∧ call.isCreating = false
  apart : (made.map Making.call).Nodup
  own : ∀ (k : Nat) (call : Call) (c : Nat), f.calls[k]? = some call → call.own? = some c →
    ∃ mk, made[c]? = some mk ∧ mk.call = k

section Makers

variable {f f' f₁ : Fleet} {a : Action} {effects : List Effect} {made : List Making} {k : Nat}
  {old new : Call}

theorem making?_turn (h : Turn f k a old new f₁ effects) : making? f a = none := by
  cases h <;> rfl

theorem own?_turn {c : Nat} (h : Turn f k a old new f₁ effects) (hc : new.own? = some c) :
    old.own? = some c := by
  cases h <;> simp_all [Call.own?]

theorem isCreating_turn (h : Turn f k a old new f₁ effects) : new.isCreating = false := by
  cases h <;> rfl

theorem Makers.move (h : Makers made f) (hm : Move f a f' effects) :
    Makers (made ++ (making? f a).toList) f' := by
  have hsame {g : Fleet} (hl : g.controllers.length = f.controllers.length)
      (hc : g.calls = f.calls) : Makers (made ++ (none : Option Making).toList) g := by
    rw [Option.toList_none, List.append_nil]
    exact ⟨h.length.trans hl.symm, hc ▸ h.past, h.apart, hc ▸ h.own⟩
  cases hm with
  | request r he =>
    refine ⟨by simpa [making?] using h.length, ?_, by simpa [making?] using h.apart, ?_⟩
    · intro mk hm
      obtain ⟨call, hk, hc⟩ := h.past mk (by simpa [making?] using hm)
      exact ⟨call, by rw [List.getElem?_append_left (by grind), hk], hc⟩
    · intro k call c hk hc
      rw [List.getElem?_append] at hk
      split at hk
      · simpa [making?] using h.own k call c hk hc
      · cases r <;> grind [Request.begin, Call.own?]
  | created k hk =>
    have hlt : k < f.calls.length := (List.getElem?_eq_some_iff.1 hk).1
    -- A call that is still about to make a controller has not made one before.
    have hnew : k ∉ made.map Making.call := by
      intro hmem
      obtain ⟨mk, hm, rfl⟩ := List.mem_map.1 hmem
      obtain ⟨call, hk', hc⟩ := h.past mk hm
      rw [hk] at hk'
      cases hk'
      cases hc
    have hl := h.length
    show Makers (made ++ [⟨k, f.nextReply, f.now + f.config.startTimeout⟩]) _
    -- The new controller comes last, and so does the way it was made.
    refine ⟨by simp [hl], ?_, ?_, ?_⟩
    · intro mk hm
      have hp := h.past mk
      grind [Call.isCreating]
    · simpa [List.nodup_append] using ⟨h.apart, by simpa using hnew⟩
    · intro k' call c hk' hc
      rw [List.getElem?_set] at hk'
      split at hk'
      · rename_i he
        obtain rfl : f.controllers.length = c := by grind [Call.own?]
        exact ⟨_, by rw [← hl, List.getElem?_concat_length], he⟩
      · obtain ⟨mk, hm, rfl⟩ := h.own k' call c hk' hc
        exact ⟨mk, by rw [List.getElem?_append_left (by grind), hm], rfl⟩
  | turned k a old new f₁ effects hk ht =>
    have hk₁ : f₁.calls[k]? = some old := by rw [calls_turn ht, hk]
    simp only [making?_turn ht, Option.toList_none, List.append_nil]
    refine ⟨h.length.trans (length_controllers_turn ht).symm, ?_, h.apart, ?_⟩
    · intro mk hm
      rw [getElem?_setCall hk₁, calls_turn ht]
      split
      · exact ⟨new, rfl, isCreating_turn ht⟩
      · exact h.past mk hm
    · intro k' call c hk' hc
      rw [getElem?_setCall hk₁, calls_turn ht] at hk'
      split at hk'
      · rename_i he
        cases hk'
        exact he ▸ h.own k old c hk (own?_turn ht hc)
      · exact h.own k' call c hk' hc
  | worked c a old new effects hc hm =>
    refine ⟨by simp [making?, worked, h.length], ?_, by simpa [making?] using h.apart, ?_⟩
    · intro mk hm
      obtain ⟨call, hk, hn⟩ := h.past mk (by simpa [making?] using hm)
      exact ⟨call.deliverAll effects, by simp [worked, hk], by simpa using hn⟩
    · intro k call c hk ho
      simp only [worked, List.getElem?_map, Option.map_eq_some_iff] at hk
      obtain ⟨call, hk, rfl⟩ := hk
      simpa [making?] using h.own k call c hk (by simpa using ho)
  | handled event rest hl he => exact hsame rfl rfl
  | removed id => exact hsame rfl rfl
  | readied id ready => exact hsame rfl rfl
  | dropped => exact hsame rfl rfl
  | vanished => exact hsame rfl rfl
  | elapsed d => exact hsame rfl rfl

end Makers

def Call.stopReply? : Call → Option ReplyId
  | stopping _ reply _ _ _ => some reply
  | _ => none

@[simp] theorem Call.stopReply?_deliverAll (effects : List Controller.Effect) (call : Call) :
    (call.deliverAll effects).stopReply? = call.stopReply? := by
  refine deliverAll_congr stopReply? (fun call r answer => ?_) call
  unfold deliver
  split <;> rfl

/-- What the number of a request in the mailbox of a controller has to stand for: a request to
start is the one that the controller was made with, a request to stop is no such one. -/
def Stands (made : List Making) (next : ReplyId) (c : Nat) : Message → Prop
  | .start reply => ∃ mk, made[c]? = some mk ∧ mk.reply = reply
  | .stop reply => reply < next ∧ ∀ mk ∈ made, mk.reply ≠ reply
  | _ => True

/-- Every number stands for one request. -/
structure Numbers (made : List Making) (f : Fleet) : Prop where
  fresh : ∀ mk ∈ made, mk.reply < f.nextReply
  distinct : (made.map Making.reply).Nodup
  asked : ∀ (c : Nat) (controller : Controller) (m : Message),
    f.controllers[c]? = some controller → controller.Owes m → Stands made f.nextReply c m
  waits : ∀ call ∈ f.calls, ∀ reply, Call.stopReply? call = some reply →
    Stands made f.nextReply 0 (.stop reply)

section Numbers

variable {f f' f₁ : Fleet} {a : Action} {effects : List Effect} {made : List Making} {k c : Nat}
  {old new : Call} {m : Message} {next : ReplyId}

theorem Stands.created {k : Nat} {deadline : Instant} (h : Stands made next c m) :
    Stands (made ++ [⟨k, next, deadline⟩]) (next + 1) c m := by
  cases m with
  | start reply =>
    obtain ⟨mk, hm, hr⟩ := h
    exact ⟨mk, by rw [List.getElem?_append_left (by grind), hm], hr⟩
  | stop reply => exact ⟨by grind [Stands], by grind [Stands]⟩
  | _ => trivial

theorem Stands.stopSent (h : Stands made next c m) : Stands made (next + 1) c m := by
  cases m with
  | stop reply => exact ⟨Nat.lt_succ_of_lt h.1, h.2⟩
  | _ => exact h

theorem owes_posted {controller : Controller} {m' : Message} (h : (posted controller m').Owes m) :
    controller.Owes m ∨ m = m' := by
  rcases h with h | h
  · exact (mem_posted_mailbox h).imp .inl id
  · exact .inl (.inr (by simpa using h))

theorem Numbers.congr {g : Fleet} (h : Numbers made f) (hn : g.nextReply = f.nextReply)
    (hc : g.controllers = f.controllers) (hk : g.calls = f.calls) : Numbers made g :=
  ⟨hn ▸ h.fresh, h.distinct, hn ▸ hc ▸ h.asked, hn ▸ hk ▸ h.waits⟩

theorem Numbers.setCall (h : Numbers made f)
    (hs : ∀ reply, new.stopReply? = some reply → Stands made f.nextReply 0 (.stop reply)) :
    Numbers made (f.setCall k new) := by
  refine ⟨h.fresh, h.distinct, h.asked, ?_⟩
  intro call hc reply hr
  rcases List.mem_or_eq_of_mem_set hc with hc | rfl
  · exact h.waits call hc reply hr
  · exact hs reply hr

theorem Numbers.post (h : Numbers made f) (hm : Stands made f.nextReply c m) :
    Numbers made (f.post c m) := by
  refine ⟨h.fresh, h.distinct, ?_, h.waits⟩
  intro i controller m' hi ho
  rw [getElem?_post] at hi
  obtain ⟨before, hb, rfl⟩ := Option.map_eq_some_iff.1 hi
  split at ho
  · rename_i hci
    subst hci
    rcases owes_posted ho with ho | rfl
    · exact h.asked c before m' hb ho
    · exact hm
  · exact h.asked i before m' hb ho

theorem Numbers.turn (h : Numbers made f) (ht : Turn f k a old new f₁ effects)
    (hk : f.calls[k]? = some old) : Numbers made (f₁.setCall k new) := by
  have hset (hg : Numbers made f₁) (hs : new.stopReply? = none) : Numbers made (f₁.setCall k new) :=
    hg.setCall (by simp [hs])
  cases ht with
  | announced c machine => exact hset (h.post (m := .registered) trivial) rfl
  | retired c e => exact hset (h.post (m := .retire) trivial) rfl
  | stopSent id all entry he ho =>
    have hn : Numbers made { f with nextReply := f.nextReply + 1 } := by
      refine ⟨fun mk hm => Nat.lt_succ_of_lt (h.fresh mk hm), h.distinct, ?_, ?_⟩
      · exact fun c controller m hc ho => (h.asked c controller m hc ho).stopSent
      · exact fun call hc reply hr => (h.waits call hc reply hr).stopSent
    -- The number of the request to stop is a new one, so no start was made with it.
    have hs : ∀ c, Stands made (f.nextReply + 1) c (.stop f.nextReply) :=
      fun c => ⟨Nat.lt_succ_self _, fun mk hm => Nat.ne_of_lt (h.fresh mk hm)⟩
    refine (hn.post (hs _)).setCall fun reply hr => ?_
    cases hr
    exact hs 0
  | registered => exact hset (h.congr rfl rfl rfl) rfl
  | closing => exact hset (h.congr rfl rfl rfl) rfl
  | skipped => exact hset (h.congr rfl rfl rfl) rfl
  | stopped => exact hset (h.congr rfl rfl rfl) rfl
  | overdue => exact hset (h.congr rfl rfl rfl) rfl
  | closed => exact hset (h.congr rfl rfl rfl) rfl
  | _ => exact hset h rfl

theorem Numbers.move (h : Numbers made f) (hl : made.length = f.controllers.length)
    (hm : Move f a f' effects) : Numbers (made ++ (making? f a).toList) f' := by
  have hsame {g : Fleet} (hg : Numbers made g) :
      Numbers (made ++ (none : Option Making).toList) g := by
    rwa [Option.toList_none, List.append_nil]
  cases hm with
  | request r he =>
    refine hsame ⟨h.fresh, h.distinct, h.asked, ?_⟩
    intro call hc reply hr
    rcases List.mem_append.1 hc with hc | hc
    · exact h.waits call hc reply hr
    · obtain rfl := List.mem_singleton.1 hc
      cases r <;> cases hr
  | created k hk =>
    show Numbers (made ++ [⟨k, f.nextReply, f.now + f.config.startTimeout⟩]) _
    refine ⟨?_, ?_, ?_, ?_⟩
    · intro mk hm
      have hf := h.fresh mk
      grind
    · have hf : ∀ mk ∈ made, mk.reply ≠ f.nextReply := fun mk hm => Nat.ne_of_lt (h.fresh mk hm)
      simpa [List.nodup_append] using ⟨h.distinct, hf⟩
    · intro c controller m hc ho
      rcases getElem?_concat_eq_some.1 hc with hc | ⟨rfl, rfl⟩
      · exact (h.asked c controller m hc ho).created
      · obtain rfl : m = .start f.nextReply := by
          simpa [Controller.Owes, Controller.new, Controller.Phase.served?] using ho
        exact ⟨_, getElem?_concat_eq_some.2 (.inr ⟨hl.symm, rfl⟩), rfl⟩
    · intro call hc reply hr
      rcases List.mem_or_eq_of_mem_set hc with hc | rfl
      · exact (h.waits call hc reply hr).created
      · cases hr
  | turned k a old new f₁ effects hk ht =>
    rw [making?_turn ht]
    exact hsame (h.turn ht hk)
  | worked c a old new effects hc hm =>
    refine hsame ⟨h.fresh, h.distinct, ?_, ?_⟩
    · intro i controller m hi ho
      rw [controllers_worked hc] at hi
      split at hi
      · rename_i hci
        cases hi
        subst hci
        cases hr : m.reply? with
        | none => cases m <;> trivial
        | some reply => exact h.asked c old m hc (Controller.owes_move hm hr ho)
      · exact h.asked i controller m hi ho
    · intro call hk reply hr
      obtain ⟨before, hb, rfl⟩ := List.mem_map.1 hk
      exact h.waits before hb reply (by simpa using hr)
  | handled event rest hl he => exact hsame (h.congr rfl rfl rfl)
  | removed id => exact hsame (h.congr rfl rfl rfl)
  | readied id ready => exact hsame (h.congr rfl rfl rfl)
  | dropped => exact hsame (h.congr rfl rfl rfl)
  | vanished => exact hsame (h.congr rfl rfl rfl)
  | elapsed d => exact hsame (h.congr rfl rfl rfl)

end Numbers

end MachineFleet.Fleet
