import MachineFleet.CommandLine

namespace MachineFleet.CommandLine

def Setting.word {α : Type} (s : Setting α) : String := "--" ++ s.name

def Setting.words {α : Type} (s : Setting α) (values : List String) : List String :=
  values.flatMap fun value => [s.word, value]

theorem splitValue_of_not_mem {cs : List Char} (h : '=' ∉ cs) : splitValue cs = (cs, none) := by
  induction cs with
  | nil => rfl
  | cons ch rest ih =>
    have hch : ch ≠ '=' := fun heq => h (by simp [heq])
    have hrest : '=' ∉ rest := fun hmem => h (by simp [hmem])
    simp [splitValue, ih hrest]

theorem Word.ofString_option {name : String} (hname : name ≠ "") (hplain : '=' ∉ name.toList) :
    Word.ofString ("--" ++ name) = .long name none := by
  have hchars : ("--" ++ name).toList = '-' :: '-' :: name.toList := by
    rw [String.toList_append]
    rfl
  have hne : name.toList ≠ [] := fun h => hname (String.toList_eq_nil_iff.1 h)
  rw [Word.ofString, hchars]
  simp [Word.ofChars, splitValue_of_not_mem hplain]

/-- The command knows the option, takes any word after it for its value, and does not mistake the
option for anything else. -/
structure Command.Gathers {α : Type} (c : Command α) (s : Setting α) : Prop where
  known : c.settings.find? (·.name == s.name) = some s
  anyWord : s.takesAnyWord = true
  named : s.name ≠ ""
  plain : '=' ∉ s.name.toList
  noCommand : s.word ∉ c.commands

namespace Command.Gathers

variable {α : Type} {c : Command α} {s : Setting α} {p : Progress α}

theorem read_value (h : c.Gathers s) (hp : p.waiting? = none) (value : String)
    (rest : List String) :
    c.read (s.word :: value :: rest) false p =
      (do c.read rest false { ← p.settle with last? := some (s, some value) }) := by
  have hword : Word.ofString s.word = .long s.name none := Word.ofString_option h.named h.plain
  have hoption : c.read (s.word :: value :: rest) false p =
      (do c.read (value :: rest) false { ← p.settle with last? := some (s, none) }) := by
    rw [Command.read, hp]
    simp only [Option.any_none, hword]
    simp [h.noCommand, Command.long, h.known]
  rw [hoption]
  cases p.settle with
  | error fault => rfl
  | ok q =>
    have htakes : ({ q with last? := some (s, none) } : Progress α).waiting? = some s := rfl
    simp only [bind, Except.bind]
    rw [Command.read, htakes]
    simp [h.anyWord, Progress.fill]

/-- An option that is given over and over sets one value after the other. -/
theorem read_words (h : c.Gathers s) (hrepeats : s.repeats = true) (hp : p.waiting? = none)
    (values : List String) :
    (do let (q, _) ← c.read (s.words values) false p; return (← q.settle).state) =
      (do values.foldlM (fun state value => s.set value state) (← p.settle).state) := by
  induction values generalizing p with
  | nil => rfl
  | cons value values ih =>
    have hwords : s.words (value :: values) = s.word :: value :: s.words values := rfl
    rw [hwords, h.read_value hp]
    cases p.settle with
    | error fault => rfl
    | ok q =>
      have hsettle : ({ q with last? := some (s, some value) } : Progress α).settle =
          (s.set value q.state).map fun state => ⟨state, s.name :: q.given, none⟩ := by
        simp [Progress.settle, Progress.look, hrepeats]
      calc
        _ = (do
            let r ← ({ q with last? := some (s, some value) } : Progress α).settle
            values.foldlM (fun state value => s.set value state) r.state) := ih rfl
        _ = (do
            let state ← s.set value q.state
            values.foldlM (fun state value => s.set value state) state) := by
          rw [hsettle]
          cases s.set value q.state <;> rfl
        _ = (value :: values).foldlM (fun state value => s.set value state) q.state := by
          rw [List.foldlM_cons]

end Command.Gathers

theorem gathers_argSetting : serverCommand.Gathers argSetting where
  known := rfl
  anyWord := rfl
  named := by decide
  plain := by decide
  noCommand := List.not_mem_nil

theorem foldlM_argSetting (values : List String) (w : With ServerOptions) :
    values.foldlM (fun state value => argSetting.set value state) w =
      .ok { w with own.overrides.args := w.own.overrides.args ++ values } := by
  induction values generalizing w with
  | nil =>
    rw [List.foldlM_nil, List.append_nil]
    rfl
  | cons value values ih =>
    rw [List.foldlM_cons]
    refine (ih _).trans ?_
    simp

theorem readService_arguments (values : List String) :
    readService "server" (argSetting.words values) = .ok (.none,
      .server (.v4 (.ofBytes 127 0 0 1)) 3456 none ⟨none, none, values⟩) := by
  have hread : readAll serverCommand .none (argSetting.words values) =
      .ok ⟨.none, ⟨⟨none, none⟩, none, ⟨none, none, values⟩⟩⟩ :=
    (gathers_argSetting.read_words rfl rfl values).trans (foldlM_argSetting values _)
  rw [readService, hread]
  rfl

/-- The arguments of machines are taken from the command line as they are, each one after its own
`--arg`: also those that are empty, that look like options or end them, or that name commands.
Nothing else is set by them. -/
theorem arguments_are_taken_as_given (name : String) (values : List String) :
    Invocation.ofWords (name :: "server" :: values.flatMap fun value => ["--arg", value]) =
      .ok {
        logLevel := "info"
        logFormat := .text
        service := some
          (.server (.v4 (.ofBytes 127 0 0 1)) 3456 none ⟨none, none, values⟩) } := by
  have hwords : (values.flatMap fun value => ["--arg", value]) = argSetting.words values := rfl
  -- The name of a command ends what is said to the program itself.
  have hprogram (rest : List String) :
      program.read ("server" :: rest) false (.start ⟨.none, ()⟩) =
        .ok (.start ⟨.none, ()⟩, some ("server", rest)) := rfl
  rw [hwords, Invocation.ofWords, List.drop_one, List.tail_cons, hprogram]
  simp only [bind, Except.bind, readService_arguments]
  rfl

end MachineFleet.CommandLine
